import NetProtocols.Kcp.Outgoing

/-!
# NetProtocols.Kcp.Trace — a flush, segment by segment

What a flush encodes and what it does to `snd_buf`, for any build in which it does not stop.

* `Kcb.sends`, `Kcb.restamp`: which segments of `snd_buf` the data loop sends, and what it makes of each.
* `Kcb.entered`: the segments that move from `snd_queue`, as they enter `snd_buf`.
* `Trace`: the changes, the encodings and the writes of a flush in the order in which they happen; `flush_trace`.
* `Trace.packed`: every write is a concatenation of whole segments; `Trace.invariant`: what the changes preserve holds
  at every write.
* `Traced`: what the trace leads to, field by field; `flush_outgoing`: the segments are those of `Kcb.outgoing`.
* `stopAt_sndBuf`: `snd_buf` after a flush, complete or abandoned.
-/

namespace NetProtocols.Kcp

open Kcb Flushing

namespace Kcb

/-! ### One segment of `snd_buf` -/

/-- `timediff(current, resendts)`: how late the segment is. -/
def lateness (k : Kcb) (seg : Segment) : Int32 := k.current.toInt32 - seg.resendts.toInt32

/-- The data loop sends the segment: it is new, its time has come, or enough later ones were acknowledged. -/
def sends (k : Kcb) (seg : Segment) : Bool := seg.xmit = 0 ∨ 0 ≤ k.lateness seg ∨ k.resent ≤ seg.fastack

/-- What the data loop makes of the segment. -/
def restamp (k : Kcb) (seg : Segment) : Segment :=
  if seg.xmit = 0 then
    refresh k k.wndUnused
      { seg with xmit := seg.xmit + 1, rto := k.rxRto, resendts := k.current + k.rxRto + k.rtomin }
  else if 0 ≤ k.lateness seg then
    let rto := seg.rto + if k.nodelay = 0 then k.rxRto else k.rxRto / 2
    refresh k k.wndUnused { seg with xmit := seg.xmit + 1, rto := rto, resendts := k.current + rto }
  else if k.resent ≤ seg.fastack then
    refresh k k.wndUnused { seg with xmit := seg.xmit + 1, fastack := 0, resendts := k.current + seg.rto }
  else seg

/-- The four ways through the data loop. -/
inductive Restamped (k : Kcb) (seg : Segment) : Segment → Prop
  | first (hx : seg.xmit = 0) : Restamped k seg (refresh k k.wndUnused
      { seg with xmit := seg.xmit + 1, rto := k.rxRto, resendts := k.current + k.rxRto + k.rtomin })
  | timeout (hx : seg.xmit ≠ 0) (hl : 0 ≤ k.lateness seg) (rto : UInt32)
      (hrto : rto = seg.rto + if k.nodelay = 0 then k.rxRto else k.rxRto / 2) : Restamped k seg (refresh k k.wndUnused
      { seg with xmit := seg.xmit + 1, rto := rto, resendts := k.current + rto })
  | fast (hx : seg.xmit ≠ 0) (hl : ¬ 0 ≤ k.lateness seg) (hf : k.resent ≤ seg.fastack) :
      Restamped k seg (refresh k k.wndUnused
        { seg with xmit := seg.xmit + 1, fastack := 0, resendts := k.current + seg.rto })
  | idle (hx : seg.xmit ≠ 0) (hl : ¬ 0 ≤ k.lateness seg) (hf : ¬ k.resent ≤ seg.fastack) : Restamped k seg seg

theorem restamped (k : Kcb) (seg : Segment) : Restamped k seg (k.restamp seg) := by
  unfold restamp
  by_cases hx : seg.xmit = 0
  · rw [if_pos hx]
    exact .first hx
  rw [if_neg hx]
  by_cases hl : 0 ≤ k.lateness seg
  · rw [if_pos hl]
    exact .timeout hx hl _ rfl
  rw [if_neg hl]
  by_cases hf : k.resent ≤ seg.fastack
  · rw [if_pos hf]
    exact .fast hx hl hf
  · rw [if_neg hf]
    exact .idle hx hl hf

/-- Segments of `snd_queue` as they enter `snd_buf`, numbered from `nxt`. -/
def entered (k : Kcb) : UInt32 → List Segment → List Segment
  | _, [] => []
  | nxt, seg :: rest => { assign k k.wndUnused seg with sn := nxt } :: entered k (nxt + 1) rest

/-- `snd_buf` in a flush that moves `moved` from `snd_queue`, before the data loop. -/
def window (k : Kcb) (moved : List Segment) : List Segment := k.sndBuf ++ k.entered k.sndNxt moved

/-- The fields that the data loop reads are those of `k`. -/
structure Reads (k k₁ : Kcb) : Prop where
  current : k₁.current = k.current
  rxRto : k₁.rxRto = k.rxRto
  nodelay : k₁.nodelay = k.nodelay
  rcvNxt : k₁.rcvNxt = k.rcvNxt

theorem Reads.written {k k₁ : Kcb} (h : Reads k k₁) (l : List Segment) (xmit : UInt32) (buf : List UInt8) :
    Reads k ((k₁.setSndBuf l xmit).setBuffer buf) := ⟨h.current, h.rxRto, h.nodelay, h.rcvNxt⟩

theorem Reads.refresh {k k₁ : Kcb} (h : Reads k k₁) (wnd : UInt32) (seg : Segment) :
    Flushing.refresh k₁ wnd seg = Flushing.refresh k wnd seg := refresh_congr h.current h.rcvNxt

variable {p : Profile} {k k₁ k₂ : Kcb} {seg seg' : Segment} {d : Due}

/-- **One turn of the data loop**: a segment that is not sent stays as it is, and one that is sent is restamped. -/
theorem stamp_restamp (hr : Reads k k₁) (hd : due p k₁.current k.resent seg = some d)
    (hs : stamp p k₁ k.rtomin seg d = some (seg', k₂)) :
    (d = .no → k.sends seg = false ∧ k.restamp seg = seg' ∧ seg' = seg) ∧
      (d ≠ .no → k.sends seg = true ∧ k.restamp seg = refresh k₂ k.wndUnused seg') := by
  unfold due at hd
  unfold sends restamp
  by_cases hx : seg.xmit = 0
  · rw [if_pos hx] at hd
    obtain rfl := Option.some.inj hd
    simp only [stamp, Option.bind_eq_bind, Option.bind_eq_some_iff, Option.some.injEq, Prod.mk.injEq] at hs
    obtain ⟨x, h1, t, h2, t', h3, rfl, rfl⟩ := hs
    obtain rfl := Profile.add_eq_some h1
    obtain rfl := Profile.add_eq_some h2
    obtain rfl := Profile.add_eq_some h3
    -- never sent
    refine ⟨fun h => absurd h (by decide), fun _ => ⟨by simp [hx], ?_⟩⟩
    rw [if_pos hx, hr.refresh, hr.current, hr.rxRto]
  rw [if_neg hx] at hd ⊢
  obtain ⟨late, hl, hd⟩ := Option.bind_eq_some_iff.mp hd
  have hlate : late = k.lateness seg := by
    rw [lateness, ← hr.current]
    exact Profile.subI32_eq_some hl
  rw [hlate] at hd
  by_cases ht : 0 ≤ k.lateness seg
  · rw [if_pos ht] at hd
    obtain rfl := Option.some.inj hd
    simp only [stamp, Option.bind_eq_bind, Option.bind_eq_some_iff, Option.some.injEq, Prod.mk.injEq] at hs
    obtain ⟨x, h1, n, h2, r, h3, t, h4, rfl, rfl⟩ := hs
    obtain rfl := Profile.add_eq_some h1
    obtain rfl := Profile.add_eq_some h3
    obtain rfl := Profile.add_eq_some h4
    refine ⟨fun h => absurd h (by decide), fun _ => ⟨by simp [ht], ?_⟩⟩
    -- its deadline has come: `xmit` of the control block is counted up before `rto` is read
    have hset : Reads k (k₁.setSndBuf k₁.sndBuf n) := ⟨hr.current, hr.rxRto, hr.nodelay, hr.rcvNxt⟩
    rw [if_pos ht, hset.refresh, hr.current, hr.rxRto, hr.nodelay]
  rw [if_neg ht] at hd ⊢
  by_cases hf : k.resent ≤ seg.fastack
  · rw [if_pos hf] at hd
    obtain rfl := Option.some.inj hd
    simp only [stamp, Option.bind_eq_bind, Option.bind_eq_some_iff, Option.some.injEq, Prod.mk.injEq] at hs
    obtain ⟨x, h1, t, h2, rfl, rfl⟩ := hs
    obtain rfl := Profile.add_eq_some h1
    obtain rfl := Profile.add_eq_some h2
    -- passed over often enough
    refine ⟨fun h => absurd h (by decide), fun _ => ⟨by simp [hf], ?_⟩⟩
    rw [if_pos hf, hr.refresh, hr.current]
  · rw [if_neg hf] at hd
    obtain rfl := Option.some.inj hd
    obtain ⟨rfl, rfl⟩ := stamp_no hs
    refine ⟨fun _ => ⟨by simp [hx, ht, hf], if_neg hf, rfl⟩, fun h => absurd rfl h⟩

/-- Filling the window takes segments off the queue and enters them, numbered from `snd_nxt` on. -/
theorem fillWindow_entered {edge : UInt32} {queue : List Segment} (hr : Reads k k₁) (hc : k₁.conv = k.conv)
    (h : fillWindow p edge k.wndUnused queue k₁ = some k₂) :
    ∃ moved rest, queue = moved ++ rest ∧
      k₂ = setSend k₁ (k₁.sndNxt + UInt32.ofNat moved.length) (k₁.sndBuf ++ k.entered k₁.sndNxt moved) rest := by
  induction queue generalizing k₁ with
  | nil =>
    obtain rfl := Option.some.inj h
    exact ⟨[], [], rfl, by simp [setSend, entered]⟩
  | cons seg rest ih =>
    unfold fillWindow at h
    split_ifs at h
    · obtain ⟨n, hn, h⟩ := Option.bind_eq_some_iff.mp h
      obtain rfl := Profile.add_eq_some hn
      have hr' : Reads k (moveSegment k₁ k.wndUnused (k₁.sndNxt + 1) seg rest) :=
        ⟨hr.current, hr.rxRto, hr.nodelay, hr.rcvNxt⟩
      obtain ⟨moved, rest', rfl, rfl⟩ := ih hr' hc h
      refine ⟨seg :: moved, rest', rfl, ?_⟩
      have hentry : assign k₁ k.wndUnused seg = { assign k k.wndUnused seg with sn := k₁.sndNxt } := by
        simp only [assign, hc, hr.current, hr.rcvNxt, hr.rxRto]
      have hnxt : k₁.sndNxt + 1 + UInt32.ofNat moved.length = k₁.sndNxt + UInt32.ofNat (moved.length + 1) := by
        rw [UInt32.ofNat_add, UInt32.add_comm (UInt32.ofNat moved.length), UInt32.add_assoc]
        rfl
      simp [moveSegment, setSend, entered, hentry, hnxt]
    · obtain rfl := Option.some.inj h
      exact ⟨[], seg :: rest, rfl, by simp [setSend, entered]⟩

end Kcb

/-! ### The trace of a flush -/

/-- A change that a flush of `k₀` makes to the control block; the buffer is left alone.  The data loop has passed the
segments `done` of the window. -/
inductive Change (k₀ : Kcb) : Kcb → Kcb → Prop
  | acked {k : Kcb} : Change k₀ k (k.setAcklist [])
  | probes {k : Kcb} (tsProbe probeWait probe : UInt32) : Change k₀ k (k.setProbes tsProbe probeWait probe)
  | enter {k : Kcb} (moved queue : List Segment) :
      Change k₀ k (setSend k (k₀.sndNxt + UInt32.ofNat moved.length) (k₀.window moved) queue)
  | restamp {k : Kcb} {moved done rest : List Segment} {seg : Segment} (xmit : UInt32)
      (hw : k₀.window moved = done ++ seg :: rest) (hb : k.sndBuf = done.map k₀.restamp ++ seg :: rest) :
      Change k₀ k (k.setSndBuf ((done ++ [seg]).map k₀.restamp ++ rest) xmit)
  | settle {k : Kcb} (ssthresh cwnd incr : UInt32) : Change k₀ k (k.setCwnd ssthresh cwnd incr)

theorem Change.buffer {k₀ k k' : Kcb} (h : Change k₀ k k') : k'.buffer = k.buffer := by
  cases h <;> rfl

/-- From `k₁` on the segments `segs` were encoded and the buffers of `writes` written, and the control block is `k`
now. -/
inductive Trace (k₀ k₁ : Kcb) : List Segment → Kcb → List Kcb → Prop
  | start : Trace k₀ k₁ [] k₁ []
  | write {segs : List Segment} {k : Kcb} {writes : List Kcb} (h : Trace k₀ k₁ segs k writes) :
      Trace k₀ k₁ segs (k.setBuffer []) (writes ++ [k])
  | put {segs : List Segment} {k : Kcb} {writes : List Kcb} (h : Trace k₀ k₁ segs k writes) (seg : Segment) :
      Trace k₀ k₁ (segs ++ [seg]) (k.setBuffer (k.buffer ++ seg.encode)) writes
  | change {segs : List Segment} {k k' : Kcb} {writes : List Kcb} (h : Trace k₀ k₁ segs k writes)
      (hk : Change k₀ k k') : Trace k₀ k₁ segs k' writes

namespace Trace

variable {b : Build} {k₀ k₁ k : Kcb} {segs : List Segment} {writes : List Kcb} {f f' : Flushing}

theorem sizeTest {need : ℕ} (ht : Trace k₀ k₁ segs f.kcb f.writes) (h : f.sizeTest b need = some f') :
    Trace k₀ k₁ segs f'.kcb f'.writes := by
  simp only [Flushing.sizeTest, Option.bind_eq_bind, Option.bind_eq_some_iff] at h
  obtain ⟨t, -, h⟩ := h
  split_ifs at h
  · obtain rfl := Option.some.inj h
    exact ht.write
  · obtain rfl := Option.some.inj h
    exact ht

theorem writeRest (ht : Trace k₀ k₁ segs f.kcb f.writes) :
    Trace k₀ k₁ segs (f.writeRest b).kcb (f.writeRest b).writes := by
  unfold Flushing.writeRest
  split_ifs
  · exact ht.write
  · exact ht

theorem flushAcks {acks : List (UInt32 × UInt32)} {seg seg' : Segment} (ht : Trace k₀ k₁ segs f.kcb f.writes)
    (h : Flushing.flushAcks b acks seg f = some (seg', f')) :
    Trace k₀ k₁ (segs ++ acks.map (ackSegment seg)) f'.kcb f'.writes := by
  induction acks generalizing seg f segs with
  | nil =>
    simp only [Flushing.flushAcks, Option.some.injEq, Prod.mk.injEq] at h
    obtain ⟨rfl, rfl⟩ := h
    rwa [List.map_nil, List.append_nil]
  | cons a acks ih =>
    simp only [Flushing.flushAcks, Option.bind_eq_bind, Option.bind_eq_some_iff] at h
    obtain ⟨f1, h1, h⟩ := h
    have hrest := ih ((ht.sizeTest h1).put (ackSegment seg a)) h
    rwa [List.append_assoc, List.singleton_append] at hrest

theorem flushProbe {ask : UInt32} {cmd : UInt8} {seg seg' : Segment} (ht : Trace k₀ k₁ segs f.kcb f.writes)
    (h : Flushing.flushProbe b ask cmd seg f = some (seg', f')) :
    Trace k₀ k₁ (segs ++ probeSegment ask cmd f.kcb.probe seg) f'.kcb f'.writes := by
  unfold Flushing.flushProbe at h
  unfold probeSegment
  split_ifs at h ⊢
  · simp only [Option.bind_eq_bind, Option.bind_eq_some_iff, Option.some.injEq, Prod.mk.injEq] at h
    obtain ⟨f1, h1, rfl, rfl⟩ := h
    exact (ht.sizeTest h1).put _
  · simp only [Option.some.injEq, Prod.mk.injEq] at h
    obtain ⟨rfl, rfl⟩ := h
    rwa [List.append_nil]

theorem flushControl (k₀ : Kcb) (h : Kcb.flushControl b k = some f) :
    ∃ t w pr buf, probeWindow b.profile (k.setAcklist []) = some ((k.setAcklist []).setProbes t w pr) ∧
      f.kcb = ((k.setAcklist []).setProbes t w 0).setBuffer buf ∧
      Trace k₀ k (k.acklist.map (ackSegment k.scratch) ++
        probeSegment kcpAskSend kcpCmdWask pr (k.acklist.foldl ackSegment k.scratch) ++
        probeSegment kcpAskTell kcpCmdWins pr (k.acklist.foldl ackSegment k.scratch)) f.kcb f.writes := by
  obtain ⟨t, w, pr, buf, buf', f₁, s₃, f₃, s₄, f₄, h₁, hf₁, hk₁, h₃, h₄, hf₄, rfl⟩ := flushControl_phases h
  obtain ⟨hs₃, buf₃, hf₃⟩ := flushProbe_eq h₃
  refine ⟨t, w, pr, buf', hk₁, congrArg (Kcb.setProbes · t w 0) hf₄, ?_⟩
  have ht₁ : Trace k₀ k (k.acklist.map (ackSegment k.scratch)) f₁.kcb f₁.writes := by
    have ht₀ : Trace k₀ k [] k [] := .start
    simpa using ht₀.flushAcks (f := { kcb := k }) h₁
  have ht₂ : Trace k₀ k (k.acklist.map (ackSegment k.scratch)) (((k.setAcklist []).setProbes t w pr).setBuffer buf)
      f₁.writes := by
    have hacked : (f₁.kcb.setAcklist []).setProbes t w pr = ((k.setAcklist []).setProbes t w pr).setBuffer buf := by
      rw [hf₁]
      rfl
    exact hacked ▸ (ht₁.change .acked).change (.probes t w pr)
  have hseg : probeSegment kcpAskTell kcpCmdWins f₃.kcb.probe s₃ =
      probeSegment kcpAskTell kcpCmdWins pr (k.acklist.foldl ackSegment k.scratch) := by
    unfold probeSegment
    rw [hs₃, hf₃]
    rfl
  have ht₄ := (Trace.flushProbe (f := { f₁ with kcb := _ }) ht₂ h₃).flushProbe h₄
  rw [hseg] at ht₄
  exact ht₄.change (.probes _ _ _)

/-- The data loop restamps the segments of `snd_buf`, and encodes those that it sends, which are those of
`transmitted`. -/
theorem flushData {moved done rest : List Segment} (hr : Reads k₀ f.kcb) (hk : SameClock f.kcb k)
    (hw : k₀.window moved = done ++ rest) (hb : f.kcb.sndBuf = done.map k₀.restamp ++ rest)
    (ht : Trace k₀ k₁ segs f.kcb f.writes)
    (h : Flushing.flushData b k₀.resent k₀.rtomin k₀.wndUnused (done.map k₀.restamp) rest f = some f') :
    Trace k₀ k₁ (segs ++ (rest.filter k₀.sends).map k₀.restamp) f'.kcb f'.writes ∧
      f'.kcb.sndBuf = (k₀.window moved).map k₀.restamp ∧
      transmitted b.profile k₀.resent k₀.rtomin k₀.wndUnused k rest = some ((rest.filter k₀.sends).map k₀.restamp) := by
  -- induction on the segments still to be passed; `done` have been restamped
  induction rest generalizing done segs f k with
  | nil =>
    obtain rfl := Option.some.inj h
    simp only [List.append_nil] at hw hb
    rw [hw, hb]
    exact ⟨by simpa using ht, rfl, rfl⟩
  | cons seg rest ih =>
    simp only [Flushing.flushData, Option.bind_eq_bind, Option.bind_eq_some_iff] at h
    obtain ⟨d, hd, ⟨seg', k'⟩, hs, h⟩ := h
    obtain ⟨hno, hyes⟩ := stamp_restamp hr hd hs
    obtain ⟨k₂, hs₂, hx⟩ := stamp_congr hk.current hk.rxRto hk.nodelay hk.xmit hs
    obtain ⟨-, xmit, rfl⟩ := stamp_eq hs
    obtain ⟨-, xmit₂, rfl⟩ := stamp_eq hs₂
    obtain rfl : xmit₂ = xmit := hx
    simp only [transmitted, hk.current, hd, hs₂, Option.bind_eq_bind, Option.bind_some]
    have hw' : k₀.window moved = (done ++ [seg]) ++ rest := by rw [hw, List.append_assoc, List.singleton_append]
    have hdone : (done ++ [seg]).map k₀.restamp = done.map k₀.restamp ++ [k₀.restamp seg] := by
      rw [List.map_append, List.map_singleton]
    dsimp only at h
    by_cases hd' : d = .no
    · rw [if_pos hd'] at h
      obtain ⟨hsend, hstamp, rfl⟩ := hno hd'
      subst hd'
      have hstay : k₀.restamp seg' = seg' := hstamp
      -- nothing is due: neither the segment nor `xmit` of the control block changes
      have hsame : f.kcb.setSndBuf f.kcb.sndBuf xmit₂ = f.kcb := (stamp_no hs).2
      rw [hsame] at h
      have hk' : SameClock f.kcb (k.setSndBuf k.sndBuf xmit₂) :=
        (congrArg (SameClock · _) hsame).mp (hk.setSndBuf _ _ _)
      obtain ⟨ht', hb', hsent⟩ := ih (k := k.setSndBuf k.sndBuf xmit₂)
        (f := { f with lost := f.lost || Due.no == Due.timeout, change := f.change || Due.no == Due.fast }) hr hk' hw'
        (by rw [hdone, hstay, List.append_assoc, List.singleton_append]; exact hb) ht (by rw [hdone, hstay]; exact h)
      rw [List.filter_cons_of_neg (by simp [hsend])]
      exact ⟨ht', hb', by rw [hsent, Option.bind_some, if_pos rfl]⟩
    · rw [if_neg hd'] at h
      obtain ⟨hsend, hstamp⟩ := hyes hd'
      obtain ⟨f2, h2, h⟩ := Option.bind_eq_some_iff.mp h
      rw [← hstamp] at h h2
      rw [← hdone] at h
      have hbuf : done.map k₀.restamp ++ k₀.restamp seg :: rest = (done ++ [seg]).map k₀.restamp ++ rest := by
        rw [hdone, List.append_assoc, List.singleton_append]
      rw [hbuf] at h2
      obtain ⟨⟨buf, e2⟩, -⟩ := sizeTest_eq h2
      dsimp only [setSndBuf_setSndBuf] at e2
      -- due: the segment is restamped in `snd_buf`, tested for size, and encoded
      have hchange : Trace k₀ k₁ segs (f.kcb.setSndBuf ((done ++ [seg]).map k₀.restamp ++ rest) xmit₂) f.writes :=
        ht.change (.restamp xmit₂ hw hb)
      have hput : (f2.put (k₀.restamp seg)).kcb =
          (f.kcb.setSndBuf ((done ++ [seg]).map k₀.restamp ++ rest) xmit₂).setBuffer
            (f2.kcb.buffer ++ (k₀.restamp seg).encode) := by
        rw [Flushing.put, e2]
        rfl
      have ht2 := (Trace.sizeTest hchange h2).put (k₀.restamp seg)
      have hk' : SameClock (f2.put (k₀.restamp seg)).kcb (k.setSndBuf k.sndBuf xmit₂) :=
        hput ▸ (hk.setSndBuf _ _ _).setBuffer _
      have hfresh : refresh (k.setSndBuf k.sndBuf xmit₂) k₀.wndUnused seg' = k₀.restamp seg :=
        (refresh_congr hk.current hk.rcvNxt).trans hstamp.symm
      obtain ⟨ht', hb', hsent⟩ := ih (f := f2.put (k₀.restamp seg))
        (hput ▸ hr.written _ _ _) hk' hw' (by rw [hput]; rfl) ht2 h
      rw [List.filter_cons_of_pos hsend, List.map_cons]
      refine ⟨?_, hb', by rw [hsent, Option.bind_some, if_neg hd', hfresh]⟩
      rwa [List.append_assoc, List.singleton_append] at ht'

/-- **Every write is a concatenation of whole segments**, from an empty buffer; together they are the segments
encoded, in order. -/
theorem packed (ht : Trace k₀ k₁ segs k writes) (h : k₁.buffer = []) :
    ∃ (parts : List (List Segment)) (rest : List Segment), writes.map (fun w => w.buffer) = parts.map encodes ∧
      k.buffer = encodes rest ∧ parts.flatten ++ rest = segs := by
  induction ht with
  | start => exact ⟨[], [], rfl, h, rfl⟩
  | write _ ih =>
    obtain ⟨parts, rest, hparts, hrest, hsegs⟩ := ih
    refine ⟨parts ++ [rest], [], ?_, rfl, ?_⟩
    · rw [List.map_append, List.map_append, hparts, List.map_singleton, List.map_singleton, hrest]
    · rw [List.flatten_append, List.flatten_singleton, List.append_nil, hsegs]
  | put _ seg ih =>
    obtain ⟨parts, rest, hparts, hrest, hsegs⟩ := ih
    refine ⟨parts, rest ++ [seg], hparts, ?_, ?_⟩
    · rw [encodes_append, encodes_cons, encodes_nil, List.append_nil, ← hrest]
      rfl
    · rw [← List.append_assoc, hsegs]
  | change _ hk ih =>
    obtain ⟨parts, rest, hparts, hrest, hsegs⟩ := ih
    exact ⟨parts, rest, hparts, hk.buffer.trans hrest, hsegs⟩

/-- What was written and what is left in the buffer are the segments encoded, behind what the buffer held before. -/
theorem bytes (ht : Trace k₀ k₁ segs k writes) :
    writes.flatMap (fun w => w.buffer) ++ k.buffer = k₁.buffer ++ encodes segs := by
  induction ht with
  | start => simp
  | @write segs k writes _ ih =>
    have hnil : (k.setBuffer []).buffer = [] := rfl
    rw [List.flatMap_append, List.flatMap_singleton, hnil, List.append_nil, ih]
  | @put segs k writes _ seg ih =>
    have hput : (k.setBuffer (k.buffer ++ seg.encode)).buffer = k.buffer ++ seg.encode := rfl
    rw [hput, ← List.append_assoc, ih, encodes_append, encodes_cons, encodes_nil, List.append_nil, List.append_assoc]
  | change _ hk ih => rw [hk.buffer, ih]

/-- At a write, what was written and what is in the buffer are the segments encoded so far. -/
theorem bytes_at {i : ℕ} {w : Kcb} (ht : Trace k₀ k₁ segs k writes) (hw : writes[i]? = some w) :
    ∃ segs', (writes.take i).flatMap (fun w => w.buffer) ++ w.buffer = k₁.buffer ++ encodes segs' := by
  induction ht with
  | start => cases hw
  | @write segs k writes ht ih =>
    rcases Nat.lt_or_ge i writes.length with hi | hi
    · rw [List.getElem?_append_left hi] at hw
      rw [List.take_append_of_le_length hi.le]
      exact ih hw
    · rw [List.getElem?_append_right hi, List.getElem?_singleton] at hw
      split_ifs at hw with hlast
      obtain rfl := Option.some.inj hw
      obtain rfl : i = writes.length := by omega
      exact ⟨segs, by rw [List.take_left, ht.bytes]⟩
  | put _ seg ih => exact ih hw
  | change _ hk ih => exact ih hw

/-- **Invariant rule**: what the changes preserve holds at the end and at every write. -/
theorem invariant {I : Kcb → Prop} (ht : Trace k₀ k₁ segs k writes) (h : I k₁)
    (hbuf : ∀ k buf, I k → I (k.setBuffer buf)) (hchange : ∀ k k', I k → Change k₀ k k' → I k') :
    I k ∧ ∀ w ∈ writes, I w := by
  induction ht with
  | start => exact ⟨h, by simp⟩
  | write _ ih =>
    refine ⟨hbuf _ _ ih.1, fun w hw => ?_⟩
    rcases List.mem_append.mp hw with hw | hw
    · exact ih.2 w hw
    · exact List.mem_singleton.mp hw ▸ ih.1
  | put _ seg ih => exact ⟨hbuf _ _ ih.1, ih.2⟩
  | change _ hk ih => exact ⟨hchange _ _ ih.1 hk, ih.2⟩

end Trace

/-- The control segments of a flush, with the probe flags `pr`: the acknowledgements, and the two probes, which share
the scratch segment with them. -/
def Kcb.controls (k : Kcb) (pr : UInt32) : List Segment :=
  k.acklist.map (ackSegment k.scratch) ++
    probeSegment kcpAskSend kcpCmdWask pr (k.acklist.foldl ackSegment k.scratch) ++
    probeSegment kcpAskTell kcpCmdWins pr (k.acklist.foldl ackSegment k.scratch)

/-- What a completed flush did, with the probe flags `pr` after the window probe and the segments `moved` taken off
`snd_queue`. -/
structure Traced (b : Build) (k : Kcb) (f : Flushing) (pr : UInt32) (moved : List Segment) : Prop where
  flags : ∃ t w, probeWindow b.profile (k.setAcklist []) = some ((k.setAcklist []).setProbes t w pr)
  queue : k.sndQueue = moved ++ f.kcb.sndQueue
  sndNxt : f.kcb.sndNxt = k.sndNxt + UInt32.ofNat moved.length
  sndBuf : f.kcb.sndBuf = (k.window moved).map k.restamp
  acklist : f.kcb.acklist = []
  probe : f.kcb.probe = 0
  buffer : (∀ n, 0 < b.remainingMut n) → f.kcb.buffer = []
  trace : Trace k k (k.controls pr ++ ((k.window moved).filter k.sends).map k.restamp) f.kcb f.writes
  outgoing : k.outgoing b.profile = some (k.controls pr ++ ((k.window moved).filter k.sends).map k.restamp)

/-- **A flush as a trace.** -/
theorem flush_trace {b : Build} {k : Kcb} {f : Flushing} (hu : k.updated = true) (h : k.flush b = some f) :
    ∃ pr moved, Traced b k f pr moved := by
  unfold Kcb.flush at h
  rw [if_neg (by simp [hu])] at h
  simp only [Option.bind_eq_bind, Option.bind_eq_some_iff, Option.some.injEq] at h
  obtain ⟨f1, h1, edge, he, k2, h2, f3, h3, k4, h4, rfl⟩ := h
  obtain ⟨t, w, pr, buf, hk₁, hbuf, ht1⟩ := Trace.flushControl k h1
  have hr1 : Reads k f1.kcb := by
    rw [hbuf]
    exact ⟨rfl, rfl, rfl, rfl⟩
  have hsum : f1.kcb.sndUna = k.sndUna ∧ f1.kcb.flushWnd = k.flushWnd ∧ f1.kcb.sndQueue = k.sndQueue := by
    rw [hbuf]
    exact ⟨rfl, rfl, rfl⟩
  rw [hsum.1, hsum.2.1] at he
  -- the fill of the window reads neither the probe flags nor the buffer
  have hframe : f1.kcb = (((k.setAcklist []).setProbes t w pr).setProbes t w 0).setBuffer buf := hbuf
  rw [hsum.2.2, hframe, fillWindow_frame (fun k => (k.setProbes t w 0).setBuffer buf) (fun _ => rfl)
    (fun _ _ _ _ => rfl) (fun _ _ => rfl)] at h2
  obtain ⟨k₂, hk₂, rfl⟩ := Option.map_eq_some_iff.mp h2
  have hfill := hk₂
  have hreads : Reads k ((k.setAcklist []).setProbes t w pr) := ⟨rfl, rfl, rfl, rfl⟩
  obtain ⟨moved, rest, hq, rfl⟩ := fillWindow_entered hreads rfl hk₂
  have hwindow : ((setSend ((k.setAcklist []).setProbes t w pr)
      (((k.setAcklist []).setProbes t w pr).sndNxt + UInt32.ofNat moved.length)
      (((k.setAcklist []).setProbes t w pr).sndBuf ++ k.entered ((k.setAcklist []).setProbes t w pr).sndNxt moved)
      rest).setProbes t w 0).setBuffer buf =
        setSend f1.kcb (k.sndNxt + UInt32.ofNat moved.length) (k.window moved) rest := by
    rw [hbuf]
    rfl
  rw [hwindow] at h3
  have ht2 := ht1.change (.enter moved rest)
  have hresent : (setSend f1.kcb (k.sndNxt + UInt32.ofNat moved.length) (k.window moved) rest).resent = k.resent ∧
      (setSend f1.kcb (k.sndNxt + UInt32.ofNat moved.length) (k.window moved) rest).rtomin = k.rtomin := by
    rw [hbuf]
    exact ⟨rfl, rfl⟩
  rw [hresent.1, hresent.2] at h3
  have hall : k.window moved = [] ++ k.window moved := rfl
  obtain ⟨ht3, hb3, hsent⟩ := Trace.flushData
    (k := setSend ((k.setAcklist []).setProbes t w pr) (k.sndNxt + UInt32.ofNat moved.length) (k.window moved) rest)
    (f := { f1 with kcb := setSend f1.kcb (k.sndNxt + UInt32.ofNat moved.length) (k.window moved) rest })
    ⟨hr1.1, hr1.2, hr1.3, hr1.4⟩ (by rw [hbuf]; exact ⟨rfl, rfl, rfl, rfl, rfl⟩) hall rfl ht2 h3
  obtain ⟨s, c, i, rfl⟩ := settleCwnd_eq h4
  obtain ⟨l, x, buf3, e3⟩ := flushData_eq h3
  have hrest : ∃ buf', (f3.writeRest b).kcb = f3.kcb.setBuffer buf' := by
    unfold writeRest
    split_ifs
    · exact ⟨[], rfl⟩
    · exact ⟨f3.kcb.buffer, rfl⟩
  obtain ⟨buf', hrest⟩ := hrest
  refine ⟨pr, moved, ?_⟩
  constructor
  case flags => exact ⟨t, w, hk₁⟩
  case queue =>
    have hqueue : ((f3.writeRest b).kcb.setCwnd s c i).sndQueue = rest := by
      rw [hrest, e3]
      rfl
    rw [hqueue, ← hq]
  case sndNxt =>
    rw [hrest, e3]
    rfl
  case sndBuf =>
    have hsame : ((f3.writeRest b).kcb.setCwnd s c i).sndBuf = f3.kcb.sndBuf := by
      rw [hrest]
      rfl
    exact hsame.trans hb3
  case acklist =>
    rw [hrest, e3, hbuf]
    rfl
  case probe =>
    rw [hrest, e3, hbuf]
    rfl
  case buffer =>
    intro hpos
    have hall : f3.writeRest b = f3.writeAll := if_pos (hpos _)
    rw [hall]
    rfl
  case trace => exact ht3.writeRest.change (.settle s c i)
  case outgoing =>
    unfold Kcb.outgoing
    rw [if_neg (by simp [hu])]
    simp only [Option.bind_eq_bind, Option.bind_eq_some_iff, Option.some.injEq]
    exact ⟨_, hk₁, _, he, _, hfill, _, hsent, rfl⟩

/-- **What a flush encodes**: the bytes that it writes or leaves in the buffer are those that were in the buffer,
followed by the segments of `outgoing`. -/
theorem flush_outgoing {b : Build} {k : Kcb} {f : Flushing} (h : k.flush b = some f) :
    ∃ segs, k.outgoing b.profile = some segs ∧ f.bytes = k.buffer ++ encodes segs := by
  cases hu : k.updated with
  | false =>
    rw [Kcb.flush, hu, Bool.not_false, if_pos rfl] at h
    obtain rfl := Option.some.inj h
    exact ⟨[], by rw [Kcb.outgoing, hu, Bool.not_false, if_pos rfl], by simp [Flushing.bytes]⟩
  | true =>
    obtain ⟨pr, moved, ht⟩ := flush_trace hu h
    exact ⟨_, ht.outgoing, ht.trace.bytes⟩

/-! ### `snd_buf` after a flush -/

theorem Kcb.mem_entered {k : Kcb} {nxt : UInt32} {l : List Segment} {s : Segment} (h : s ∈ k.entered nxt l) :
    ∃ sn x, s = { assign k k.wndUnused x with sn := sn } := by
  induction l generalizing nxt with
  | nil => exact absurd h List.not_mem_nil
  | cons x l ih =>
    rcases List.mem_cons.mp h with rfl | h
    · exact ⟨nxt, x, rfl⟩
    · exact ih h

/-- **`snd_buf` after a flush**, complete or abandoned: of the window, the first segments are restamped. -/
theorem stopAt_sndBuf {b : Build} {k : Kcb} {f : Flushing} (h : k.flush b = some f) (cut : Option ℕ) :
    ∃ moved done rest, k.window moved = done ++ rest ∧ (f.stopAt cut).1.sndBuf = done.map k.restamp ++ rest := by
  have hnone : k.window [] = k.sndBuf := List.append_nil _
  cases hu : k.updated with
  | false => exact ⟨[], [], k.sndBuf, hnone, by rw [stopAt_of_idle hu h]; rfl⟩
  | true =>
    obtain ⟨pr, moved, ht⟩ := flush_trace hu h
    obtain ⟨hend, hwrites⟩ := ht.trace.invariant
      (I := fun x => ∃ moved done rest, k.window moved = done ++ rest ∧ x.sndBuf = done.map k.restamp ++ rest)
      ⟨[], [], k.sndBuf, hnone, rfl⟩ (fun _ _ hx => hx) fun x x' hx hc => by
        cases hc with
        | acked | probes | settle => exact hx
        | enter moved queue => exact ⟨moved, [], k.window moved, rfl, rfl⟩
        | restamp xmit hw hb => exact ⟨_, _, _, by rw [hw, List.append_assoc, List.singleton_append], rfl⟩
    exact stopAt_rule hend hwrites cut

end NetProtocols.Kcp
