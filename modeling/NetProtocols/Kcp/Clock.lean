import NetProtocols.Lib.Serial
import NetProtocols.Kcp.Probe

/-!
# NetProtocols.Kcp.Clock — the timers turn on the circle

`update`, `flush` and `check` compare times by `timediff` only.  In a release build the difference of two times stays
the same when both are moved on by `δ` modulo `2 ^ 32`, so nothing that these functions decide depends on where the
clock stands.

* `Kcb.Later δ`: a control block and the same one at a clock moved on by `δ`; `ts_probe` is a time only while
  `probe_wait` is not zero.
* `Segment.Later`, `Flushing.Later`: what goes out at the two clocks; data segments differ in `ts`, the others in
  nothing.
* `update_later`, `check_later`: the two runs.
-/

namespace NetProtocols.Kcp

open Kcb Flushing

/-! ### The same state at a later clock -/

/-- A segment of `snd_buf` at a clock moved on by `δ`. -/
def Segment.delay (δ : UInt32) (s : Segment) : Segment := { s with ts := s.ts + δ, resendts := s.resendts + δ }

namespace Kcb

/-- The control block with its times moved on by `δ`, except for `ts_probe`. -/
def moveOn (δ tsProbe : UInt32) (buf : List UInt8) (k : Kcb) : Kcb :=
  { k with
    current := k.current + δ
    tsFlush := k.tsFlush + δ
    tsProbe := tsProbe
    sndBuf := k.sndBuf.map (Segment.delay δ)
    buffer := buf }

/-- The control block at a clock moved on by `δ`: `current`, `ts_flush`, the times of `snd_buf`, and `ts_probe` when
`probe_wait` is not zero. -/
def delay (δ : UInt32) (k : Kcb) : Kcb :=
  k.moveOn δ (if k.probeWait = 0 then k.tsProbe else k.tsProbe + δ) k.buffer

/-- `k'` is `k` at a clock moved on by `δ`, with a buffer as long. -/
def Later (δ : UInt32) (k k' : Kcb) : Prop :=
  ∃ tsProbe buf, (k.probeWait ≠ 0 → tsProbe = k.tsProbe + δ) ∧ buf.length = k.buffer.length ∧
    k' = k.moveOn δ tsProbe buf

theorem later_delay (δ : UInt32) (k : Kcb) : k.Later δ (k.delay δ) :=
  ⟨_, _, fun h => if_neg h, rfl, rfl⟩

end Kcb

/-- The commands of data segments: PUSH, and what `snd_buf` holds. -/
def Kcb.dataCmds (k : Kcb) : List UInt8 := kcpCmdPush :: k.sndBuf.map Segment.cmd

/-- `s'` goes out at a clock moved on by `δ` where `s` goes out: an acknowledgement or a probe as it is, a data segment
with its `ts` moved on. -/
def Segment.Later (δ : UInt32) (data : List UInt8) (s s' : Segment) : Prop :=
  s' = s ∧ (s.cmd = kcpCmdAck ∨ s.cmd = kcpCmdWask ∨ s.cmd = kcpCmdWins) ∨
    s' = { s with ts := s.ts + δ } ∧ s.cmd ∈ data

/-- A flush under way, and the same one at a clock moved on by `δ`; `pre` is what the buffer held before. -/
structure Flushing.Later (δ : UInt32) (data : List UInt8) (pre : List UInt8) (f f' : Flushing) : Prop where
  kcb : f.kcb.Later δ f'.kcb
  writes : List.Forall₂ (Kcb.Later δ) f.writes f'.writes
  tests : f'.tests = f.tests
  lost : f'.lost = f.lost
  change : f'.change = f.change
  segments : ∃ segs segs', f.bytes = pre ++ encodes segs ∧ f'.bytes = pre ++ encodes segs' ∧
    List.Forall₂ (Segment.Later δ data) segs segs'

/-- A difference of times does not see where the clock stands. -/
theorem timediff_later (a b δ : UInt32) : timediff .release (a + δ) (b + δ) = timediff .release a b := by
  have h : (a + δ).toInt32 - (b + δ).toInt32 = a.toInt32 - b.toInt32 := by
    rw [UInt32.toInt32_add, UInt32.toInt32_add]
    grind
  exact congrArg some h

section Later

variable {δ : UInt32} {b : Build} {data pre : List UInt8} {f f' : Flushing} {k k' : Kcb}

/-! ### Writing and putting -/

theorem Kcb.Later.length_buffer (h : k.Later δ k') : k'.buffer.length = k.buffer.length := by
  obtain ⟨t, buf, -, hlen, rfl⟩ := h
  exact hlen

theorem writeAll_later (h : f.Later δ data pre f') : f.writeAll.Later δ data pre f'.writeAll := by
  constructor
  · obtain ⟨t, buf, hp, hlen, hk⟩ := h.kcb
    refine ⟨t, [], hp, rfl, ?_⟩
    show f'.kcb.setBuffer [] = _
    rw [hk]
    rfl
  · exact List.rel_append h.writes (.cons h.kcb .nil)
  · exact h.tests
  · exact h.lost
  · exact h.change
  · rw [bytes_writeAll, bytes_writeAll]
    exact h.segments

theorem sizeTest_later (h : f.Later δ data pre f') (need : ℕ) :
    Option.Rel (Flushing.Later δ data pre) (f.sizeTest b need) (f'.sizeTest b need) := by
  have hlen := h.kcb.length_buffer
  have hmtu : f'.kcb.mtu = f.kcb.mtu := by
    obtain ⟨t, buf, -, -, hk⟩ := h.kcb
    rw [hk]
    rfl
  exact sizeTest_rel (R := Flushing.Later δ data pre) hlen hmtu
    (fun t => ⟨h.kcb, h.writes, by rw [h.tests], h.lost, h.change, h.segments⟩) (fun _ _ => writeAll_later) need

theorem Segment.Later.length_encode {s s' : Segment} (h : s.Later δ data s') : s'.encode.length = s.encode.length := by
  rcases h with ⟨rfl, -⟩ | ⟨rfl, -⟩
  · rfl
  · rw [NetProtocols.Kcp.length_encode, NetProtocols.Kcp.length_encode]

/-- One more segment; `resendts` is not encoded. -/
theorem put_later {s s' t' : Segment} (h : f.Later δ data pre f') (hs : s.Later δ data t')
    (he : s'.encode = t'.encode) : (f.put s).Later δ data pre (f'.put s') := by
  constructor
  · obtain ⟨t, buf, hp, hlen, hk⟩ := h.kcb
    refine ⟨t, buf ++ s'.encode, hp, ?_, ?_⟩
    · show _ = (f.kcb.buffer ++ s.encode).length
      rw [List.length_append, List.length_append, hlen, he, hs.length_encode]
    · show f'.kcb.setBuffer (f'.kcb.buffer ++ s'.encode) = _
      rw [hk]
      rfl
  · exact h.writes
  · exact h.tests
  · exact h.lost
  · exact h.change
  · obtain ⟨segs, segs', h1, h2, h3⟩ := h.segments
    refine ⟨segs ++ [s], segs' ++ [t'], ?_, ?_, List.rel_append h3 (.cons hs .nil)⟩
    · rw [bytes_put, h1, encodes_append, encodes_cons, encodes_nil, List.append_nil, List.append_assoc]
    · rw [bytes_put, h2, he, encodes_append, encodes_cons, encodes_nil, List.append_nil, List.append_assoc]

/-- The two runs after a change that leaves both buffers. -/
def Kcb.LaterFrom (δ : UInt32) (k k' k₁ k₁' : Kcb) : Prop :=
  k₁.Later δ k₁' ∧ k₁.buffer = k.buffer ∧ k₁'.buffer = k'.buffer

theorem setKcb_later {k₁ k₁' : Kcb} (h : f.Later δ data pre f') (hk : Kcb.LaterFrom δ f.kcb f'.kcb k₁ k₁') :
    Flushing.Later δ data pre { f with kcb := k₁ } { f' with kcb := k₁' } := by
  obtain ⟨hk, hbuf, hbuf'⟩ := hk
  obtain ⟨segs, segs', h1, h2, h3⟩ := h.segments
  have e : Flushing.bytes { f with kcb := k₁ } = f.bytes := bytes_of_buffer rfl hbuf
  have e' : Flushing.bytes { f' with kcb := k₁' } = f'.bytes := bytes_of_buffer rfl hbuf'
  exact ⟨hk, h.writes, h.tests, h.lost, h.change, segs, segs', e.trans h1, e'.trans h2, h3⟩

/-! ### The control phases -/

theorem flushAcks_later {acks : List (UInt32 × UInt32)} {seg : Segment} (hc : seg.cmd = kcpCmdAck)
    (h : f.Later δ data pre f') :
    Option.Rel (fun r r' => r'.1 = r.1 ∧ r.2.Later δ data pre r'.2) (flushAcks b acks seg f)
      (flushAcks b acks seg f') := by
  induction acks generalizing seg f f' with
  | nil => exact Option.Rel.some ⟨rfl, h⟩
  | cons ack acks ih =>
    unfold flushAcks
    refine rel_bind (sizeTest_later h kcpOverhead) fun g g' _ hg => ?_
    have hseg : Segment.Later δ data { seg with sn := ack.1, ts := ack.2 } { seg with sn := ack.1, ts := ack.2 } :=
      Or.inl ⟨rfl, Or.inl hc⟩
    exact ih hc (put_later hg hseg rfl)

theorem flushProbe_later {ask : UInt32} {cmd : UInt8} {seg : Segment} (hc : cmd = kcpCmdWask ∨ cmd = kcpCmdWins)
    (h : f.Later δ data pre f') :
    Option.Rel (fun r r' => r'.1 = r.1 ∧ r.2.Later δ data pre r'.2) (flushProbe b ask cmd seg f)
      (flushProbe b ask cmd seg f') := by
  have hprobe : f'.kcb.probe = f.kcb.probe := by
    obtain ⟨t, buf, -, -, hk⟩ := h.kcb
    rw [hk]
    rfl
  unfold flushProbe
  rw [hprobe]
  split_ifs
  · refine rel_bind (sizeTest_later h kcpOverhead) fun g g' _ hg => Option.Rel.some ⟨rfl, ?_⟩
    exact put_later hg (Or.inl ⟨rfl, Or.inr hc⟩) rfl
  · exact Option.Rel.some ⟨rfl, h⟩

theorem setProbes_later {tsProbe tsProbe' wait probe : UInt32} {t : UInt32} {buf : List UInt8}
    (hlen : buf.length = k.buffer.length) (ht : wait ≠ 0 → tsProbe' = tsProbe + δ) :
    Kcb.LaterFrom δ k (k.moveOn δ t buf) (k.setProbes tsProbe wait probe)
      ((k.moveOn δ t buf).setProbes tsProbe' wait probe) :=
  ⟨⟨tsProbe', buf, ht, hlen, rfl⟩, rfl, rfl⟩

/-- The window probe: `ts_probe` is set from `current`, or set to zero together with `probe_wait`, or it stays. -/
theorem probeWindow_later (h : k.Later δ k') :
    Option.Rel (Kcb.LaterFrom δ k k') (probeWindow .release k) (probeWindow .release k') := by
  obtain ⟨t, buf, hp, hlen, rfl⟩ := h
  unfold probeWindow
  rw [show (k.moveOn δ t buf).rmtWnd = k.rmtWnd from rfl, show (k.moveOn δ t buf).probeWait = k.probeWait from rfl,
    show (k.moveOn δ t buf).current = k.current + δ from rfl, show (k.moveOn δ t buf).tsProbe = t from rfl]
  by_cases h0 : k.rmtWnd ≠ 0
  · rw [if_pos h0, if_pos h0]
    exact Option.Rel.some (setProbes_later hlen fun hn => absurd rfl hn)
  rw [if_neg h0, if_neg h0]
  by_cases hw : k.probeWait = 0
  · rw [if_pos hw, if_pos hw]
    simp only [Profile.add_release, Option.bind_eq_bind, Option.bind_some]
    exact Option.Rel.some (setProbes_later hlen fun _ => add_shift _ _ _)
  · rw [if_neg hw, if_neg hw, hp hw, timediff_later]
    refine rel_bind (R := Eq) ?_ ?_
    · cases timediff .release k.current k.tsProbe with
      | none => exact Option.Rel.none
      | some late => exact Option.Rel.some rfl
    · rintro late _ - rfl
      split_ifs
      · refine rel_bind (R := Eq) ?_ ?_
        · cases backoff .release k.probeWait with
          | none => exact Option.Rel.none
          | some wait => exact Option.Rel.some rfl
        · rintro wait _ - rfl
          simp only [Profile.add_release, Option.bind_eq_bind, Option.bind_some]
          exact Option.Rel.some (setProbes_later hlen fun _ => add_shift _ _ _)
      · rw [← hp hw]
        exact Option.Rel.some ⟨⟨t, buf, hp, hlen, rfl⟩, rfl, rfl⟩

theorem wndUnused_later (h : k.Later δ k') : k'.wndUnused = k.wndUnused := by
  obtain ⟨t, buf, -, -, rfl⟩ := h
  rfl

theorem flushControl_later (hb : b.profile = .release) (h : k.Later δ k') (hbuf : k'.buffer = k.buffer) :
    Option.Rel (Flushing.Later δ data k.buffer) (flushControl b k) (flushControl b k') := by
  have hstart : Flushing.Later δ data k.buffer { kcb := k } { kcb := k' } :=
    ⟨h, .nil, rfl, rfl, rfl, [], [], by simp [bytes], by simp [bytes, hbuf], .nil⟩
  have hscratch : k'.scratch = k.scratch := by
    have hwnd := wndUnused_later h
    obtain ⟨t, buf, -, -, rfl⟩ := h
    unfold scratch
    rw [hwnd]
    rfl
  have hacks : k'.acklist = k.acklist := by
    obtain ⟨t, buf, -, -, rfl⟩ := h
    rfl
  have hclear : ∀ {k k' : Kcb}, k.Later δ k' → (k.setAcklist []).Later δ (k'.setAcklist []) := by
    rintro k k' ⟨t, buf, hp, hlen, rfl⟩
    exact ⟨t, buf, hp, hlen, rfl⟩
  unfold flushControl
  rw [hacks, hscratch, hb]
  refine rel_bind (flushAcks_later rfl hstart) ?_
  rintro ⟨seg, f⟩ ⟨seg', f'⟩ _ ⟨rfl, hf⟩
  refine rel_bind (probeWindow_later (hclear hf.kcb)) fun k₁ k₁' _ hk => ?_
  refine rel_bind (flushProbe_later (Or.inl rfl) (setKcb_later hf hk)) ?_
  rintro ⟨seg₁, g⟩ ⟨seg₁', g'⟩ _ ⟨rfl, hg⟩
  refine rel_bind (flushProbe_later (Or.inr rfl) hg) ?_
  rintro ⟨seg₂, g₂⟩ ⟨seg₂', g₂'⟩ _ ⟨rfl, hg₂⟩
  refine Option.Rel.some (setKcb_later hg₂ ?_)
  obtain ⟨t, buf, hp, hlen, hk'⟩ := hg₂.kcb
  dsimp only at hk' ⊢
  rw [hk']
  exact setProbes_later hlen hp

/-! ### The data segments -/

theorem fillWindow_later (h : k.Later δ k') (edge wnd : UInt32) (queue : List Segment) :
    Option.Rel (Kcb.LaterFrom δ k k') (fillWindow .release edge wnd queue k)
      (fillWindow .release edge wnd queue k') := by
  obtain ⟨t, buf, hp, hlen, rfl⟩ := h
  have hmove : ∀ k nxt seg rest, moveSegment (moveOn δ t buf k) wnd nxt seg rest =
      moveOn δ t buf (moveSegment k wnd nxt seg rest) := by
    intro k nxt seg rest
    unfold moveSegment moveOn
    simp only [List.map_append]
    rfl
  rw [fillWindow_frame (moveOn δ t buf) (fun _ => rfl) hmove (fun _ _ => rfl)]
  cases hfill : fillWindow .release edge wnd queue k with
  | none => exact Option.Rel.none
  | some k₁ =>
    obtain ⟨nxt, l, rest, rfl⟩ := fillWindow_eq hfill
    exact Option.Rel.some ⟨⟨t, buf, hp, hlen, rfl⟩, rfl, rfl⟩

theorem due_later (current resent : UInt32) (seg : Segment) :
    due .release (current + δ) resent (seg.delay δ) = due .release current resent seg := by
  unfold due
  rw [show (seg.delay δ).resendts = seg.resendts + δ from rfl, timediff_later]
  rfl

theorem stamp_later (k : Kcb) (t : UInt32) (buf : List UInt8) (rtomin : UInt32) (seg : Segment) (d : Due) :
    stamp .release (k.moveOn δ t buf) rtomin (seg.delay δ) d =
      (stamp .release k rtomin seg d).map fun r => (r.1.delay δ, r.2.moveOn δ t buf) := by
  cases d
  case no => rfl
  case first =>
    have hsum : k.current + δ + k.rxRto + rtomin = k.current + k.rxRto + rtomin + δ := by
      rw [add_shift k.current, add_shift (k.current + k.rxRto)]
    show some (({ seg.delay δ with
      xmit := seg.xmit + 1, rto := k.rxRto, resendts := k.current + δ + k.rxRto + rtomin } : Segment), _) = _
    rw [hsum]
    rfl
  case timeout =>
    have hsum : ∀ rto, k.current + δ + rto = k.current + rto + δ := fun rto => add_shift _ _ _
    show some (({ seg.delay δ with xmit := seg.xmit + 1, rto := _, resendts := k.current + δ + _ } : Segment), _) = _
    rw [hsum]
    rfl
  case fast =>
    have hsum : k.current + δ + seg.rto = k.current + seg.rto + δ := add_shift _ _ _
    show some (({ seg.delay δ with
      xmit := seg.xmit + 1, fastack := 0, resendts := k.current + δ + seg.rto } : Segment), _) = _
    rw [hsum]
    rfl

theorem setSndBuf_later (k : Kcb) (t : UInt32) (buf : List UInt8) (done rest : List Segment) (seg : Segment)
    (xmit : UInt32) :
    (k.setSndBuf (done ++ seg :: rest) xmit).moveOn δ t buf =
      (k.moveOn δ t buf).setSndBuf (done.map (Segment.delay δ) ++ seg.delay δ :: rest.map (Segment.delay δ)) xmit := by
  unfold setSndBuf moveOn
  simp only [List.map_append, List.map_cons]

theorem noted_later {k₁ k₁' : Kcb} (d : Due) (h : f.Later δ data pre f') (hk : Kcb.LaterFrom δ f.kcb f'.kcb k₁ k₁') :
    Flushing.Later δ data pre
      { f with
        kcb := k₁
        lost := f.lost || d == .timeout
        change := f.change || d == .fast }
      { f' with
        kcb := k₁'
        lost := f'.lost || d == .timeout
        change := f'.change || d == .fast } := by
  have hnew := setKcb_later h hk
  exact ⟨hnew.kcb, hnew.writes, hnew.tests, congrArg (· || d == .timeout) h.lost,
    congrArg (· || d == .fast) h.change, hnew.segments⟩

/-- The loop "flush data segments", by induction on the rest of `snd_buf`. -/
theorem flushData_later (hb : b.profile = .release) {resent rtomin wnd : UInt32} {done rest : List Segment}
    (h : f.Later δ data pre f') (hdata : ∀ seg ∈ rest, seg.cmd ∈ data) :
    Option.Rel (Flushing.Later δ data pre) (flushData b resent rtomin wnd done rest f)
      (flushData b resent rtomin wnd (done.map (Segment.delay δ)) (rest.map (Segment.delay δ)) f') := by
  induction rest generalizing done f f' with
  | nil => exact Option.Rel.some h
  | cons seg rest ih =>
    obtain ⟨t, buf, hp, hlen, hk⟩ := h.kcb
    have hrest : ∀ s ∈ rest, s.cmd ∈ data := fun s hs => hdata s (List.mem_cons_of_mem _ hs)
    -- what a segment is due for does not depend on where the clock stands
    have hdue : due .release f'.kcb.current resent (seg.delay δ) = due .release f.kcb.current resent seg := by
      rw [hk]
      exact due_later _ _ _
    have hstamp : ∀ d, stamp .release f'.kcb rtomin (seg.delay δ) d =
        (stamp .release f.kcb rtomin seg d).map fun r => (r.1.delay δ, r.2.moveOn δ t buf) := by
      intro d
      rw [hk]
      exact stamp_later _ _ _ _ _ _
    have hdone : ∀ x : Segment, done.map (Segment.delay δ) ++ [x.delay δ] = (done ++ [x]).map (Segment.delay δ) := by
      intro x
      rw [List.map_append, List.map_singleton]
    rw [List.map_cons]
    unfold flushData
    rw [hb, hdue]
    simp only [Option.bind_eq_bind]
    cases due .release f.kcb.current resent seg with
    | none => exact Option.Rel.none
    | some d =>
      simp only [Option.bind_some]
      rw [hstamp]
      cases hst : stamp .release f.kcb rtomin seg d with
      | none => exact Option.Rel.none
      | some r =>
        obtain ⟨seg₁, k₁⟩ := r
        obtain ⟨hfix, xmit, rfl⟩ := stamp_eq hst
        have hbuf' : buf = f'.kcb.buffer := by
          rw [hk]
          rfl
        have hfrom : ∀ l x, Kcb.LaterFrom δ f.kcb f'.kcb (f.kcb.setSndBuf l x)
            ((f.kcb.setSndBuf l x).moveOn δ t buf) := by
          intro l x
          exact ⟨⟨t, buf, hp, hlen, rfl⟩, rfl, hbuf'⟩
        simp only [Option.map_some, Option.bind_some]
        by_cases hno : d = .no
        · rw [if_pos hno, if_pos hno, hdone]
          exact ih (noted_later d h (hfrom _ _)) hrest
        · -- sent: the two runs put the segment at the two times
          have hsent : refresh ((f.kcb.setSndBuf f.kcb.sndBuf xmit).moveOn δ t buf) wnd (seg₁.delay δ) =
              (refresh (f.kcb.setSndBuf f.kcb.sndBuf xmit) wnd seg₁).delay δ := rfl
          have hput := noted_later d h
            (hfrom (done ++ refresh (f.kcb.setSndBuf f.kcb.sndBuf xmit) wnd seg₁ :: rest) xmit)
          rw [setSndBuf_later] at hput
          have hcmd : seg₁.cmd ∈ data := by
            rw [show seg₁.cmd = seg.cmd from congrArg Fixed.cmd hfix]
            exact hdata seg (by simp)
          rw [if_neg hno, if_neg hno, hsent, hdone]
          refine rel_bind (sizeTest_later hput _) fun g g' _ hg => ih (put_later hg (Or.inr ⟨rfl, hcmd⟩) rfl) hrest

theorem writeRest_later (h : f.Later δ data pre f') : (f.writeRest b).Later δ data pre (f'.writeRest b) := by
  unfold writeRest
  rw [h.kcb.length_buffer]
  split_ifs
  · exact writeAll_later h
  · exact h

theorem settleCwnd_later (h : k.Later δ k') (cwnd resent : UInt32) (lost change : Bool) :
    Option.Rel (Kcb.LaterFrom δ k k') (settleCwnd .release cwnd resent lost change k)
      (settleCwnd .release cwnd resent lost change k') := by
  obtain ⟨t, buf, hp, hlen, rfl⟩ := h
  have hset : settleCwnd .release cwnd resent lost change (k.moveOn δ t buf) =
      (settleCwnd .release cwnd resent lost change k).map (moveOn δ t buf) := by
    unfold settleCwnd
    rw [show (k.moveOn δ t buf).sndNxt = k.sndNxt from rfl, show (k.moveOn δ t buf).sndUna = k.sndUna from rfl]
    cases change <;> cases lost <;>
      simp only [Bool.false_eq_true, if_false, if_true, Profile.sub_release, Profile.add_release, Profile.mul_release,
        Option.bind_eq_bind, Option.bind_some, Option.map_some, Option.some.injEq]
    · show (if k.cwnd < 1 then _ else _) = moveOn δ t buf (if k.cwnd < 1 then _ else _)
      split_ifs <;> rfl
    · rfl
    · split_ifs <;> rfl
    · rfl
  rw [hset]
  cases hst : settleCwnd .release cwnd resent lost change k with
  | none => exact Option.Rel.none
  | some k₁ =>
    obtain ⟨s, c, i, rfl⟩ := settleCwnd_eq hst
    exact Option.Rel.some ⟨⟨t, buf, hp, hlen, rfl⟩, rfl, rfl⟩

/-! ### A flush -/

theorem flush_later (hb : b.profile = .release) (h : k.Later δ k') (hbuf : k'.buffer = k.buffer) :
    Option.Rel (Flushing.Later δ k.dataCmds k.buffer) (k.flush b) (k'.flush b) := by
  have hstart : Flushing.Later δ k.dataCmds k.buffer { kcb := k } { kcb := k' } :=
    ⟨h, .nil, rfl, rfl, rfl, [], [], by simp [bytes], by simp [bytes, hbuf], .nil⟩
  have hupdated : k'.updated = k.updated := by
    obtain ⟨t, buf, -, -, rfl⟩ := h
    rfl
  unfold Kcb.flush
  rw [hupdated, wndUnused_later h]
  cases hu : k.updated with
  | false => exact Option.Rel.some hstart
  | true =>
    simp only [Bool.not_true, Bool.false_eq_true, if_false]
    have hcontrol : Option.Rel (Flushing.Later δ k.dataCmds k.buffer) (flushControl b k) (flushControl b k') :=
      flushControl_later hb h hbuf
    -- phase by phase; each reads of the clock only what the one before has kept in step
    refine rel_bind hcontrol fun f f' hf hff => ?_
    have hcmds : f.kcb.sndBuf = k.sndBuf := by
      obtain ⟨-, buf, t, w, e⟩ := flushControl_follows k hf
      rw [e]
      rfl
    have hwin : f'.kcb.sndUna = f.kcb.sndUna ∧ f'.kcb.flushWnd = f.kcb.flushWnd ∧ f'.kcb.sndQueue = f.kcb.sndQueue := by
      obtain ⟨t, buf, -, -, hk⟩ := hff.kcb
      rw [hk]
      exact ⟨rfl, rfl, rfl⟩
    rw [hwin.1, hwin.2.1, hwin.2.2, hb]
    refine rel_bind (R := Eq) (Option.Rel.some rfl) ?_
    rintro edge _ - rfl
    refine rel_bind (fillWindow_later hff.kcb edge _ _) fun k₁ k₁' hk₁ hkk => ?_
    have hnext := setKcb_later hff hkk
    -- the data loop meets segments of `snd_buf` and PUSH segments that have just come in
    have hdata : ∀ seg ∈ k₁.sndBuf, seg.cmd ∈ k.dataCmds := by
      intro seg hs
      rcases mem_fillWindow hk₁ seg hs with hs | ⟨-, hcmd, -⟩
      · exact List.mem_cons_of_mem _ (List.mem_map_of_mem (hcmds ▸ hs))
      · exact hcmd ▸ List.mem_cons_self
    have hloop : k₁'.sndBuf = k₁.sndBuf.map (Segment.delay δ) ∧ k₁'.resent = k₁.resent ∧ k₁'.rtomin = k₁.rtomin := by
      obtain ⟨⟨t, buf, -, -, hk⟩, -⟩ := hkk
      rw [hk]
      exact ⟨rfl, rfl, rfl⟩
    rw [hloop.1, hloop.2.1, hloop.2.2]
    refine rel_bind (flushData_later hb hnext hdata) fun g g' _ hg => ?_
    have hrest := writeRest_later (b := b) hg
    have hsettle : Option.Rel (Kcb.LaterFrom δ (g.writeRest b).kcb (g'.writeRest b).kcb)
        (settleCwnd .release f.kcb.flushWnd k₁.resent (g.writeRest b).lost (g.writeRest b).change (g.writeRest b).kcb)
        (settleCwnd .release f.kcb.flushWnd k₁.resent (g'.writeRest b).lost (g'.writeRest b).change
          (g'.writeRest b).kcb) := by
      rw [hrest.lost, hrest.change]
      exact settleCwnd_later hrest.kcb _ _ _ _
    exact rel_bind hsettle fun k₂ k₂' _ hk₂ => Option.Rel.some (setKcb_later hrest hk₂)

/-! ### `update` and `check` -/

theorem ticked_later {t : UInt32} {buf : List UInt8} (k : Kcb) :
    ticked .release (k.moveOn δ t buf) = (ticked .release k).map (moveOn δ t buf) := by
  unfold ticked
  simp only [Profile.add_release, Option.bind_eq_bind, Option.bind_some]
  rw [show (k.moveOn δ t buf).tsFlush = k.tsFlush + δ from rfl, show (k.moveOn δ t buf).interval = k.interval from rfl,
    show (k.moveOn δ t buf).current = k.current + δ from rfl, add_shift k.tsFlush k.interval,
    add_shift k.current k.interval, timediff_later]
  cases timediff .release k.current (k.tsFlush + k.interval) with
  | none => rfl
  | some late =>
    simp only [Option.bind_some]
    split_ifs <;> rfl

theorem setClock_later {t : UInt32} {buf : List UInt8} (hu : k.updated = true) (c : UInt32) :
    (k.moveOn δ t buf).setClock (c + δ) = (k.setClock c).moveOn δ t buf := by
  unfold setClock
  rw [show (k.moveOn δ t buf).updated = k.updated from rfl, if_pos hu, if_pos hu]
  rfl

theorem flushAt_later {t : UInt32} {buf : List UInt8} (hu : k.updated = true) (c : UInt32) :
    (k.moveOn δ t buf).flushAt .release (c + δ) = (k.flushAt .release c).map (Option.map (moveOn δ t buf)) := by
  unfold flushAt
  simp only [Option.bind_eq_bind]
  rw [setClock_later hu, show ((k.setClock c).moveOn δ t buf).current = (k.setClock c).current + δ from rfl,
    show ((k.setClock c).moveOn δ t buf).tsFlush = (k.setClock c).tsFlush + δ from rfl, timediff_later]
  have hsync : ((k.setClock c).moveOn δ t buf).resync = (k.setClock c).resync.moveOn δ t buf := rfl
  cases timediff .release (k.setClock c).current (k.setClock c).tsFlush with
  | none => rfl
  | some slap =>
    simp only [Option.bind_some]
    split_ifs
    · rw [hsync, ticked_later]
      cases ticked .release (k.setClock c).resync <;> rfl
    · rw [ticked_later]
      cases ticked .release (k.setClock c) <;> rfl
    · rfl

theorem soonest_later (current : UInt32) (l : List Segment) (tm : UInt32) :
    soonest .release (current + δ) (l.map (Segment.delay δ)) tm = soonest .release current l tm := by
  induction l generalizing tm with
  | nil => rfl
  | cons seg rest ih =>
    rw [List.map_cons]
    unfold soonest
    rw [show (seg.delay δ).resendts = seg.resendts + δ from rfl, timediff_later]
    simp only [ih]

/-- **`check` does not see where the clock stands.** -/
theorem check_later (h : k.Later δ k') (c : UInt32) : k'.check .release (c + δ) = k.check .release c := by
  obtain ⟨t, buf, -, -, rfl⟩ := h
  unfold check
  generalize UInt32.ofNat (2 ^ 32 - 1) = top
  rw [show (k.moveOn δ t buf).updated = k.updated from rfl, show (k.moveOn δ t buf).tsFlush = k.tsFlush + δ from rfl,
    show (k.moveOn δ t buf).sndBuf = k.sndBuf.map (Segment.delay δ) from rfl,
    show (k.moveOn δ t buf).interval = k.interval from rfl]
  by_cases hu : (!k.updated) = true
  · rw [if_pos hu, if_pos hu]
  rw [if_neg hu, if_neg hu, timediff_later]
  refine congrArg (Option.bind _) (funext fun d => ?_)
  have hsync : (if 10000 ≤ d ∨ d < -10000 then c + δ else k.tsFlush + δ) =
      (if 10000 ≤ d ∨ d < -10000 then c else k.tsFlush) + δ := by split_ifs <;> rfl
  dsimp only
  rw [hsync]
  generalize (if 10000 ≤ d ∨ d < -10000 then c else k.tsFlush) = ts
  rw [timediff_later, timediff_later, soonest_later]

/-- **`update` does the same at every clock.** -/
theorem update_later (hb : b.profile = .release) (hu : k.updated = true) (h : k.Later δ k')
    (hbuf : k'.buffer = k.buffer) (c : UInt32) :
    Option.Rel (Flushing.Later δ k.dataCmds k.buffer) (k.update b c) (k'.update b (c + δ)) := by
  obtain ⟨t, buf, hp, hlen, rfl⟩ := h
  rw [update_eq_flushAt, update_eq_flushAt, hb, flushAt_later hu, setClock_later hu]
  cases hat : k.flushAt .release c with
  | none => exact Option.Rel.none
  | some r =>
    cases r with
    | none =>
      have e : k.setClock c = { k with current := c } := by
        unfold setClock
        rw [if_pos hu]
      simp only [Option.map_some, Option.map_none, Option.bind_some, Option.elim_none]
      rw [e]
      exact Option.Rel.some ⟨⟨t, buf, hp, hlen, rfl⟩, .nil, rfl, rfl, rfl, [], [], by simp [bytes],
        by simp [bytes, show buf = k.buffer from hbuf, moveOn], .nil⟩
    | some k₁ =>
      obtain ⟨ts, rfl⟩ := flushAt_eq hat
      simp only [Option.map_some, Option.bind_some, Option.elim_some]
      have hk : (k.clocked c ts).Later δ ((k.clocked c ts).moveOn δ t buf) := ⟨t, buf, hp, hlen, rfl⟩
      exact flush_later hb hk hbuf

end Later

/-! ### Every control block -/

/-- After `update` a `ts_probe` whose wait is zero is that from before, or zero if `update` came to a flush. -/
theorem tsProbe_update {b : Build} {k : Kcb} {c : UInt32} {f : Flushing} (hle : k.probeWait ≤ kcpProbeLimit)
    (h : k.update b c = some f) (hw : f.kcb.probeWait = 0) :
    ((Op.update c none).flushes b.profile k).isSome = true ∧ f.kcb.tsProbe = 0 ∨
      ((Op.update c none).flushes b.profile k).isSome = false ∧ k.probeWait = 0 ∧ f.kcb.tsProbe = k.tsProbe := by
  rw [update_eq_flushAt] at h
  obtain ⟨due, hdue, h⟩ := Option.bind_eq_some_iff.mp h
  rw [Op.flushes, hdue, Option.getD_some]
  cases due with
  | none =>
    obtain rfl := Option.some.inj h
    obtain ⟨ts, hts⟩ := setClock_eq k c
    replace hw : (k.setClock c).probeWait = 0 := hw
    show _ ∨ _ ∧ _ ∧ (k.setClock c).tsProbe = k.tsProbe
    rw [hts] at hw ⊢
    exact Or.inr ⟨rfl, hw, rfl⟩
  | some k₁ =>
    obtain ⟨ts, rfl⟩ := flushAt_eq hdue
    obtain ⟨t, w, pr, hp, nxt, buf, queue, xmit, buffer, s, c', i, e⟩ := flush_eq rfl h
    rw [e] at hw ⊢
    exact Or.inl ⟨rfl, (probeWindow_limit (k := (k.clocked c ts).setAcklist []) hle hp).2 hw⟩

/-- On the clock moved on, `update` comes to a flush exactly when it does on the clock as it is. -/
theorem isSome_flushes_delay {k : Kcb} (hu : k.updated = true) (c δ : UInt32) :
    ((Op.update (c + δ) none).flushes .release (k.delay δ)).isSome =
      ((Op.update c none).flushes .release k).isSome := by
  have hat : (k.delay δ).flushAt .release (c + δ) = _ := flushAt_later hu c
  rw [Op.flushes, Op.flushes, hat]
  cases k.flushAt .release c with
  | none => rfl
  | some due => cases due <;> rfl

/-- While `probe_wait` is within its limit the state after `update` is moved on as a whole, but for the buffer. -/
theorem kcb_update_later {b : Build} {k : Kcb} {c δ : UInt32} {f f' : Flushing} (hb : b.profile = .release)
    (hu : k.updated = true) (hle : k.probeWait ≤ kcpProbeLimit) (hf : k.update b c = some f)
    (hf' : (k.delay δ).update b (c + δ) = some f') (hff : f.Later δ k.dataCmds k.buffer f') :
    f'.kcb = (f.kcb.delay δ).setBuffer f'.kcb.buffer := by
  obtain ⟨t, buf, hp, hlen, hk⟩ := hff.kcb
  have hwait : f'.kcb.probeWait = f.kcb.probeWait := by
    rw [hk]
    rfl
  have ht' : f'.kcb.tsProbe = t := by
    rw [hk]
    rfl
  have ht : t = if f.kcb.probeWait = 0 then f.kcb.tsProbe else f.kcb.tsProbe + δ := by
    by_cases hw : f.kcb.probeWait = 0
    · rw [if_pos hw]
      have h1 := tsProbe_update hle hf hw
      have h2 := tsProbe_update (k := k.delay δ) hle hf' (hwait.trans hw)
      rw [hb] at h1
      rw [hb, isSome_flushes_delay hu, ht'] at h2
      -- both come to a flush, and `ts_probe` is zero, or neither does, and it is that from before
      rcases h1 with ⟨hs, h1⟩ | ⟨hs, hz, h1⟩ <;> rcases h2 with ⟨hs', h2⟩ | ⟨hs', -, h2⟩
      · rw [h1, h2]
      · exact absurd (hs.symm.trans hs') (by decide)
      · exact absurd (hs'.symm.trans hs) (by decide)
      · rw [h1, h2]
        exact if_pos hz
    · rw [if_neg hw]
      exact hp hw
  rw [hk, ht]
  rfl

/-- **The timers turn on the circle.**  In a release build, moving the clock on by `δ` in an arbitrary control block
that has been updated moves the outcome of `update` on by `δ`, with the same segments in the same datagrams and only
the `ts` of data segments moved on, and leaves the outcome of `check`.  While `probe_wait` is zero `ts_probe` is not a
time; as long as `probe_wait` is within its limit it stays the same then.  In every reachable state it is within the
limit, and the data segments are PUSH segments. -/
theorem clock_shift (rem : ℕ → ℕ) :
    (∀ (k : Kcb), k.updated = true → ∀ c δ : UInt32,
      ∃ f f', k.update ⟨.release, rem⟩ c = some f ∧ (k.delay δ).update ⟨.release, rem⟩ (c + δ) = some f' ∧
        f.Later δ k.dataCmds k.buffer f' ∧
        (k.probeWait ≤ kcpProbeLimit → f'.kcb = (f.kcb.delay δ).setBuffer f'.kcb.buffer) ∧
        (k.delay δ).check .release (c + δ) = k.check .release c) ∧
    ∀ (conv : UInt32) (cfg : Config) (ops : List Op) (e : Endpoint),
      run (Endpoint.exec ⟨.release, rem⟩) (Endpoint.start conv cfg) ops = some e →
        e.kcb.probeWait ≤ kcpProbeLimit ∧ ∀ cmd ∈ e.kcb.dataCmds, cmd = kcpCmdPush := by
  constructor
  · intro k hu c δ
    have hlater := later_delay δ k
    obtain ⟨f, hf⟩ := Option.isSome_iff_exists.mp (update_release (b := ⟨.release, rem⟩) rfl k c)
    obtain ⟨f', hf'⟩ := Option.isSome_iff_exists.mp (update_release (b := ⟨.release, rem⟩) rfl (k.delay δ) (c + δ))
    have hrel := update_later (b := ⟨.release, rem⟩) rfl hu hlater rfl c
    rw [hf, hf'] at hrel
    obtain hff := Option.rel_some_some.mp hrel
    refine ⟨f, f', hf, hf', hff, ?_, check_later hlater c⟩
    intro hle
    exact kcb_update_later rfl hu hle hf hf' hff
  · intro conv cfg ops e hr
    refine ⟨probeWait_run hr, ?_⟩
    intro cmd hc
    rcases List.mem_cons.mp hc with rfl | hc
    · rfl
    · obtain ⟨seg, hs, rfl⟩ := List.mem_map.mp hc
      exact ((outbound_run hr).sndBuf seg.fixed (List.mem_map_of_mem hs)).cmd

/-- A conversation with data to send, 96 ms before the clock comes round. -/
def lateHour : Kcb :=
  ((Kcb.configured 7 {}).clocked 4294967200 4294967250).setSndQueue [{ data := [1, 2, 3] }]

theorem clock_shift_lateHour :
    ∃ f f', lateHour.update ⟨.release, bytesMut⟩ 4294967260 = some f ∧
      (lateHour.delay 100).update ⟨.release, bytesMut⟩ 64 = some f' ∧ f.Later 100 lateHour.dataCmds [] f' ∧
      f'.kcb = (f.kcb.delay 100).setBuffer f'.kcb.buffer := by
  obtain ⟨f, f', h1, h2, h3, h4, -⟩ := (clock_shift bytesMut).1 lateHour rfl 4294967260 100
  exact ⟨f, f', h1, h2, h3, h4 (by decide)⟩

end NetProtocols.Kcp
