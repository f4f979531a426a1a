import NetProtocols.Lib.Packing
import NetProtocols.Kcp.Fragments
import NetProtocols.Kcp.SendInv

/-!
# NetProtocols.Kcp.Emission — the sizes of the datagrams that a flush writes

With `bytes` 0.5 the size test of `flush` compares `usize::MAX - len + need` with the MTU.  The sum leaves the range of
`usize` exactly when the segment is longer than the buffer; it wraps to a small number then, and the segment joins the
buffer whatever the MTU.  So what a flush writes is its segments packed by `larger`.

* `emissions`: the sizes of the segments a flush will put, in order, by the state before it.
* `Emitted`: the writes and tests of a flush so far are those of `pack larger`.
* `flush_emitted`: a whole flush.
* `Sized`: the bounds under which this holds; `sized_run`: every reachable state has them.
-/

namespace NetProtocols.Kcp

open Kcb

/-- The bytes of a segment on the wire. -/
def Segment.size (s : Segment) : ℕ := kcpOverhead + s.data.length

theorem length_encode_size (s : Segment) : s.encode.length = s.size := length_encode s

/-- A release build with `bytes` 0.5. -/
def shipped : Build := ⟨.release, bytesMut⟩

namespace Kcb

/-! ### What a flush emits -/

/-- The window probes that are due: the probe flags after `probe window size`. -/
def probeSizes (k : Kcb) : List ℕ :=
  match Flushing.probeWindow .release k with
  | none => []
  | some k => (if k.probe &&& kcpAskSend ≠ 0 then [kcpOverhead] else []) ++
      (if k.probe &&& kcpAskTell ≠ 0 then [kcpOverhead] else [])

/-- The segment of `snd_buf` is sent in a flush of `k`. -/
def isDue (k : Kcb) (seg : Segment) : Bool := decide (Flushing.due .release k.current k.resent seg ≠ some .no)

/-- The segments of `snd_queue` that the window admits. -/
def admitted (edge : UInt32) : UInt32 → List Segment → List Segment
  | _, [] => []
  | nxt, seg :: rest => if nxt < edge then seg :: admitted edge (nxt + 1) rest else []

/-- The sizes of what a flush of `k` puts into the buffer, in order. -/
def emissions (k : Kcb) : List ℕ :=
  k.acklist.map (fun _ => kcpOverhead) ++ probeSizes k ++
    (k.sndBuf.filter k.isDue ++ admitted (k.sndUna + k.flushWnd) k.sndNxt k.sndQueue).map Segment.size

end Kcb

/-! ### The flush as a packing -/

open Flushing

/-- The largest buffer that a flush starts from. -/
def maxLoad : ℕ := 2800

theorem larger_joins {n e : ℕ} (he : e ≤ kcpMtuDef) (hj : larger n e = true) : n + e ≤ maxLoad := by
  have h : n < e := by simpa [larger] using hj
  simp only [maxLoad, kcpMtuDef] at he ⊢
  omega

/-- Segments within the MTU that join are longer than the buffer, so they never fill it beyond `maxLoad`. -/
theorem larger_load_le {n : ℕ} {es : List ℕ} (hn : n ≤ maxLoad) (he : ∀ e ∈ es, e ≤ kcpMtuDef) :
    ∀ w ∈ loads larger n es, w ≤ maxLoad :=
  pack_le hn (fun e h => (he e h).trans (by decide)) fun _ e h _ hj => larger_joins (he e h) hj

/-- So far the flush has put pieces of the sizes `es` into a buffer that held `n` bytes. -/
structure Emitted (n : ℕ) (es : List ℕ) (f : Flushing) : Prop where
  mtu : f.kcb.mtu = kcpMtuDef
  writes : f.writes.map (fun k => k.buffer.length) = (pack larger n es).1
  buffer : f.kcb.buffer.length = (pack larger n es).2
  tests : f.tests = (packTests larger n es).map fun t => (bytesMut t.1, t.2)
  sizes : ∀ e ∈ es, e ≤ kcpMtuDef
  start : n ≤ maxLoad

namespace Emitted

variable {n : ℕ} {es : List ℕ} {f f' : Flushing}

theorem load_le (h : Emitted n es f) : ∀ w ∈ loads larger n es, w ≤ maxLoad := larger_load_le h.start h.sizes

/-- What the size test computes: the wrapped sum is above the MTU exactly when the segment is no longer than the
buffer. -/
theorem test_iff {len need : ℕ} (hl : len ≤ maxLoad) (hn : need ≤ kcpMtuDef) :
    kcpMtuDef < (bytesMut len + need) % 2 ^ 64 ↔ ¬ larger len need = true := by
  simp only [larger, decide_eq_true_eq, bytesMut, maxLoad, kcpMtuDef] at *
  by_cases h : len < need
  · have hs : 2 ^ 64 - 1 - len + need = 2 ^ 64 + (need - len - 1) := by omega
    rw [hs, Nat.add_mod_left, Nat.mod_eq_of_lt (by omega)]
    omega
  · rw [Nat.mod_eq_of_lt (by omega)]
    omega

theorem put (h : Emitted n es f) (seg : Segment) (hs : seg.size ≤ kcpMtuDef)
    (ht : f.sizeTest shipped seg.size = some f') : Emitted n (es ++ [seg.size]) (f'.put seg) := by
  have hload : (pack larger n es).2 ≤ maxLoad := h.load_le _ (by simp [loads])
  have hiff := test_iff hload hs
  have hsizes : ∀ e ∈ es ++ [seg.size], e ≤ kcpMtuDef := by
    intro e he
    rcases List.mem_append.mp he with he | he
    · exact h.sizes e he
    · exact List.mem_singleton.mp he ▸ hs
  simp only [sizeTest, shipped, Profile.addUsize_release, Option.bind_eq_bind, Option.bind_some, h.buffer, h.mtu] at ht
  by_cases hj : larger (pack larger n es).2 seg.size = true
  · rw [if_neg (fun hlt => hiff.mp hlt hj)] at ht
    obtain rfl := Option.some.inj ht
    refine ⟨h.mtu, ?_, ?_, ?_, hsizes, h.start⟩
    · rw [pack_snoc, if_pos hj]
      exact h.writes
    · rw [pack_snoc, if_pos hj]
      simp only [Flushing.put, setBuffer, List.length_append, h.buffer, length_encode_size]
    · rw [packTests_snoc, List.map_append]
      simp only [Flushing.put, h.tests]
      rfl
  · rw [if_pos (hiff.mpr hj)] at ht
    obtain rfl := Option.some.inj ht
    refine ⟨h.mtu, ?_, ?_, ?_, hsizes, h.start⟩
    · rw [pack_snoc, if_neg hj]
      simp only [Flushing.put, Flushing.writeAll, List.map_append, h.writes, List.map_cons, List.map_nil, h.buffer]
    · rw [pack_snoc, if_neg hj]
      simp only [Flushing.put, Flushing.writeAll, setBuffer, List.nil_append, length_encode_size]
    · rw [packTests_snoc, List.map_append]
      simp only [Flushing.put, Flushing.writeAll, h.tests]
      rfl

theorem of_kcb (h : Emitted n es f) (hb : f'.kcb.buffer = f.kcb.buffer) (hm : f'.kcb.mtu = f.kcb.mtu)
    (hw : f'.writes = f.writes) (ht : f'.tests = f.tests) : Emitted n es f' :=
  ⟨hm.trans h.mtu, hw ▸ h.writes, hb ▸ h.buffer, ht ▸ h.tests, h.sizes, h.start⟩

end Emitted

/-! ### The phases -/

section Phases

variable {n : ℕ} {es : List ℕ} {f f' : Flushing} {k k' : Kcb}

theorem size_control {seg : Segment} (h : seg.data = []) : seg.size = kcpOverhead := by simp [Segment.size, h]

theorem emitted_flushAcks {acks : List (UInt32 × UInt32)} {seg seg' : Segment} (he : Emitted n es f)
    (hd : seg.data = []) (h : flushAcks shipped acks seg f = some (seg', f')) :
    Emitted n (es ++ acks.map fun _ => kcpOverhead) f' ∧ seg'.data = [] ∧ ∃ buf, f'.kcb = f.kcb.setBuffer buf := by
  induction acks generalizing es seg f with
  | nil =>
    simp only [flushAcks, Option.some.injEq, Prod.mk.injEq] at h
    obtain ⟨rfl, rfl⟩ := h
    exact ⟨by simpa using he, hd, _, rfl⟩
  | cons a acks ih =>
    simp only [flushAcks, Option.bind_eq_bind, Option.bind_eq_some_iff] at h
    obtain ⟨f1, h1, h⟩ := h
    have hsize : ({ seg with sn := a.1, ts := a.2 } : Segment).size = kcpOverhead := size_control hd
    have he1 := he.put { seg with sn := a.1, ts := a.2 } (hsize ▸ by decide) (hsize.symm ▸ h1)
    obtain ⟨⟨buf, hb⟩, -⟩ := sizeTest_eq h1
    have hd1 : ({ seg with sn := a.1, ts := a.2 } : Segment).data = [] := hd
    obtain ⟨i1, i2, buf', i3⟩ := ih he1 hd1 h
    rw [hsize, List.append_assoc] at i1
    refine ⟨i1, i2, buf', ?_⟩
    rw [i3]
    simp only [Flushing.put, hb]
    rfl

theorem emitted_flushProbe {ask : UInt32} {cmd : UInt8} {seg seg' : Segment} (he : Emitted n es f)
    (hd : seg.data = []) (h : flushProbe shipped ask cmd seg f = some (seg', f')) :
    Emitted n (es ++ if f.kcb.probe &&& ask ≠ 0 then [kcpOverhead] else []) f' ∧ seg'.data = [] ∧
      ∃ buf, f'.kcb = f.kcb.setBuffer buf := by
  unfold flushProbe at h
  split_ifs at h with hp
  · simp only [Option.bind_eq_bind, Option.bind_eq_some_iff, Option.some.injEq, Prod.mk.injEq] at h
    obtain ⟨f1, h1, rfl, rfl⟩ := h
    have hsize : ({ seg with cmd := cmd } : Segment).size = kcpOverhead := size_control hd
    have he1 := he.put { seg with cmd := cmd } (hsize ▸ by decide) (hsize.symm ▸ h1)
    obtain ⟨⟨buf, hb⟩, -⟩ := sizeTest_eq h1
    rw [if_pos hp]
    refine ⟨hsize ▸ he1, hd, buf ++ ({ seg with cmd := cmd } : Segment).encode, ?_⟩
    simp only [Flushing.put, hb]
    rfl
  · simp only [Option.some.injEq, Prod.mk.injEq] at h
    obtain ⟨rfl, rfl⟩ := h
    rw [if_neg hp]
    exact ⟨by simpa using he, hd, _, rfl⟩

theorem emitted_flushControl (hm : k.mtu = kcpMtuDef) (hl : k.buffer.length ≤ maxLoad)
    (h : flushControl shipped k = some f) :
    Emitted k.buffer.length (k.acklist.map (fun _ => kcpOverhead) ++ probeSizes k) f := by
  simp only [flushControl, Option.bind_eq_bind, Option.bind_eq_some_iff, Option.some.injEq] at h
  obtain ⟨⟨s1, f1⟩, h1, k2, h2, ⟨s3, f3⟩, h3, ⟨s4, f4⟩, h4, rfl⟩ := h
  have he0 : Emitted k.buffer.length [] { kcb := k } := ⟨hm, rfl, rfl, rfl, by simp, hl⟩
  obtain ⟨e1, d1, buf, b1⟩ := emitted_flushAcks he0 rfl h1
  dsimp only at b1 h2
  rw [b1, probeWindow_frame (fun k => (k.setBuffer buf).setAcklist []) k rfl rfl rfl rfl rfl fun _ _ _ => rfl] at h2
  obtain ⟨k2', hk2, rfl⟩ := Option.map_eq_some_iff.mp h2
  obtain ⟨t, w, pr, rfl⟩ := probeWindow_eq hk2
  have hp : probeSizes k = (if pr &&& kcpAskSend ≠ 0 then [kcpOverhead] else []) ++
      (if pr &&& kcpAskTell ≠ 0 then [kcpOverhead] else []) := by
    have hk2' : probeWindow .release k = some (k.setProbes t w pr) := hk2
    unfold probeSizes
    rw [hk2']
    rfl
  have e2 : Emitted k.buffer.length (k.acklist.map fun _ => kcpOverhead)
      { f1 with kcb := ((k.setProbes t w pr).setBuffer buf).setAcklist [] } := by
    refine e1.of_kcb ?_ ?_ rfl rfl
    · rw [b1]
      rfl
    · rw [b1]
      rfl
  obtain ⟨e3, d3, buf3, b3⟩ := emitted_flushProbe e2 d1 h3
  obtain ⟨e4, d4, buf4, b4⟩ := emitted_flushProbe e3 d3 h4
  have hprobe : f3.kcb.probe = pr := by
    rw [b3]
    rfl
  rw [hprobe] at e4
  rw [hp, ← List.append_assoc]
  exact e4.of_kcb rfl rfl rfl rfl

/-- Filling the window appends what the window admits, not sent before. -/
theorem fillWindow_admitted {edge wnd : UInt32} {queue : List Segment}
    (h : fillWindow .release edge wnd queue k = some k') :
    ∃ l nxt rest, k' = setSend k nxt (k.sndBuf ++ l) rest ∧
      l.map Segment.size = (admitted edge k.sndNxt queue).map Segment.size ∧ ∀ seg ∈ l, seg.xmit = 0 := by
  induction queue generalizing k with
  | nil =>
    obtain rfl := Option.some.inj h
    exact ⟨[], k.sndNxt, [], by simp [setSend], rfl, by simp⟩
  | cons seg rest ih =>
    unfold fillWindow at h
    split_ifs at h with hlt
    · obtain ⟨l, nxt, rest', rfl, hl, hx⟩ := ih h
      refine ⟨assign k wnd seg :: l, nxt, rest', by simp [moveSegment, setSend], ?_, ?_⟩
      · rw [admitted, if_pos hlt, List.map_cons, List.map_cons, hl]
        rfl
      · intro s hs
        rcases List.mem_cons.mp hs with rfl | hs
        · rfl
        · exact hx s hs
    · obtain rfl := Option.some.inj h
      exact ⟨[], k.sndNxt, seg :: rest, by simp [setSend], by rw [admitted, if_neg hlt], by simp⟩

theorem emitted_flushData {current resent rtomin wnd : UInt32} {done rest : List Segment} (he : Emitted n es f)
    (hc : f.kcb.current = current) (hs : ∀ seg ∈ rest, seg.size ≤ kcpMtuDef)
    (h : flushData shipped resent rtomin wnd done rest f = some f') :
    Emitted n (es ++
      (rest.filter fun seg => decide (due .release current resent seg ≠ some .no)).map Segment.size) f' := by
  induction rest generalizing done es f with
  | nil =>
    obtain rfl := Option.some.inj h
    simpa using he
  | cons seg rest ih =>
    simp only [flushData, Option.bind_eq_bind, Option.bind_eq_some_iff] at h
    obtain ⟨d, hd, ⟨seg', k1⟩, hst, h⟩ := h
    have hd : due .release current resent seg = some d := by
      rw [← hc]
      exact hd
    obtain ⟨hfix, xmit, rfl⟩ := stamp_eq hst
    have hrest : ∀ s ∈ rest, s.size ≤ kcpMtuDef := fun s h => hs s (by simp [h])
    dsimp only at h
    by_cases hno : d = .no
    · rw [if_pos hno] at h
      rw [List.filter_cons_of_neg (by simp [hd, hno])]
      refine ih ?_ ?_ hrest h
      · exact he.of_kcb rfl rfl rfl rfl
      · exact hc
    · rw [if_neg hno] at h
      obtain ⟨f2, h2, h⟩ := Option.bind_eq_some_iff.mp h
      obtain ⟨⟨buf, hb⟩, -⟩ := sizeTest_eq h2
      have hdata : seg'.data.length = seg.data.length := congrArg (fun x : Fixed => x.data.length) hfix
      have hput : Emitted n (es ++ [seg.size]) (f2.put (refresh (f.kcb.setSndBuf f.kcb.sndBuf xmit) wnd seg')) := by
        have hsize : seg.size = (refresh (f.kcb.setSndBuf f.kcb.sndBuf xmit) wnd seg').size := by
          show kcpOverhead + seg.data.length = kcpOverhead + seg'.data.length
          rw [hdata]
        have hle := hs seg (by simp)
        rw [hsize] at hle ⊢
        refine Emitted.put ?_ _ hle h2
        exact he.of_kcb rfl rfl rfl rfl
      have hc2 : f2.kcb.current = current := by
        rw [hb]
        exact hc
      rw [List.filter_cons_of_pos (by simp [hd, hno]), List.map_cons, List.append_cons]
      exact ih hput hc2 hrest h

/-- The rest is written out: `bytes` 0.5 always claims room. -/
theorem writeRest_shipped (hl : f.kcb.buffer.length ≤ maxLoad) : f.writeRest shipped = f.writeAll := by
  unfold writeRest
  rw [if_pos]
  show 0 < bytesMut f.kcb.buffer.length
  simp only [bytesMut, maxLoad] at hl ⊢
  omega

end Phases

/-! ### A whole flush -/

/-- The bounds on what a control block holds: the buffer, and the segments it may put there. -/
structure Sized (k : Kcb) : Prop where
  mtu : k.mtu = kcpMtuDef
  buffer : k.buffer.length ≤ maxLoad
  sndBuf : ∀ seg ∈ k.sndBuf, seg.size ≤ kcpMtuDef
  sndQueue : ∀ seg ∈ k.sndQueue, seg.size ≤ kcpMtuDef

theorem mem_of_mem_admitted {edge nxt : UInt32} {queue : List Segment} {seg : Segment}
    (h : seg ∈ admitted edge nxt queue) : seg ∈ queue := by
  induction queue generalizing nxt with
  | nil => exact h
  | cons s rest ih =>
    unfold admitted at h
    split_ifs at h
    · rcases List.mem_cons.mp h with rfl | h
      · simp
      · exact List.mem_cons_of_mem _ (ih h)
    · exact absurd h List.not_mem_nil

theorem emissions_le {k : Kcb} (hk : Sized k) : ∀ e ∈ emissions k, e ≤ kcpMtuDef := by
  intro e he
  simp only [emissions, List.mem_append, List.mem_map] at he
  rcases he with (⟨a, -, rfl⟩ | he) | ⟨seg, hseg, rfl⟩
  · decide
  · unfold probeSizes at he
    split at he
    · exact absurd he List.not_mem_nil
    · split_ifs at he <;> simp_all [kcpMtuDef, kcpOverhead]
  · rcases hseg with hseg | hseg
    · exact hk.sndBuf seg (List.mem_filter.mp hseg).1
    · exact hk.sndQueue seg (mem_of_mem_admitted hseg)

/-- **A flush packs its emissions by `larger`**: these are the lengths of what it writes and the operands of its size
tests. -/
theorem flush_emitted {k : Kcb} {f : Flushing} (hu : k.updated = true) (hk : Sized k)
    (h : k.flush shipped = some f) :
    f.writes.map (fun w => w.buffer.length) = loads larger k.buffer.length (emissions k) ∧
      f.tests = (packTests larger k.buffer.length (emissions k)).map (fun t => (bytesMut t.1, t.2)) ∧
      f.kcb.buffer = [] := by
  unfold flush at h
  rw [if_neg (by simp [hu])] at h
  simp only [Option.bind_eq_bind, Option.bind_eq_some_iff, Option.some.injEq] at h
  obtain ⟨f1, h1, edge, he, k2, h2, f3, h3, k4, h4, rfl⟩ := h
  have e1 := emitted_flushControl hk.mtu hk.buffer h1
  obtain ⟨-, buf, t, w, b1⟩ := flushControl_follows k h1
  obtain rfl : edge = k.sndUna + k.flushWnd := by
    rw [Profile.add_eq_some he, b1]
    rfl
  obtain ⟨l, nxt, rest, rfl, hl, hx⟩ := fillWindow_admitted h2
  -- the queue and the window are those of `k`; so are the clock and the resend limit
  have hq : f1.kcb.sndQueue = k.sndQueue ∧ f1.kcb.sndNxt = k.sndNxt ∧ f1.kcb.sndBuf = k.sndBuf ∧
      f1.kcb.current = k.current := by
    rw [b1]
    exact ⟨rfl, rfl, rfl, rfl⟩
  rw [hq.1, hq.2.1] at hl
  rw [hq.2.2.1] at h3
  have hres : (setSend f1.kcb nxt (k.sndBuf ++ l) rest).resent = k.resent := by
    rw [b1]
    rfl
  rw [hres] at h3
  have hsize : ∀ seg ∈ k.sndBuf ++ l, seg.size ≤ kcpMtuDef := by
    intro seg hs
    rcases List.mem_append.mp hs with hs | hs
    · exact hk.sndBuf seg hs
    · have hmem : seg.size ∈ (admitted (k.sndUna + k.flushWnd) k.sndNxt k.sndQueue).map Segment.size :=
        hl ▸ List.mem_map_of_mem hs
      obtain ⟨s, h1, h2⟩ := List.mem_map.mp hmem
      exact h2 ▸ hk.sndQueue s (mem_of_mem_admitted h1)
  have hdue : (l.filter fun seg => decide (due .release k.current k.resent seg ≠ some .no)) = l := by
    refine List.filter_eq_self.mpr fun seg hs => ?_
    simp [due, hx seg hs]
  have hem : k.acklist.map (fun _ => kcpOverhead) ++ probeSizes k ++
      ((k.sndBuf ++ l).filter fun seg => decide (due .release k.current k.resent seg ≠ some .no)).map Segment.size =
        emissions k := by
    rw [List.filter_append, hdue, List.map_append, hl, emissions, List.map_append]
    rfl
  have e3 : Emitted k.buffer.length (emissions k) f3 := by
    rw [← hem]
    refine emitted_flushData ?_ ?_ hsize h3
    · exact e1.of_kcb rfl rfl rfl rfl
    · exact hq.2.2.2
  have hrest := writeRest_shipped (e3.load_le _ (by rw [e3.buffer]; simp [loads]))
  rw [hrest] at h4 ⊢
  obtain ⟨s, c, i, rfl⟩ := settleCwnd_eq h4
  refine ⟨?_, e3.tests, rfl⟩
  simp only [writeAll, List.map_append, List.map_cons, List.map_nil, e3.writes, e3.buffer]
  rfl

theorem flush_not_updated {b : Build} {k : Kcb} {f : Flushing} (hu : ¬ k.updated = true) (h : k.flush b = some f) :
    f = { kcb := k } := by
  unfold flush at h
  rw [if_pos (by simp [hu])] at h
  exact (Option.some.inj h).symm

theorem writes_le_iff {k : Kcb} {f : Flushing} {limit : ℕ} (hs : Sized k) (hf : k.flush shipped = some f) :
    (∀ w ∈ f.writes, w.buffer.length ≤ limit) ↔ (k.updated = true → Fits limit k.buffer.length (emissions k)) := by
  by_cases hu : k.updated = true
  · rw [fits_iff, ← (flush_emitted hu hs hf).1]
    simp [hu]
  · obtain rfl := flush_not_updated hu hf
    simp [hu]

/-- When `update` runs `flush`, the tick it is due at does not matter. -/
theorem emissions_clocked (k : Kcb) (now ts : UInt32) : emissions (k.clocked now ts) = emissions (k.clocked now 0) := by
  have hp : probeSizes (k.clocked now ts) = probeSizes (k.clocked now 0) := by
    unfold probeSizes
    rw [show k.clocked now ts = (fun x : Kcb => x.clocked x.current ts) (k.clocked now 0) from rfl,
      probeWindow_frame (fun x : Kcb => x.clocked x.current ts) _ rfl rfl rfl rfl rfl fun _ _ _ => rfl]
    cases probeWindow .release (k.clocked now 0) <;> rfl
  simp only [emissions, hp]
  rfl

/-! ### The bounds hold in every reachable state -/

/-- The bounds that do not concern the buffer: no small step of a flush breaks them. -/
theorem sizes_flushStep {b : Build} {k₀ k k' : Kcb} (h : FlushStep b k₀ k k')
    (hk : ∀ seg ∈ k.sndBuf ++ k.sndQueue, seg.size ≤ kcpMtuDef) :
    ∀ seg ∈ k'.sndBuf ++ k'.sndQueue, seg.size ≤ kcpMtuDef := by
  cases h
  case assign seg rest wnd hq hlt =>
    rw [hq] at hk
    intro s hs
    simp only [moveSegment, List.append_assoc, List.mem_append, List.mem_cons, List.not_mem_nil, or_false] at hs
    rcases hs with hs | rfl | hs
    · exact hk s (by simp [hs])
    · exact hk seg (by simp)
    · exact hk s (by simp [hs])
  case stamp done rest seg seg' xmit hb hs =>
    have hsize : seg'.size = seg.size :=
      congrArg (fun x : Fixed => kcpOverhead + x.data.length) hs
    rw [hb] at hk
    intro s hs
    simp only [setSndBuf, List.mem_append, List.mem_cons] at hs
    rcases hs with (hs | rfl | hs) | hs
    · exact hk s (by simp [hs])
    · exact hsize ▸ hk seg (by simp)
    · exact hk s (by simp [hs])
    · exact hk s (by simp [hs])
  case settle cwnd resent lost change h =>
    obtain ⟨s, c, i, rfl⟩ := settleCwnd_eq h
    exact hk
  all_goals exact hk

theorem sized_clocked {k : Kcb} {now ts : UInt32} : Sized (k.clocked now ts) ↔ Sized k :=
  ⟨fun h => ⟨h.mtu, h.buffer, h.sndBuf, h.sndQueue⟩, fun h => ⟨h.mtu, h.buffer, h.sndBuf, h.sndQueue⟩⟩

/-- **A flush keeps the bounds**, complete or abandoned. -/
theorem sized_flush {k : Kcb} {f : Flushing} (hk : Sized k) (h : k.flush shipped = some f) (cut : Option ℕ) :
    Sized (f.stopAt cut).1 := by
  have hf : Follows shipped k k f.kcb f.writes := flush_follows h rfl
  have hset := congrArg Settings.mtu (settings_flushed hf cut)
  have hsize := (flushed_rule (I := fun k => ∀ seg ∈ k.sndBuf ++ k.sndQueue, seg.size ≤ kcpMtuDef) cut hf
    (fun seg hs => (List.mem_append.mp hs).elim (hk.sndBuf seg) (hk.sndQueue seg))
    (fun _ _ hi hs => sizes_flushStep hs hi)).1
  refine ⟨hset.trans hk.mtu, ?_, fun s hs => hsize s (by simp [hs]), fun s hs => hsize s (by simp [hs])⟩
  by_cases hu : k.updated = true
  · obtain ⟨hw, -, hb⟩ := flush_emitted hu hk h
    refine stopAt_rule (I := fun x => x.buffer.length ≤ maxLoad) ?_ (fun w hmem => ?_) cut
    · rw [hb]
      exact Nat.zero_le _
    · exact larger_load_le hk.buffer (emissions_le hk) _ (hw ▸ List.mem_map_of_mem hmem)
  · rw [stopAt_of_idle (Bool.eq_false_iff.mpr hu) h cut]
    exact hk.buffer

theorem Sized.of_frame {k k' : Kcb} (hk : Sized k) (hset : k'.settings = k.settings) (hb : k'.buffer = k.buffer)
    (hs : k.sendSide.Shrinks k'.sendSide) : Sized k' := by
  refine ⟨(congrArg Settings.mtu hset).trans hk.mtu, hb ▸ hk.buffer, fun seg hseg => ?_, fun seg hseg => ?_⟩
  · obtain ⟨x, hx, he⟩ := List.mem_map.mp (hs.buf.subset (List.mem_map_of_mem hseg))
    have hsize : x.size = seg.size := congrArg (fun x : Fixed => kcpOverhead + x.data.length) he
    exact hsize ▸ hk.sndBuf x hx
  · have hq : k'.sndQueue = k.sndQueue := hs.queue
    exact hk.sndQueue seg (hq ▸ hseg)

theorem sized_exec {e e' : Endpoint} {op : Op} (hmss : e.kcb.mss = kcpMtuDef - kcpOverhead)
    (hstream : e.kcb.stream = false) (hk : Sized e.kcb) (h : e.exec shipped op = some e') : Sized e'.kcb := by
  cases ran_of_exec h with
  | send buf r hs =>
    rcases send_message hstream (by rw [hmss]; decide) hs with ⟨err, -, hk'⟩ | ⟨n, -, hbuf, hk'⟩
    · exact hk' ▸ hk
    · rw [hk']
      refine ⟨hk.mtu, hk.buffer, hk.sndBuf, fun seg hseg => ?_⟩
      rcases List.mem_append.mp hseg with hseg | hseg
      · exact hk.sndQueue seg hseg
      · have hlen := length_data_fragments hseg
        rw [hmss] at hlen
        simp only [Segment.size, kcpMtuDef, kcpOverhead] at hlen ⊢
        omega
  | recv cap r hs =>
    obtain ⟨h1, h2, h3⟩ := settings_recv hs
    exact hk.of_frame h1 h2 (h3 ▸ .refl _)
  | input d r hs =>
    obtain ⟨h1, h2⟩ := settings_input hs
    exact hk.of_frame h1 h2 (shrinks_input hs)
  | clock now ts cut hk' => exact hk' ▸ sized_clocked.mpr hk
  | update now ts cut f hf hk' => exact hk' ▸ sized_flush (sized_clocked.mpr hk) hf cut
  | flush cut f hf hk' => exact hk' ▸ sized_flush hk hf cut

/-- The bounds, in a control block that cuts messages to segments of the default size. -/
def SizedFrom (k : Kcb) : Prop := Sized k ∧ k.mss = kcpMtuDef - kcpOverhead ∧ k.stream = false

theorem sizedFrom_exec {e e' : Endpoint} {op : Op} (hk : SizedFrom e.kcb) (h : e.exec shipped op = some e') :
    SizedFrom e'.kcb := by
  obtain ⟨hk, hmss, hstream⟩ := hk
  have hset := settings_exec h
  exact ⟨sized_exec hmss hstream hk h, (congrArg Settings.mss hset).trans hmss,
    (congrArg Settings.stream hset).trans hstream⟩

theorem sizedFrom_start (conv : UInt32) (c : Config) : SizedFrom (Endpoint.start conv c).kcb := by
  obtain ⟨sndWnd, rcvWnd, nodelay, rxMinrto, interval, fastresend, h⟩ := configured_eq conv c
  rw [Endpoint.start, h]
  exact ⟨⟨rfl, Nat.zero_le _, fun s hs => absurd hs List.not_mem_nil, fun s hs => absurd hs List.not_mem_nil⟩, rfl, rfl⟩

/-- **The bounds hold in every reachable state.** -/
theorem sized_run {conv : UInt32} {c : Config} {ops : List Op} {e : Endpoint}
    (hr : run (Endpoint.exec shipped) (Endpoint.start conv c) ops = some e) : Sized e.kcb :=
  (run_invariant (I := fun e => SizedFrom e.kcb) (fun _ _ _ hk h => sizedFrom_exec hk h) hr (sizedFrom_start conv c)).1

end NetProtocols.Kcp
