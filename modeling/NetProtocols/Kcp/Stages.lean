import NetProtocols.Kcp.Trace

/-!
# NetProtocols.Kcp.Stages — a flush, moment by moment

A flush can be left at each of its writes.  What it has encoded by then, and what it has done to the control block,
depends on how far it has come: it works through the acknowledgements, then the probes, then the data.

* `Kcb.transmit`: a flush up to "update ssthresh"; `flush_eq_transmit`.
* `Held`: the bytes of a segment are in the buffer or in a buffer that was written.
* `Moments S segs f`: `S` relates the segments encoded so far to the control block, now and at every write.
* `Stage`: the three stages; `transmit_stages`: every moment of a flush is in one of them.
* `transmit_of_flush`, `stopAt_cases`: where a flush is left, complete or abandoned.
-/

namespace NetProtocols.Kcp

open Kcb Flushing

/-- `flush` up to "update ssthresh", and the window that it uses. -/
def Kcb.transmit (b : Build) (k : Kcb) : Option (UInt32 × Flushing) := do
  let wnd := k.wndUnused
  let f ← flushControl b k
  let cwnd := f.kcb.flushWnd
  let edge ← b.profile.add f.kcb.sndUna cwnd
  let k ← fillWindow b.profile edge wnd f.kcb.sndQueue f.kcb
  let f ← flushData b k.resent k.rtomin wnd [] k.sndBuf { f with kcb := k }
  some (cwnd, f.writeRest b)

variable {b : Build} {k : Kcb} {f f' : Flushing} {segs : List Segment} {seg : Segment}

theorem flush_eq_transmit (hu : k.updated = true) :
    k.flush b = (k.transmit b).bind fun r =>
      (settleCwnd b.profile r.1 k.resent r.2.lost r.2.change r.2.kcb).map fun k' => { r.2 with kcb := k' } := by
  unfold Kcb.flush Kcb.transmit
  rw [if_neg (by simp [hu])]
  simp only [Option.bind_eq_bind]
  cases h1 : flushControl b k with
  | none => rfl
  | some f1 =>
    obtain ⟨t, w, pr, buf, -, hbuf⟩ := flushControl_eq h1
    simp only [Option.bind_some]
    cases b.profile.add f1.kcb.sndUna f1.kcb.flushWnd with
    | none => rfl
    | some edge =>
      simp only [Option.bind_some]
      cases h2 : fillWindow b.profile edge k.wndUnused f1.kcb.sndQueue f1.kcb with
      | none => rfl
      | some k2 =>
        obtain ⟨nxt, l, rest, rfl⟩ := fillWindow_eq h2
        have hresent : (setSend f1.kcb nxt (f1.kcb.sndBuf ++ l) rest).resent = k.resent := by
          rw [hbuf]
          rfl
        simp only [Option.bind_some, hresent]
        generalize flushData b _ _ _ _ _ _ = g
        cases g with
        | none => rfl
        | some f3 =>
          simp only [Option.bind_some]
          cases settleCwnd b.profile f1.kcb.flushWnd k.resent (f3.writeRest b).lost (f3.writeRest b).change
            (f3.writeRest b).kcb <;> rfl

/-! ### What holds at every moment -/

/-- The bytes of the segment are in the buffer, or in a buffer that was written. -/
def Held (seg : Segment) (k : Kcb) (writes : List Kcb) : Prop :=
  seg.encode <:+: k.buffer ∨ ∃ w ∈ writes, seg.encode <:+: w.buffer

/-- `S` relates the segments encoded so far to the control block, now and at every write; and their bytes are there. -/
structure Moments (S : List Segment → Kcb → Prop) (segs : List Segment) (f : Flushing) : Prop where
  now : S segs f.kcb
  held : ∀ seg ∈ segs, Held seg f.kcb f.writes
  writes : ∀ i w, f.writes[i]? = some w → ∃ s, S s w ∧ ∀ seg ∈ s, Held seg w (f.writes.take i)

namespace Moments

variable {S : List Segment → Kcb → Prop}

theorem change (h : Moments S segs f) (hS : S segs f'.kcb) (hb : f'.kcb.buffer = f.kcb.buffer)
    (hw : f'.writes = f.writes) : Moments S segs f' := by
  refine ⟨hS, fun seg hseg => ?_, hw ▸ h.writes⟩
  unfold Held
  rw [hb, hw]
  exact h.held seg hseg

theorem put (h : Moments S segs f) (hS : S (segs ++ [seg]) (f.put seg).kcb) :
    Moments S (segs ++ [seg]) (f.put seg) := by
  refine ⟨hS, fun x hx => ?_, h.writes⟩
  rcases List.mem_append.mp hx with hx | hx
  · rcases h.held x hx with hbuf | hold
    · exact Or.inl (hbuf.trans (List.prefix_append _ _).isInfix)
    · exact Or.inr hold
  · obtain rfl := List.mem_singleton.mp hx
    exact Or.inl (List.suffix_append _ _).isInfix

theorem writeAll (h : Moments S segs f) (hS : S segs (f.kcb.setBuffer [])) : Moments S segs f.writeAll := by
  refine ⟨hS, fun x hx => Or.inr ?_, fun i w hw => ?_⟩
  · rcases h.held x hx with hbuf | ⟨w, hw, hold⟩
    · exact ⟨f.kcb, List.mem_append_right _ (List.mem_singleton_self _), hbuf⟩
    · exact ⟨w, List.mem_append_left _ hw, hold⟩
  · change (f.writes ++ [f.kcb])[i]? = some w at hw
    change ∃ s, S s w ∧ ∀ seg ∈ s, Held seg w ((f.writes ++ [f.kcb]).take i)
    by_cases hi : i < f.writes.length
    · rw [List.getElem?_append_left hi] at hw
      rw [List.take_append_of_le_length hi.le]
      exact h.writes i w hw
    · have hle : f.writes.length ≤ i := Nat.le_of_not_lt hi
      rw [List.getElem?_append_right hle] at hw
      obtain ⟨hlt, hget⟩ := List.getElem?_eq_some_iff.mp hw
      obtain rfl : i = f.writes.length := by
        rw [List.length_singleton] at hlt
        omega
      rw [List.getElem_singleton] at hget
      rw [List.take_left, ← hget]
      exact ⟨segs, h.now, h.held⟩

theorem sizeTest {need : ℕ} (h : Moments S segs f) (hS : ∀ buf, S segs (f.kcb.setBuffer buf))
    (ht : f.sizeTest b need = some f') : Moments S segs f' := by
  simp only [Flushing.sizeTest, Option.bind_eq_bind, Option.bind_eq_some_iff] at ht
  obtain ⟨t, -, ht⟩ := ht
  have htest : Moments S segs { f with tests := f.tests ++ [(b.remainingMut f.kcb.buffer.length, need)] } :=
    h.change h.now rfl rfl
  split_ifs at ht
  · obtain rfl := Option.some.inj ht
    exact htest.writeAll (hS [])
  · obtain rfl := Option.some.inj ht
    exact htest

theorem writeRest (h : Moments S segs f) (hS : S segs (f.kcb.setBuffer [])) : Moments S segs (f.writeRest b) := by
  unfold Flushing.writeRest
  split_ifs
  · exact h.writeAll hS
  · exact h

end Moments

/-! ### The stages -/

/-- Where a flush of `k` stands, by what it has encoded: some of the acknowledgements; all of them and some probes, with
the probe fields set; or all of the control segments, and segments are moved and sent. -/
inductive Stage (k : Kcb) (tsProbe probeWait probe : UInt32) : List Segment → Kcb → Prop
  | acks (done rest : List (UInt32 × UInt32)) (hacks : k.acklist = done ++ rest) (buf : List UInt8) :
      Stage k tsProbe probeWait probe (done.map (ackSegment k.scratch)) (k.setBuffer buf)
  | probes (segs rest : List Segment)
      (hsegs : k.controls probe = k.acklist.map (ackSegment k.scratch) ++ segs ++ rest) (buf : List UInt8) :
      Stage k tsProbe probeWait probe (k.acklist.map (ackSegment k.scratch) ++ segs)
        (((k.setAcklist []).setProbes tsProbe probeWait probe).setBuffer buf)
  | data (segs : List Segment) (nxt xmit : UInt32) (l queue : List Segment)
      (hdata : (l ++ queue).map Segment.data = (k.sndBuf ++ k.sndQueue).map Segment.data) (buf : List UInt8) :
      Stage k tsProbe probeWait probe (k.controls probe ++ segs)
        (((setSend ((k.setAcklist []).setProbes tsProbe probeWait 0) nxt l queue).setSndBuf l xmit).setBuffer buf)

variable {t w pr : UInt32}

theorem Stage.setBuffer {x : Kcb} (h : Stage k t w pr segs x) (buf : List UInt8) :
    Stage k t w pr segs (x.setBuffer buf) := by
  cases h with
  | acks done rest hacks => exact .acks done rest hacks buf
  | probes segs rest hsegs => exact .probes segs rest hsegs buf
  | data segs nxt xmit l queue hdata => exact .data segs nxt xmit l queue hdata buf

theorem flushAcks_moments {done acks : List (UInt32 × UInt32)} {seg' : Segment} {buf : List UInt8}
    (h : flushAcks b acks seg f = some (seg', f')) (hseg : ∀ a, ackSegment seg a = ackSegment k.scratch a)
    (hk : f.kcb = k.setBuffer buf) (hacks : k.acklist = done ++ acks)
    (hm : Moments (Stage k t w pr) (done.map (ackSegment k.scratch)) f) :
    Moments (Stage k t w pr) (k.acklist.map (ackSegment k.scratch)) f' := by
  induction acks generalizing seg f done buf with
  | nil =>
    simp only [flushAcks, Option.some.injEq, Prod.mk.injEq] at h
    obtain ⟨-, rfl⟩ := h
    rw [hacks, List.append_nil]
    exact hm
  | cons a acks ih =>
    simp only [flushAcks, Option.bind_eq_bind, Option.bind_eq_some_iff] at h
    obtain ⟨f1, h1, h⟩ := h
    obtain ⟨⟨buf₁, hb⟩, -⟩ := sizeTest_eq h1
    have hm1 := hm.sizeTest (fun buf => hm.now.setBuffer buf) h1
    have hk1 : (f1.put (ackSegment seg a)).kcb = k.setBuffer (buf₁ ++ (ackSegment seg a).encode) := by
      rw [put, hb, hk]
      rfl
    have hnext : k.acklist = (done ++ [a]) ++ acks := by rw [hacks, List.append_assoc, List.singleton_append]
    have hmap : (done ++ [a]).map (ackSegment k.scratch) = done.map (ackSegment k.scratch) ++ [ackSegment seg a] := by
      rw [List.map_append, List.map_singleton, hseg]
    refine ih h (fun x => hseg x) hk1 hnext ?_
    rw [hmap]
    refine hm1.put ?_
    rw [hk1, ← hmap]
    exact .acks _ acks hnext _

theorem flushProbe_moments {ask : UInt32} {cmd : UInt8} {seg' : Segment} {rest : List Segment} {buf : List UInt8}
    (h : flushProbe b ask cmd seg f = some (seg', f'))
    (hk : f.kcb = ((k.setAcklist []).setProbes t w pr).setBuffer buf)
    (hsegs : k.controls pr =
      k.acklist.map (ackSegment k.scratch) ++ (segs ++ probeSegment ask cmd pr seg) ++ rest)
    (hm : Moments (Stage k t w pr) (k.acklist.map (ackSegment k.scratch) ++ segs) f) :
    Moments (Stage k t w pr) (k.acklist.map (ackSegment k.scratch) ++ (segs ++ probeSegment ask cmd pr seg)) f' := by
  have hpr : f.kcb.probe = pr := by
    rw [hk]
    rfl
  unfold flushProbe at h
  rw [hpr] at h
  unfold probeSegment at hsegs ⊢
  split_ifs at h hsegs ⊢ with hask
  · simp only [Option.bind_eq_bind, Option.bind_eq_some_iff, Option.some.injEq, Prod.mk.injEq] at h
    obtain ⟨f1, h1, -, rfl⟩ := h
    obtain ⟨⟨buf₁, hb⟩, -⟩ := sizeTest_eq h1
    rw [← List.append_assoc]
    refine (hm.sizeTest (fun buf => hm.now.setBuffer buf) h1).put ?_
    have hput : (f1.put { seg with cmd := cmd }).kcb = ((k.setAcklist []).setProbes t w pr).setBuffer
        (buf₁ ++ ({ seg with cmd := cmd } : Segment).encode) := by
      rw [put, hb, hk]
      rfl
    rw [hput, List.append_assoc]
    exact .probes _ rest hsegs _
  · simp only [Option.some.injEq, Prod.mk.injEq] at h
    obtain ⟨-, rfl⟩ := h
    rwa [List.append_nil]

/-- The control phases: they end with everything encoded, and the flags are clear. -/
theorem flushControl_moments (h : flushControl b k = some f) :
    ∃ t w pr buf, probeWindow b.profile (k.setAcklist []) = some ((k.setAcklist []).setProbes t w pr) ∧
      f.kcb = ((k.setAcklist []).setProbes t w 0).setBuffer buf ∧ Moments (Stage k t w pr) (k.controls pr) f := by
  obtain ⟨t, w, pr, buf, buf', f₁, s₃, f₃, s₄, f₄, h₁, hf₁, hk₁, h₃, h₄, hf₄, rfl⟩ := flushControl_phases h
  obtain ⟨hs₃, buf₃, hf₃⟩ := flushProbe_eq h₃
  have hkcb : f₄.kcb.setProbes t w 0 = ((k.setAcklist []).setProbes t w 0).setBuffer buf' :=
    congrArg (setProbes · t w 0) hf₄
  refine ⟨t, w, pr, buf', hk₁, hkcb, ?_⟩
  have hcontrols : k.controls pr = k.acklist.map (ackSegment k.scratch) ++
      (probeSegment kcpAskSend kcpCmdWask pr (k.acklist.foldl ackSegment k.scratch) ++
        probeSegment kcpAskTell kcpCmdWins pr s₃) := by
    have hseg : probeSegment kcpAskTell kcpCmdWins pr s₃ =
        probeSegment kcpAskTell kcpCmdWins pr (k.acklist.foldl ackSegment k.scratch) := by
      unfold probeSegment
      rw [hs₃]
    rw [hseg, ← List.append_assoc]
    rfl
  -- the phases one after the other: acknowledgements, window probe, WASK, WINS
  have hm₁ : Moments (Stage k t w pr) (k.acklist.map (ackSegment k.scratch)) f₁ := by
    have hstart : Moments (Stage k t w pr) (([] : List (UInt32 × UInt32)).map (ackSegment k.scratch)) { kcb := k } :=
      ⟨.acks [] k.acklist rfl k.buffer, fun _ hx => absurd hx List.not_mem_nil, fun _ _ hw => absurd hw (by simp)⟩
    exact flushAcks_moments h₁ (fun _ => rfl) (show _ = k.setBuffer k.buffer from rfl) (List.nil_append _).symm hstart
  have hm₂ : Moments (Stage k t w pr) (k.acklist.map (ackSegment k.scratch) ++ [])
      { f₁ with kcb := ((k.setAcklist []).setProbes t w pr).setBuffer buf } := by
    rw [List.append_nil]
    refine hm₁.change ?_ ?_ rfl
    · have hstage : Stage k t w pr _ _ := .probes []
        (probeSegment kcpAskSend kcpCmdWask pr (k.acklist.foldl ackSegment k.scratch) ++
          probeSegment kcpAskTell kcpCmdWins pr s₃)
        (by rw [hcontrols, List.append_nil]) buf
      rwa [List.append_nil] at hstage
    · rw [hf₁]
      rfl
  have hm₃ := flushProbe_moments h₃ rfl (by rw [hcontrols, List.nil_append, ← List.append_assoc]) hm₂
  have hk₃ : f₃.kcb = ((k.setAcklist []).setProbes t w pr).setBuffer buf₃ := hf₃
  have hall : k.controls pr = k.acklist.map (ackSegment k.scratch) ++ (([] ++ probeSegment kcpAskSend kcpCmdWask pr
      (k.acklist.foldl ackSegment k.scratch)) ++ probeSegment kcpAskTell kcpCmdWins pr s₃) ++ [] := by
    rw [hcontrols, List.nil_append, List.append_nil]
  have hm₄ := flushProbe_moments h₄ hk₃ hall hm₃
  rw [List.nil_append, ← hcontrols] at hm₄
  refine hm₄.change ?_ rfl rfl
  have hstage : Stage k t w pr _ _ := .data [] k.sndNxt k.xmit k.sndBuf k.sndQueue rfl buf'
  rw [List.append_nil] at hstage
  exact hkcb ▸ hstage

theorem data_stamp {p : Profile} {rtomin : UInt32} {seg' : Segment} {d : Due} {k' : Kcb}
    (h : stamp p k rtomin seg d = some (seg', k')) : seg'.data = seg.data := congrArg Fixed.data (stamp_eq h).1

theorem flushData_moments {resent rtomin wnd nxt xmit : UInt32} {done rest queue : List Segment} {buf : List UInt8}
    (h : flushData b resent rtomin wnd done rest f = some f')
    (hk : f.kcb = ((setSend ((k.setAcklist []).setProbes t w 0) nxt (done ++ rest) queue).setSndBuf
      (done ++ rest) xmit).setBuffer buf)
    (hdata : ((done ++ rest) ++ queue).map Segment.data = (k.sndBuf ++ k.sndQueue).map Segment.data)
    (hm : Moments (Stage k t w pr) (k.controls pr ++ segs) f) :
    ∃ segs', Moments (Stage k t w pr) (k.controls pr ++ segs') f' := by
  -- induction on the segments still to be passed
  induction rest generalizing done f segs xmit buf with
  | nil =>
    obtain rfl := Option.some.inj h
    exact ⟨segs, hm⟩
  | cons seg rest ih =>
    simp only [flushData, Option.bind_eq_bind, Option.bind_eq_some_iff] at h
    obtain ⟨d, -, ⟨seg', k'⟩, hs, h⟩ := h
    have hkeep := data_stamp hs
    obtain ⟨-, xmit', rfl⟩ := stamp_eq hs
    dsimp only at h
    split_ifs at h with hd
    · subst hd
      obtain ⟨rfl, hsame⟩ := stamp_no hs
      rw [hsame] at h
      have hlist : done ++ seg' :: rest = (done ++ [seg']) ++ rest := by rw [List.append_assoc, List.singleton_append]
      rw [hlist] at hk hdata
      exact ih h hk hdata (hm.change hm.now rfl rfl)
    · obtain ⟨f2, h2, h⟩ := Option.bind_eq_some_iff.mp h
      obtain ⟨⟨buf₂, e2⟩, -⟩ := sizeTest_eq h2
      generalize hsent : refresh (f.kcb.setSndBuf f.kcb.sndBuf xmit') wnd seg' = sent at h h2 e2
      have hlist : done ++ sent :: rest = (done ++ [sent]) ++ rest := by rw [List.append_assoc, List.singleton_append]
      -- what is stamped keeps its data, so the window still carries the same bytes
      have hdata' : (((done ++ [sent]) ++ rest) ++ queue).map Segment.data =
          (k.sndBuf ++ k.sndQueue).map Segment.data := by
        rw [← hdata, ← hsent]
        simp only [List.map_append, List.map_cons, List.append_assoc, List.singleton_append]
        rw [show (refresh (f.kcb.setSndBuf f.kcb.sndBuf xmit') wnd seg').data = seg.data from hkeep]
      have hstage : ∀ (segs : List Segment) (buf : List UInt8), Stage k t w pr (k.controls pr ++ segs)
          (((setSend ((k.setAcklist []).setProbes t w 0) nxt ((done ++ [sent]) ++ rest) queue).setSndBuf
            ((done ++ [sent]) ++ rest) xmit').setBuffer buf) := fun segs buf => .data segs nxt xmit' _ queue hdata' buf
      have hstamped : ((f.kcb.setSndBuf f.kcb.sndBuf xmit').setSndBuf (done ++ sent :: rest) xmit') =
          (((setSend ((k.setAcklist []).setProbes t w 0) nxt ((done ++ [sent]) ++ rest) queue).setSndBuf
            ((done ++ [sent]) ++ rest) xmit').setBuffer buf) := by
        rw [hk, hlist]
        rfl
      have hm1 : Moments (Stage k t w pr) (k.controls pr ++ segs)
          { f with
            lost := f.lost || d == Due.timeout
            change := f.change || d == Due.fast
            kcb := (f.kcb.setSndBuf f.kcb.sndBuf xmit').setSndBuf (done ++ sent :: rest) xmit' } :=
        hm.change (by rw [hstamped]; exact hstage segs buf) rfl rfl
      have hk2 : (f2.put sent).kcb = (((setSend ((k.setAcklist []).setProbes t w 0) nxt ((done ++ [sent]) ++ rest)
          queue).setSndBuf ((done ++ [sent]) ++ rest) xmit').setBuffer (buf₂ ++ sent.encode)) := by
        rw [put, e2, hk, hlist]
        rfl
      have hput : Stage k t w pr (k.controls pr ++ segs ++ [sent]) (f2.put sent).kcb := by
        rw [hk2, List.append_assoc]
        exact hstage _ _
      -- the two moments of a segment: its size test, and its encoding
      have hm2 := (hm1.sizeTest (fun buf => hm1.now.setBuffer buf) h2).put hput
      rw [List.append_assoc] at hm2
      exact ih h hk2 hdata' hm2

theorem data_entered (k : Kcb) (nxt : UInt32) (l : List Segment) :
    (k.entered nxt l).map Segment.data = l.map Segment.data := by
  induction l generalizing nxt with
  | nil => rfl
  | cons seg rest ih => exact congrArg (seg.data :: ·) (ih _)

/-- **Every moment of a flush is in one of the stages**; before the congestion window is settled, all the control
segments are encoded. -/
theorem transmit_stages {cwnd : UInt32} (h : k.transmit b = some (cwnd, f)) :
    ∃ t w pr segs, probeWindow b.profile (k.setAcklist []) = some ((k.setAcklist []).setProbes t w pr) ∧
      Moments (Stage k t w pr) (k.controls pr ++ segs) f := by
  simp only [transmit, Option.bind_eq_bind, Option.bind_eq_some_iff, Option.some.injEq, Prod.mk.injEq] at h
  obtain ⟨f1, h1, edge, he, k2, h2, f3, h3, -, rfl⟩ := h
  obtain ⟨t, w, pr, buf, hk₁, hbuf, hm1⟩ := flushControl_moments h1
  have hreads : Reads k f1.kcb ∧ f1.kcb.conv = k.conv := by
    rw [hbuf]
    exact ⟨⟨rfl, rfl, rfl, rfl⟩, rfl⟩
  obtain ⟨moved, rest, hq, rfl⟩ := fillWindow_entered hreads.1 hreads.2 h2
  have hsame : f1.kcb.sndNxt = k.sndNxt ∧ f1.kcb.sndBuf = k.sndBuf ∧ f1.kcb.sndQueue = k.sndQueue := by
    rw [hbuf]
    exact ⟨rfl, rfl, rfl⟩
  rw [hsame.1, hsame.2.1] at h3
  have hdata : (([] ++ (k.sndBuf ++ k.entered k.sndNxt moved)) ++ rest).map Segment.data =
      (k.sndBuf ++ k.sndQueue).map Segment.data := by
    rw [← hsame.2.2, hq]
    simp only [List.nil_append, List.map_append, data_entered, List.append_assoc]
  have hk2 : setSend f1.kcb (k.sndNxt + UInt32.ofNat moved.length) (k.sndBuf ++ k.entered k.sndNxt moved) rest =
      ((setSend ((k.setAcklist []).setProbes t w 0) (k.sndNxt + UInt32.ofNat moved.length)
        ([] ++ (k.sndBuf ++ k.entered k.sndNxt moved)) rest).setSndBuf
          ([] ++ (k.sndBuf ++ k.entered k.sndNxt moved)) k.xmit).setBuffer buf := by
    rw [hbuf]
    rfl
  have hm2 : Moments (Stage k t w pr) (k.controls pr ++ []) { f1 with
      kcb := setSend f1.kcb (k.sndNxt + UInt32.ofNat moved.length) (k.sndBuf ++ k.entered k.sndNxt moved) rest } := by
    rw [List.append_nil]
    refine hm1.change ?_ rfl rfl
    have hstage : Stage k t w pr _ _ := .data [] (k.sndNxt + UInt32.ofNat moved.length) k.xmit _ rest hdata buf
    rw [List.append_nil] at hstage
    exact hk2 ▸ hstage
  obtain ⟨segs, hm3⟩ := flushData_moments h3 hk2 hdata hm2
  exact ⟨t, w, pr, segs, hk₁, hm3.writeRest (hm3.now.setBuffer [])⟩

/-! ### Where a flush is left -/

/-- A completed flush is a transmission with a new congestion window. -/
theorem transmit_of_flush (hu : k.updated = true) (h : k.flush b = some f) :
    ∃ cwnd g, k.transmit b = some (cwnd, g) ∧
      settleCwnd b.profile cwnd k.resent g.lost g.change g.kcb = some f.kcb ∧ f.writes = g.writes := by
  rw [flush_eq_transmit hu] at h
  obtain ⟨⟨cwnd, g⟩, hg, h⟩ := Option.bind_eq_some_iff.mp h
  obtain ⟨k', hk', rfl⟩ := Option.map_eq_some_iff.mp h
  exact ⟨cwnd, g, hg, hk', rfl⟩

/-- A flush is completed, or left at one of its writes, before which the others were completed. -/
theorem stopAt_cases (f : Flushing) (cut : Option ℕ) :
    f.stopAt cut = (f.kcb, datagrams f.writes) ∨
      ∃ i w, f.writes[i]? = some w ∧ f.stopAt cut = (w, datagrams (f.writes.take i)) := by
  cases cut with
  | none => exact Or.inl rfl
  | some i =>
    cases hw : f.writes[i]? with
    | none =>
      left
      unfold stopAt
      rw [Option.bind_some, hw]
    | some w =>
      refine Or.inr ⟨i, w, hw, ?_⟩
      unfold stopAt
      rw [Option.bind_some, hw]
      rfl

/-- A segment whose bytes are there is in the buffer or in a datagram. -/
theorem Held.datagrams {writes : List Kcb} (h : Held seg k writes) :
    seg.encode <:+: k.buffer ∨ ∃ d ∈ Flushing.datagrams writes, seg.encode <:+: d := by
  rcases h with h | ⟨w, hw, h⟩
  · exact Or.inl h
  · refine Or.inr ⟨w.buffer, List.mem_filter.mpr ⟨List.mem_map_of_mem hw, ?_⟩, h⟩
    have hlen := h.length_le
    rw [length_encode] at hlen
    have hpos : 0 < kcpOverhead := by decide
    have hne : w.buffer ≠ [] := List.ne_nil_of_length_pos (by omega)
    simp [hne]

end NetProtocols.Kcp
