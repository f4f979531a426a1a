import NetProtocols.Kcp.Emission
import NetProtocols.Kcp.OneFlush

/-!
# NetProtocols.Kcp.Told — what a completed flush cannot fail to send

The other side of `Heard`: the segments of a completed flush stand in datagrams that are handed to the socket, control
segments first, and `snd_queue` is emptied into the window as far as that goes.

* `flush_puts`: a segment of the flush stands in a datagram, behind segments of the flush only.
* `flush_fills`: when a flush ends, `snd_queue` is empty or the window is used up; `cwnd_flush`: the congestion window
  is open.
* `flush_sends_head`, `flush_acks`, `flush_asks`, `flush_answers`: the four segments that are waited for.
-/

namespace NetProtocols.Kcp

open Kcb Flushing

variable {k : Kcb} {f : Flushing} {pr : UInt32} {moved : List Segment}

/-! ### Where a segment stands -/

/-- An element of a list in parts stands in one of the parts, behind elements that were before it. -/
theorem part_of_flatten {α : Type} {parts : List (List α)} {pre post : List α} {x : α}
    (h : parts.flatten = pre ++ x :: post) :
    ∃ a c, a ++ x :: c ∈ parts ∧ a <:+ pre ∧ c <+: post := by
  rcases List.flatten_eq_append_iff.mp h with ⟨as, bs, rfl, rfl, hx⟩ | ⟨as, bs, y, cs, ds, rfl, rfl, hx⟩
  · obtain ⟨es, c, ds, rfl, -, rfl⟩ := List.flatten_eq_cons_iff.mp hx.symm
    exact ⟨[], c, by simp, List.nil_suffix, List.prefix_append _ _⟩
  · obtain ⟨rfl, rfl⟩ := List.cons.inj hx
    exact ⟨bs, cs, by simp, List.suffix_append _ _, List.prefix_append _ _⟩

theorem control_of_mem_controls {s : Segment} (h : s ∈ k.controls pr) :
    Control k s ∧ (s.cmd = kcpCmdAck ∨ s.cmd = kcpCmdWask ∨ s.cmd = kcpCmdWins) := by
  have hscratch : Control k (k.acklist.foldl ackSegment k.scratch) := by
    refine List.foldlRecOn k.acklist ackSegment ⟨rfl, rfl, rfl, rfl⟩ fun seg hc a _ => ?_
    exact ⟨hc.conv, hc.una, hc.wnd, hc.data⟩
  have hprobe : ∀ {ask : UInt32} {cmd : UInt8}, s ∈ probeSegment ask cmd pr (k.acklist.foldl ackSegment k.scratch) →
      Control k s ∧ s.cmd = cmd := by
    intro ask cmd hs
    unfold probeSegment at hs
    split_ifs at hs
    · obtain rfl := List.mem_singleton.mp hs
      exact ⟨⟨hscratch.conv, hscratch.una, hscratch.wnd, hscratch.data⟩, rfl⟩
    · exact absurd hs List.not_mem_nil
  rcases List.mem_append.mp h with h | h
  · rcases List.mem_append.mp h with h | h
    · obtain ⟨a, -, rfl⟩ := List.mem_map.mp h
      exact ⟨⟨rfl, rfl, rfl, rfl⟩, Or.inl rfl⟩
    · obtain ⟨hc, hcmd⟩ := hprobe h
      exact ⟨hc, Or.inr (Or.inl hcmd)⟩
  · obtain ⟨hc, hcmd⟩ := hprobe h
    exact ⟨hc, Or.inr (Or.inr hcmd)⟩

theorem validCmd_of_control {s : Segment} (h : s.cmd = kcpCmdAck ∨ s.cmd = kcpCmdWask ∨ s.cmd = kcpCmdWins) :
    validCmd s.cmd = true := by
  rcases h with h | h | h <;> rw [h] <;> decide

/-- **A segment of the flush stands in a datagram**, behind segments of the flush that come before it. -/
theorem flush_puts (hu : k.updated = true) (hs : Sized k) (hbuf : k.buffer = []) (hf : k.flush shipped = some f)
    (ht : Traced shipped k f pr moved) {pre post : List Segment} {x : Segment}
    (hsegs : k.controls pr ++ ((k.window moved).filter k.sends).map k.restamp = pre ++ x :: post) :
    ∃ a c, a <:+ pre ∧ c <+: post ∧ encodes (a ++ x :: c) ∈ datagrams f.writes := by
  obtain ⟨parts, rest, hparts, hrest, hflat⟩ := ht.trace.packed hbuf
  have hnil : f.kcb.buffer = [] := (flush_emitted hu hs hf).2.2
  rw [hnil] at hrest
  obtain rfl := encodes_eq_nil.mp hrest.symm
  rw [List.append_nil, hsegs] at hflat
  obtain ⟨a, c, hmem, ha, hc⟩ := part_of_flatten hflat
  refine ⟨a, c, ha, hc, List.mem_filter.mpr ⟨?_, ?_⟩⟩
  · rw [hparts]
    exact List.mem_map_of_mem hmem
  · have hne : encodes (a ++ x :: c) ≠ [] := fun h => by simpa using encodes_eq_nil.mp h
    simpa using hne

/-! ### What a flush leaves behind -/

/-- Filling the window stops at its edge, or when nothing is left. -/
theorem fillWindow_full {p : Profile} {edge wnd : UInt32} {queue : List Segment} {k' : Kcb}
    (h : fillWindow p edge wnd queue k = some k') : k'.sndQueue = [] ∨ ¬ k'.sndNxt < edge := by
  induction queue generalizing k with
  | nil =>
    obtain rfl := Option.some.inj h
    exact Or.inl rfl
  | cons seg rest ih =>
    unfold fillWindow at h
    split_ifs at h with hlt
    · obtain ⟨nxt, -, h⟩ := Option.bind_eq_some_iff.mp h
      exact ih h
    · obtain rfl := Option.some.inj h
      exact Or.inr hlt

/-- **When a flush ends, `snd_queue` is empty or the window is used up.** -/
theorem flush_fills {b : Build} (hu : k.updated = true) (h : k.flush b = some f) :
    f.kcb.sndQueue = [] ∨ ¬ f.kcb.sndNxt < k.sndUna + k.flushWnd := by
  unfold Kcb.flush at h
  rw [if_neg (by simp [hu])] at h
  simp only [Option.bind_eq_bind, Option.bind_eq_some_iff, Option.some.injEq] at h
  obtain ⟨f1, h1, edge, he, k2, h2, f3, h3, k4, h4, rfl⟩ := h
  obtain rfl := Profile.add_eq_some he
  obtain ⟨t, w, pr, buf, -, hbuf⟩ := flushControl_eq h1
  have hedge : f1.kcb.sndUna + f1.kcb.flushWnd = k.sndUna + k.flushWnd := by
    rw [hbuf]
    rfl
  obtain ⟨l, xmit, buf', e3⟩ := flushData_eq h3
  obtain ⟨s, c, i, rfl⟩ := settleCwnd_eq h4
  have hsame : ((f3.writeRest b).kcb.setCwnd s c i).sndQueue = k2.sndQueue ∧
      ((f3.writeRest b).kcb.setCwnd s c i).sndNxt = k2.sndNxt := by
    have hdata : f3.kcb.sndQueue = k2.sndQueue ∧ f3.kcb.sndNxt = k2.sndNxt := by
      rw [e3]
      exact ⟨rfl, rfl⟩
    unfold writeRest
    split_ifs <;> exact hdata
  show ((f3.writeRest b).kcb.setCwnd s c i).sndQueue = [] ∨ ¬ ((f3.writeRest b).kcb.setCwnd s c i).sndNxt < _
  rw [hsame.1, hsame.2, ← hedge]
  exact fillWindow_full h2

theorem cwnd_flush {b : Build} (hu : k.updated = true) (h : k.flush b = some f) : f.kcb.cwnd ≠ 0 := by
  unfold Kcb.flush at h
  rw [if_neg (by simp [hu])] at h
  simp only [Option.bind_eq_bind, Option.bind_eq_some_iff, Option.some.injEq] at h
  obtain ⟨f1, -, edge, -, k2, -, f3, -, k4, h4, rfl⟩ := h
  have hopen : ∀ (x : Kcb) (incr : UInt32),
      (if x.cwnd < 1 then { x with cwnd := 1, incr := incr } else x).cwnd ≠ 0 := by
    intro x incr
    split_ifs with hlt
    · show (1 : UInt32) ≠ 0
      decide
    · intro hz
      rw [hz] at hlt
      exact hlt (by decide)
  simp only [settleCwnd, Option.bind_eq_bind, Option.bind_eq_some_iff, Option.some.injEq] at h4
  obtain ⟨k5, -, rfl⟩ := h4
  exact hopen _ _

/-- The peer's window, and what is not the send side's, a flush leaves alone, apart from the acknowledgements. -/
theorem rest_flush {b : Build} (hu : k.updated = true) (h : k.flush b = some f) :
    f.kcb.rmtWnd = k.rmtWnd ∧ f.kcb.sndUna = k.sndUna ∧ f.kcb.settings = k.settings ∧
      f.kcb.recvSide = (k.setAcklist []).recvSide ∧ f.kcb.current = k.current ∧ f.kcb.updated = true := by
  obtain ⟨t, w, pr, -, nxt, buf, queue, xmit, buffer, s, c, i, e⟩ := flush_eq hu h
  simp only [e, setCwnd, setBuffer, setSndBuf, setSend, setProbes, setAcklist, settings, recvSide, hu, true_and]

/-! ### The segments that are waited for -/

section Puts

variable (hu : k.updated = true) (hs : Sized k) (hbuf : k.buffer = []) (hf : k.flush shipped = some f)
  (ht : Traced shipped k f pr moved)

include hu hs hbuf hf ht

/-- **The first segment of `snd_buf`**, when its time has come: it is the first with data in its datagram. -/
theorem flush_sends_head {h : Segment} {l : List Segment} (hb : k.sndBuf = h :: l) (hsend : k.sends h = true) :
    ∃ a c, (∀ y ∈ a, y ∈ k.controls pr) ∧ encodes (a ++ k.restamp h :: c) ∈ datagrams f.writes := by
  have hw : ((k.window moved).filter k.sends).map k.restamp =
      k.restamp h :: ((l ++ k.entered k.sndNxt moved).filter k.sends).map k.restamp := by
    rw [window, hb, List.cons_append, List.filter_cons_of_pos hsend, List.map_cons]
  obtain ⟨a, c, ha, -, hmem⟩ := flush_puts hu hs hbuf hf ht (by rw [hw])
  exact ⟨a, c, fun y hy => ha.subset hy, hmem⟩

/-- A control segment stands in a datagram behind control segments. -/
theorem flush_puts_control {x : Segment} (hx : x ∈ k.controls pr) :
    ∃ a c, (∀ y ∈ a, y ∈ k.controls pr) ∧ encodes (a ++ x :: c) ∈ datagrams f.writes := by
  obtain ⟨pre, post, hsplit⟩ := List.append_of_mem hx
  have hsegs : k.controls pr ++ ((k.window moved).filter k.sends).map k.restamp =
      pre ++ x :: (post ++ ((k.window moved).filter k.sends).map k.restamp) := by
    rw [hsplit, List.append_assoc, List.cons_append]
  obtain ⟨a, c, ha, -, hmem⟩ := flush_puts hu hs hbuf hf ht hsegs
  refine ⟨a, c, fun y hy => ?_, hmem⟩
  rw [hsplit]
  exact List.mem_append_left _ (ha.subset hy)

/-- **An acknowledgement that is queued.** -/
theorem flush_acks {a : UInt32 × UInt32} (ha : a ∈ k.acklist) :
    ∃ before x after, (∀ y ∈ before ++ [x], y ∈ k.controls pr) ∧ x.cmd = kcpCmdAck ∧ x.sn = a.1 ∧
      encodes (before ++ x :: after) ∈ datagrams f.writes := by
  have hx : ackSegment k.scratch a ∈ k.controls pr :=
    List.mem_append_left _ (List.mem_append_left _ (List.mem_map_of_mem ha))
  obtain ⟨before, after, hb, hmem⟩ := flush_puts_control hu hs hbuf hf ht hx
  refine ⟨before, _, after, fun y hy => ?_, rfl, rfl, hmem⟩
  rcases List.mem_append.mp hy with hy | hy
  · exact hb y hy
  · exact List.mem_singleton.mp hy ▸ hx

/-- **The question about the window**, when it is due, from a side with no data to send. -/
theorem flush_asks (hdue : k.ProbeDue) (hw : k.window moved = []) :
    ∃ before x after, (∀ y ∈ before ++ x :: after, y ∈ k.controls pr) ∧ x.cmd = kcpCmdWask ∧
      encodes (before ++ x :: after) ∈ datagrams f.writes := by
  obtain ⟨t, w, hflags⟩ := ht.flags
  have hask : pr &&& kcpAskSend ≠ 0 := (probe_asks hflags).1.mpr (Or.inl hdue)
  have hx : { k.acklist.foldl ackSegment k.scratch with cmd := kcpCmdWask } ∈ k.controls pr := by
    refine List.mem_append_left _ (List.mem_append_right _ ?_)
    rw [probeSegment, if_pos hask]
    exact List.mem_singleton_self _
  obtain ⟨pre, post, hsplit⟩ := List.append_of_mem hx
  have hsegs : k.controls pr ++ ((k.window moved).filter k.sends).map k.restamp =
      pre ++ { k.acklist.foldl ackSegment k.scratch with cmd := kcpCmdWask } :: post := by
    rw [hw, List.filter_nil, List.map_nil, List.append_nil, hsplit]
  obtain ⟨a, c, ha, hc, hmem⟩ := flush_puts hu hs hbuf hf ht hsegs
  refine ⟨a, _, c, fun y hy => ?_, rfl, hmem⟩
  rw [hsplit]
  simp only [List.mem_append, List.mem_cons] at hy ⊢
  exact hy.imp (ha.subset ·) (Or.imp_right (hc.subset ·))

/-- **The answer about the window**, from a side that sends no data: the last segment of its datagram is a control
segment. -/
theorem flush_answers (htell : k.probe &&& kcpAskTell ≠ 0) (hw : k.window moved = []) :
    ∃ before x, (∀ y ∈ before ++ [x], y ∈ k.controls pr) ∧ encodes (before ++ [x]) ∈ datagrams f.writes := by
  obtain ⟨t, w, hflags⟩ := ht.flags
  have htell' : pr &&& kcpAskTell ≠ 0 := by
    have e : pr &&& kcpAskTell = k.probe &&& kcpAskTell := (probe_asks hflags).2
    rw [e]
    exact htell
  have hlast : k.controls pr = (k.acklist.map (ackSegment k.scratch) ++
      probeSegment kcpAskSend kcpCmdWask pr (k.acklist.foldl ackSegment k.scratch)) ++
      [{ k.acklist.foldl ackSegment k.scratch with cmd := kcpCmdWins }] := by
    rw [controls, probeSegment, probeSegment, if_pos htell']
  have hsegs : k.controls pr ++ ((k.window moved).filter k.sends).map k.restamp =
      (k.acklist.map (ackSegment k.scratch) ++
        probeSegment kcpAskSend kcpCmdWask pr (k.acklist.foldl ackSegment k.scratch)) ++
      { k.acklist.foldl ackSegment k.scratch with cmd := kcpCmdWins } :: [] := by
    rw [hw, List.filter_nil, List.map_nil, List.append_nil, hlast]
  obtain ⟨a, c, ha, hc, hmem⟩ := flush_puts hu hs hbuf hf ht hsegs
  obtain rfl := List.prefix_nil.mp hc
  refine ⟨a, _, fun y hy => ?_, hmem⟩
  rw [hlast]
  rcases List.mem_append.mp hy with hy | hy
  · exact List.mem_append_left _ (ha.subset hy)
  · exact List.mem_append_right _ hy

end Puts

end NetProtocols.Kcp
