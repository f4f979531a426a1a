import NetProtocols.Kcp.Acks
import NetProtocols.Kcp.Calls
import NetProtocols.Kcp.Link

/-!
# NetProtocols.Kcp.Origin — where what is received comes from, against any peer

Nothing is delivered or acknowledged that did not come in.  Whatever byte strings `input` is given, a message that
`recv` returns is put together from the data of consecutive numbers, starting with 0, each as it stands in one of these
byte strings; and an acknowledgement that is sent answers a segment that stands there.

* `Segment.In`: the segment stands in a byte string, where `input` may read it; `CameIn`.
* `Holding`: everything a control block has stored, and every acknowledgement it owes or is about to send, comes from
  segments with a property.
* `Grounded`, `grounded_exec`: the same of the messages and the datagrams of an endpoint; one call.
* `received_origin`: every run.
-/

namespace NetProtocols.Kcp

open Kcb

variable {b : Build} {p : Profile} {conv : UInt32} {C C' : Segment → Prop}

/-- The segment stands in the byte string: `input` may read it there, as data of the conversation. -/
def Segment.In (conv : UInt32) (d : List UInt8) (s : Segment) : Prop :=
  ∃ buf h rest, buf <:+ d ∧ readHeader buf = some (h, rest) ∧ h.accepted conv rest = true ∧ h.cmd = kcpCmdPush ∧
    s = Scan.segmentOf h (rest.take h.len.toNat)

/-- The segment stands in one of the byte strings. -/
def CameIn (conv : UInt32) (inputs : List (List UInt8)) (s : Segment) : Prop := ∃ d ∈ inputs, s.In conv d

theorem CameIn.append {inputs inputs' : List (List UInt8)} {s : Segment} (h : CameIn conv inputs s) :
    CameIn conv (inputs ++ inputs') s := by
  obtain ⟨d, hd, hs⟩ := h
  exact ⟨d, List.mem_append_left _ hd, hs⟩

/-- A segment with the property has this number and this time. -/
def Answers (C : Segment → Prop) (sn ts : UInt32) : Prop := ∃ s, C s ∧ s.sn = sn ∧ s.ts = ts

/-- A segment that is sent; an acknowledgement answers a segment with the property. -/
def AckFor (C : Segment → Prop) (seg : Segment) : Prop := seg.cmd = kcpCmdAck → Answers C seg.sn seg.ts

theorem Answers.mono {sn ts : UInt32} (h : Answers C sn ts) (hC : ∀ s, C s → C' s) : Answers C' sn ts := by
  obtain ⟨s, hs, hrest⟩ := h
  exact ⟨s, hC s hs, hrest⟩

theorem AckFor.mono {seg : Segment} (h : AckFor C seg) (hC : ∀ s, C s → C' s) : AckFor C' seg :=
  fun hack => (h hack).mono hC

/-! ### What a control block holds -/

/-- What was received, and what is to be acknowledged, comes from segments with the property. -/
structure Holding (C : Segment → Prop) (k : Kcb) : Prop where
  segs : ∀ s ∈ k.rcvQueue ++ k.rcvBuf, C s
  acks : ∀ a ∈ k.acklist, Answers C a.1 a.2
  pushes : ∀ f ∈ k.sendSide.sndBuf, f.cmd = kcpCmdPush
  buffer : Made (AckFor C) k.buffer

variable {k k' : Kcb}

theorem Holding.mono (h : Holding C k) (hC : ∀ s, C s → C' s) : Holding C' k :=
  ⟨fun s hs => hC s (h.segs s hs), fun a ha => (h.acks a ha).mono hC, h.pushes,
    h.buffer.mono fun _ hseg => hseg.mono hC⟩

theorem Holding.of_eq (h : Holding C k) (hsegs : ∀ s ∈ k'.rcvQueue ++ k'.rcvBuf, C s)
    (hacks : ∀ a ∈ k'.acklist, Answers C a.1 a.2) (hsnd : k'.sendSide.sndBuf ⊆ k.sendSide.sndBuf)
    (hbuffer : k'.buffer = k.buffer) : Holding C k' :=
  ⟨hsegs, hacks, fun f hf => h.pushes f (hsnd hf), hbuffer ▸ h.buffer⟩

theorem holding_flushStep {k₀ : Kcb} (hs : FlushStep b k₀ k k') (h : Holding C k) : Holding C k' := by
  have hrecv : (∀ s ∈ k'.rcvQueue ++ k'.rcvBuf, C s) ∧ ∀ a ∈ k'.acklist, Answers C a.1 a.2 := by
    obtain ⟨hq, hb⟩ := queues_flushStep hs
    rw [hq, hb]
    refine ⟨h.segs, fun a ha => ?_⟩
    rcases recvSide_flushStep hs with e | e
    · have hack : k'.acklist = k.acklist := congrArg RecvSide.acklist e
      exact h.acks a (hack ▸ ha)
    · have hack : k'.acklist = [] := congrArg RecvSide.acklist e
      rw [hack] at ha
      exact absurd ha List.not_mem_nil
  have hpushes : ∀ f ∈ k'.sendSide.sndBuf, f.cmd = kcpCmdPush := by
    rcases sendSide_flushStep hs with e | ⟨seg, rest, -, -, e⟩
    · rw [e]
      exact h.pushes
    · rw [e]
      intro f hf
      rcases List.mem_append.mp hf with hf | hf
      · exact h.pushes f hf
      · rw [List.mem_singleton.mp hf]
  refine ⟨hrecv.1, hrecv.2, hpushes, made_flushStep hs ?_ ?_ h.buffer⟩
  · rintro seg - (⟨-, hmem⟩ | hw | hw) hack
    · exact h.acks _ hmem
    · exact absurd (hw.symm.trans hack) (by decide)
    · exact absurd (hw.symm.trans hack) (by decide)
  · rintro seg hmem - hack
    have hpush : seg.cmd = kcpCmdPush := h.pushes seg.fixed (List.mem_map_of_mem hmem)
    exact absurd (hpush.symm.trans hack) (by decide)

/-- A segment that is handled: what it stores is the segment itself, and so is what it acknowledges. -/
theorem holding_taken {s s' : Scan} {h : Header} (ht : Scan.Taken p s h s') (hk : Holding C s.kcb)
    (hseg : h.cmd = kcpCmdPush → C (Scan.segmentOf h (s.buf.take h.len.toNat))) : Holding C s'.kcb := by
  have hsnd : s'.kcb.sendSide.sndBuf ⊆ s.kcb.sendSide.sndBuf := (shrinks_taken ht).1.buf.subset
  have hbuffer : s'.kcb.buffer = s.kcb.buffer := (Scan.settings_taken ht).2
  have hack : h.cmd = kcpCmdPush → ∀ a ∈ s.kcb.acklist ++ [(h.sn, h.ts)], Answers C a.1 a.2 := by
    intro hpush a ha
    rcases List.mem_append.mp ha with ha | ha
    · exact hk.acks a ha
    · rw [List.mem_singleton.mp ha]
      exact ⟨_, hseg hpush, rfl, rfl⟩
  cases ht with
  | @ack k m hc hupd =>
    have hsame : (k.parseAck h.sn).shrinkBuf.recvSide = s.kcb.recvSide := by
      rcases hupd with rfl | ⟨rtt, hupd⟩
      · unfold parseAck
        split_ifs <;> rfl
      · obtain ⟨srtt, rttval, rto, rfl⟩ := updateAck_eq hupd
        unfold parseAck
        split_ifs <;> rfl
    refine hk.of_eq (fun x hx => ?_) (fun a ha => ?_) hsnd hbuffer
    · have hq : (k.parseAck h.sn).shrinkBuf.rcvQueue = s.kcb.rcvQueue := congrArg RecvSide.rcvQueue hsame
      have hb : (k.parseAck h.sn).shrinkBuf.rcvBuf = s.kcb.rcvBuf := congrArg RecvSide.rcvBuf hsame
      rw [hq, hb] at hx
      exact hk.segs x hx
    · have ha' : (k.parseAck h.sn).shrinkBuf.acklist = s.kcb.acklist := congrArg RecvSide.acklist hsame
      exact hk.acks a (ha' ▸ ha)
  | below hc => exact hk.of_eq hk.segs (hack hc) hsnd hbuffer
  | @inside k hc hsn hle hdata =>
    have hle' : s.kcb.rcvNxt ≤ (Scan.segmentOf h (s.buf.take h.len.toNat)).sn := hle
    obtain ⟨l, hl, e⟩ := parseData_inside (p := p)
      (k := (s.kcb.onHeader h).setAcklist (s.kcb.acklist ++ [(h.sn, h.ts)])) hle' hsn
    rw [e] at hdata
    obtain ⟨n, nxt, rfl⟩ := moveData_eq_moved hdata
    refine hk.of_eq (fun x hx => ?_) (hack hc) hsnd hbuffer
    -- what was moved stands in one of the two lists before
    have hx' : x ∈ s.kcb.rcvQueue ++ l := by
      simp only [moved, List.append_assoc, List.take_append_drop] at hx
      exact hx
    rcases List.mem_append.mp hx' with hx' | hx'
    · exact hk.segs x (List.mem_append_left _ hx')
    · rcases hl.mem hx' with hx' | rfl
      · exact hk.segs x (List.mem_append_right _ hx')
      · exact hseg hc
  | above | wask | other => exact hk.of_eq hk.segs hk.acks hsnd hbuffer

/-- **`input`** stores and acknowledges what stands in the byte string. -/
theorem holding_input {d : List UInt8} {r : Except IoError ℕ} (h : k.input p d = some (r, k'))
    (hk : Holding C k) (hd : ∀ s, s.In k.conv d → C s) : Holding C k' := by
  refine input_rule (I := fun s => Holding C s.kcb ∧ s.buf <:+ d ∧ s.kcb.conv = k.conv) (J := Holding C) h
    ⟨hk, List.suffix_refl d, rfl⟩ (fun _ hs => hs.1) ?_ ?_
  · rintro s s' ⟨i1, i2, i3⟩ hst
    obtain ⟨hd', rest, hread, hacc, ht⟩ := Scan.inputStep_ok hst
    have htaken := Scan.taken_of_takeSegment ht
    have hconv : s'.kcb.conv = s.kcb.conv := congrArg Settings.conv (Scan.settings_taken htaken).1
    have hrest : rest <:+ d := (readHeader_suffix hread).trans i2
    refine ⟨holding_taken htaken i1 fun hc => ?_, (Kcb.buf_taken htaken).trans hrest, hconv.trans i3⟩
    exact hd _ ⟨s.buf, hd', rest, i2, hread, i3 ▸ hacc, hc, rfl⟩
  · rintro s k' ⟨i1, -, -⟩ hf
    obtain ⟨hr, hs⟩ := finishInput_sides hf
    obtain ⟨l, c, i, -, rfl⟩ := finishInput_eq hf
    exact i1.of_eq i1.segs i1.acks (hs ▸ List.Subset.refl _) rfl

/-! ### Over a run -/

/-- The messages that were received, by the segments that they were put together from. -/
structure PutTogether (groups : List (List Segment)) (e : Endpoint) : Prop where
  received : e.received = groups.map fun g => g.flatMap Segment.data
  taken : e.taken = groups.flatten
  nonempty : ∀ g ∈ groups, g ≠ []

/-- Everything that an endpoint has received or sent goes back to segments with the property. -/
structure Grounded (C : Segment → Prop) (e : Endpoint) : Prop where
  holding : Holding C e.kcb
  taken : ∀ s ∈ e.taken, C s
  written : ∀ d ∈ e.written, Made (AckFor C) d
  groups : ∃ groups, PutTogether groups e

variable {e e' : Endpoint}

theorem Grounded.mono (h : Grounded C e) (hC : ∀ s, C s → C' s) : Grounded C' e :=
  ⟨h.holding.mono hC, fun s hs => hC s (h.taken s hs), fun d hd => (h.written d hd).mono fun _ hseg => hseg.mono hC,
    h.groups⟩

theorem Grounded.keeps (h : Grounded C e) (hk : Holding C e'.kcb) (ht : e'.taken = e.taken)
    (hr : e'.received = e.received) (hw : e'.written = e.written) : Grounded C e' := by
  obtain ⟨groups, hg⟩ := h.groups
  exact ⟨hk, ht ▸ h.taken, hw ▸ h.written, groups, ⟨hr.trans hg.received, ht.trans hg.taken, hg.nonempty⟩⟩

theorem headMessage_ne_nil {l : List Segment} (h : Whole l) : headMessage l ≠ [] := by
  obtain ⟨seg, rest, rfl, -⟩ := h
  unfold headMessage
  split_ifs <;> exact List.cons_ne_nil _ _

/-- **`recv`** returns what stands at the front of the queue. -/
theorem grounded_recv {k₁ : Kcb} {probe : UInt32} (h : Grounded C e) (hw : Whole e.kcb.rcvQueue)
    (h1 : moveData p e.kcb.popped = some k₁) :
    Grounded C
      { e with
        kcb := k₁.setProbe probe
        received := e.received ++ [(headMessage e.kcb.rcvQueue).flatMap Segment.data]
        taken := e.taken ++ headMessage e.kcb.rcvQueue } := by
  obtain ⟨n, nxt, rfl⟩ := moveData_eq_moved h1
  obtain ⟨groups, hg⟩ := h.groups
  have hsplit := headMessage_append_drop e.kcb.rcvQueue
  refine ⟨h.holding.of_eq (fun s hs => ?_) h.holding.acks (List.Subset.refl _) rfl, fun s hs => ?_, h.written,
    groups ++ [headMessage e.kcb.rcvQueue], ?_, ?_, ?_⟩
  · have hs' : s ∈ e.kcb.popped.rcvQueue ++ e.kcb.popped.rcvBuf := by
      simp only [setProbe, moved, List.append_assoc, List.take_append_drop] at hs
      exact hs
    rcases List.mem_append.mp hs' with hs' | hs'
    · exact h.holding.segs s (List.mem_append_left _ (List.mem_of_mem_drop hs'))
    · exact h.holding.segs s (List.mem_append_right _ hs')
  · rcases List.mem_append.mp hs with hs | hs
    · exact h.taken s hs
    · exact h.holding.segs s (List.mem_append_left _ (hsplit ▸ List.mem_append_left _ hs))
  · simp only [hg.received, List.map_append, List.map_singleton]
  · simp only [hg.taken, List.flatten_append, List.flatten_singleton]
  · intro g hmem
    rcases List.mem_append.mp hmem with hmem | hmem
    · exact hg.nonempty g hmem
    · rw [List.mem_singleton.mp hmem]
      exact headMessage_ne_nil hw

theorem grounded_flushed {f : Flushing} {cut : Option ℕ} (h : Grounded C e)
    (hf : Follows b e.kcb e.kcb f.kcb f.writes) : Grounded C (e.flushed cut f) := by
  obtain ⟨hk, hw⟩ := flushed_rule (I := Holding C) cut hf h.holding fun _ _ hi hs => holding_flushStep hs hi
  obtain ⟨groups, hg⟩ := h.groups
  refine ⟨hk, h.taken, fun d hd => ?_, groups, hg.received, hg.taken, hg.nonempty⟩
  rcases List.mem_append.mp hd with hd | hd
  · exact h.written d hd
  · obtain ⟨w, hw, rfl⟩ := hw d hd
    exact hw.buffer

/-- **One call.** -/
theorem grounded_exec {op : Op} (h : Grounded C e) (hex : e.exec b op = some e')
    (hop : ∀ d ∈ op.inputs, ∀ s, s.In e.kcb.conv d → C s) : Grounded C e' := by
  cases op <;> simp only [Endpoint.exec, Option.map_eq_some_iff] at hex
  case send buf =>
    obtain ⟨⟨r, k'⟩, hs, rfl⟩ := hex
    obtain ⟨q, rfl⟩ := send_eq hs
    have hk : Holding C (e.kcb.setSndQueue q) :=
      h.holding.of_eq h.holding.segs h.holding.acks (List.Subset.refl _) rfl
    cases r <;> exact h.keeps hk rfl rfl rfl
  case recv cap =>
    obtain ⟨⟨r, k'⟩, hs, rfl⟩ := hex
    rcases recv_cases hs with ⟨err, rfl, rfl⟩ | ⟨rfl, hw, k₁, probe, h1, rfl⟩
    · exact h
    · exact grounded_recv h hw h1
  case input d =>
    obtain ⟨⟨r, k'⟩, hs, rfl⟩ := hex
    exact h.keeps (holding_input hs h.holding (hop d (List.mem_singleton_self d))) rfl rfl rfl
  case update now cut =>
    obtain ⟨f, hf, rfl⟩ := hex
    exact grounded_flushed h (update_follows hf)
  case flush cut =>
    obtain ⟨f, hf, rfl⟩ := hex
    exact grounded_flushed h (flush_follows hf rfl)

section Run

variable {c : Config} {ops : List Op}

theorem grounded_start (conv : UInt32) (c : Config) : Grounded C (Endpoint.start conv c) := by
  obtain ⟨sndWnd, rcvWnd, nodelay, rxMinrto, interval, fastresend, h⟩ := configured_eq conv c
  rw [Endpoint.start, h]
  exact ⟨⟨fun s hs => absurd hs List.not_mem_nil, fun a ha => absurd ha List.not_mem_nil,
    fun f hf => absurd hf List.not_mem_nil, made_nil⟩, fun s hs => absurd hs List.not_mem_nil,
    fun d hd => absurd hd List.not_mem_nil, [], rfl, rfl, fun g hg => absurd hg List.not_mem_nil⟩

theorem conv_start (conv : UInt32) (c : Config) : (Endpoint.start conv c).kcb.conv = conv := by
  obtain ⟨sndWnd, rcvWnd, nodelay, rxMinrto, interval, fastresend, h⟩ := configured_eq conv c
  rw [Endpoint.start, h]
  rfl

theorem grounded_run (hr : run (Endpoint.exec b) (Endpoint.start conv c) ops = some e) :
    Grounded (CameIn conv (ops.flatMap Op.inputs)) e := by
  refine run_history (s := Endpoint.start conv c) (I := fun ops e => Grounded (CameIn conv (ops.flatMap Op.inputs)) e)
    (grounded_start conv c) ?_ hr
  intro as e op e' hrun h hex
  have hconv : e.kcb.conv = conv := (congrArg Settings.conv (settings_run hrun)).trans (conv_start conv c)
  rw [List.flatMap_append, List.flatMap_singleton]
  refine grounded_exec (h.mono fun s hs => hs.append) hex fun d hd s hs => ?_
  exact ⟨d, List.mem_append_right _ hd, hconv ▸ hs⟩

/-- **What is received comes from what came in.**  Whatever byte strings `input` is given: a message that `recv`
returns is put together from the data of consecutive numbers, the first message beginning with 0 and each of the others
where the one before it ends, and each of these segments stands in one of the byte strings; a number that does not come
in stops the delivery before it; and every acknowledgement that is sent answers a segment that stands there. -/
theorem received_origin (hr : run (Endpoint.exec b) (Endpoint.start conv c) ops = some e) :
    (∃ groups : List (List Segment),
      e.received = (groups.map fun g => g.flatMap Segment.data) ∧ (∀ g ∈ groups, g ≠ []) ∧
        groups.flatten.map Segment.num = List.range groups.flatten.length ∧
        (∀ s ∈ groups.flatten, CameIn conv (ops.flatMap Op.inputs) s) ∧
        ∀ n, (∀ s, CameIn conv (ops.flatMap Op.inputs) s → s.num ≠ n) →
          groups.flatten.length ≤ n ∧ e.kcb.rcvNxt.toNat ≤ n) ∧
      ∀ d ∈ e.written, Made (AckFor (CameIn conv (ops.flatMap Op.inputs))) d := by
  have h := grounded_run hr
  have hrecv := recvInv_run hr
  obtain ⟨groups, hg⟩ := h.groups
  -- what was taken and what waits in the queue are numbered through
  have hnumbers : (groups.flatten ++ e.kcb.rcvQueue).map Segment.num = List.range e.kcb.rcvNxt.toNat :=
    hg.taken ▸ hrecv.numbers
  have hlen : groups.flatten.length + e.kcb.rcvQueue.length = e.kcb.rcvNxt.toNat := by
    have hcount := congrArg List.length hnumbers
    rwa [List.length_map, List.length_append, List.length_range] at hcount
  refine ⟨⟨groups, hg.received, hg.nonempty, ?_, hg.taken ▸ h.taken, fun n hn => ?_⟩, h.written⟩
  · have hfront := congrArg (List.take groups.flatten.length) hnumbers
    rw [List.map_append, List.take_left' (List.length_map _), List.take_range, Nat.min_eq_left (by omega)] at hfront
    exact hfront
  · have hbelow : e.kcb.rcvNxt.toNat ≤ n := by
      by_contra hlt
      have hmem : n ∈ (groups.flatten ++ e.kcb.rcvQueue).map Segment.num := by
        rw [hnumbers, List.mem_range]
        omega
      obtain ⟨s, hs, hsn⟩ := List.mem_map.mp hmem
      refine hn s ?_ hsn
      rcases List.mem_append.mp hs with hs | hs
      · exact h.taken s (hg.taken ▸ hs)
      · exact h.holding.segs s (List.mem_append_left _ hs)
    omega

end Run

/-- The segment with number 2 comes in, and the first two in the wrong order; number 3 does not. -/
def outOfOrder : List Op :=
  [.input (encodes [{ conv := 1, cmd := kcpCmdPush, sn := 4, data := [3] }]),
    .input (encodes [{ conv := 1, cmd := kcpCmdPush, sn := 2, data := [7] },
      { conv := 1, cmd := kcpCmdPush, sn := 1, data := [6] },
      { conv := 1, cmd := kcpCmdPush, frg := 1, data := [5] }]), .recv 8, .recv 8, .recv 8]

theorem received_origin_outOfOrder :
    ∃ (e : Endpoint) (groups : List (List Segment)),
      run (Endpoint.exec shipped) (Endpoint.start 1 {}) outOfOrder = some e ∧ e.received = [[5, 6], [7]] ∧
      e.received = (groups.map fun g => g.flatMap Segment.data) ∧
      ∀ s ∈ groups.flatten, CameIn 1 (outOfOrder.flatMap Op.inputs) s := by
  have h : (run (Endpoint.exec shipped) (Endpoint.start 1 {}) outOfOrder).map Endpoint.received =
      some [[5, 6], [7]] := by decide +kernel
  obtain ⟨e, he, hr⟩ := Option.map_eq_some_iff.mp h
  obtain ⟨⟨groups, hgroups, -, -, hcame, -⟩, -⟩ := received_origin he
  exact ⟨e, groups, he, hr, hgroups, hcame⟩

end NetProtocols.Kcp
