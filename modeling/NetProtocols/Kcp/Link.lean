import NetProtocols.Kcp.SendInv

/-!
# NetProtocols.Kcp.Link — two endpoints and the network between them

A `Link` is two endpoints of one conversation.  Either side may make any call at any time; `input` is given a
datagram that the other side has written at some time before, so the network may lose, duplicate, delay and reorder
datagrams, and cannot alter them.

* `Link.exec`: one call on either side; `link_left`, `link_right` say what it did.
* `Made P d`: the datagram `d` is a sequence of whole segments with the property `P`; `made_flushStep` is the rule for
  what `flush` writes, `inputStep_encodes` the rule for reading it.
-/

namespace NetProtocols.Kcp

structure Link where
  left : Endpoint
  right : Endpoint
  deriving DecidableEq

/-- A call on one of the two sides. -/
inductive Act
  | left (op : Op)
  | right (op : Op)
  deriving DecidableEq, Repr

/-- The network hands over what the peer has written, and nothing else. -/
def Op.deliverable (written : List (List UInt8)) : Op → Bool
  | .input d => decide (d ∈ written)
  | _ => true

namespace Link

/-- Both sides before their first call. -/
def start (conv : UInt32) (cl cr : Config) : Link := ⟨Endpoint.start conv cl, Endpoint.start conv cr⟩

/-- One call. -/
def exec (b : Build) (l : Link) : Act → Option Link
  | .left op =>
    if op.deliverable l.right.written then (l.left.exec b op).map fun e => { l with left := e } else none
  | .right op =>
    if op.deliverable l.left.written then (l.right.exec b op).map fun e => { l with right := e } else none

variable {b : Build} {l l' : Link} {op : Op}

theorem link_left (h : l.exec b (.left op) = some l') :
    op.deliverable l.right.written ∧ ∃ e, l.left.exec b op = some e ∧ l' = { l with left := e } := by
  simp only [exec] at h
  split_ifs at h with hd
  obtain ⟨e, he, rfl⟩ := Option.map_eq_some_iff.mp h
  exact ⟨hd, e, he, rfl⟩

theorem link_right (h : l.exec b (.right op) = some l') :
    op.deliverable l.left.written ∧ ∃ e, l.right.exec b op = some e ∧ l' = { l with right := e } := by
  simp only [exec] at h
  split_ifs at h with hd
  obtain ⟨e, he, rfl⟩ := Option.map_eq_some_iff.mp h
  exact ⟨hd, e, he, rfl⟩

theorem mem_of_deliverable {written : List (List UInt8)} {d : List UInt8}
    (h : (Op.input d).deliverable written = true) : d ∈ written := by
  simpa [Op.deliverable] using h

end Link

/-! ### Datagrams as sequences of segments -/

/-- A sequence of whole segments with the property `P`. -/
def Made (P : Segment → Prop) (d : List UInt8) : Prop := ∃ segs, d = encodes segs ∧ ∀ s ∈ segs, P s

theorem made_nil {P : Segment → Prop} : Made P [] := ⟨[], rfl, by simp⟩

theorem Made.snoc {P : Segment → Prop} {d : List UInt8} {seg : Segment} (h : Made P d) (hs : P seg) :
    Made P (d ++ seg.encode) := by
  obtain ⟨segs, rfl, hsegs⟩ := h
  refine ⟨segs ++ [seg], by rw [encodes_append]; simp [encodes], ?_⟩
  intro s hm
  rcases List.mem_append.mp hm with hm | hm
  · exact hsegs s hm
  · exact List.mem_singleton.mp hm ▸ hs

theorem Made.mono {P Q : Segment → Prop} {d : List UInt8} (h : Made P d) (hPQ : ∀ s, P s → Q s) : Made Q d := by
  obtain ⟨segs, rfl, hsegs⟩ := h
  exact ⟨segs, rfl, fun s hs => hPQ s (hsegs s hs)⟩

namespace Kcb

/-- A control segment as `flush` sends one: an entry of the acknowledgement list, or a window probe. -/
def Sends (k : Kcb) (seg : Segment) : Prop :=
  (seg.cmd = kcpCmdAck ∧ (seg.sn, seg.ts) ∈ k.acklist) ∨ seg.cmd = kcpCmdWask ∨ seg.cmd = kcpCmdWins

/-- A small step of a flush leaves a buffer of segments with the property `P`, when the segments it puts have it. -/
theorem made_flushStep {b : Build} {k₀ k k' : Kcb} {P : Segment → Prop} (h : FlushStep b k₀ k k')
    (hctl : ∀ seg, Control k seg → k.Sends seg → P seg)
    (hdata : ∀ seg ∈ k.sndBuf, seg.una = k.rcvNxt → P seg) (hb : Made P k.buffer) : Made P k'.buffer := by
  cases h
  case clear => exact made_nil
  case putAck seg hc hcmd hmem => exact hb.snoc (hctl seg hc (Or.inl ⟨hcmd, hmem⟩))
  case putProbe seg hc hcmd => exact hb.snoc (hctl seg hc (Or.inr hcmd))
  case putData seg hmem huna => exact hb.snoc (hdata seg hmem huna)
  case settle cwnd resent lost change h =>
    obtain ⟨s, c, i, rfl⟩ := settleCwnd_eq h
    exact hb
  all_goals exact hb

end Kcb

/-- Where a whole segment stands at the cursor, its own header is read. -/
theorem inputStep_encodes {p : Profile} {s s' : Scan} {seg : Segment} {segs : List Segment}
    (hbuf : s.buf = encodes (seg :: segs)) (hs : s.inputStep p = some (.ok s')) :
    Scan.Taken p { s with buf := seg.data ++ encodes segs } seg.header s' := by
  obtain ⟨h, rest, hr, -, ht⟩ := Scan.inputStep_ok hs
  rw [hbuf, encodes_cons, readHeader_encode, Option.some.injEq, Prod.mk.injEq] at hr
  obtain ⟨rfl, rfl⟩ := hr
  exact Scan.taken_of_takeSegment ht

end NetProtocols.Kcp
