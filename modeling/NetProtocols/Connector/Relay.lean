import NetProtocols.Lib.Run

/-!
# NetProtocols.Connector.Relay — `TcpConnector::connect`, two copies under a `select`

`connect` copies from the client to the server and back, and ends with the copy that ends first.  The other copy is
then dropped, with what it has read and not written and with what its reader still holds.

* `Copy`: one `tokio::io::copy`; `Carries`: what it has read is what it has written and what it holds.
* `Relay`: the two copies; `connect`: their steps in any order, and the end of one of them.
* `connect_prefix`: what a peer receives is a prefix of what the other one sent, all of it from the copy that ended.
* `connect_lossless_iff`: when nothing is lost.
-/

namespace NetProtocols.Connector

/-! ## One copy -/

/-- `tokio::io::copy`: what the reader still delivers before its end, what was read and is not written, and what the
writer has taken. -/
structure Copy where
  reader : List UInt8
  buf : List UInt8
  writer : List UInt8
  deriving DecidableEq

namespace Copy

/-- What a poll of the copy does before it is ready, by the number of bytes read or written. -/
inductive Move
  | read (n : ℕ)
  | write (n : ℕ)
  deriving DecidableEq

/-- A chunk is read when the one before it is written, and written in any number of pieces. -/
def step (c : Copy) : Move → Option Copy
  | .read n =>
    if c.buf = [] ∧ 0 < n ∧ n ≤ c.reader.length then
      some { c with reader := c.reader.drop n, buf := c.reader.take n }
    else none
  | .write n =>
    if 0 < n ∧ n ≤ c.buf.length then some { c with buf := c.buf.drop n, writer := c.writer ++ c.buf.take n }
    else none

/-- A copy of the stream `sent`, before its first poll. -/
def start (sent : List UInt8) : Copy := ⟨sent, [], []⟩

/-- The reader is at its end and everything read is written; the copy can end with `Ok`. -/
def Drained (c : Copy) : Prop := c.reader = [] ∧ c.buf = []

instance (c : Copy) : Decidable c.Drained := inferInstanceAs (Decidable (_ ∧ _))

/-- The copy has the stream `sent`, in order, each byte once. -/
def Carries (sent : List UInt8) (c : Copy) : Prop := c.writer ++ c.buf ++ c.reader = sent

variable {c c' : Copy} {sent : List UInt8}

/-- **A step of a copy** moves bytes along and loses none. -/
theorem carries_step {m : Move} (hc : c.Carries sent) (h : c.step m = some c') : c'.Carries sent := by
  cases m with
  | read n =>
    simp only [step] at h
    split_ifs at h with hn
    obtain rfl := Option.some.inj h
    rw [← hc]
    simp only [Carries, hn.1, List.append_nil, List.append_assoc, List.take_append_drop]
  | write n =>
    simp only [step] at h
    split_ifs at h with hn
    obtain rfl := Option.some.inj h
    rw [← hc]
    rw [Carries, List.append_assoc c.writer, List.take_append_drop]

theorem carries_start (sent : List UInt8) : (start sent).Carries sent := rfl

theorem Carries.isPrefix (hc : c.Carries sent) : c.writer <+: sent :=
  ⟨c.buf ++ c.reader, by rw [← List.append_assoc]; exact hc⟩

theorem Carries.writer_eq_iff (hc : c.Carries sent) : c.writer = sent ↔ c.Drained := by
  rw [Carries] at hc
  constructor
  · intro h
    rw [h, List.append_assoc, List.append_right_eq_self, List.append_eq_nil_iff] at hc
    exact ⟨hc.2, hc.1⟩
  · rintro ⟨hr, hb⟩
    rwa [hr, hb, List.append_nil, List.append_nil] at hc

theorem exists_drained (sent : List UInt8) :
    ∃ ms, run step (start sent) ms = some ⟨[], [], sent⟩ := by
  by_cases h : sent = []
  · exact ⟨[], by rw [h]; rfl⟩
  · have hpos := List.length_pos_iff.mpr h
    refine ⟨[.read sent.length, .write sent.length], ?_⟩
    simp [run, step, start, hpos]

end Copy

/-! ## The relay -/

/-- The two arms of `future::select`: the copy to the server and the copy back. -/
inductive Side
  | left
  | right
  deriving DecidableEq

def Side.other : Side → Side
  | left => right
  | right => left

/-- `rhalf` and `whalf`. -/
structure Relay where
  rhalf : Copy
  whalf : Copy
  deriving DecidableEq

namespace Relay

def half (r : Relay) : Side → Copy
  | .left => r.rhalf
  | .right => r.whalf

/-- A poll of one copy. -/
def step (r : Relay) : Side × Copy.Move → Option Relay
  | (.left, m) => (r.rhalf.step m).map fun c => { r with rhalf := c }
  | (.right, m) => (r.whalf.step m).map fun c => { r with whalf := c }

/-- The relay between a client that sends `up` and a server that sends `down`. -/
def start (up down : List UInt8) : Relay := ⟨.start up, .start down⟩

/-- Both peers have received what the other one sent. -/
def Lossless (up down : List UInt8) (r : Relay) : Prop := r.rhalf.writer = up ∧ r.whalf.writer = down

/-- The copies carry the two streams. -/
def Carries (up down : List UInt8) (r : Relay) : Prop := r.rhalf.Carries up ∧ r.whalf.Carries down

end Relay

/-- What the first ready copy returns: the number of bytes copied, or an error by its text. -/
abbrev Ready : Type := Side × Except String ℕ

/-- A copy is ready with `Ok` when it is drained; a read or a write may fail at any time. -/
def Relay.IsReady (r : Relay) : Ready → Prop
  | (side, .ok n) => (r.half side).Drained ∧ n = (r.half side).writer.length
  | (_, .error _) => True

instance (r : Relay) : (ready : Ready) → Decidable (r.IsReady ready)
  | (_, .ok _) => inferInstanceAs (Decidable (_ ∧ _))
  | (_, .error _) => inferInstanceAs (Decidable True)

/-- The message that `connect` traces. -/
def closed : Ready → String
  | (.left, .ok _) => " -> locl closed"
  | (.left, .error err) => " -> remote_addr closed with error " ++ err
  | (.right, .ok _) => " <- remote_addr closed"
  | (.right, .error err) => " <- remote_addr closed with error " ++ err

/-- What is left when `connect` returns: the copies as they were, the trace, and the result. -/
structure Connected where
  relay : Relay
  trace : String
  result : Except String Unit

/-- `connect`, by the polls of the two copies in the order in which they come, and the copy that is ready first. -/
def connect (r : Relay) (polls : List (Side × Copy.Move)) (ready : Ready) : Option Connected :=
  (run Relay.step r polls).bind fun r => if r.IsReady ready then some ⟨r, closed ready, .ok ()⟩ else none

/-! ## What arrives -/

variable {r r' : Relay} {up down : List UInt8} {polls : List (Side × Copy.Move)} {side : Side} {out : Connected}

theorem carries_relay {sm : Side × Copy.Move} (hr : r.Carries up down) (h : r.step sm = some r') :
    r'.Carries up down := by
  obtain ⟨_ | _, m⟩ := sm
  · obtain ⟨c, hc, rfl⟩ := Option.map_eq_some_iff.mp h
    exact ⟨Copy.carries_step hr.1 hc, hr.2⟩
  · obtain ⟨c, hc, rfl⟩ := Option.map_eq_some_iff.mp h
    exact ⟨hr.1, Copy.carries_step hr.2 hc⟩

theorem carries_start (up down : List UInt8) : (Relay.start up down).Carries up down :=
  ⟨Copy.carries_start up, Copy.carries_start down⟩

/-- `connect` returns `Ok` in whatever way it ends. -/
theorem connect_spec {ready : Ready} :
    connect r polls ready = some out ↔
      run Relay.step r polls = some out.relay ∧ out.relay.IsReady ready ∧ out.trace = closed ready ∧
        out.result = .ok () := by
  obtain ⟨relay, trace, result⟩ := out
  simp only [connect, Option.bind_eq_some_iff]
  constructor
  · rintro ⟨r', hrun, h⟩
    split_ifs at h with hready
    obtain ⟨rfl, rfl, rfl⟩ := Connected.mk.inj (Option.some.inj h)
    exact ⟨hrun, hready, rfl, rfl⟩
  · rintro ⟨hrun, hready, rfl, rfl⟩
    exact ⟨relay, hrun, if_pos hready⟩

/-- Whatever the order of the polls and the end, the copies carry the two streams. -/
theorem connect_carries {ready : Ready} (h : connect (.start up down) polls ready = some out) :
    out.relay.Carries up down :=
  run_invariant (fun _ _ _ => carries_relay) (connect_spec.mp h).1 (carries_start up down)

/-- **What arrives** is a prefix of what was sent, in both directions. -/
theorem connect_prefix {ready : Ready} (h : connect (.start up down) polls ready = some out) :
    out.relay.rhalf.writer <+: up ∧ out.relay.whalf.writer <+: down :=
  ⟨(connect_carries h).1.isPrefix, (connect_carries h).2.isPrefix⟩

/-- The moves of one copy are polls of the relay that leave the other copy alone. -/
theorem run_side {r : Relay} {ms : List Copy.Move} {c : Copy} (h : run Copy.step (r.half side) ms = some c) :
    ∃ r', run Relay.step r (ms.map fun m => (side, m)) = some r' ∧ r'.half side = c ∧
      r'.half side.other = r.half side.other := by
  induction ms generalizing r with
  | nil =>
    cases h
    exact ⟨r, rfl, rfl, rfl⟩
  | cons m ms ih =>
    obtain ⟨d, hd, hms⟩ := run_cons.mp h
    obtain ⟨r1, hr1, hhalf, hother⟩ :
        ∃ r1, r.step (side, m) = some r1 ∧ r1.half side = d ∧ r1.half side.other = r.half side.other := by
      cases side with
      | left => exact ⟨{ r with rhalf := d }, Option.map_eq_some_iff.mpr ⟨d, hd, rfl⟩, rfl, rfl⟩
      | right => exact ⟨{ r with whalf := d }, Option.map_eq_some_iff.mpr ⟨d, hd, rfl⟩, rfl, rfl⟩
    rw [← hhalf] at hms
    obtain ⟨r', hr', hc, ho⟩ := ih hms
    exact ⟨r', run_cons.mpr ⟨r1, hr1, hr'⟩, hc, ho.trans hother⟩

/-- One copy can end before the other one has started. -/
theorem exists_early_end (up down : List UInt8) (side : Side) :
    ∃ polls n out, connect (.start up down) polls (side, .ok n) = some out ∧
      (out.relay.half side.other).writer = [] := by
  obtain ⟨sent, hsent⟩ : ∃ sent, (Relay.start up down).half side = .start sent := by
    cases side with
    | left => exact ⟨up, rfl⟩
    | right => exact ⟨down, rfl⟩
  obtain ⟨ms, hms⟩ := Copy.exists_drained sent
  rw [← hsent] at hms
  obtain ⟨r, hrun, hhalf, hother⟩ := run_side hms
  refine ⟨_, sent.length, ⟨r, _, .ok ()⟩, connect_spec.mpr ⟨hrun, ?_, rfl, rfl⟩, ?_⟩
  · exact ⟨by rw [hhalf]; exact ⟨rfl, rfl⟩, by rw [hhalf]⟩
  · rw [hother]
    cases side <;> rfl

/-- **When the relay loses nothing.**  In a run that ends without an error, nothing is lost exactly when the copy that
has not ended is drained as well; and no order of the polls loses anything only between peers that send nothing. -/
theorem connect_lossless_iff (up down : List UInt8) :
    (∀ polls side n out, connect (.start up down) polls (side, .ok n) = some out →
      (out.relay.Lossless up down ↔ (out.relay.half side.other).Drained)) ∧
    ((∀ polls side n out, connect (.start up down) polls (side, .ok n) = some out → out.relay.Lossless up down) ↔
      up = [] ∧ down = []) := by
  constructor
  · intro polls side n out h
    obtain ⟨hup, hdown⟩ := connect_carries h
    have hside := (connect_spec.mp h).2.1.1
    rw [Relay.Lossless, hup.writer_eq_iff, hdown.writer_eq_iff]
    cases side with
    | left => exact and_iff_right hside
    | right => exact and_iff_left hside
  · constructor
    · intro h
      obtain ⟨polls, n, out, hout, hdown⟩ := exists_early_end up down .left
      obtain ⟨polls', n', out', hout', hup⟩ := exists_early_end up down .right
      exact ⟨(h _ _ _ _ hout').1.symm.trans hup, (h _ _ _ _ hout).2.symm.trans hdown⟩
    · rintro ⟨rfl, rfl⟩ polls side n out h
      obtain ⟨hup, hdown⟩ := connect_prefix h
      exact ⟨List.prefix_nil.mp hup, List.prefix_nil.mp hdown⟩

/-- A client that sends one byte and closes, to a server that answers with one byte: both are relayed when the answer
comes before the end of the client. -/
theorem connect_lossless_iff_answered :
    ∃ out, connect (.start [1] [2]) [(.left, .read 1), (.left, .write 1), (.right, .read 1), (.right, .write 1)]
      (.left, .ok 1) = some out ∧ out.relay.Lossless [1] [2] := by
  have hrun : connect (.start [1] [2])
      [(.left, .read 1), (.left, .write 1), (.right, .read 1), (.right, .write 1)] (.left, .ok 1) =
        some ⟨⟨⟨[], [], [1]⟩, ⟨[], [], [2]⟩⟩, " -> locl closed", .ok ()⟩ := rfl
  exact ⟨_, hrun, ((connect_lossless_iff [1] [2]).1 _ _ _ _ hrun).mpr ⟨rfl, rfl⟩⟩

/-- The same client has closed before the answer comes: the answer is lost, and `connect` returns `Ok`. -/
theorem answer_lost :
    ¬ ∀ (up down : List UInt8) (polls : List (Side × Copy.Move)) (side : Side) (n : ℕ) (out : Connected),
      connect (.start up down) polls (side, .ok n) = some out → out.relay.Lossless up down := by
  intro h
  have hlost := h [1] [2] [(.left, .read 1), (.left, .write 1), (.right, .read 1)] .left 1
    ⟨⟨⟨[], [], [1]⟩, ⟨[], [2], []⟩⟩, _, .ok ()⟩ rfl
  exact absurd hlost.2 (by decide)

end NetProtocols.Connector
