import NetProtocols.Lib.Run
import NetProtocols.Kcp.Flush

/-!
# NetProtocols.Kcp.Endpoint — one side of a conversation, and what it does over time

* `Op`: the calls an application and the network make on a control block.
* `Endpoint`: a control block with its history: the buffers `send` accepted, the byte strings `recv` returned, the
  segments `recv` took off `rcv_queue`, the datagrams handed to the socket.
* `Endpoint.exec`: one call; `none` when it stops the thread.
* `Config`, `Endpoint.start`: `Kcb::new` followed by one call each of `wndsize` and `nodelay`; negative arguments
  leave the defaults in place.
* `Flushing.stopAt`: what a `flush` leaves behind, complete or abandoned at one of its writes.
-/

namespace NetProtocols.Kcp

/-- The arguments of `wndsize` and `nodelay`. -/
structure Config where
  sndwnd : Int32 := -1
  rcvwnd : Int32 := -1
  nodelay : Int32 := -1
  interval : Int32 := -1
  resend : Int32 := -1
  nc : Bool := false
  deriving DecidableEq, Repr

/-- A fresh control block, configured. -/
def Kcb.configured (conv : UInt32) (c : Config) : Kcb :=
  ((Kcb.new conv).wndsize c.sndwnd c.rcvwnd).setNodelay c.nodelay c.interval c.resend c.nc

namespace Flushing

/-- The datagrams handed to the socket: `write_all` of an empty buffer polls nothing. -/
def datagrams (writes : List Kcb) : List (List UInt8) :=
  (writes.map fun k => k.buffer).filter fun d => !d.isEmpty

/-- The control block after a `flush` and the datagrams it sent; with `cut = some i` the future is dropped while
write `i` is pending. -/
def stopAt (f : Flushing) (cut : Option ℕ) : Kcb × List (List UInt8) :=
  match cut.bind fun i => f.writes[i]? with
  | none => (f.kcb, datagrams f.writes)
  | some k => (k, datagrams (f.writes.take (cut.getD 0)))

/-- A `flush` ends in its final state or in one of those it passed through at a write. -/
theorem stopAt_kcb (f : Flushing) (cut : Option ℕ) :
    (f.stopAt cut).1 = f.kcb ∨ (f.stopAt cut).1 ∈ f.writes := by
  unfold stopAt
  split
  · exact Or.inl rfl
  · rename_i k hk
    obtain ⟨i, -, hi⟩ := Option.bind_eq_some_iff.mp hk
    exact Or.inr (List.mem_of_getElem? hi)

/-- What holds in the final state of a `flush` and at every write holds where the `flush` is left. -/
theorem stopAt_rule {I : Kcb → Prop} {f : Flushing} (hend : I f.kcb) (hwrites : ∀ k ∈ f.writes, I k)
    (cut : Option ℕ) : I (f.stopAt cut).1 := by
  rcases stopAt_kcb f cut with h | h
  · exact h ▸ hend
  · exact hwrites _ h

theorem mem_stopAt_datagrams {f : Flushing} {cut : Option ℕ} {d : List UInt8}
    (h : d ∈ (f.stopAt cut).2) : ∃ k ∈ f.writes, k.buffer = d := by
  have key : ∀ l : List Kcb, d ∈ datagrams l → ∃ k ∈ l, k.buffer = d := fun l hl => by
    simpa using (List.mem_filter.mp hl).1
  unfold stopAt at h
  split at h
  · exact key _ h
  · obtain ⟨k, hk, hd⟩ := key _ h
    exact ⟨k, List.mem_of_mem_take hk, hd⟩

end Flushing

/-- The calls made on a control block.  `cut` tells where a `flush` is abandoned, if it is. -/
inductive Op
  | send (buf : List UInt8)
  | recv (cap : ℕ)
  | input (datagram : List UInt8)
  | update (now : UInt32) (cut : Option ℕ)
  | flush (cut : Option ℕ)
  deriving DecidableEq, Repr

/-- The first segments of a queue up to and including the first with `frg == 0`: what `recv` takes. -/
def headMessage : List Segment → List Segment
  | [] => []
  | seg :: rest => if seg.frg = 0 then [seg] else seg :: headMessage rest

/-- A control block and its history. -/
structure Endpoint where
  kcb : Kcb
  accepted : List (List UInt8) := []
  received : List (List UInt8) := []
  taken : List Segment := []
  written : List (List UInt8) := []
  deriving DecidableEq

namespace Endpoint

/-- The endpoint before its first call. -/
def start (conv : UInt32) (c : Config) : Endpoint := { kcb := Kcb.configured conv c }

/-- The endpoint after a `flush` that stopped at `cut`. -/
def flushed (e : Endpoint) (cut : Option ℕ) (f : Flushing) : Endpoint :=
  { e with kcb := (f.stopAt cut).1, written := e.written ++ (f.stopAt cut).2 }

/-- The endpoint after `send buf` with the outcome `r`. -/
def sent (e : Endpoint) (buf : List UInt8) (r : Except IoError ℕ × Kcb) : Endpoint :=
  match r with
  | (.ok _, k) => { e with kcb := k, accepted := e.accepted ++ [buf] }
  | (.error _, k) => { e with kcb := k }

/-- The endpoint after `recv` with the outcome `r`. -/
def got (e : Endpoint) (r : Except IoError (List UInt8) × Kcb) : Endpoint :=
  match r with
  | (.ok out, k) =>
    { e with kcb := k, received := e.received ++ [out], taken := e.taken ++ headMessage e.kcb.rcvQueue }
  | (.error _, k) => { e with kcb := k }

/-- One call. -/
def exec (b : Build) (e : Endpoint) : Op → Option Endpoint
  | .send buf => (e.kcb.send b.profile buf).map (e.sent buf)
  | .recv cap => (e.kcb.recv b.profile cap).map e.got
  | .input d => (e.kcb.input b.profile d).map fun r => { e with kcb := r.2 }
  | .update now cut => (e.kcb.update b now).map (e.flushed cut)
  | .flush cut => (e.kcb.flush b).map (e.flushed cut)

end Endpoint

end NetProtocols.Kcp
