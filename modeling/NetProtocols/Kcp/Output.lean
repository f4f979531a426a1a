import NetProtocols.Kcp.Endpoint

/-!
# NetProtocols.Kcp.Output — `KcpOutput`, and a flush that is written to it

A `KcpStream` flushes into a `KcpOutput`, which is to send each datagram to the peer.  In its `poll_write` the variable
`handle` is a `Pin`, so `handle.write(buf)` is the method of `AsyncWriteExt`, which polls `poll_write` again, and not
the method `write` of `KcpOutput`: the calls never end.  Only a write of no bytes escapes, since `write_all` does not
poll for it.

* `KcpOutput`, `KcpOutput.write`, `KcpOutput.pollWrite`: the struct and its two ways to write.
* `AsyncWrite.writeAll`, `Flushing.through`: `write_all`, and a flush awaited on a writer.
* `Flushing.await`: what a flush of a stream comes to, and `through_pollWrite` why, whatever the size of the stack.
* `through_write`: what it would come to if `poll_write` were `write`.
-/

namespace NetProtocols.Kcp

/-- `std::task::Poll`. -/
inductive Poll (α : Type)
  | ready (a : α)
  | pending
  deriving DecidableEq, Repr

/-- A writer's `poll_write`; `none` when it does not return. -/
abbrev PollWrite (W : Type) : Type := W → List UInt8 → Option (Poll (Except IoError ℕ) × W)

namespace AsyncWrite

variable {W : Type}

/-- `AsyncWriteExt::write_all`: it polls as long as there are bytes left. -/
def writeAll (poll : PollWrite W) (w : W) (buf : List UInt8) : Option (Poll (Except IoError Unit) × W) :=
  if buf = [] then some (.ready (.ok ()), w)
  else do
    let (r, w) ← poll w buf
    match r with
    | .pending => some (.pending, w)
    | .ready (.error e) => some (.ready (.error e), w)
    | .ready (.ok 0) => some (.ready (.error ⟨.writeZero, "write zero"⟩), w)
    | .ready (.ok (n + 1)) => writeAll poll w (buf.drop (n + 1))
termination_by buf.length
decreasing_by
  have hpos := List.length_pos_iff.mpr ‹_›
  simp only [List.length_drop]
  omega

@[simp] theorem writeAll_nil (poll : PollWrite W) (w : W) : writeAll poll w [] = some (.ready (.ok ()), w) := by
  rw [writeAll, if_pos rfl]

theorem writeAll_whole {poll : PollWrite W} {w w' : W} {buf : List UInt8} (hbuf : buf ≠ [])
    (h : poll w buf = some (.ready (.ok buf.length), w')) : writeAll poll w buf = some (.ready (.ok ()), w') := by
  obtain ⟨n, hn⟩ := Nat.exists_eq_succ_of_ne_zero (List.length_pos_iff.mpr hbuf).ne'
  rw [writeAll, if_neg hbuf, h]
  simp only [Option.bind_eq_bind, Option.bind_some, hn]
  rw [List.drop_of_length_le (by omega), writeAll_nil]

theorem writeAll_none {poll : PollWrite W} {w : W} {buf : List UInt8} (hbuf : buf ≠ []) (h : poll w buf = none) :
    writeAll poll w buf = none := by
  rw [writeAll, if_neg hbuf, h]
  rfl

end AsyncWrite

namespace Flushing

variable {W : Type}

/-- The writes of a flush that ends with `k`.  What a write answers is ignored; one that is pending leaves the control
block that it is made with. -/
def passWrites (poll : PollWrite W) (k : Kcb) : List Kcb → W → Option (Poll Unit × Kcb × W)
  | [], w => some (.ready (), k, w)
  | now :: rest, w => do
    let (r, w) ← AsyncWrite.writeAll poll w now.buffer
    match r with
    | .pending => some (.pending, now, w)
    | .ready _ => passWrites poll k rest w

/-- A flush awaited on the writer `w`. -/
def through (poll : PollWrite W) (f : Flushing) (w : W) : Option (Poll Unit × Kcb × W) :=
  passWrites poll f.kcb f.writes w

/-- There is nothing to write. -/
def Silent (f : Flushing) : Prop := ∀ k ∈ f.writes, k.buffer = []

instance (f : Flushing) : Decidable f.Silent := inferInstanceAs (Decidable (∀ k ∈ f.writes, k.buffer = []))

end Flushing

/-- `struct KcpOutput`, and what has been handed to the socket `udp`. -/
structure KcpOutput (Addr : Type) where
  peer : Addr
  sent : List (List UInt8 × Addr) := []

namespace KcpOutput

variable {Addr : Type}

/-- The method `write` of `KcpOutput`, with a socket that takes the datagram at once. -/
def write : PollWrite (KcpOutput Addr) := fun o buf =>
  some (.ready (.ok buf.length), { o with sent := o.sent ++ [(buf, o.peer)] })

/-- `poll_write`, on a stack with room for that many calls. -/
def pollWrite : ℕ → PollWrite (KcpOutput Addr)
  | 0, _, _ => none
  | stack + 1, o, buf => pollWrite stack o buf

/-- **No stack is large enough.** -/
theorem pollWrite_overflows (stack : ℕ) (o : KcpOutput Addr) (buf : List UInt8) : pollWrite stack o buf = none := by
  induction stack with
  | zero => rfl
  | succ stack ih => exact ih

end KcpOutput

namespace Flushing

open AsyncWrite KcpOutput

variable {Addr : Type}

/-- What a flush of a stream leaves, awaited: nothing, if there is anything to write. -/
def await (f : Flushing) : Option Kcb := if f.Silent then some f.kcb else none

theorem await_eq_some {f : Flushing} {k : Kcb} : f.await = some k ↔ f.Silent ∧ k = f.kcb := by
  unfold await
  split_ifs with h
  · simp [h, eq_comm]
  · simp [h]

theorem datagrams_of_silent {f : Flushing} (h : f.Silent) : datagrams f.writes = [] := by
  simpa [datagrams, List.filter_eq_nil_iff] using show ∀ k ∈ f.writes, k.buffer = [] from h

theorem passWrites_pollWrite (stack : ℕ) (k : Kcb) (writes : List Kcb) (o : KcpOutput Addr) :
    passWrites (pollWrite stack) k writes o =
      if ∀ w ∈ writes, w.buffer = [] then some (.ready (), k, o) else none := by
  induction writes with
  | nil => simp [passWrites]
  | cons now rest ih =>
    unfold passWrites
    by_cases hnow : now.buffer = []
    · rw [hnow, writeAll_nil]
      simp only [Option.bind_eq_bind, Option.bind_some, ih, List.forall_mem_cons, hnow, true_and]
    · rw [writeAll_none hnow (pollWrite_overflows stack o _), if_neg fun h => hnow (h now List.mem_cons_self)]
      rfl

/-- **A flush of a stream** comes to an end when there is nothing to write, and in no other case. -/
theorem through_pollWrite (stack : ℕ) (f : Flushing) (o : KcpOutput Addr) :
    f.through (pollWrite stack) o = f.await.map fun k => (.ready (), k, o) := by
  rw [through, passWrites_pollWrite, await, apply_ite (Option.map _)]
  rfl

theorem passWrites_write (k : Kcb) (writes : List Kcb) (o : KcpOutput Addr) :
    passWrites KcpOutput.write k writes o =
      some (.ready (), k, { o with sent := o.sent ++ (datagrams writes).map fun d => (d, o.peer) }) := by
  induction writes generalizing o with
  | nil => simp [passWrites, datagrams]
  | cons now rest ih =>
    unfold passWrites
    by_cases hnow : now.buffer = []
    · rw [hnow, writeAll_nil]
      simp [ih, datagrams, hnow]
    · rw [writeAll_whole hnow rfl]
      simp [ih, datagrams, hnow]

/-- With the other `write` it would come to its end, with its datagrams in the socket. -/
theorem through_write (f : Flushing) (o : KcpOutput Addr) :
    f.through KcpOutput.write o =
      some (.ready (), f.kcb, { o with sent := o.sent ++ (datagrams f.writes).map fun d => (d, o.peer) }) :=
  passWrites_write _ _ _

end Flushing

end NetProtocols.Kcp
