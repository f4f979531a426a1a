import Mathlib.Algebra.Order.BigOperators.Group.List
import Mathlib.Algebra.Order.Ring.Nat
import NetProtocols.Kcp.Origin
import NetProtocols.Kcp.Server

/-!
# NetProtocols.Kcp.Footprint — what the clients can make a listener store

Whatever comes in, a control block keeps what it has received in `rcv_queue` and `rcv_buf`, which hold a window of
segments each, and no segment is longer than the datagram in which it came.

* `stored_le`: what a control block holds, when the datagrams are at most `m` bytes long.
* `Server.footprint`: what a listener holds for one address, and how many control blocks it builds.
-/

namespace NetProtocols.Kcp

open Kcb

variable {b : Build}

/-- The bytes of data that were received and not yet read. -/
def Kcb.stored (k : Kcb) : ℕ := ((k.rcvQueue ++ k.rcvBuf).map fun s => s.data.length).sum

theorem length_of_readHeader {buf rest : List UInt8} {h : Header} (hr : readHeader buf = some (h, rest)) :
    buf.length = kcpOverhead + rest.length := by
  have h8 : ∀ {buf rest : List UInt8} {v : UInt8}, getU8 buf = some (v, rest) → buf.length = 1 + rest.length := by
    intro buf rest v hv
    rw [getU8_eq_some.mp hv, List.length_cons, Nat.add_comm]
  have h16 : ∀ {buf rest : List UInt8} {v : UInt16}, getU16le buf = some (v, rest) → buf.length = 2 + rest.length := by
    intro buf rest v hv
    obtain ⟨x, hx, hrest⟩ := Option.map_eq_some_iff.mp hv
    obtain ⟨-, rfl⟩ := Prod.mk.inj hrest
    rw [(getLE_eq_append hx).2, List.length_append, length_leBytes]
  have h32 : ∀ {buf rest : List UInt8} {v : UInt32}, getU32le buf = some (v, rest) → buf.length = 4 + rest.length := by
    intro buf rest v hv
    rw [getU32le_eq_some.mp hv, List.length_append, length_putU32le]
  simp only [readHeader, Option.bind_eq_bind, Option.bind_eq_some_iff, Option.pure_def, Option.some.injEq,
    Prod.mk.injEq] at hr
  obtain ⟨⟨conv, b1⟩, h1, ⟨cmd, b2⟩, h2, ⟨frg, b3⟩, h3, ⟨wnd, b4⟩, h4, ⟨ts, b5⟩, h5, ⟨sn, b6⟩, h6, ⟨una, b7⟩, h7,
    ⟨len, b8⟩, h9, -, rfl⟩ := hr
  have e1 : buf.length = 4 + b1.length := h32 h1
  have e2 : b1.length = 1 + b2.length := h8 h2
  have e3 : b2.length = 1 + b3.length := h8 h3
  have e4 : b3.length = 2 + b4.length := h16 h4
  have e5 : b4.length = 4 + b5.length := h32 h5
  have e6 : b5.length = 4 + b6.length := h32 h6
  have e7 : b6.length = 4 + b7.length := h32 h7
  have e8 : b7.length = 4 + b8.length := h32 h9
  show buf.length = 24 + b8.length
  omega

theorem Segment.In.length_le {conv : UInt32} {d : List UInt8} {s : Segment} (h : s.In conv d) :
    kcpOverhead + s.data.length ≤ d.length := by
  obtain ⟨buf, hd, rest, hbuf, hread, -, -, rfl⟩ := h
  have hlen := length_of_readHeader hread
  have hle := hbuf.length_le
  have htake : (rest.take hd.len.toNat).length ≤ rest.length := List.length_take_le' _ _
  show kcpOverhead + (rest.take hd.len.toNat).length ≤ _
  omega

/-- **What a control block holds** is two windows of segments, none longer than the datagrams that came in. -/
theorem stored_le {conv : UInt32} {c : Config} {ops : List Op} {e : Endpoint} {m : ℕ}
    (hr : run (Endpoint.exec b) (Endpoint.start conv c) ops = some e)
    (hm : ∀ d ∈ ops.flatMap Op.inputs, d.length ≤ kcpOverhead + m) :
    e.kcb.rcvQueue.length ≤ e.kcb.rcvWnd.toNat ∧ e.kcb.rcvBuf.length ≤ e.kcb.rcvWnd.toNat ∧
      e.kcb.stored ≤ 2 * e.kcb.rcvWnd.toNat * m := by
  have hrecv := recvInv_run hr
  have hqueue : e.kcb.rcvQueue.length ≤ e.kcb.rcvWnd.toNat := hrecv.room
  have hbuf : e.kcb.rcvBuf.length ≤ e.kcb.rcvWnd.toNat :=
    hrecv.sorted.length_le (fun s hs => (hrecv.window s hs).1) fun s hs => (hrecv.window s hs).2
  refine ⟨hqueue, hbuf, ?_⟩
  have hdata : ∀ x ∈ (e.kcb.rcvQueue ++ e.kcb.rcvBuf).map fun s => s.data.length, x ≤ m := by
    intro x hx
    obtain ⟨s, hs, rfl⟩ := List.mem_map.mp hx
    obtain ⟨d, hd, hin⟩ := (grounded_run hr).holding.segs s hs
    have hle := hin.length_le
    have hlen := hm d hd
    omega
  have hsum := List.sum_le_card_nsmul _ m hdata
  rw [List.length_map, List.length_append, nsmul_eq_mul, Nat.cast_id] at hsum
  exact hsum.trans (Nat.mul_le_mul_right m (by omega))

/-! ### A listener -/

variable {Addr : Type} {sends inputs msgs : List (List UInt8)} {k : Kcb}

/-- The receive window of a stream is 128 segments, and its datagrams carry 1000 bytes of data at most. -/
theorem Reached.stored_le (h : Reached b sends inputs msgs k) (hin : ∀ d ∈ inputs, d.length ≤ recvBuf) :
    k.rcvQueue.length ≤ 128 ∧ k.rcvBuf.length ≤ 128 ∧ k.stored ≤ 256000 := by
  obtain ⟨conv, e, ⟨ops, hr, -, hsub⟩, rfl, -⟩ := h
  have hwnd : e.kcb.rcvWnd = 128 := congrArg Settings.rcvWnd (settings_run hr)
  have hlen : ∀ d ∈ ops.flatMap Op.inputs, d.length ≤ kcpOverhead + 1000 := fun d hd => hin d (hsub.subset hd)
  have hstored := NetProtocols.Kcp.stored_le hr hlen
  rw [hwnd] at hstored
  exact hstored

namespace Server

variable [DecidableEq Addr]

theorem length_heardFrom {s : Server Addr} {a : Addr} {d : List UInt8} (h : d ∈ s.heardFrom a) :
    d.length ≤ recvBuf := by
  obtain ⟨x, -, rfl⟩ := List.mem_map.mp h
  exact List.length_take_le _ _

theorem length_put (s : Server Addr) (a : Addr) (kp : KcpStream Addr) :
    (s.put a kp).cells.length ≤ s.cells.length + 1 := by
  unfold put
  cases s.connections a with
  | none => exact (List.length_append).le
  | some h =>
    simp only [store, List.length_modify]
    exact Nat.le_succ _

/-- A call that builds a control block has received a datagram. -/
theorem cells_le_step {s s' : Server Addr} {act : ServerAct Addr} (h : s.cells.length ≤ s.heard.length)
    (hs : s.step b act = some s') : s'.cells.length ≤ s'.heard.length := by
  cases act with
  | accept i =>
    cases hi : i.received with
    | error e =>
      obtain rfl := step_error hi hs
      exact h
    | ok y =>
      obtain ⟨datagram, a⟩ := y
      obtain ⟨x, -, rfl⟩ := step_accept hi hs
      have hput := length_put s a x.2
      simp only [served, List.length_append, List.length_singleton]
      omega
  | dropStream addr =>
    obtain rfl := Option.some.inj hs
    exact h
  | updateConnection n =>
    simp only [step, Option.bind_eq_bind, Option.bind_eq_some_iff, Option.some.injEq] at hs
    obtain ⟨hd, -, rfl⟩ := hs
    exact h
  | clone n =>
    simp only [step, Option.bind_eq_bind, Option.bind_eq_some_iff, Option.some.injEq] at hs
    obtain ⟨hd, -, rfl⟩ := hs
    exact h
  | call n c =>
    simp only [step, Option.bind_eq_bind, Option.bind_eq_some_iff, Option.some.injEq] at hs
    obtain ⟨hd, -, kp, -, kp', -, rfl⟩ := hs
    simp only [store, List.length_modify]
    exact h

/-- **What the clients can make a listener store.**  Whatever they send, and whatever is done with the listener and the
streams that it hands out: each control block holds 128 segments at most in either of `rcv_queue` and `rcv_buf`, with
256000 bytes of data in all, and there are no more control blocks than datagrams were received. -/
theorem footprint {acts : List (ServerAct Addr)} {s : Server Addr} (hr : run (step b) start acts = some s) :
    s.cells.length ≤ s.heard.length ∧
      ∀ (n : ℕ) c, s.cells[n]? = some c →
        c.kcb.rcvQueue.length ≤ 128 ∧ c.kcb.rcvBuf.length ≤ 128 ∧ c.kcb.stored ≤ 256000 := by
  constructor
  · exact run_invariant (I := fun s => s.cells.length ≤ s.heard.length) (fun _ _ _ h hs => cells_le_step h hs) hr
      (Nat.le_refl 0)
  · intro n c hc
    exact ((sound_run hr).cells n c hc).stored_le fun d hd => length_heardFrom hd

theorem footprint_two :
    ∃ s : Server Bool, run (step shipped) start twoClients = some s ∧ s.cells.length = 2 ∧
      s.cells.length ≤ s.heard.length ∧ ∀ (n : ℕ) c, s.cells[n]? = some c → c.kcb.stored ≤ 256000 := by
  have h : (run (step shipped) start twoClients).map (fun s => s.cells.length) = some 2 := by
    decide +kernel
  obtain ⟨s, hs, hlen⟩ := Option.map_eq_some_iff.mp h
  obtain ⟨hcount, hcells⟩ := footprint hs
  exact ⟨s, hs, hlen, hcount, fun n c hc => (hcells n c hc).2.2⟩

end Server

end NetProtocols.Kcp
