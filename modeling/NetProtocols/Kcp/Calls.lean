import NetProtocols.Kcp.Serving

/-!
# NetProtocols.Kcp.Calls — what the methods of a stream do to its control block

A stream reaches its control block through `send`, `recv`, `input`, `update` and `flush` only, and gives `input`
nothing but what the socket delivered.  So a stream under any calls is a control block under a run of calls, and what
holds in every run of a control block holds of a stream.

* `Call`, `KcpStream.call`: the methods, one call.
* `Work b sends inputs e e'`: from `e` to `e'` by a run that sends `sends` in this order and takes in some of `inputs`.
* `work_udpRecv`, `work_readKcb`, `work_pollRead`, `work_pollWrite`: one lemma for each method.
* `calls_refine`: a run of calls on a stream.
-/

namespace NetProtocols.Kcp

open Kcb

variable {Addr : Type} {b : Build}

/-! ### Runs of a control block by what goes in -/

/-- The buffer that the call gives to `send`. -/
def Op.sends : Op → List (List UInt8)
  | .send buf => [buf]
  | _ => []

/-- The datagram that the call gives to `input`. -/
def Op.inputs : Op → List (List UInt8)
  | .input d => [d]
  | _ => []

/-- From `e` to `e'` by a run that sends `sends`, and takes in some of `inputs`, in this order. -/
def Work (b : Build) (sends inputs : List (List UInt8)) (e e' : Endpoint) : Prop :=
  ∃ ops, run (Endpoint.exec b) e ops = some e' ∧ ops.flatMap Op.sends = sends ∧ (ops.flatMap Op.inputs).Sublist inputs

namespace Work

variable {sends sends' inputs inputs' : List (List UInt8)} {e e' e'' : Endpoint}

theorem refl (e : Endpoint) : Work b [] inputs e e := ⟨[], rfl, rfl, List.nil_sublist _⟩

theorem single {op : Op} (h : e.exec b op = some e') : Work b op.sends op.inputs e e' := by
  refine ⟨[op], run_cons.mpr ⟨e', h, rfl⟩, ?_, ?_⟩
  · rw [List.flatMap_singleton]
  · rw [List.flatMap_singleton]

theorem trans (h : Work b sends inputs e e') (h' : Work b sends' inputs' e' e'') :
    Work b (sends ++ sends') (inputs ++ inputs') e e'' := by
  obtain ⟨ops, hr, hs, hi⟩ := h
  obtain ⟨ops', hr', hs', hi'⟩ := h'
  refine ⟨ops ++ ops', run_append.mpr ⟨e', hr, hr'⟩, ?_, ?_⟩
  · rw [List.flatMap_append, hs, hs']
  · rw [List.flatMap_append]
    exact hi.append hi'

theorem mono (h : Work b sends inputs e e') (hi : inputs.Sublist inputs') : Work b sends inputs' e e' := by
  obtain ⟨ops, hr, hs, hsub⟩ := h
  exact ⟨ops, hr, hs, hsub.trans hi⟩

theorem tail (h : Work b sends inputs e e') {op : Op} (hs : op.sends = []) (hi : op.inputs = [])
    (h' : e'.exec b op = some e'') : Work b sends inputs e e'' := by
  have hlast := single h'
  rw [hs, hi] at hlast
  have hall := h.trans hlast
  rwa [List.append_nil, List.append_nil] at hall

end Work

/-! ### The methods -/

/-- The calls between the two have returned no message, and have handed nothing to the socket. -/
def Endpoint.Unheard (e' e : Endpoint) : Prop := e'.received = e.received ∧ e'.written = e.written

theorem Endpoint.Unheard.trans {e e' e'' : Endpoint} (h : e''.Unheard e') (h' : e'.Unheard e) : e''.Unheard e :=
  ⟨h.1.trans h'.1, h.2.trans h'.2⟩

/-- What no method changes. -/
def KcpStream.kind (s : KcpStream Addr) : Bool × Addr := (s.server, s.frAddr)

@[simp] theorem KcpStream.setBuf_kind (s : KcpStream Addr) (buf : List UInt8) (x : Option (ℕ × Addr)) :
    (s.setBuf buf x).kind = s.kind := rfl

@[simp] theorem KcpStream.setKcb_kind (s : KcpStream Addr) (k : Kcb) : (s.setKcb k).kind = s.kind := rfl

/-- The stream comes from `s` to `s'` as its control block comes from that of `e` by work of its own, the messages that
it takes off it included.  Nothing is written: a call that writes does not come to its end. -/
def Leaves (b : Build) (sends inputs : List (List UInt8)) (e : Endpoint) (s s' : KcpStream Addr) : Prop :=
  ∃ e' msgs, Work b sends inputs e e' ∧ e'.kcb = s'.kcb ∧ e'.received = e.received ++ msgs ∧
    e'.written = e.written ∧ s'.taken = s.taken ++ msgs ∧ s'.kind = s.kind

variable {s s₁ s' : KcpStream Addr} {e : Endpoint} {sends sends' inputs inputs' : List (List UInt8)}

namespace Leaves

theorem of_work {e' : Endpoint} (hw : Work b sends inputs e e') (hk : e'.kcb = s'.kcb) (hsame : e'.Unheard e)
    (ht : s'.taken = s.taken) (hkind : s'.kind = s.kind) : Leaves b sends inputs e s s' :=
  ⟨e', [], hw, hk, by rw [hsame.1, List.append_nil], hsame.2, by rw [ht, List.append_nil], hkind⟩

theorem refl (h : e.kcb = s.kcb) : Leaves b [] inputs e s s := of_work (.refl e) h ⟨rfl, rfl⟩ rfl rfl

theorem mono (h : Leaves b sends inputs e s s') (hi : inputs.Sublist inputs') : Leaves b sends inputs' e s s' := by
  obtain ⟨e', msgs, hw, hrest⟩ := h
  exact ⟨e', msgs, hw.mono hi, hrest⟩

theorem trans (h : Leaves b sends inputs e s s₁)
    (h' : ∀ e₁ : Endpoint, e₁.kcb = s₁.kcb → Leaves b sends' inputs' e₁ s₁ s') :
    Leaves b (sends ++ sends') (inputs ++ inputs') e s s' := by
  obtain ⟨e₁, msgs, hw, hk, hr, hwr, ht, hkind⟩ := h
  obtain ⟨e', msgs', hw', hk', hr', hwr', ht', hkind'⟩ := h' e₁ hk
  refine ⟨e', msgs ++ msgs', hw.trans hw', hk', ?_, hwr'.trans hwr, ?_, hkind'.trans hkind⟩
  · rw [hr', hr, List.append_assoc]
  · rw [ht', ht, List.append_assoc]

/-- The scratch buffer and the datagram under way do not concern the control block. -/
theorem of_eq (h : Leaves b sends inputs e s₁ s') (ht : s₁.taken = s.taken) (hkind : s₁.kind = s.kind) :
    Leaves b sends inputs e s s' := by
  obtain ⟨e', msgs, hw, hk, hr, hwr, ht', hkind'⟩ := h
  exact ⟨e', msgs, hw, hk, hr, hwr, by rw [ht', ht], hkind'.trans hkind⟩

end Leaves

/-- **A flush that is awaited** has handed nothing to the socket. -/
theorem unheard_flushed {f : Flushing} (h : f.Silent) : (e.flushed none f).Unheard e := by
  refine ⟨rfl, ?_⟩
  rw [Endpoint.flushed]
  exact (congrArg (e.written ++ ·) (Flushing.datagrams_of_silent h)).trans (List.append_nil _)

/-- **`flush`, awaited**, is a `flush` that comes to its end. -/
theorem exec_await {f : Flushing} {k : Kcb} (hf : e.kcb.flush b = some f) (h : f.await = some k) :
    ∃ e', e.exec b (.flush none) = some e' ∧ e'.kcb = k ∧ e'.Unheard e := by
  obtain ⟨hs, rfl⟩ := Flushing.await_eq_some.mp h
  refine ⟨e.flushed none f, ?_, rfl, unheard_flushed hs⟩
  rw [Endpoint.exec, hf, Option.map_some]

/-- **`update` and `check`, awaited**, are an `update` that comes to its end. -/
theorem exec_tick {t : Tick} {dur : UInt32} {k : Kcb} (h : e.kcb.tick b t = some (dur, k)) :
    ∃ e', e.exec b (.update t.now none) = some e' ∧ e'.kcb = k ∧ e'.Unheard e := by
  obtain ⟨f, hf, hs, rfl, -⟩ := tick_eq_some.mp h
  refine ⟨e.flushed none f, ?_, rfl, unheard_flushed hs⟩
  rw [Endpoint.exec, hf, Option.map_some]

theorem Work.tick {e' : Endpoint} {t : Tick} {dur : UInt32} {k : Kcb} (h : Work b sends inputs e e')
    (ht : e'.kcb.tick b t = some (dur, k)) :
    ∃ e'', Work b sends inputs e e'' ∧ e''.kcb = k ∧ e''.Unheard e' := by
  obtain ⟨e'', he, hk, hsame⟩ := exec_tick ht
  exact ⟨e'', h.tail rfl rfl he, hk, hsame⟩

theorem Leaves.of_tick {t : Tick} {dur : UInt32} {k : Kcb} (he : e.kcb = s.kcb) (ht : s.kcb.tick b t = some (dur, k))
    (hk : s'.kcb = k) (hs : s'.taken = s.taken) (hkind : s'.kind = s.kind) : Leaves b [] [] e s s' := by
  rw [← he] at ht
  obtain ⟨e', hw, hk', hsame⟩ := Work.tick (Work.refl e) ht
  exact .of_work hw (hk'.trans hk.symm) hsame hs hkind

/-- **`udp_recv_and_iuc_update`** takes in what `to_send` says is in the buffer. -/
theorem work_udpRecv {size : ℕ} {a : Addr} {t : Tick} {readiness : Except IoError Unit}
    {q : Except IoError (Option Addr)} (he : e.kcb = s.kcb) (hs : s.toSend = some (size, a))
    (h : s.udpRecvAndIucUpdate b none t readiness = some (q, s')) : Leaves b [] [s.buf.take size] e s s' := by
  simp only [KcpStream.udpRecvAndIucUpdate, hs, Option.bind_eq_bind, Option.bind_eq_some_iff] at h
  obtain ⟨-, -, ⟨r, k₁⟩, hin, ⟨dur, k⟩, ht, h⟩ := h
  have hexec : e.exec b (.input (s.buf.take size)) = some { e with kcb := k₁ } := by
    rw [Endpoint.exec, he, hin]
    rfl
  obtain ⟨e', hw, hk, hsame⟩ := Work.tick (Work.single hexec) ht
  cases readiness <;>
  · obtain ⟨-, rfl⟩ := Prod.mk.inj (Option.some.inj h)
    exact .of_work hw hk hsame rfl rfl

/-- **`kcp_check`**. -/
theorem work_kcpCheck {t : Tick} (he : e.kcb = s.kcb) (h : s.kcpCheck b t = some s') : Leaves b [] [] e s s' := by
  simp only [KcpStream.kcpCheck, Option.bind_eq_bind, Option.bind_eq_some_iff, Option.some.injEq] at h
  obtain ⟨⟨dur, k⟩, ht, rfl⟩ := h
  exact .of_tick he ht rfl rfl rfl

/-- **`recv`** that returns a message. -/
theorem exec_took {cap : ℕ} {m : List UInt8} {k : Kcb} (he : e.kcb = s.kcb)
    (hr : s.kcb.recv b.profile cap = some (.ok m, k)) :
    ∃ e', e.exec b (.recv cap) = some e' ∧ e'.kcb = k ∧ e'.received = e.received ++ [m] ∧
      e'.written = e.written := by
  refine ⟨e.got (.ok m, k), ?_, rfl, rfl, rfl⟩
  rw [Endpoint.exec, he, hr]
  rfl

/-- **`try_read` behind `udp_recv_and_iuc_update`**: a message is taken and an update follows, or nothing happens. -/
theorem work_readKcb {cap : ℕ} {t : Tick} {res : Except IoError (List UInt8)} (he : e.kcb = s.kcb)
    (h : KcpStream.ReadsKcb b s cap t res s') : Leaves b [] [] e s s' := by
  cases h with
  | none | short => exact .refl he
  | dropped m k hn hbuf hr hcap =>
    obtain ⟨e₁, he₁, hk₁, hr₁, hw₁⟩ := exec_took he hr
    exact ⟨e₁, [m], Work.single he₁, hk₁, hr₁, hw₁, rfl, rfl⟩
  | returned m k k₁ dur hn hbuf hr hcap ht =>
    obtain ⟨e₁, he₁, hk₁, hr₁, hw₁⟩ := exec_took he hr
    rw [← hk₁] at ht
    obtain ⟨e₂, hw, hk₂, hr₂, hw₂⟩ := Work.tick (Work.single he₁) ht
    exact ⟨e₂, [m], hw, hk₂, hr₂.trans hr₁, hw₂.trans hw₁, rfl, rfl⟩

/-- **`try_read`** takes in nothing: what is left of a datagram there is at most its length. -/
theorem work_tryRead {cap : ℕ} {env : ReadEnv} {res : Except IoError (List UInt8)} (he : e.kcb = s.kcb)
    (h : s.tryRead b cap env = some (res, s')) : Leaves b [] [] e s s' := by
  simp only [KcpStream.tryRead, Option.bind_eq_bind, Option.bind_eq_some_iff] at h
  obtain ⟨s₁, hsock, h⟩ := h
  have hfirst : Leaves b [] [] e s s₁ := by
    rcases Reader.readSocket_cases hsock with ⟨-, rfl⟩ | ⟨-, a, dur, k, -, ht, rfl | rfl⟩
    · exact .refl he
    all_goals exact .of_tick he ht rfl rfl rfl
  exact hfirst.trans fun e₁ he₁ => work_readKcb he₁ (KcpStream.readsKcb_of_readKcb h)

/-- What the socket delivers, as far as the buffer takes it. -/
def Arrival.delivers (a : Arrival Addr) : List (List UInt8) :=
  match a.received with
  | .ok (d, _) => [recvFrom recvBuf d]
  | .error _ => []

/-- **One turn of the loop** of the client's `poll_read` takes in the datagram that it has received. -/
theorem work_turn {cap u : ℕ} {a : Arrival Addr} {s₀ : KcpStream Addr} {res : Poll (Except IoError (List UInt8))}
    (he : e.kcb = s.kcb) (hrec : s.receive a.received = some (u, s₀)) (h : s₀.turn b cap a = some (res, s')) :
    Leaves b [] a.delivers e s s' := by
  unfold KcpStream.receive at hrec
  unfold Arrival.delivers
  cases hx : a.received with
  | error err => simp [hx] at hrec
  | ok x =>
    obtain ⟨d, addr⟩ := x
    simp only [hx, Option.some.injEq, Prod.mk.injEq] at hrec
    obtain ⟨rfl, rfl⟩ := hrec
    simp only [KcpStream.turn, Option.bind_eq_bind, Option.bind_eq_some_iff, Option.some.injEq, Prod.mk.injEq] at h
    obtain ⟨⟨q, s₁⟩, hu, ⟨r, s₂⟩, hr, -, rfl⟩ := h
    have hin := work_udpRecv (he.trans (KcpStream.setBuf_kcb s _ _).symm) (KcpStream.setBuf_toSend _ _ _) hu
    rw [KcpStream.setBuf_buf, KcpStream.take_fillFrom_blank] at hin
    have hfirst : Leaves b [] [recvFrom recvBuf d] e s s₁ :=
      hin.of_eq (KcpStream.setBuf_taken _ _ _) (KcpStream.setBuf_kind _ _ _)
    exact hfirst.trans fun e₁ he₁ => work_tryRead he₁ hr

/-- **The loop** takes in the datagrams that it has received, in their order; what it does not come to is left. -/
theorem work_readLoop {cap : ℕ} {arrivals : List (Arrival Addr)} {last : ReadEnd Addr} (he : e.kcb = s.kcb)
    (h : KcpStream.readLoop b cap s arrivals = some (last, s')) :
    Leaves b [] (arrivals.flatMap Arrival.delivers) e s s' := by
  induction arrivals generalizing s e with
  | nil =>
    obtain ⟨-, rfl⟩ := Prod.mk.inj (Option.some.inj h)
    exact .refl he
  | cons a rest ih =>
    simp only [KcpStream.readLoop, Option.bind_eq_bind, Option.bind_eq_some_iff] at h
    obtain ⟨⟨u, s₀⟩, hrec, ⟨res, s₁⟩, ht, h⟩ := h
    have hturn := work_turn he hrec ht
    rw [List.flatMap_cons]
    split_ifs at h with hu
    · obtain ⟨-, rfl⟩ := Prod.mk.inj (Option.some.inj h)
      exact hturn.mono (List.sublist_append_left _ _)
    · exact hturn.trans fun e₁ he₁ => ih he₁ h

/-- **`poll_read`**; a server's stream receives nothing itself. -/
theorem work_pollRead {cap : ℕ} {arrivals : List (Arrival Addr)} {env : ReadEnv} {last : ReadEnd Addr}
    (he : e.kcb = s.kcb) (h : s.pollRead b cap arrivals env = some (last, s')) :
    Leaves b [] (if s.server then [] else arrivals.flatMap Arrival.delivers) e s s' := by
  unfold KcpStream.pollRead at h
  cases hserver : s.server with
  | false =>
    rw [hserver] at h
    exact work_readLoop he h
  | true =>
    simp only [hserver, Bool.not_true, Bool.false_eq_true, if_false, Option.bind_eq_bind,
      Option.bind_eq_some_iff] at h
    obtain ⟨⟨r, s₁⟩, hr, h⟩ := h
    obtain ⟨-, rfl⟩ := Prod.mk.inj (Option.some.inj h)
    exact work_tryRead he hr

theorem exec_send {buf : List UInt8} {r : Except IoError ℕ} {k : Kcb} (he : e.kcb = s.kcb)
    (h : s.kcb.send b.profile buf = some (r, k)) :
    ∃ e', e.exec b (.send buf) = some e' ∧ e'.kcb = k ∧ e'.Unheard e := by
  refine ⟨e.sent buf (r, k), ?_, ?_⟩
  · rw [Endpoint.exec, he, h, Option.map_some]
  · cases r <;> exact ⟨rfl, rfl, rfl⟩

/-- **`poll_write`** sends its buffer, once. -/
theorem work_pollWrite {buf : List UInt8} {t : Tick} {res : Poll (Except IoError ℕ)} (he : e.kcb = s.kcb)
    (h : s.pollWrite b buf t = some (res, s')) : Leaves b [buf] [] e s s' := by
  simp only [KcpStream.pollWrite, Option.bind_eq_bind, Option.bind_eq_some_iff, Option.some.injEq, Prod.mk.injEq] at h
  obtain ⟨⟨r, k⟩, hsend, ⟨dur, k₁⟩, ht, f, hf, k₂, ha, -, rfl⟩ := h
  obtain ⟨e₁, he₁, hk, hsame₁⟩ := exec_send he hsend
  rw [← hk] at ht
  obtain ⟨e₂, hw, hk₂, hsame₂⟩ := Work.tick (Work.single he₁) ht
  rw [← hk₂] at hf
  obtain ⟨e₃, he₃, hk₃, hsame₃⟩ := exec_await hf ha
  exact .of_work (hw.tail rfl rfl he₃) hk₃ (hsame₃.trans (hsame₂.trans hsame₁)) rfl rfl

/-- **`poll_flush`**. -/
theorem work_pollFlush {res : Poll (Except IoError Unit)} (he : e.kcb = s.kcb)
    (h : s.pollFlush b = some (res, s')) : Leaves b [] [] e s s' := by
  simp only [KcpStream.pollFlush, Option.bind_eq_bind, Option.bind_eq_some_iff, Option.some.injEq, Prod.mk.injEq] at h
  obtain ⟨f, hf, k, ha, -, rfl⟩ := h
  rw [← he] at hf
  obtain ⟨e', he', hk, hsame⟩ := exec_await hf ha
  exact .of_work (Work.single he') hk hsame rfl rfl

/-! ### A stream under its calls -/

/-- A call of a method, and what it meets. -/
inductive Call (Addr : Type)
  | pollRead (cap : ℕ) (arrivals : List (Arrival Addr)) (env : ReadEnv)
  | pollWrite (buf : List UInt8) (t : Tick)
  | pollFlush
  | kcpCheck (t : Tick)

/-- What the application writes. -/
def Call.writes : Call Addr → List (List UInt8)
  | .pollWrite buf _ => [buf]
  | _ => []

/-- What the socket delivers. -/
def Call.delivers : Call Addr → List (List UInt8)
  | .pollRead _ arrivals _ => arrivals.flatMap Arrival.delivers
  | _ => []

/-- The calls on the control block do what the calls on the stream ask for. -/
structure Does (calls : List (Call Addr)) (ops : List Op) : Prop where
  sends : ops.flatMap Op.sends = calls.flatMap Call.writes
  inputs : (ops.flatMap Op.inputs).Sublist (calls.flatMap Call.delivers)

theorem Does.cons {c : Call Addr} {calls : List (Call Addr)} {ops ops' : List Op} (h : Does [c] ops)
    (h' : Does calls ops') : Does (c :: calls) (ops ++ ops') := by
  have hs := h.sends
  have hi := h.inputs
  rw [List.flatMap_singleton] at hs hi
  constructor
  · rw [List.flatMap_append, List.flatMap_cons, hs, h'.sends]
  · rw [List.flatMap_append, List.flatMap_cons]
    exact hi.append h'.inputs

/-- The stream after a call. -/
def KcpStream.call (b : Build) (s : KcpStream Addr) : Call Addr → Option (KcpStream Addr)
  | .pollRead cap arrivals env => (s.pollRead b cap arrivals env).map (·.2)
  | .pollWrite buf t => (s.pollWrite b buf t).map (·.2)
  | .pollFlush => (s.pollFlush b).map (·.2)
  | .kcpCheck t => s.kcpCheck b t

/-- **One call** on a stream is work of its control block; a server's stream takes in nothing. -/
theorem work_call {c : Call Addr} (he : e.kcb = s.kcb) (h : s.call b c = some s') :
    Leaves b c.writes (if s.server then [] else c.delivers) e s s' := by
  cases c with
  | pollRead cap arrivals env =>
    obtain ⟨⟨res, s₁⟩, hc, rfl⟩ := Option.map_eq_some_iff.mp h
    exact work_pollRead he hc
  | pollWrite buf t =>
    obtain ⟨⟨res, s₁⟩, hc, rfl⟩ := Option.map_eq_some_iff.mp h
    exact (work_pollWrite he hc).mono (List.nil_sublist _)
  | pollFlush =>
    obtain ⟨⟨res, s₁⟩, hc, rfl⟩ := Option.map_eq_some_iff.mp h
    exact (work_pollFlush he hc).mono (List.nil_sublist _)
  | kcpCheck t => exact (work_kcpCheck he h).mono (List.nil_sublist _)

/-- The stream that `connect` and `accept` start with. -/
theorem work_opened {conv now later : UInt32} {a : Addr} {server : Bool}
    (h : KcpStream.opened b conv a server now later = some s) :
    Leaves b [] [] (Endpoint.start conv streamConfig)
      { kcb := Kcb.configured conv streamConfig, server := server, frAddr := a } s := by
  exact work_kcpCheck rfl h

/-- The endpoint behind a stream: its control block, and the messages that were taken off it. -/
structure Behind (s : KcpStream Addr) (e : Endpoint) : Prop where
  kcb : e.kcb = s.kcb
  received : e.received = s.taken
  written : e.written = []

theorem Leaves.behind (h : Leaves b sends inputs e s s') (hr : e.received = s.taken) (hw : e.written = []) :
    ∃ e', Work b sends inputs e e' ∧ Behind s' e' := by
  obtain ⟨e', msgs, hwork, hk, hr', hw', ht, -⟩ := h
  exact ⟨e', hwork, hk, by rw [hr', ht, hr], hw'.trans hw⟩

/-- **A stream is its control block.**  Whatever calls come to their end on a stream, and whatever the socket delivers:
the stream has the control block, and has taken the messages, of a run of `send`, `recv`, `input`, `update` and `flush`
from a fresh block, that sends each buffer written, once and in order, and takes in datagrams that the socket delivered,
in order and once at most.  That run hands nothing to the socket. -/
theorem calls_refine {conv now later : UInt32} {a : Addr} {server : Bool} {s₀ : KcpStream Addr}
    {calls : List (Call Addr)} (h0 : KcpStream.opened b conv a server now later = some s₀)
    (hr : run (KcpStream.call b) s₀ calls = some s) :
    ∃ ops e, run (Endpoint.exec b) (Endpoint.start conv streamConfig) ops = some e ∧ e.kcb = s.kcb ∧
      e.received = s.taken ∧ e.written = [] ∧ ops.flatMap Op.sends = calls.flatMap Call.writes ∧
      (ops.flatMap Op.inputs).Sublist (calls.flatMap Call.delivers) := by
  obtain ⟨e₀, ⟨ops₀, hr₀, hs₀, hi₀⟩, hb₀⟩ := (work_opened h0).behind rfl rfl
  have hstep : ∀ (s : KcpStream Addr) e c s', Behind s e → s.call b c = some s' →
      ∃ ops e', run (Endpoint.exec b) e ops = some e' ∧ Does [c] ops ∧ Behind s' e' := by
    intro s e c s' hb h
    obtain ⟨e', ⟨ops, he, hs, hi⟩, hb'⟩ := (work_call hb.kcb h).behind hb.received hb.written
    refine ⟨ops, e', he, ⟨by rwa [List.flatMap_singleton], ?_⟩, hb'⟩
    rw [List.flatMap_singleton]
    split_ifs at hi
    · exact hi.trans (List.nil_sublist _)
    · exact hi
  obtain ⟨ops, e, he, hdoes, hb⟩ : ∃ ops e, run (Endpoint.exec b) e₀ ops = some e ∧ Does calls ops ∧ Behind s e :=
    run_matched ⟨rfl, List.nil_sublist _⟩ (fun _ _ _ _ h h' => h.cons h') hstep hr hb₀
  refine ⟨ops₀ ++ ops, e, run_append.mpr ⟨e₀, hr₀, he⟩, hb.kcb, hb.received, hb.written, ?_, ?_⟩
  · rw [List.flatMap_append, hs₀, hdoes.sends, List.nil_append]
  · rw [List.flatMap_append, List.sublist_nil.mp hi₀, List.nil_append]
    exact hdoes.inputs

/-- A segment of a peer whose window is closed. -/
def closedPeer (cmd : UInt8) (data : List UInt8) : Segment := { conv := 7, cmd := cmd, wnd := 0, data := data }

/-- What it sends before it is written to: twice its window, so that `poll_read` returns. -/
def closing : List UInt8 := encodes [closedPeer kcpCmdWins [], closedPeer kcpCmdWins []]

/-- What it sends after that. -/
def reply : List UInt8 := (closedPeer kcpCmdPush [9]).encode

/-- A call of `poll_read` that receives `d`. -/
def readsOne (d : List UInt8) : Call Unit :=
  .pollRead 8 [KcpStream.arriving d] { udp := KcpStream.still, check := KcpStream.still }

/-- What is written between two reads waits for the window of the peer. -/
def readWriteRead : List (Call Unit) := [readsOne closing, .pollWrite [1, 2] KcpStream.still, readsOne reply]

theorem calls_refine_readWriteRead :
    ∃ (s : KcpStream Unit) (ops : List Op) (e : Endpoint),
      run (Endpoint.exec shipped) (Endpoint.start 7 streamConfig) ops = some e ∧ e.kcb = s.kcb ∧
      s.taken = [[9]] ∧ e.received = s.taken ∧ e.written = [] ∧ ops.flatMap Op.sends = [[1, 2]] ∧
      (ops.flatMap Op.inputs).Sublist [closing, reply] := by
  obtain ⟨s₀, h0⟩ : ∃ s₀, KcpStream.opened shipped 7 () false 5 5 = some s₀ :=
    Option.isSome_iff_exists.mp (by decide +kernel)
  have h : (KcpStream.opened shipped 7 () false 5 5).bind (fun s₀ =>
      (run (KcpStream.call shipped) s₀ readWriteRead).map (·.taken)) = some [[9]] := by decide +kernel
  rw [h0, Option.bind_some] at h
  obtain ⟨s, hs, ht⟩ := Option.map_eq_some_iff.mp h
  obtain ⟨ops, e, he, hk, hr, hw, hsends, hinputs⟩ := calls_refine h0 hs
  exact ⟨s, ops, e, he, hk, ht, hr, hw, hsends, hinputs⟩

end NetProtocols.Kcp
