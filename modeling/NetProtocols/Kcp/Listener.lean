import Mathlib.Logic.Function.Basic
import NetProtocols.Kcp.ReadLoop

/-!
# NetProtocols.Kcp.Listener — `KcpListener` and the datagrams of new addresses

`accept` keeps one stream for each address.  The first datagram of an address opens it: its first four bytes are taken
for the conversation, before `input` has looked at them, and what `input` answers is not asked.

* `KcpListener`: the map `connections`; the streams handed out share their control block with it.
* `Incoming`, `acceptTurn`, `accept`: one turn of the loop of `accept`, and the loop.
* `Accepting`, `Accepting.step`: one call of `accept` after the other, datagram by datagram; `accept_run`.
* `Accepting.Harmless`: a first datagram that `input` refuses has no effect; `never_harmless`: it always has one.
* `conversation_step`, `taken_over`: the address belongs to the conversation of its first datagram from then on;
  `receiveState_ne`: so a datagram of another conversation changes what the client's datagrams lead to.
-/

namespace NetProtocols.Kcp

open Kcb

variable {Addr : Type} [DecidableEq Addr] {b : Build}

/-- `struct KcpListener`, as far as `accept` uses it. -/
structure KcpListener (Addr : Type) where
  connections : Addr → Option (KcpStream Addr)

/-- One turn of the loop of `accept`: what `recv_from` yields, the readings of the clock in `kcp_check` and in
`udp_recv_and_iuc_update`, and the outcome of `set_readiness`. -/
structure Incoming (Addr : Type) where
  received : Except IoError (List UInt8 × Addr)
  checkNow : UInt32
  checkLater : UInt32
  now : UInt32
  later : UInt32
  readiness : Except IoError Unit := .ok ()

namespace KcpListener

/-- `bind`: no connection. -/
def bind : KcpListener Addr := { connections := fun _ => none }

/-- `self.connections.insert`. -/
def insert (l : KcpListener Addr) (a : Addr) (s : KcpStream Addr) : KcpListener Addr where
  connections := Function.update l.connections a (some s)

@[simp] theorem insert_self (l : KcpListener Addr) (a : Addr) (s : KcpStream Addr) :
    (l.insert a s).connections a = some s := Function.update_self ..

theorem insert_of_ne (l : KcpListener Addr) {a a' : Addr} (s : KcpStream Addr) (h : a' ≠ a) :
    (l.insert a s).connections a' = l.connections a' := Function.update_of_ne h ..

/-- `udp_recv_and_iuc_update` on a datagram that `accept` has received; it is awaited to its end. -/
def passOn (b : Build) (s : KcpStream Addr) (d : List UInt8) (a : Addr) (i : Incoming Addr) :
    Option (KcpStream Addr) := do
  let (_, s) ← s.udpRecvAndIucUpdate b (some (d, d.length, a)) { now := i.now, later := i.later } i.readiness
  some s

/-- The stream that `accept` builds for a new address, with the first bytes of its buffer as the conversation. -/
def openStream (b : Build) (buf : List UInt8) (a : Addr) (i : Incoming Addr) : Option (KcpStream Addr) := do
  let (conv, _) ← getU32le (buf.take 4)
  KcpStream.opened b conv a true i.checkNow i.checkLater

/-- One turn of the loop of `accept` with its buffer: what it returns, if it does. -/
def acceptTurn (b : Build) (l : KcpListener Addr) (buf : List UInt8) (i : Incoming Addr) :
    Option (Option (Except IoError (KcpStream Addr × Addr)) × KcpListener Addr × List UInt8) :=
  match i.received with
  | .error e => some (some (.error e), l, buf)
  | .ok (datagram, a) =>
    let d := recvFrom buf.length datagram
    let buf := fillFrom buf datagram
    match l.connections a with
    | some kp => do
      let s ← passOn b { kp with init := false } d a i
      -- the clone shares its control block with the entry
      let l := l.insert a (kp.setKcb s.kcb)
      if s.buf.length < 25 then some (none, l, buf) else some (some (.ok (s, a)), l, buf)
    | none => do
      let s ← openStream b buf a i
      let s ← passOn b s d a i
      some (some (.ok (s, a)), l.insert a s, buf)

/-- The loop of `accept`: `none` when the datagrams are used up before it returns. -/
def acceptLoop (b : Build) : KcpListener Addr → List UInt8 → List (Incoming Addr) →
    Option (Option (Except IoError (KcpStream Addr × Addr) × List (Incoming Addr)) × KcpListener Addr)
  | l, _, [] => some (none, l)
  | l, buf, i :: rest => do
    let (r, l, buf) ← l.acceptTurn b buf i
    match r with
    | some r => some (some (r, rest), l)
    | none => acceptLoop b l buf rest

/-- `accept`. -/
def accept (b : Build) (l : KcpListener Addr) (is : List (Incoming Addr)) :
    Option (Option (Except IoError (KcpStream Addr × Addr) × List (Incoming Addr)) × KcpListener Addr) :=
  acceptLoop b l blankBuf is

end KcpListener

/-- A listener under a sequence of calls of `accept`, and the buffer of the call under way. -/
structure Accepting (Addr : Type) where
  listener : KcpListener Addr
  buf : List UInt8

namespace Accepting

open KcpListener

/-- One datagram; a call that returns is followed by the next, with a buffer of its own. -/
def step (b : Build) (s : Accepting Addr) (i : Incoming Addr) : Option (Accepting Addr) := do
  let (r, l, buf) ← s.listener.acceptTurn b s.buf i
  some ⟨l, if r.isSome then blankBuf else buf⟩

theorem acceptLoop_run {l l' : KcpListener Addr} {buf : List UInt8} {is rest : List (Incoming Addr)}
    {r : Except IoError (KcpStream Addr × Addr)} (h : acceptLoop b l buf is = some (some (r, rest), l')) :
    ∃ received, is = received ++ rest ∧ run (step b) ⟨l, buf⟩ received = some ⟨l', blankBuf⟩ := by
  induction is generalizing l buf with
  | nil => simp [acceptLoop] at h
  | cons i is ih =>
    simp only [acceptLoop, Option.bind_eq_bind, Option.bind_eq_some_iff] at h
    obtain ⟨⟨r₁, l₁, buf₁⟩, hturn, h⟩ := h
    have hstep : step b ⟨l, buf⟩ i = some ⟨l₁, if r₁.isSome then blankBuf else buf₁⟩ := by simp [step, hturn]
    cases r₁ with
    | some r₁ =>
      simp only [Option.some.injEq, Prod.mk.injEq] at h
      obtain ⟨⟨rfl, rfl⟩, rfl⟩ := h
      exact ⟨[i], rfl, run_cons.mpr ⟨_, hstep, rfl⟩⟩
    | none =>
      obtain ⟨received, rfl, hrun⟩ := ih h
      exact ⟨i :: received, rfl, run_cons.mpr ⟨_, hstep, hrun⟩⟩

/-- **A call of `accept` that returns is a run of turns**, from a fresh buffer to a fresh buffer. -/
theorem accept_run {l l' : KcpListener Addr} {is rest : List (Incoming Addr)}
    {r : Except IoError (KcpStream Addr × Addr)} (h : l.accept b is = some (some (r, rest), l')) :
    ∃ received, is = received ++ rest ∧ run (step b) ⟨l, blankBuf⟩ received = some ⟨l', blankBuf⟩ :=
  acceptLoop_run h

/-! ### What a datagram does to the map -/

/-- The receive state of the control block that handles the address. -/
def receiveState (s : Accepting Addr) (a : Addr) :
    Option (UInt32 × UInt32 × List Segment × List Segment × List (UInt32 × UInt32)) :=
  (s.listener.connections a).map fun kp =>
    (kp.kcb.conv, kp.kcb.rcvNxt, kp.kcb.rcvBuf, kp.kcb.rcvQueue, kp.kcb.acklist)

/-- `input`, on the control block that is built for the datagram, accepts it. -/
def Accepts (b : Build) (s : Accepting Addr) (i : Incoming Addr) (datagram : List UInt8) (a : Addr) : Prop :=
  ∃ kp n k, openStream b (fillFrom s.buf datagram) a i = some kp ∧
    kp.kcb.input b.profile (recvFrom s.buf.length datagram) = some (.ok n, k)

/-- A datagram from a new address enters it in the map only if `input` accepts the datagram. -/
def EntersAccepted (b : Build) (s : Accepting Addr) (i : Incoming Addr) : Prop :=
  ∀ datagram a s', i.received = .ok (datagram, a) → s.listener.connections a = none → step b s i = some s' →
    (s'.listener.connections a).isSome → Accepts b s i datagram a

/-- The first datagram `g` of the address has no effect: the control block receives what it would have received without
it, and no connection is entered for a datagram that `input` refuses. -/
def Harmless (b : Build) (s : Accepting Addr) (g : Incoming Addr) (a : Addr) (later : List (Incoming Addr)) : Prop :=
  (∀ s₁ s₂, run (step b) s (g :: later) = some s₁ → run (step b) s later = some s₂ →
    s₁.receiveState a = s₂.receiveState a) ∧ Meets (step b) (EntersAccepted b) s (g :: later)

omit [DecidableEq Addr] in
theorem not_accepts_of_short {s : Accepting Addr} {i : Incoming Addr} {datagram : List UInt8} {a : Addr}
    (h : datagram.length < kcpOverhead) : ¬ Accepts b s i datagram a := by
  rintro ⟨kp, n, k, -, hin⟩
  have hlen : (recvFrom s.buf.length datagram).length < kcpOverhead := by
    simp only [recvFrom, List.length_take]
    omega
  simp [input, hlen] at hin

theorem step_new {s s' : Accepting Addr} {i : Incoming Addr} {datagram : List UInt8} {a : Addr}
    (hrec : i.received = .ok (datagram, a)) (hnew : s.listener.connections a = none) (h : step b s i = some s') :
    ∃ kp kp', openStream b (fillFrom s.buf datagram) a i = some kp ∧
      passOn b kp (recvFrom s.buf.length datagram) a i = some kp' ∧
      s' = ⟨s.listener.insert a kp', blankBuf⟩ := by
  simp only [step, acceptTurn, hrec, hnew, Option.bind_eq_bind, Option.bind_eq_some_iff, Option.some.injEq] at h
  obtain ⟨⟨r, l, buf⟩, ⟨kp, hopen, kp', hpass, hx⟩, rfl⟩ := h
  simp only [Prod.mk.injEq] at hx
  obtain ⟨rfl, rfl, rfl⟩ := hx
  exact ⟨kp, kp', hopen, hpass, rfl⟩

/-- **A first datagram that `input` refuses is never harmless.** -/
theorem never_harmless {s s' : Accepting Addr} {g : Incoming Addr} {datagram : List UInt8} {a : Addr}
    (hrec : g.received = .ok (datagram, a)) (hnew : s.listener.connections a = none)
    (hrefused : ¬ Accepts b s g datagram a) (h : step b s g = some s') (later : List (Incoming Addr)) :
    ¬ Harmless b s g a later := by
  rintro ⟨-, hm⟩
  obtain ⟨kp, kp', hopen, hpass, rfl⟩ := step_new hrec hnew h
  refine hrefused (hm.1 datagram a _ hrec hnew h ?_)
  rw [insert_self]
  rfl

/-- A listener without connections. -/
def listening : Accepting Unit := ⟨KcpListener.bind, blankBuf⟩

/-- A datagram of the only address. -/
def incoming (datagram : List UInt8) : Incoming Unit where
  received := .ok (datagram, ())
  checkNow := 0
  checkLater := 0
  now := 5
  later := 5

theorem never_harmless_one_byte : ¬ Harmless shipped listening (incoming [1]) () [] := by
  obtain ⟨s', hs'⟩ : ∃ s', step shipped listening (incoming [1]) = some s' :=
    Option.isSome_iff_exists.mp (by decide +kernel)
  exact never_harmless rfl rfl (not_accepts_of_short (by decide)) hs' []

/-- The first message of an honest client of the conversation 7. -/
def honest : Incoming Unit := incoming (KcpStream.oneByte 0 1).encode

/-- One byte from its address, and the client's first message is refused. -/
theorem one_byte_takes_over :
    ∃ s₁ s₂, run (step shipped) listening [incoming [1], honest] = some s₁ ∧
      run (step shipped) listening [honest] = some s₂ ∧
      (s₁.receiveState ()).map (fun r => (r.1, r.2.1)) = some (1, 0) ∧
      (s₂.receiveState ()).map (fun r => (r.1, r.2.1)) = some (7, 1) ∧
      ¬ Harmless shipped listening (incoming [1]) () [honest] := by
  have h₁ : (run (step shipped) listening [incoming [1], honest]).map
      (fun s => (s.receiveState ()).map (fun r => (r.1, r.2.1))) = some (some (1, 0)) := by decide +kernel
  have h₂ : (run (step shipped) listening [honest]).map
      (fun s => (s.receiveState ()).map (fun r => (r.1, r.2.1))) = some (some (7, 1)) := by decide +kernel
  obtain ⟨s₁, hs₁, hr₁⟩ := Option.map_eq_some_iff.mp h₁
  obtain ⟨s₂, hs₂, hr₂⟩ := Option.map_eq_some_iff.mp h₂
  refine ⟨s₁, s₂, hs₁, hs₂, hr₁, hr₂, ?_⟩
  rintro ⟨heq, -⟩
  rw [← heq s₁ s₂ hs₁ hs₂, hr₁] at hr₂
  exact absurd hr₂ (by decide)

/-! ### The conversation of an address -/

/-- The conversation that handles the address. -/
def conversation (s : Accepting Addr) (a : Addr) : Option UInt32 :=
  (s.listener.connections a).map fun kp => kp.kcb.conv

omit [DecidableEq Addr] in
theorem conv_passOn {kp kp' : KcpStream Addr} {d : List UInt8} {a : Addr} {i : Incoming Addr}
    (h : passOn b kp d a i = some kp') : kp'.kcb.conv = kp.kcb.conv := by
  simp only [passOn, Option.bind_eq_bind, Option.bind_eq_some_iff, Option.some.injEq] at h
  obtain ⟨⟨q, kp''⟩, hu, rfl⟩ := h
  have hset := (KcpStream.udpRecv_frame (s := kp.setBuf d (some (d.length, a))) hu).2.2
  exact congrArg Settings.conv hset

omit [DecidableEq Addr] in
/-- The stream of a new address has the conversation read from the buffer. -/
theorem conv_openStream {kp : KcpStream Addr} {buf : List UInt8} {a : Addr} {i : Incoming Addr}
    (h : openStream b buf a i = some kp) : (getU32le (buf.take 4)).map Prod.fst = some kp.kcb.conv := by
  simp only [openStream, KcpStream.opened, KcpStream.kcpCheck, Option.bind_eq_bind, Option.bind_eq_some_iff,
    Option.some.injEq] at h
  obtain ⟨⟨conv, rest⟩, hconv, ⟨dur, k⟩, ht, rfl⟩ := h
  have hk : k.settings = (Kcb.configured conv streamConfig).settings :=
    tick_rule (I := fun k => k.settings = (Kcb.configured conv streamConfig).settings) ht rfl
      fun k₁ k₂ hk hstep => (settings_flushStep hstep).trans hk
  obtain ⟨sndWnd, rcvWnd, nodelay, rxMinrto, interval, fastresend, hcfg⟩ := configured_eq conv streamConfig
  have hc : k.conv = conv := (congrArg Settings.conv hk).trans (by rw [hcfg]; rfl)
  rw [hconv, KcpStream.setKcb_kcb, hc]
  rfl

theorem conversation_step {s s' : Accepting Addr} {i : Incoming Addr} {a : Addr} {conv : UInt32}
    (hc : s.conversation a = some conv) (h : step b s i = some s') : s'.conversation a = some conv := by
  unfold step acceptTurn at h
  simp only [Option.bind_eq_bind, Option.bind_eq_some_iff, Option.some.injEq] at h
  obtain ⟨⟨r, l, buf⟩, hturn, rfl⟩ := h
  cases hrec : i.received with
  | error e =>
    simp only [hrec, Option.some.injEq, Prod.mk.injEq] at hturn
    obtain ⟨rfl, rfl, rfl⟩ := hturn
    exact hc
  | ok x =>
    obtain ⟨datagram, a'⟩ := x
    simp only [hrec] at hturn
    cases hcon : s.listener.connections a' with
    | some kp =>
      simp only [hcon, Option.bind_eq_some_iff] at hturn
      obtain ⟨kp', hpass, hx⟩ := hturn
      have hl : l = s.listener.insert a' (kp.setKcb kp'.kcb) := by
        split_ifs at hx <;>
        · simp only [Option.some.injEq, Prod.mk.injEq] at hx
          exact hx.2.1.symm
      subst hl
      by_cases ha : a = a'
      · subst ha
        simp only [conversation, hcon, Option.map_some] at hc
        simp only [conversation, insert_self, Option.map_some, KcpStream.setKcb_kcb, conv_passOn hpass]
        exact hc
      · simp only [conversation, insert_of_ne _ _ ha]
        exact hc
    | none =>
      simp only [hcon, Option.bind_eq_some_iff, Option.some.injEq, Prod.mk.injEq] at hturn
      obtain ⟨kp, -, kp', -, -, rfl, -⟩ := hturn
      have ha : a ≠ a' := by
        rintro rfl
        simp [conversation, hcon] at hc
      simp only [conversation, insert_of_ne _ _ ha]
      exact hc

/-- **The address belongs to the conversation of its first datagram**, whatever that datagram was and whatever comes
later. -/
theorem taken_over {s s' : Accepting Addr} {g : Incoming Addr} {datagram : List UInt8} {a : Addr}
    {later : List (Incoming Addr)} (hrec : g.received = .ok (datagram, a))
    (hnew : s.listener.connections a = none) (hr : run (step b) s (g :: later) = some s') :
    s'.conversation a = (getU32le ((fillFrom s.buf datagram).take 4)).map Prod.fst := by
  obtain ⟨s₁, hstep, hr⟩ := run_cons.mp hr
  obtain ⟨kp, kp', hopen, hpass, rfl⟩ := step_new hrec hnew hstep
  rw [conv_openStream hopen]
  refine run_invariant (I := fun s => s.conversation a = some kp.kcb.conv) ?_ hr ?_
  · intro s i s' hc h
    exact conversation_step hc h
  · simp only [conversation, insert_self, Option.map_some, conv_passOn hpass]

omit [DecidableEq Addr] in
theorem conversation_eq (s : Accepting Addr) (a : Addr) :
    s.conversation a = (s.receiveState a).map Prod.fst := by
  rw [conversation, receiveState, Option.map_map]
  rfl

/-- **A datagram of another conversation, ahead of the client's**: whatever comes later, the address never gets back to
the receive state that it would have without that datagram. -/
theorem receiveState_ne {s s₁ s₂ : Accepting Addr} {g i : Incoming Addr} {datagram datagram' : List UInt8} {a : Addr}
    {later : List (Incoming Addr)} (hg : g.received = .ok (datagram, a)) (hi : i.received = .ok (datagram', a))
    (hnew : s.listener.connections a = none)
    (hconv : (getU32le ((fillFrom s.buf datagram).take 4)).map Prod.fst ≠
      (getU32le ((fillFrom s.buf datagram').take 4)).map Prod.fst)
    (h₁ : run (step b) s (g :: i :: later) = some s₁) (h₂ : run (step b) s (i :: later) = some s₂) :
    s₁.receiveState a ≠ s₂.receiveState a := by
  intro heq
  have hc₁ := taken_over hg hnew h₁
  have hc₂ := taken_over hi hnew h₂
  refine hconv ?_
  rw [← hc₁, ← hc₂, conversation_eq, conversation_eq, heq]

end Accepting

end NetProtocols.Kcp
