import NetProtocols.Kcp.Silent
import NetProtocols.Kcp.Reader

/-!
# NetProtocols.Kcp.Readable — when `try_read` returns the message at the head of the queue

`try_read` passes its scratch vector `self.buf` to `recv`.  The length of that vector is the size of the last datagram,
and nothing is left of it after a message has been returned.

* `Undisturbed`: what else `try_read` runs into on its way to the answer: a datagram noted down in `to_send` that is no
  longer in the scratch vector, and the two updates; `Clear`: the same, told from the state before.
* `tryRead_ok_iff`: the message is returned exactly when the scratch vector has room for it and nothing disturbs the
  call.
-/

namespace NetProtocols.Kcp

open Kcb

variable {b : Build}

namespace Kcb

theorem recv_congr {p : Profile} {k k' : Kcb} {cap : ℕ} (hq : k'.rcvQueue = k.rcvQueue) (hb : k'.rcvBuf = k.rcvBuf)
    (hn : k'.rcvNxt = k.rcvNxt) (hw : k'.rcvWnd = k.rcvWnd) :
    (k'.recv p cap).map Prod.fst = (k.recv p cap).map Prod.fst := by
  unfold recv
  rw [peeksize_congr hq, hq]
  by_cases hnil : k.rcvQueue = []
  · simp [hnil]
  rw [if_neg hnil, if_neg hnil]
  simp only [Option.bind_eq_bind, Option.map_bind]
  refine congrArg (Option.bind _) (funext fun peek => ?_)
  cases peek with
  | error e => rfl
  | ok n =>
    simp only [Function.comp]
    split_ifs with hcap
    · rfl
    · cases mergeFragments cap k.rcvQueue [] 0 with
      | error e => rfl
      | ok x =>
        obtain ⟨out, index⟩ := x
        dsimp only
        cases p.assert (out.length = n) with
        | none => rfl
        | some u =>
          cases hc : countReady p k.rcvWnd.toNat k.rcvBuf k.rcvNxt (k.rcvQueue.drop index).length with
          | none => simp only [moveData, hb, hn, hw, hc, Option.bind_eq_bind, Option.bind_some, Option.bind_none]
          | some y =>
            simp only [moveData, hb, hn, hw, hc, Option.bind_eq_bind, Option.bind_some]
            split_ifs <;> rfl

theorem nextMessage_congr {p : Profile} {k k' : Kcb} (hq : k'.rcvQueue = k.rcvQueue) (hb : k'.rcvBuf = k.rcvBuf)
    (hn : k'.rcvNxt = k.rcvNxt) (hw : k'.rcvWnd = k.rcvWnd) : k'.nextMessage p = k.nextMessage p := by
  have hfst : ∀ x : Kcb, x.nextMessage p =
      ((x.recv p (x.rcvQueue.flatMap Segment.data).length).map Prod.fst).bind Except.toOption := by
    intro x
    unfold nextMessage
    cases x.recv p (x.rcvQueue.flatMap Segment.data).length with
    | none => rfl
    | some y =>
      obtain ⟨r, k₁⟩ := y
      cases r <;> rfl
  rw [hfst, hfst, hq, recv_congr hq hb hn hw]

theorem nextMessage_tick {k k' : Kcb} {p : Profile} {t : Tick} {dur : UInt32} (h : k.tick b t = some (dur, k')) :
    k'.nextMessage p = k.nextMessage p := by
  obtain ⟨hq, hb⟩ := tick_queues h
  have hside : k'.rcvNxt = k.rcvNxt ∧ k'.rcvWnd = k.rcvWnd := by
    refine tick_rule (I := fun x => x.rcvNxt = k.rcvNxt ∧ x.rcvWnd = k.rcvWnd) h ⟨rfl, rfl⟩ fun k₁ k₂ hk hstep => ?_
    rcases recvSide_flushStep hstep with e | e
    · exact ⟨(congrArg RecvSide.rcvNxt e).trans hk.1, (congrArg RecvSide.rcvWnd e).trans hk.2⟩
    · exact ⟨(congrArg RecvSide.rcvNxt e).trans hk.1, (congrArg RecvSide.rcvWnd e).trans hk.2⟩
  exact nextMessage_congr hq hb hside.1 hside.2

end Kcb

namespace KcpStream

variable {Addr : Type} {s s' : KcpStream Addr} {cap : ℕ} {env : ReadEnv} {m : List UInt8}

theorem nextMessage_readSocket (h : s.readSocket b env = some s') :
    s'.kcb.nextMessage b.profile = s.kcb.nextMessage b.profile := by
  rcases Reader.readSocket_cases h with ⟨-, rfl⟩ | ⟨-, a, dur, k', -, ht, hs⟩
  · rfl
  · rcases hs with rfl | rfl <;> exact nextMessage_tick ht

/-- `try_read` comes to `recv`, and the update behind the message `m` comes to its end. -/
structure Undisturbed (b : Build) (s : KcpStream Addr) (env : ReadEnv) (m : List UInt8) : Prop where
  before : ∃ s₁, s.readSocket b env = some s₁
  behind : ∀ s₁ n k, s.readSocket b env = some s₁ → s₁.kcb.recv b.profile n = some (.ok m, k) →
    ∃ dur k', k.tick b env.check = some (dur, k')

/-- A datagram that is noted down in `to_send` is still in the scratch vector, or has no bytes and the update that
follows it has nothing to write; nor has the update behind the message `m`. -/
structure Clear (s : KcpStream Addr) (env : ReadEnv) (m : List UInt8) : Prop where
  before : s.buf = [] → ∀ x, s.toSend = some x → x.1 = 0 ∧ s.kcb.Quiet env.udp.now
  behind : ∀ s₁ n k, s.readSocket shipped env = some s₁ → s₁.kcb.recv .release n = some (.ok m, k) →
    k.Quiet env.check.now

/-- `udp_recv_and_iuc_update` does not return exactly when `to_send` holds the length of a datagram that is no longer in
the scratch vector, or when the update that follows has something to write. -/
theorem readSocket_shipped (hs : s.kcb.OfStream) : (∃ s₁, s.readSocket shipped env = some s₁) ↔
    (s.buf = [] → ∀ x, s.toSend = some x → x.1 = 0 ∧ s.kcb.Quiet env.udp.now) := by
  constructor
  · rintro ⟨s₁, h⟩ hbuf x hx
    rcases Reader.readSocket_cases h with ⟨h, -⟩ | ⟨-, a, dur, k', h, ht, -⟩
    · exact absurd h (by simp [hx, hbuf])
    · rw [h] at hx
      obtain rfl := Option.some.inj hx
      exact ⟨rfl, (tick_iff hs.sized env.udp).mp ⟨dur, k', ht⟩⟩
  · intro h
    by_cases hsend : s.toSend = none ∨ s.buf ≠ []
    · exact ⟨s, readSocket_of hsend⟩
    · rw [not_or, not_not] at hsend
      obtain ⟨⟨size, a⟩, hx⟩ := Option.ne_none_iff_exists'.mp hsend.1
      obtain ⟨hsize, hquiet⟩ := h hsend.2 _ hx
      obtain rfl : size = 0 := hsize
      obtain ⟨dur, k', ht⟩ := (tick_iff hs.sized env.udp).mpr hquiet
      have hin : s.kcb.input shipped.profile [] = some (.error ⟨.invalidData, "invalid data"⟩, s.kcb) := rfl
      cases hready : env.readiness with
      | error e =>
        refine ⟨s.setKcb k', ?_⟩
        simp [readSocket, udpRecvAndIucUpdate, hx, hsend.2, Profile.assert, hin, ht, hready]
      | ok u =>
        refine ⟨(s.setKcb k').setBuf s.buf none, ?_⟩
        simp [readSocket, udpRecvAndIucUpdate, hx, hsend.2, Profile.assert, hin, ht, hready]

theorem ofStream_readSocket (hs : s.kcb.OfStream) (h : s.readSocket shipped env = some s') : s'.kcb.OfStream := by
  rcases Reader.readSocket_cases h with ⟨-, rfl⟩ | ⟨-, a, dur, k', -, ht, h⟩
  · exact hs
  · rcases h with rfl | rfl <;> exact hs.tick ht

theorem undisturbed_shipped (hs : s.kcb.OfStream) : s.Undisturbed shipped env m ↔ s.Clear env m := by
  have hquiet : ∀ s₁ n k, s.readSocket shipped env = some s₁ → s₁.kcb.recv .release n = some (.ok m, k) →
      ((∃ dur k', k.tick shipped env.check = some (dur, k')) ↔ k.Quiet env.check.now) :=
    fun s₁ n k h hr => tick_iff ((ofStream_readSocket hs h).recv hr).sized env.check
  constructor
  · intro h
    exact ⟨(readSocket_shipped hs).mp h.before, fun s₁ n k h₁ hr => (hquiet s₁ n k h₁ hr).mp (h.behind s₁ n k h₁ hr)⟩
  · intro h
    exact ⟨(readSocket_shipped hs).mpr h.before, fun s₁ n k h₁ hr => (hquiet s₁ n k h₁ hr).mpr (h.behind s₁ n k h₁ hr)⟩

/-- What returns a message has had room for it in the scratch vector, and was not disturbed. -/
theorem undisturbed_of_tryRead (h : s.tryRead b cap env = some (.ok m, s')) :
    m.length ≤ s.buf.length ∧ s.Undisturbed b env m := by
  simp only [tryRead, Option.bind_eq_bind, Option.bind_eq_some_iff] at h
  obtain ⟨s₁, hsock, h⟩ := h
  have hbuf := (Reader.readSocket_frame hsock).2.2.1
  cases readsKcb_of_readKcb h with
  | returned m k k₁ dur hn hlen hr hcap ht =>
    refine ⟨hbuf ▸ hlen, ⟨s₁, hsock⟩, fun s₂ n k₂ hs₂ hr₂ => ⟨dur, k₁, ?_⟩⟩
    obtain rfl := Option.some.inj (hsock.symm.trans hs₂)
    -- the message is taken off in the same way into every buffer that it fits
    have h1 := (recv_ok hr).2.2.2 _ le_rfl
    have h2 := (recv_ok hr₂).2.2.2 _ le_rfl
    rw [h1] at h2
    simp only [Option.some.injEq, Prod.mk.injEq, true_and] at h2
    exact h2 ▸ ht

/-- And a message that the scratch vector and the caller's buffer have room for is returned, unless the call is
disturbed. -/
theorem tryRead_of_undisturbed (hn : s.kcb.nextMessage b.profile = some m) (hcap : m.length ≤ cap)
    (hbuf : m.length ≤ s.buf.length) (h : s.Undisturbed b env m) :
    ∃ s', s.tryRead b cap env = some (.ok m, s') := by
  obtain ⟨s₁, hsock⟩ := h.before
  obtain ⟨-, -, k, hk⟩ := recv_next ((nextMessage_readSocket hsock).trans hn)
  have hr : s₁.kcb.recv b.profile s₁.buf.length = some (.ok m, k) := by
    rw [hk, if_pos]
    rwa [(Reader.readSocket_frame hsock).2.2.1]
  obtain ⟨dur, k', ht⟩ := h.behind s₁ _ k hsock hr
  refine ⟨((s₁.took k m).setBuf [] s₁.toSend).setKcb k', ?_⟩
  simp only [tryRead, hsock, readKcb, hr, if_pos hcap, kcpCheck, setBuf_kcb, took_kcb, ht, Option.bind_eq_bind,
    Option.bind_some]
  rfl

/-- **When `try_read` returns the message at the head of the queue**: exactly when the scratch vector has room for it,
unless the call is disturbed: by a lost datagram, or by an update that has something to write. -/
theorem tryRead_ok_iff (hn : s.kcb.nextMessage b.profile = some m) (hcap : m.length ≤ cap) :
    ((∃ s', s.tryRead b cap env = some (.ok m, s')) ↔ m.length ≤ s.buf.length ∧ s.Undisturbed b env m) ∧
      (s.kcb.OfStream → (s.Undisturbed shipped env m ↔ s.Clear env m)) := by
  refine ⟨⟨?_, fun h => tryRead_of_undisturbed hn hcap h.1 h.2⟩, undisturbed_shipped⟩
  rintro ⟨s', h⟩
  exact undisturbed_of_tryRead h

end KcpStream

/-- Two messages of one byte each. -/
def twoMessages : List Segment :=
  [{ conv := 7, cmd := kcpCmdPush, wnd := 128, data := [1] },
    { conv := 7, cmd := kcpCmdPush, wnd := 128, sn := 1, data := [2] }]

/-- A stream accepted with both of them in one datagram. -/
def acceptedTwo : Option (KcpStream Unit) := do
  let s ← KcpStream.opened shipped 7 () true 0 0
  let (_, s) ← s.udpRecvAndIucUpdate shipped (some (encodes twoMessages, 50, ())) ⟨5, 5⟩ (.ok ())
  some s

/-- A read of that stream, before the next flush is due. -/
def calmRead : ReadEnv := { udp := ⟨5, 5⟩, check := ⟨5, 5⟩ }

/-- The first of the two messages is returned. -/
theorem tryRead_ok_iff_first :
    ∃ s s', acceptedTwo = some s ∧ s.tryRead shipped 1024 calmRead = some (.ok [1], s') := by
  have h : acceptedTwo.map (fun s => (s.kcb.nextMessage .release, s.buf.length, s.toSend,
      (s.kcb.recv .release 50).map fun x => decide (x.2.Quiet 5))) = some (some [1], 50, none, some true) := by
    decide +kernel
  obtain ⟨s, hs, h⟩ := Option.map_eq_some_iff.mp h
  simp only [Prod.mk.injEq] at h
  obtain ⟨hn, hbuf, hsend, hquiet⟩ := h
  have hstream : s.kcb.OfStream := by
    have ho := hs
    simp only [acceptedTwo, Option.bind_eq_bind, Option.bind_eq_some_iff, Option.some.injEq] at ho
    obtain ⟨s₀, h₀, ⟨r, s₁⟩, h₁, rfl⟩ := ho
    exact KcpStream.ofStream_udpRecv (KcpStream.ofStream_opened h₀) h₁
  have hclear : s.Clear calmRead [1] := by
    refine ⟨fun hnil => absurd hbuf (by simp [hnil]), fun s₁ n k h₁ hr => ?_⟩
    rw [KcpStream.readSocket_of (Or.inl hsend)] at h₁
    obtain rfl := Option.some.inj h₁
    rw [(recv_ok hr).2.2.2 50 (by decide), Option.map_some, Option.some.injEq, decide_eq_true_eq] at hquiet
    exact hquiet
  obtain ⟨hread, hcalm⟩ : ((∃ s', s.tryRead shipped 1024 calmRead = some (.ok [1], s')) ↔ _) ∧ _ :=
    KcpStream.tryRead_ok_iff hn (by decide)
  obtain ⟨s', h'⟩ := hread.mpr ⟨by rw [hbuf]; decide, (hcalm hstream).mpr hclear⟩
  exact ⟨s, s', hs, h'⟩

/-- The second is not: nothing is left of the scratch vector. -/
theorem second_message_unreadable :
    ∃ s s₁, acceptedTwo = some s ∧ s.tryRead shipped 1024 calmRead = some (.ok [1], s₁) ∧
      s₁.kcb.nextMessage .release = some [2] ∧ ¬ ∃ s₂, s₁.tryRead shipped 1024 calmRead = some (.ok [2], s₂) := by
  have hread : (acceptedTwo.bind fun s => (s.tryRead shipped 1024 calmRead).bind fun x =>
      (x.2.tryRead shipped 1024 calmRead).map fun y => (x.1, x.2.kcb.nextMessage .release, y.1)) =
        some (.ok [1], some [2], .error Kcb.shortBuffer) := by decide +kernel
  obtain ⟨s, hs, hread⟩ := Option.bind_eq_some_iff.mp hread
  obtain ⟨⟨q, s₁⟩, hfirst, hread⟩ := Option.bind_eq_some_iff.mp hread
  obtain ⟨⟨r, s₂⟩, hsecond, hread⟩ := Option.map_eq_some_iff.mp hread
  simp only [Prod.mk.injEq] at hread
  obtain ⟨rfl, hnext, rfl⟩ := hread
  refine ⟨s, s₁, hs, hfirst, hnext, ?_⟩
  rintro ⟨s₂', h⟩
  rw [hsecond] at h
  cases h

end NetProtocols.Kcp
