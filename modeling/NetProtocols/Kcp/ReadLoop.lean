import NetProtocols.Kcp.Silent

/-!
# NetProtocols.Kcp.ReadLoop — the loop of the client's `poll_read`

Every turn receives a datagram and tries to read a message; whether the turn is the last is decided by the size of the
datagram.  What the turn read is returned if it is, and forgotten if it is not.

* `absorb`: the receiving part of a turn; `readLoop_cons`: one turn, and the rest.
* `Keeps`: no message is taken in a turn that is not the last, and none in the last that the caller's buffer is too
  short for; `taken_returned_iff`: exactly then every message taken is returned.
* `EachTurn`: what holds of every turn that a call comes to; `Ends`: the turn comes to its end; `Flows`: the same, told
  from the state before the turn.
* `Answered`: a message that became readable is returned, and "not yet" is reported as `Pending`; `answered_iff`: the
  condition is that every turn ends, and `WillAnswer`.
-/

namespace NetProtocols.Kcp

open Kcb

variable {Addr : Type} {b : Build} {cap : ℕ}

/-- The length of the datagram. -/
def Arrival.size (a : Arrival Addr) : ℕ :=
  match a.received with
  | .ok (d, _) => d.length
  | .error _ => 0

/-- The message that the call returns, if it returns one. -/
def ReadEnd.messages : ReadEnd Addr → List (List UInt8)
  | .returned (.ready r) _ => returnedBy r
  | _ => []

namespace KcpStream

variable {s s' s₁ s₂ : KcpStream Addr} {a : Arrival Addr} {rest : List (Arrival Addr)} {u : ℕ}

/-! ### One turn -/

/-- The block `f` and `udp_recv_and_iuc_update`, with the number of bytes received. -/
def absorb (b : Build) (s : KcpStream Addr) (a : Arrival Addr) : Option (ℕ × KcpStream Addr) := do
  let (u, s) ← s.receive a.received
  let (_, s) ← s.udpRecvAndIucUpdate b none a.udp a.readiness
  some (u, s)

@[simp] theorem returnedBy_asEof (r : Except IoError (List UInt8)) : returnedBy (asEof r) = returnedBy r := by
  cases r with
  | error e =>
    unfold asEof
    dsimp only
    split_ifs <;> rfl
  | ok m => rfl

theorem asEof_eq_ok {r : Except IoError (List UInt8)} {m : List UInt8} : asEof r = .ok m ↔ r = .ok m := by
  cases r with
  | error e =>
    unfold asEof
    dsimp only
    split_ifs <;> simp
  | ok m' => rfl

theorem udpRecv_frame {t : Tick} {readiness : Except IoError Unit} {q : Except IoError (Option Addr)}
    (h : s.udpRecvAndIucUpdate b none t readiness = some (q, s')) :
    s'.buf = s.buf ∧ s'.taken = s.taken ∧ s'.kcb.settings = s.kcb.settings := by
  unfold udpRecvAndIucUpdate at h
  dsimp only at h
  cases hs : s.toSend with
  | none =>
    simp only [hs, Option.some.injEq, Prod.mk.injEq] at h
    obtain ⟨-, rfl⟩ := h
    exact ⟨rfl, rfl, rfl⟩
  | some x =>
    simp only [hs, Option.bind_eq_bind, Option.bind_eq_some_iff] at h
    obtain ⟨-, -, y, hin, ⟨dur, k⟩, ht, h⟩ := h
    have hset : k.settings = s.kcb.settings :=
      tick_rule (I := fun k => k.settings = s.kcb.settings) ht (settings_input hin).1
        fun k₁ k₂ hk hstep => (settings_flushStep hstep).trans hk
    cases readiness <;>
    · obtain ⟨-, rfl⟩ := Prod.mk.inj (Option.some.inj h)
      exact ⟨rfl, rfl, hset⟩

theorem absorb_frame (h : s.absorb b a = some (u, s₁)) :
    s₁.buf.length = recvBuf ∧ s₁.taken = s.taken ∧ (24 < u ↔ 24 < a.size) := by
  simp only [absorb, Option.bind_eq_bind, Option.bind_eq_some_iff, Option.some.injEq, Prod.mk.injEq] at h
  obtain ⟨⟨u', s₀⟩, hrec, ⟨q', s₁'⟩, hu, rfl, rfl⟩ := h
  obtain ⟨f1, f2, -⟩ := udpRecv_frame hu
  unfold receive at hrec
  unfold Arrival.size
  cases hr : a.received with
  | error e => simp [hr] at hrec
  | ok x =>
    simp only [hr, Option.some.injEq, Prod.mk.injEq] at hrec
    obtain ⟨rfl, rfl⟩ := hrec
    refine ⟨?_, f2.trans (setBuf_taken _ _ _), ?_⟩
    · rw [f1, setBuf_buf]
      simp only [fillFrom, recvFrom, blankBuf, List.length_append, List.length_take, List.length_drop,
        List.length_replicate]
      omega
    · simp only [recvFrom, List.length_take, recvBuf]
      omega

/-- With the datagram in the scratch buffer, `try_read` goes straight to `recv`. -/
theorem tryRead_absorbed (h : s.absorb b a = some (u, s₁)) (env : ReadEnv) :
    s₁.tryRead b cap env = s₁.readKcb b cap env.check := by
  refine tryRead_of (Or.inr fun hnil => ?_)
  have hlen := (absorb_frame h).1
  rw [hnil] at hlen
  cases hlen

/-- **The loop, turn by turn.** -/
theorem readLoop_eq (b : Build) (cap : ℕ) (s : KcpStream Addr) (a : Arrival Addr) (rest : List (Arrival Addr)) :
    readLoop b cap s (a :: rest) = (s.absorb b a).bind fun x => (x.2.readKcb b cap a.read.check).bind fun y =>
      if 24 < x.1 then some (.returned (.ready (asEof y.1)) rest, y.2) else readLoop b cap y.2 rest := by
  have hturn : ∀ x, s.absorb b a = some x → x.2.tryRead b cap a.read = x.2.readKcb b cap a.read.check :=
    fun x hx => tryRead_absorbed hx a.read
  unfold absorb at hturn ⊢
  simp only [readLoop, turn, Option.bind_eq_bind, Option.bind_assoc, Option.bind_some] at hturn ⊢
  cases hrec : s.receive a.received with
  | none => rfl
  | some x =>
    obtain ⟨u, s₀⟩ := x
    rw [hrec] at hturn
    simp only [Option.bind_some] at hturn ⊢
    cases hu : s₀.udpRecvAndIucUpdate b none a.udp a.readiness with
    | none => rfl
    | some y =>
      have hread := hturn (u, y.2) (by rw [hu]; rfl)
      dsimp only at hread
      simp only [Option.bind_some, hread]

theorem readLoop_cons {e : ReadEnd Addr} (h : readLoop b cap s (a :: rest) = some (e, s')) :
    ∃ u s₁ r s₂, s.absorb b a = some (u, s₁) ∧ ReadsKcb b s₁ cap a.read.check r s₂ ∧
      ((24 < u ∧ e = .returned (.ready (asEof r)) rest ∧ s' = s₂) ∨
        (¬ 24 < u ∧ readLoop b cap s₂ rest = some (e, s'))) := by
  rw [readLoop_eq] at h
  simp only [Option.bind_eq_some_iff] at h
  obtain ⟨⟨u, s₁⟩, habs, ⟨r, s₂⟩, hread, h⟩ := h
  refine ⟨u, s₁, r, s₂, habs, readsKcb_of_readKcb hread, ?_⟩
  by_cases hu : 24 < u
  · rw [if_pos hu] at h
    simp only [Option.some.injEq, Prod.mk.injEq] at h
    exact Or.inl ⟨hu, h.1.symm, h.2.symm⟩
  · rw [if_neg hu] at h
    exact Or.inr ⟨hu, h⟩

theorem ReadsKcb.takes {t : Tick} {r : Except IoError (List UInt8)} (h : ReadsKcb b s₁ cap t r s₂)
    (hbuf : s₁.buf.length = recvBuf) :
    (s₂ = s₁ ∧ returnedBy r = [] ∧ ∀ m, s₁.kcb.nextMessage b.profile = some m → recvBuf < m.length) ∨
      ∃ m, s₁.kcb.nextMessage b.profile = some m ∧ m.length ≤ recvBuf ∧ s₂.taken = s₁.taken ++ [m] ∧
        (returnedBy r = [m] ∨ returnedBy r = []) := by
  cases h with
  | none e hn => exact Or.inl ⟨rfl, rfl, fun m hm => by rw [hn] at hm; cases hm⟩
  | short m hn hlt =>
    refine Or.inl ⟨rfl, rfl, fun m' hm => ?_⟩
    obtain rfl := Option.some.inj (hn.symm.trans hm)
    rw [← hbuf]
    exact hlt
  | dropped m k hn hle hrecv hcap => exact Or.inr ⟨m, hn, hbuf ▸ hle, rfl, Or.inr rfl⟩
  | returned m k k₁ dur hn hle hrecv hcap ht => exact Or.inr ⟨m, hn, hbuf ▸ hle, rfl, Or.inl rfl⟩

/-- The message that a call returns is the last that it has taken. -/
theorem readLoop_taken {e : ReadEnd Addr} {arrivals : List (Arrival Addr)}
    (h : readLoop b cap s arrivals = some (e, s')) : ∃ l, s'.taken = s.taken ++ l ++ e.messages := by
  induction arrivals generalizing s with
  | nil =>
    simp only [readLoop, Option.some.injEq, Prod.mk.injEq] at h
    obtain ⟨rfl, rfl⟩ := h
    exact ⟨[], by simp [ReadEnd.messages]⟩
  | cons a rest ih =>
    obtain ⟨u, s₁, r, s₂, habs, hread, h⟩ := readLoop_cons h
    obtain ⟨hbuf, htaken, -⟩ := absorb_frame habs
    have htake := hread.takes hbuf
    rw [htaken] at htake
    rcases h with ⟨-, rfl, rfl⟩ | ⟨-, h⟩
    · rcases htake with ⟨rfl, hr, -⟩ | ⟨m, -, -, ht, hr | hr⟩
      · exact ⟨[], by simp [ReadEnd.messages, hr, htaken]⟩
      · exact ⟨[], by simp [ReadEnd.messages, hr, ht]⟩
      · exact ⟨[m], by simp [ReadEnd.messages, hr, ht]⟩
    · obtain ⟨l, hl⟩ := ih h
      rcases htake with ⟨rfl, -⟩ | ⟨m, -, -, ht, -⟩
      · exact ⟨l, by rw [hl, htaken]⟩
      · exact ⟨m :: l, by rw [hl, ht]; simp⟩

/-! ### Every message that is taken is returned -/

/-- No message is taken in a turn after which the loop goes on, and none in the last turn that the caller's buffer is
too short for. -/
def Keeps (b : Build) (cap : ℕ) : KcpStream Addr → List (Arrival Addr) → Prop
  | _, [] => True
  | s, a :: rest => ∀ u s₁, s.absorb b a = some (u, s₁) →
      if 24 < u then ∀ m, s₁.kcb.nextMessage b.profile = some m → m.length ≤ recvBuf → m.length ≤ cap
      else (∀ m, s₁.kcb.nextMessage b.profile = some m → recvBuf < m.length) ∧ Keeps b cap s₁ rest

theorem forall_absorb {P : ℕ → KcpStream Addr → Prop} (h : s.absorb b a = some (u, s₁)) :
    (∀ u' s', s.absorb b a = some (u', s') → P u' s') ↔ P u s₁ := by
  constructor
  · intro hall
    exact hall u s₁ h
  · intro hP u' s' h'
    rw [h] at h'
    simp only [Option.some.injEq, Prod.mk.injEq] at h'
    obtain ⟨rfl, rfl⟩ := h'
    exact hP

/-- A turn that takes a message and is not the last leaves the call with a message too many. -/
theorem taken_ne {e : ReadEnd Addr} {m : List UInt8} (h : readLoop b cap s₂ rest = some (e, s'))
    (ht : s₂.taken = s.taken ++ [m]) : s'.taken ≠ s.taken ++ e.messages := by
  intro heq
  obtain ⟨l, hl⟩ := readLoop_taken h
  have hlen := congrArg List.length (hl.symm.trans heq)
  simp only [ht, List.length_append, List.length_singleton] at hlen
  omega

theorem ReadsKcb.keeps_iff {t : Tick} {r : Except IoError (List UInt8)} (h : ReadsKcb b s₁ cap t r s₂)
    (hbuf : s₁.buf.length = recvBuf) :
    s₂.taken = s₁.taken ++ returnedBy r ↔
      ∀ m, s₁.kcb.nextMessage b.profile = some m → m.length ≤ recvBuf → m.length ≤ cap := by
  cases h with
  | none e hn =>
    refine iff_of_true (List.append_nil _).symm fun m hm => ?_
    rw [hn] at hm
    cases hm
  | short m hn hlt =>
    refine iff_of_true (List.append_nil _).symm fun m' hm hle => ?_
    obtain rfl := Option.some.inj (hn.symm.trans hm)
    omega
  | dropped m k hn hle hrecv hcap =>
    refine iff_of_false (fun heq => ?_) fun hall => ?_
    · have hlen := congrArg List.length heq
      simp [returnedBy] at hlen
    · exact absurd (hall m hn (hbuf ▸ hle)) (Nat.not_le.mpr hcap)
  | returned m k k₁ dur hn hle hrecv hcap ht =>
    refine iff_of_true rfl fun m' hm _ => ?_
    exact Option.some.inj (hn.symm.trans hm) ▸ hcap

theorem taken_iff_keeps {e : ReadEnd Addr} {arrivals : List (Arrival Addr)}
    (h : readLoop b cap s arrivals = some (e, s')) :
    s'.taken = s.taken ++ e.messages ↔ Keeps b cap s arrivals := by
  induction arrivals generalizing s with
  | nil =>
    simp only [readLoop, Option.some.injEq, Prod.mk.injEq] at h
    obtain ⟨rfl, rfl⟩ := h
    exact iff_of_true (by simp [ReadEnd.messages]) trivial
  | cons a rest ih =>
    obtain ⟨u, s₁, r, s₂, habs, hread, h⟩ := readLoop_cons h
    obtain ⟨hbuf, htaken, -⟩ := absorb_frame habs
    refine Iff.trans ?_ (forall_absorb habs).symm
    rcases h with ⟨hu, rfl, rfl⟩ | ⟨hu, h⟩
    · -- the last turn
      rw [if_pos hu, ReadEnd.messages, returnedBy_asEof, ← htaken]
      exact hread.keeps_iff hbuf
    · rw [if_neg hu]
      rcases hread.takes hbuf with ⟨rfl, -, hnext⟩ | ⟨m, hn, hle, ht, -⟩
      · rw [← htaken, ih h]
        exact (and_iff_right hnext).symm
      · rw [htaken] at ht
        exact iff_of_false (taken_ne h ht) fun hk => absurd (hk.1 m hn) (Nat.not_lt.mpr hle)

theorem pollRead_client (hs : s.server = false) (b : Build) (cap : ℕ) (arrivals : List (Arrival Addr)) (env : ReadEnv) :
    s.pollRead b cap arrivals env = readLoop b cap s arrivals := by
  rw [pollRead, if_pos (by simp [hs])]

/-- **When the client's `poll_read` returns every message that it takes.** -/
theorem taken_returned_iff {e : ReadEnd Addr} {arrivals : List (Arrival Addr)} {env : ReadEnv}
    (hs : s.server = false) (h : s.pollRead b cap arrivals env = some (e, s')) :
    s'.taken = s.taken ++ e.messages ↔ Keeps b cap s arrivals :=
  taken_iff_keeps ((pollRead_client hs b cap arrivals env).symm.trans h)

/-- The clock stands at `5`. -/
def still : Tick := { now := 5, later := 5 }

/-- The datagram arrives, and is read. -/
def arriving (d : List UInt8) : Arrival Unit where
  received := .ok (d, ())
  udp := still
  read := { udp := still, check := still }

/-- A call of `poll_read` of a client of the conversation `7` with a buffer of 1024 bytes. -/
def reading (s : KcpStream Unit) (ds : List (List UInt8)) : Option (ReadEnd Unit × KcpStream Unit) :=
  s.pollRead shipped 1024 (ds.map arriving) { udp := still, check := still }

/-- A message of one byte. -/
def oneByte (sn : UInt32) (byte : UInt8) : Segment :=
  { conv := 7, cmd := kcpCmdPush, wnd := 128, sn := sn, data := [byte] }

/-- An acknowledgement of `sn`. -/
def acking (sn una : UInt32) : Segment := { conv := 7, cmd := kcpCmdAck, wnd := 128, sn := sn, una := una }

/-- A new client reads a datagram of one segment. -/
theorem reading_single :
    ∃ s e s', connect shipped 7 () 0 0 = some s ∧ s.server = false ∧
      reading s [(oneByte 0 1).encode] = some (e, s') := by
  obtain ⟨s, hs⟩ : ∃ s, connect shipped 7 () 0 0 = some s := Option.isSome_iff_exists.mp (by decide +kernel)
  have hserver : (connect shipped 7 () 0 0).map KcpStream.server = some false := by decide +kernel
  have hread : ((connect shipped 7 () 0 0).bind fun s => reading s [(oneByte 0 1).encode]).isSome := by
    decide +kernel
  simp only [hs, Option.map_some, Option.bind_some, Option.some.injEq] at hserver hread
  obtain ⟨⟨e, s'⟩, hx⟩ := Option.isSome_iff_exists.mp hread
  exact ⟨s, e, s', hs, hserver, hx⟩

theorem taken_returned_iff_single :
    ∃ s e s', connect shipped 7 () 0 0 = some s ∧ reading s [(oneByte 0 1).encode] = some (e, s') ∧
      (s'.taken = s.taken ++ e.messages ↔ Keeps shipped 1024 s ([(oneByte 0 1).encode].map arriving)) := by
  obtain ⟨s, e, s', hs, hserver, hx⟩ := reading_single
  exact ⟨s, e, s', hs, hx, taken_returned_iff hserver hx⟩

/-- Two messages come in one datagram, and the first is read.  The next call takes the second when an acknowledgement
arrives, and returns the third. -/
theorem second_message_lost :
    ∃ s s₁ s₂ e₁ e₂, connect shipped 7 () 0 0 = some s ∧
      reading s [encodes [oneByte 0 1, oneByte 1 2]] = some (e₁, s₁) ∧ e₁.messages = [[1]] ∧
      reading s₁ [(acking 0 0).encode, (oneByte 2 3).encode] = some (e₂, s₂) ∧ e₂.messages = [[3]] ∧
      s₂.taken ≠ s₁.taken ++ e₂.messages := by
  obtain ⟨s, hs⟩ : ∃ s, connect shipped 7 () 0 0 = some s :=
    Option.isSome_iff_exists.mp (by decide +kernel)
  have h₁ : ((connect shipped 7 () 0 0).bind fun s =>
      reading s [encodes [oneByte 0 1, oneByte 1 2]]).map (fun x => (x.1.messages, x.2.taken)) =
        some ([[1]], [[1]]) := by decide +kernel
  have h₂ : (((connect shipped 7 () 0 0).bind fun s =>
      reading s [encodes [oneByte 0 1, oneByte 1 2]]).bind fun x =>
        reading x.2 [(acking 0 0).encode, (oneByte 2 3).encode]).map (fun x => (x.1.messages, x.2.taken)) =
          some ([[3]], [[1], [2], [3]]) := by decide +kernel
  rw [hs, Option.bind_some] at h₁ h₂
  obtain ⟨⟨e₁, s₁⟩, hx₁, hy₁⟩ := Option.map_eq_some_iff.mp h₁
  rw [hx₁, Option.bind_some] at h₂
  obtain ⟨⟨e₂, s₂⟩, hx₂, hy₂⟩ := Option.map_eq_some_iff.mp h₂
  simp only [Prod.mk.injEq] at hy₁ hy₂
  refine ⟨s, s₁, s₂, e₁, e₂, hs, hx₁, hy₁.1, hx₂, hy₂.1, ?_⟩
  rw [hy₁.2, hy₂.1, hy₂.2]
  decide

/-! ### "Not yet" is `Pending` -/

/-- `ok` holds of every turn that a call comes to. -/
def EachTurn (b : Build) (cap : ℕ) (ok : KcpStream Addr → Arrival Addr → Prop) :
    KcpStream Addr → List (Arrival Addr) → Prop
  | _, [] => True
  | s, a :: rest => ok s a ∧ ∀ u s₁ r s₂, s.absorb b a = some (u, s₁) →
      s₁.readKcb b cap a.read.check = some (r, s₂) → ¬ 24 < u → EachTurn b cap ok s₂ rest

/-- The turn comes to its end. -/
def Ends (b : Build) (cap : ℕ) (s : KcpStream Addr) (a : Arrival Addr) : Prop :=
  ∃ u s₁ r s₂, s.absorb b a = some (u, s₁) ∧ s₁.readKcb b cap a.read.check = some (r, s₂)

/-- A datagram arrives, and there is nothing to write: neither for the update behind it, nor for the one behind the
message that is read. -/
structure Flows (cap : ℕ) (s : KcpStream Addr) (a : Arrival Addr) : Prop where
  heard : ∃ d x r k, a.received = .ok (d, x) ∧ s.kcb.input .release (recvFrom recvBuf d) = some (r, k) ∧
    k.Quiet a.udp.now
  read : ∀ u s₁, s.absorb shipped a = some (u, s₁) → ∃ q k, s₁.kcb.recv .release recvBuf = some (q, k) ∧
    ∀ m, q = .ok m → m.length ≤ cap → k.Quiet a.read.check.now

/-- The first message that can be read while the datagrams arrive. -/
def becameReadable (b : Build) : KcpStream Addr → List (Arrival Addr) → Option (List UInt8)
  | _, [] => none
  | s, a :: rest => (s.absorb b a).bind fun x =>
      (x.2.kcb.nextMessage b.profile).or (becameReadable b x.2 rest)

/-- The call that ends like this has returned: the first message that became readable, if the caller's buffer holds it;
`Pending`, if none did. -/
def Reports (b : Build) (cap : ℕ) (s : KcpStream Addr) (arrivals : List (Arrival Addr)) (e : ReadEnd Addr)
    (s' : KcpStream Addr) : Prop :=
  ∃ res received rest, e = .returned res rest ∧ arrivals = received ++ rest ∧
    (∀ m, becameReadable b s received = some m → m.length ≤ cap →
      res = .ready (.ok m) ∧ s'.taken = s.taken ++ [m]) ∧
    (becameReadable b s received = none → res = .pending)

/-- The call comes to an end, and reports what it should. -/
def Answered (b : Build) (cap : ℕ) (s : KcpStream Addr) (arrivals : List (Arrival Addr)) (env : ReadEnv) : Prop :=
  ∃ e s', s.pollRead b cap arrivals env = some (e, s') ∧ Reports b cap s arrivals e s'

/-- The message `m` stays in the queue until the first datagram of more than 24 bytes, and is read then. -/
def WillReturn (b : Build) (m : List UInt8) : KcpStream Addr → List (Arrival Addr) → Prop
  | _, [] => False
  | s, a :: rest => ∀ u s₁, s.absorb b a = some (u, s₁) →
      if 24 < u then s₁.kcb.nextMessage b.profile = some m ∧ m.length ≤ recvBuf
      else (∀ m', s₁.kcb.nextMessage b.profile = some m' → recvBuf < m'.length) ∧ WillReturn b m s₁ rest

/-- A datagram of more than 24 bytes comes when there is a message to return. -/
def WillAnswer (b : Build) (cap : ℕ) : KcpStream Addr → List (Arrival Addr) → Prop
  | _, [] => False
  | s, a :: rest => ∀ u s₁, s.absorb b a = some (u, s₁) →
      (∀ m, s₁.kcb.nextMessage b.profile = some m →
        if m.length ≤ cap then WillReturn b m s (a :: rest) else ∃ a' ∈ a :: rest, 24 < a'.size) ∧
      (s₁.kcb.nextMessage b.profile = none → ¬ 24 < u ∧ WillAnswer b cap s₁ rest)

theorem received_ne_nil {arrivals : List (Arrival Addr)} {res : Poll (Except IoError (List UInt8))}
    (h : readLoop b cap s arrivals = some (.returned res rest, s')) :
    ∃ received, arrivals = received ++ rest ∧ received ≠ [] := by
  induction arrivals generalizing s with
  | nil => simp [readLoop] at h
  | cons a arrivals ih =>
    obtain ⟨u, s₁, r, s₂, habs, hread, ⟨hu, he, rfl⟩ | ⟨hu, h⟩⟩ := readLoop_cons h
    · obtain ⟨rfl, rfl⟩ := ReadEnd.returned.inj he
      exact ⟨[a], rfl, by simp⟩
    · obtain ⟨received, rfl, -⟩ := ih h
      exact ⟨a :: received, rfl, by simp⟩

theorem returned_iff {e : ReadEnd Addr} {arrivals : List (Arrival Addr)}
    (h : readLoop b cap s arrivals = some (e, s')) :
    (∃ res rest, e = .returned res rest) ↔ ∃ a ∈ arrivals, 24 < a.size := by
  induction arrivals generalizing s with
  | nil =>
    simp only [readLoop, Option.some.injEq, Prod.mk.injEq] at h
    obtain ⟨rfl, rfl⟩ := h
    simp
  | cons a rest ih =>
    obtain ⟨u, s₁, r, s₂, habs, hread, h⟩ := readLoop_cons h
    obtain ⟨-, -, hsize⟩ := absorb_frame habs
    rcases h with ⟨hu, rfl, rfl⟩ | ⟨hu, h⟩
    · exact iff_of_true ⟨_, rest, rfl⟩ ⟨a, List.mem_cons_self, hsize.mp hu⟩
    · rw [ih h]
      simp only [List.mem_cons, exists_eq_or_imp, or_iff_right (fun hlt => hu (hsize.mpr hlt))]

theorem ReadsKcb.returns_iff {t : Tick} {r : Except IoError (List UInt8)} {m : List UInt8}
    (h : ReadsKcb b s₁ cap t r s₂) (hbuf : s₁.buf.length = recvBuf) (hm : m.length ≤ cap) :
    r = .ok m ∧ s₂.taken = s₁.taken ++ [m] ↔ s₁.kcb.nextMessage b.profile = some m ∧ m.length ≤ recvBuf := by
  cases h with
  | none e hn =>
    refine iff_of_false (by simp) fun hw => ?_
    rw [hn] at hw
    cases hw.1
  | short m' hn hlt =>
    refine iff_of_false (by simp) fun hw => ?_
    obtain rfl := Option.some.inj (hn.symm.trans hw.1)
    rw [hbuf] at hlt
    exact Nat.not_le.mpr hlt hw.2
  | dropped m' k hn hle hrecv hcap =>
    refine iff_of_false (by simp) fun hw => ?_
    obtain rfl := Option.some.inj (hn.symm.trans hw.1)
    exact Nat.not_le.mpr hcap hm
  | returned m' k k₁ dur hn hle hrecv hcap ht =>
    rw [hn]
    constructor
    · rintro ⟨hr, -⟩
      obtain rfl := Except.ok.inj hr
      exact ⟨rfl, hbuf ▸ hle⟩
    · rintro ⟨hmm, -⟩
      obtain rfl := Option.some.inj hmm
      exact ⟨rfl, by rw [setKcb_taken, setBuf_taken, took_taken]⟩

/-- Under an exact condition the call returns `m`, and takes no other message. -/
theorem returns_iff {e : ReadEnd Addr} {arrivals : List (Arrival Addr)} {m : List UInt8} (hm : m.length ≤ cap)
    (h : readLoop b cap s arrivals = some (e, s')) :
    (∃ rest, e = .returned (.ready (.ok m)) rest ∧ s'.taken = s.taken ++ [m]) ↔ WillReturn b m s arrivals := by
  induction arrivals generalizing s with
  | nil =>
    simp only [readLoop, Option.some.injEq, Prod.mk.injEq] at h
    obtain ⟨rfl, rfl⟩ := h
    exact iff_of_false (by simp) id
  | cons a rest ih =>
    obtain ⟨u, s₁, r, s₂, habs, hread, h⟩ := readLoop_cons h
    obtain ⟨hbuf, htaken, -⟩ := absorb_frame habs
    refine Iff.trans ?_ (forall_absorb habs).symm
    rcases h with ⟨hu, rfl, rfl⟩ | ⟨hu, h⟩
    · rw [if_pos hu, ← hread.returns_iff hbuf hm, htaken]
      simp only [ReadEnd.returned.injEq, Poll.ready.injEq, asEof_eq_ok, and_assoc, exists_and_left, exists_eq_left']
    · rw [if_neg hu]
      rcases hread.takes hbuf with ⟨rfl, -, hstay⟩ | ⟨m', hn, hle, ht, -⟩
      · rw [← htaken, ih h]
        exact (and_iff_right hstay).symm
      · rw [htaken] at ht
        refine iff_of_false ?_ fun hw => Nat.not_le.mpr (hw.1 m' hn) hle
        rintro ⟨rest', rfl, heq⟩
        exact taken_ne h ht (by rw [heq]; rfl)

theorem becameReadable_cons (habs : s.absorb b a = some (u, s₁)) (received : List (Arrival Addr)) :
    becameReadable b s (a :: received) =
      (s₁.kcb.nextMessage b.profile).or (becameReadable b s₁ received) := by
  simp only [becameReadable, habs, Option.bind_some]

theorem received_cons {res : Poll (Except IoError (List UInt8))} {received rest' : List (Arrival Addr)}
    (h : readLoop b cap s (a :: rest) = some (.returned res rest', s')) (heq : a :: rest = received ++ rest') :
    ∃ received', received = a :: received' ∧ rest = received' ++ rest' := by
  obtain ⟨received', heq', hne⟩ := received_ne_nil h
  obtain rfl : received = received' := List.append_cancel_right (heq.symm.trans heq')
  obtain ⟨a', received', rfl⟩ := List.exists_cons_of_ne_nil hne
  obtain ⟨rfl, hrest⟩ := List.cons.inj heq
  exact ⟨received', rfl, hrest⟩

theorem reports_of_next {e : ReadEnd Addr} {m : List UInt8} (h : readLoop b cap s (a :: rest) = some (e, s'))
    (habs : s.absorb b a = some (u, s₁)) (hn : s₁.kcb.nextMessage b.profile = some m) :
    Reports b cap s (a :: rest) e s' ↔ ∃ res rest', e = .returned res rest' ∧
      (m.length ≤ cap → res = .ready (.ok m) ∧ s'.taken = s.taken ++ [m]) := by
  have hbecame : ∀ received, becameReadable b s (a :: received) = some m := by
    intro received
    rw [becameReadable_cons habs, hn, Option.some_or]
  constructor
  · rintro ⟨res, received, rest', rfl, heq, hsome, -⟩
    obtain ⟨received', rfl, -⟩ := received_cons h heq
    exact ⟨res, rest', rfl, hsome m (hbecame received')⟩
  · rintro ⟨res, rest', rfl, hres⟩
    obtain ⟨received, heq, -⟩ := received_ne_nil h
    obtain ⟨received', rfl, -⟩ := received_cons h heq
    refine ⟨res, _, rest', rfl, heq, fun m' hm' => ?_, fun hnone => ?_⟩
    · obtain rfl := Option.some.inj ((hbecame received').symm.trans hm')
      exact hres
    · exact absurd ((hbecame received').symm.trans hnone) (by simp)

/-- When the last datagram completes nothing, the answer should be `Pending`, and is none. -/
theorem not_reports_last {r : Except IoError (List UInt8)} (habs : s.absorb b a = some (u, s₁))
    (h : readLoop b cap s (a :: rest) = some (.returned (.ready r) rest, s'))
    (hn : s₁.kcb.nextMessage b.profile = none) : ¬ Reports b cap s (a :: rest) (.returned (.ready r) rest) s' := by
  rintro ⟨res, received, rest', he, heq, -, hnone⟩
  obtain ⟨rfl, rfl⟩ := ReadEnd.returned.inj he
  obtain ⟨received', rfl, hrest⟩ := received_cons h heq
  obtain rfl : received' = [] := List.append_left_eq_self.mp hrest.symm
  have hbecame : becameReadable b s [a] = none := by
    rw [becameReadable_cons habs, hn]
    rfl
  cases hnone hbecame

/-- A datagram that completes nothing does not change what is to be answered. -/
theorem reports_cons {e : ReadEnd Addr} (h : readLoop b cap s (a :: rest) = some (e, s'))
    (habs : s.absorb b a = some (u, s₁)) (hn : s₁.kcb.nextMessage b.profile = none) :
    Reports b cap s (a :: rest) e s' ↔ Reports b cap s₁ rest e s' := by
  have htaken := (absorb_frame habs).2.1
  have hbecame : ∀ received, becameReadable b s (a :: received) = becameReadable b s₁ received := by
    intro received
    rw [becameReadable_cons habs, hn, Option.none_or]
  constructor
  · rintro ⟨res, received, rest', rfl, heq, hsome, hnone⟩
    obtain ⟨received', rfl, hrest⟩ := received_cons h heq
    rw [hbecame received', ← htaken] at hsome
    rw [hbecame received'] at hnone
    exact ⟨res, received', rest', rfl, hrest, hsome, hnone⟩
  · rintro ⟨res, received, rest', rfl, rfl, hsome, hnone⟩
    rw [htaken, ← hbecame received] at hsome
    rw [← hbecame received] at hnone
    exact ⟨res, a :: received, rest', rfl, rfl, hsome, hnone⟩

theorem reports_iff {e : ReadEnd Addr} {arrivals : List (Arrival Addr)}
    (h : readLoop b cap s arrivals = some (e, s')) : Reports b cap s arrivals e s' ↔ WillAnswer b cap s arrivals := by
  -- induction on the datagrams; the first one decides, or leaves it to the rest
  induction arrivals generalizing s with
  | nil =>
    simp only [readLoop, Option.some.injEq, Prod.mk.injEq] at h
    obtain ⟨rfl, rfl⟩ := h
    exact iff_of_false (by rintro ⟨res, received, rest, he, -⟩; cases he) id
  | cons a rest ih =>
    have hloop := h
    obtain ⟨u, s₁, r, s₂, habs, hread, h⟩ := readLoop_cons h
    refine Iff.trans ?_ (forall_absorb habs).symm
    cases hn : s₁.kcb.nextMessage b.profile with
    | some m =>
      rw [reports_of_next hloop habs hn]
      simp only [Option.some.injEq, forall_eq', reduceCtorEq, false_imp_iff, and_true]
      by_cases hm : m.length ≤ cap
      · rw [if_pos hm, ← returns_iff hm hloop]
        constructor
        · rintro ⟨res, rest', rfl, hres⟩
          obtain ⟨rfl, ht⟩ := hres hm
          exact ⟨rest', rfl, ht⟩
        · rintro ⟨rest', rfl, ht⟩
          exact ⟨_, rest', rfl, fun _ => ⟨rfl, ht⟩⟩
      · rw [if_neg hm, ← returned_iff hloop]
        constructor
        · rintro ⟨res, rest', he, -⟩
          exact ⟨res, rest', he⟩
        · rintro ⟨res, rest', he⟩
          exact ⟨res, rest', he, fun hle => absurd hle hm⟩
    | none =>
      simp only [reduceCtorEq, false_imp_iff, implies_true, true_and, forall_const]
      -- no message: a last datagram gives an error, a longer call goes on
      rcases h with ⟨hu, rfl, rfl⟩ | ⟨hu, h⟩
      · exact iff_of_false (not_reports_last habs hloop hn) fun hw => hw.1 hu
      · obtain rfl : s₂ = s₁ := by
          rcases hread.takes (absorb_frame habs).1 with ⟨hs, -⟩ | ⟨m, hn', -⟩
          · exact hs
          · rw [hn] at hn'
            cases hn'
        rw [and_iff_right hu, ← ih h]
        exact reports_cons hloop habs hn

theorem readLoop_ends_iff {arrivals : List (Arrival Addr)} :
    (∃ e s', readLoop b cap s arrivals = some (e, s')) ↔ EachTurn b cap (Ends b cap) s arrivals := by
  induction arrivals generalizing s with
  | nil => exact iff_of_true ⟨_, _, rfl⟩ trivial
  | cons a rest ih =>
    rw [EachTurn, readLoop_eq]
    constructor
    · rintro ⟨e, s', h⟩
      simp only [Option.bind_eq_some_iff] at h
      obtain ⟨⟨u, s₁⟩, habs, ⟨r, s₂⟩, hread, h⟩ := h
      refine ⟨⟨u, s₁, r, s₂, habs, hread⟩, fun u' s₁' r' s₂' habs' hread' hu => ih.mp ⟨e, s', ?_⟩⟩
      obtain ⟨rfl, rfl⟩ := Prod.mk.inj (Option.some.inj (habs.symm.trans habs'))
      obtain ⟨rfl, rfl⟩ := Prod.mk.inj (Option.some.inj (hread.symm.trans hread'))
      rwa [if_neg hu] at h
    · rintro ⟨⟨u, s₁, r, s₂, habs, hread⟩, hrest⟩
      rw [habs, Option.bind_some, hread, Option.bind_some]
      split_ifs with hu
      · exact ⟨_, _, rfl⟩
      · exact ih.mpr (hrest u s₁ r s₂ habs hread hu)

/-! ### The turns of a client -/

theorem take_fillFrom_blank (d : List UInt8) :
    (fillFrom blankBuf d).take (recvFrom recvBuf d).length = recvFrom recvBuf d := by
  rw [fillFrom, show blankBuf.length = recvBuf from List.length_replicate]
  exact List.take_left

/-- A datagram is absorbed exactly when there is one and the update behind it has nothing to write. -/
theorem absorb_shipped (hs : s.kcb.OfStream) : (∃ u s₁, s.absorb shipped a = some (u, s₁)) ↔
    ∃ d x r k, a.received = .ok (d, x) ∧ s.kcb.input .release (recvFrom recvBuf d) = some (r, k) ∧
      k.Quiet a.udp.now := by
  unfold absorb receive
  cases hrec : a.received with
  | error e => simp
  | ok y =>
    obtain ⟨d, x⟩ := y
    have hlen : (recvFrom recvBuf d).length ≤ (fillFrom blankBuf d).length := by
      rw [← take_fillFrom_blank d, List.length_take]
      exact Nat.min_le_right _ _
    simp only [Option.bind_eq_bind, Option.bind_some, udpRecvAndIucUpdate, setBuf_toSend, setBuf_kcb, setBuf_buf,
      take_fillFrom_blank, Profile.assert, Option.bind_eq_some_iff, Option.some.injEq, Prod.mk.injEq, Except.ok.injEq]
    constructor
    · rintro ⟨u, s₁, -, ⟨-, -, ⟨r, k⟩, hin, ⟨dur, k'⟩, ht, -⟩, -⟩
      exact ⟨d, x, r, k, ⟨rfl, rfl⟩, hin, (tick_iff (hs.input hin).sized a.udp).mp ⟨dur, k', ht⟩⟩
    · rintro ⟨d, x, r, k, ⟨rfl, rfl⟩, hin, hquiet⟩
      obtain ⟨dur, k', ht⟩ := (tick_iff (hs.input hin).sized a.udp).mpr hquiet
      cases hready : a.readiness with
      | error e => exact ⟨_, _, (.error e, _), ⟨(), if_pos hlen, (r, k), hin, (dur, k'), ht, rfl⟩, rfl, rfl⟩
      | ok u => exact ⟨_, _, (.ok (some x), _), ⟨(), if_pos hlen, (r, k), hin, (dur, k'), ht, rfl⟩, rfl, rfl⟩

/-- A read comes to its end exactly when the update behind the message has nothing to write. -/
theorem readKcb_shipped {t : Tick} (hs : s₁.kcb.OfStream) : (∃ r s₂, s₁.readKcb shipped cap t = some (r, s₂)) ↔
    ∃ q k, s₁.kcb.recv .release s₁.buf.length = some (q, k) ∧ ∀ m, q = .ok m → m.length ≤ cap → k.Quiet t.now := by
  have hprofile : shipped.profile = .release := rfl
  simp only [readKcb, hprofile, Option.bind_eq_bind, Option.bind_eq_some_iff]
  constructor
  · rintro ⟨r, s₂, ⟨q, k⟩, hr, h⟩
    refine ⟨q, k, hr, fun m hq hm => ?_⟩
    subst hq
    simp only [if_pos hm, kcpCheck, Option.bind_eq_bind, Option.bind_eq_some_iff] at h
    obtain ⟨s₃, ⟨⟨dur, k'⟩, ht, -⟩, -⟩ := h
    exact (tick_iff (hs.recv hr).sized t).mp ⟨dur, k', ht⟩
  · rintro ⟨q, k, hr, hquiet⟩
    cases q with
    | error e =>
      by_cases he : e.kind = .other
      · exact ⟨_, _, (.error e, k), hr, if_pos he⟩
      · exact ⟨_, _, (.error e, k), hr, if_neg he⟩
    | ok m =>
      by_cases hm : m.length ≤ cap
      · obtain ⟨dur, k', ht⟩ := (tick_iff (hs.recv hr).sized t).mpr (hquiet m rfl hm)
        refine ⟨.ok m, ((s₁.took k m).setBuf [] (s₁.took k m).toSend).setKcb k', (.ok m, k), hr, ?_⟩
        simp only [if_pos hm, kcpCheck, setBuf_kcb, took_kcb, ht, Option.bind_eq_bind, Option.bind_some]
      · exact ⟨_, _, (.ok m, k), hr, if_neg hm⟩

theorem ofStream_absorb (hs : s.kcb.OfStream) (h : s.absorb shipped a = some (u, s₁)) : s₁.kcb.OfStream := by
  simp only [absorb, Option.bind_eq_bind, Option.bind_eq_some_iff, Option.some.injEq, Prod.mk.injEq] at h
  obtain ⟨⟨u', s₀⟩, hrec, ⟨q, s₁'⟩, hu, rfl, rfl⟩ := h
  refine ofStream_udpRecv ?_ hu
  unfold receive at hrec
  cases hr : a.received with
  | error e => simp [hr] at hrec
  | ok x =>
    simp only [hr, Option.some.injEq, Prod.mk.injEq] at hrec
    rw [← hrec.2, setBuf_kcb]
    exact hs

theorem ofStream_readKcb {t : Tick} {r : Except IoError (List UInt8)} (hs : s₁.kcb.OfStream)
    (h : s₁.readKcb shipped cap t = some (r, s₂)) : s₂.kcb.OfStream := by
  cases readsKcb_of_readKcb h with
  | none | short => exact hs
  | dropped m k hn hbuf hr hcap => exact hs.recv hr
  | returned m k k₁ dur hn hbuf hr hcap ht => exact (hs.recv hr).tick ht

/-- **A turn comes to its end exactly when a datagram arrives and there is nothing to write.** -/
theorem ends_iff (hs : s.kcb.OfStream) : Ends shipped cap s a ↔ Flows cap s a := by
  constructor
  · rintro ⟨u, s₁, r, s₂, habs, hread⟩
    refine ⟨(absorb_shipped hs).mp ⟨u, s₁, habs⟩, fun u' s₁' habs' => ?_⟩
    obtain ⟨rfl, rfl⟩ := Prod.mk.inj (Option.some.inj (habs.symm.trans habs'))
    have h := (readKcb_shipped (ofStream_absorb hs habs)).mp ⟨r, s₂, hread⟩
    rwa [(absorb_frame habs).1] at h
  · rintro ⟨hheard, hread⟩
    obtain ⟨u, s₁, habs⟩ := (absorb_shipped hs).mpr hheard
    have h := hread u s₁ habs
    rw [← (absorb_frame habs).1] at h
    obtain ⟨r, s₂, hr⟩ := (readKcb_shipped (t := a.read.check) (ofStream_absorb hs habs)).mpr h
    exact ⟨u, s₁, r, s₂, habs, hr⟩

theorem eachTurn_ends_iff {arrivals : List (Arrival Addr)} (hs : s.kcb.OfStream) :
    EachTurn shipped cap (Ends shipped cap) s arrivals ↔ EachTurn shipped cap (Flows cap) s arrivals := by
  induction arrivals generalizing s with
  | nil => exact Iff.rfl
  | cons a rest ih =>
    refine and_congr (ends_iff hs) (forall₄_congr fun u s₁ r s₂ => forall₂_congr fun habs hread => imp_congr_right
      fun _ => ih ?_)
    exact ofStream_readKcb (ofStream_absorb hs habs) hread

end KcpStream

end NetProtocols.Kcp
