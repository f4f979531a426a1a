import Mathlib.Data.List.Basic
import Mathlib.Tactic.Common

/-!
# NetProtocols.Lib.Demand — computations that read exact amounts from a source of bytes

A computation `Demand α` asks for a number of bytes, goes on with them, and ends with a result.  It can be run on the
bytes themselves, or awaited on a source that is polled and yields the bytes in pieces, late, or not at all.

* `Demand.onBytes`: the computation on a list of bytes; `none` when they run out.
* `Source`, `readExact`, `Demand.await`: a source, `read_exact` on it, and the computation awaited on it.
* `Carries`, `await_carries`: a source that carries a list of bytes gives what the list gives, however it is cut.
* `Dry`, `DriesUp`, `await_driesUp`: from a source that has run dry nothing is read.
-/

namespace NetProtocols

/-- A computation: its result, or a number of bytes to be read and what follows them. -/
inductive Demand (α : Type)
  | done (a : α)
  | read (n : ℕ) (next : List UInt8 → Demand α)

/-- The computation on a list of bytes: its result and the bytes that it leaves. -/
def Demand.onBytes {α : Type} : Demand α → List UInt8 → Option (α × List UInt8)
  | .done a, bytes => some (a, bytes)
  | .read n next, bytes => if n ≤ bytes.length then (next (bytes.take n)).onBytes (bytes.drop n) else none

/-- What a poll yields. -/
inductive Polled (ε : Type)
  | pending
  | failed (e : ε)
  | got (bytes : List UInt8)
  deriving DecidableEq

/-- A source: what a poll with room for so many bytes yields, in the circumstances of the poll; `none` stops the
thread. -/
abbrev Source (σ γ ε : Type) := σ → γ → ℕ → Option (Polled ε × σ)

/-- Where a computation stands when the polls end. -/
inductive Await (ε α : Type)
  | done (a : α)
  | failed (e : ε)
  | waiting
  deriving DecidableEq

section Await

variable {σ γ ε α : Type} (src : Source σ γ ε) (eof : ε)

/-- `read_exact` of `n` more bytes behind those in `acc`; a poll that yields none is the end of the stream. -/
def readExact : List γ → ℕ → List UInt8 → σ → Option (Await ε (List UInt8) × σ × List γ)
  | polls, 0, acc, s => some (.done acc, s, polls)
  | [], _ + 1, _, s => some (.waiting, s, [])
  | c :: polls, n + 1, acc, s => do
    let (r, s) ← src s c (n + 1)
    match r with
    | .pending => readExact polls (n + 1) acc s
    | .failed e => some (.failed e, s, polls)
    | .got bytes =>
      if bytes = [] then some (.failed eof, s, polls)
      else readExact polls (n + 1 - bytes.length) (acc ++ bytes) s

/-- The computation, awaited: the source as it is left, and the polls that were not needed. -/
def Demand.await : Demand α → List γ → σ → Option (Await ε α × σ × List γ)
  | .done a, polls, s => some (.done a, s, polls)
  | .read n next, polls, s => do
    let (r, s, polls) ← readExact src eof polls n [] s
    match r with
    | .done buf => (next buf).await polls s
    | .failed e => some (.failed e, s, polls)
    | .waiting => some (.waiting, s, polls)

end Await

/-! ### Sources that carry bytes -/

section Carries

variable {σ γ ε α : Type} {src : Source σ γ ε} {eof e : ε}
  {rest : σ → List UInt8} {ready : γ → Bool}

/-- A source that delivers the bytes `rest`, some at every poll that finds it ready; behind them a poll finds the end of
the stream, or fails with `e`. -/
structure Carries (src : Source σ γ ε) (eof e : ε) (rest : σ → List UInt8) (ready : γ → Bool) : Prop where
  idle : ∀ s c cap, ready c = false → ∃ s', src s c cap = some (.pending, s') ∧ rest s' = rest s
  next : ∀ s c cap, ready c = true → 0 < cap → rest s ≠ [] →
    ∃ bytes s', src s c cap = some (.got bytes, s') ∧ bytes ≠ [] ∧ bytes.length ≤ cap ∧ rest s = bytes ++ rest s'
  pastEnd : ∀ s c cap, ready c = true → rest s = [] →
    ∃ r s', src s c cap = some (r, s') ∧ rest s' = [] ∧ (r = .failed e ∨ r = .got [] ∧ e = eof)

/-- What `read_exact` comes to, by the bytes that are left and the polls that find the source ready. -/
theorem readExact_carries (hc : Carries src eof e rest ready) (polls : List γ) (n : ℕ) (acc : List UInt8) (s : σ) :
    ∃ r s' polls', readExact src eof polls n acc s = some (r, s', polls') ∧
      ((r = .waiting ∧ polls.countP ready ≤ (rest s).length) ∨
        (r = .failed e ∧ (rest s).length < n) ∨
        (n ≤ (rest s).length ∧ r = .done (acc ++ (rest s).take n) ∧ rest s' = (rest s).drop n ∧
          polls.countP ready ≤ polls'.countP ready + n)) := by
  -- induction on the polls
  induction polls generalizing n acc s with
  | nil =>
    cases n with
    | zero => exact ⟨_, s, [], rfl, Or.inr (Or.inr ⟨Nat.zero_le _, by simp, rfl, by simp⟩)⟩
    | succ n => exact ⟨_, s, [], rfl, Or.inl ⟨rfl, by simp⟩⟩
  | cons c polls ih =>
    cases n with
    | zero => exact ⟨_, s, c :: polls, rfl, Or.inr (Or.inr ⟨Nat.zero_le _, by simp, rfl, by simp⟩)⟩
    | succ n =>
      cases hready : ready c with
      | false =>
        obtain ⟨s₁, hs, hrest⟩ := hc.idle s c (n + 1) hready
        obtain ⟨r, s', polls', hr, h⟩ := ih (n + 1) acc s₁
        rw [hrest] at h
        refine ⟨r, s', polls', by simp [readExact, hs, hr], ?_⟩
        rwa [List.countP_cons_of_neg (by simp [hready])]
      | true =>
        rw [List.countP_cons_of_pos hready]
        by_cases hnil : rest s = []
        · obtain ⟨r, s₁, hs, -, hover⟩ := hc.pastEnd s c (n + 1) hready hnil
          refine ⟨.failed e, s₁, polls, ?_, Or.inr (Or.inl ⟨rfl, by simp [hnil]⟩)⟩
          rcases hover with rfl | ⟨rfl, rfl⟩ <;> simp [readExact, hs]
        · -- bytes arrive, at most as many as are asked for: the rest is read by the polls that follow
          obtain ⟨bytes, s₁, hs, hne, hlen, hrest⟩ := hc.next s c (n + 1) hready (Nat.succ_pos n) hnil
          have hpos : 0 < bytes.length := List.length_pos_iff.mpr hne
          have hsplit : (rest s).length = bytes.length + (rest s₁).length := by rw [hrest, List.length_append]
          obtain ⟨r, s', polls', hr, h⟩ := ih (n + 1 - bytes.length) (acc ++ bytes) s₁
          refine ⟨r, s', polls', by simp [readExact, hs, hne, hr], ?_⟩
          rcases h with ⟨hw, hcount⟩ | ⟨hf, hshort⟩ | ⟨hle, hd, hs', hcount⟩
          · exact Or.inl ⟨hw, by omega⟩
          · exact Or.inr (Or.inl ⟨hf, by omega⟩)
          · refine Or.inr (Or.inr ⟨by omega, ?_, ?_, by omega⟩)
            · rw [hd, hrest, List.take_append, List.take_of_length_le hlen, List.append_assoc]
            · rw [hs', hrest, List.drop_append, List.drop_of_length_le hlen, List.nil_append]

/-- **A source that carries bytes gives what the bytes give**, however it cuts them; the computation waits only as long
as there were no more ready polls than bytes. -/
theorem await_carries (hc : Carries src eof e rest ready) (t : Demand α) (polls : List γ) (s : σ) :
    ∃ r s' polls', t.await src eof polls s = some (r, s', polls') ∧
      ((r = .waiting ∧ polls.countP ready ≤ (rest s).length) ∨
        (r = .failed e ∧ t.onBytes (rest s) = none) ∨
        ∃ a, r = .done a ∧ t.onBytes (rest s) = some (a, rest s')) := by
  induction t generalizing polls s with
  | done a => exact ⟨_, s, polls, rfl, Or.inr (Or.inr ⟨a, rfl, rfl⟩)⟩
  | read n next ih =>
    obtain ⟨r, s₁, polls₁, hr, h⟩ := readExact_carries hc polls n [] s
    rcases h with ⟨rfl, hcount⟩ | ⟨rfl, hshort⟩ | ⟨hle, rfl, hs₁, hcount⟩
    · exact ⟨.waiting, s₁, polls₁, by simp [Demand.await, hr], Or.inl ⟨rfl, hcount⟩⟩
    · refine ⟨.failed e, s₁, polls₁, by simp [Demand.await, hr], Or.inr (Or.inl ⟨rfl, ?_⟩)⟩
      rw [Demand.onBytes, if_neg (Nat.not_le.mpr hshort)]
    · obtain ⟨r, s', polls', hr', h⟩ := ih ((rest s).take n) polls₁ s₁
      have hon : (Demand.read n next).onBytes (rest s) = (next ((rest s).take n)).onBytes (rest s₁) := by
        rw [Demand.onBytes, if_pos hle, hs₁]
      refine ⟨r, s', polls', by simp [Demand.await, hr, hr'], ?_⟩
      rw [hon]
      rcases h with ⟨hw, hcount'⟩ | h
      · have hlen : (rest s₁).length = (rest s).length - n := by rw [hs₁, List.length_drop]
        exact Or.inl ⟨hw, by omega⟩
      · exact Or.inr h

end Carries

/-! ### Sources that have run dry -/

section Dry

variable {σ γ ε α : Type} {src : Source σ γ ε} {eof : ε} {P Q : σ → Prop} {polls polls' : List γ} {s s' : σ}

/-- From the states `P` no poll yields a byte, ever. -/
def Dry (src : Source σ γ ε) (P : σ → Prop) : Prop :=
  ∀ s c cap r s', P s → src s c cap = some (r, s') → P s' ∧ ∀ bytes, r = .got bytes → bytes = []

/-- From the states `Q` a poll that yields bytes leads to `P`, and no other poll leads anywhere else. -/
def DriesUp (src : Source σ γ ε) (Q P : σ → Prop) : Prop :=
  ∀ s c cap r s', Q s → src s c cap = some (r, s') → P s' ∨ r = .pending ∧ Q s' ∨ ∃ e, r = .failed e

theorem readExact_dry (hd : Dry src P) {n : ℕ} {acc buf : List UInt8} (hs : P s) :
    readExact src eof polls (n + 1) acc s ≠ some (.done buf, s', polls') := by
  intro h
  induction polls generalizing s with
  | nil => simp [readExact] at h
  | cons c polls ih =>
    simp only [readExact, Option.bind_eq_bind, Option.bind_eq_some_iff] at h
    obtain ⟨⟨r, s₁⟩, hr, h⟩ := h
    obtain ⟨hs₁, hbytes⟩ := hd s c (n + 1) r s₁ hs hr
    cases r with
    | pending => exact ih hs₁ h
    | failed e => simp at h
    | got bytes => simp [hbytes bytes rfl] at h

/-- What has been read has left the source dry. -/
theorem readExact_driesUp (hd : Dry src P) (hq : DriesUp src Q P) {n : ℕ} {acc buf : List UInt8} (hs : Q s)
    (h : readExact src eof polls (n + 1) acc s = some (.done buf, s', polls')) : P s' := by
  induction polls generalizing s with
  | nil => simp [readExact] at h
  | cons c polls ih =>
    simp only [readExact, Option.bind_eq_bind, Option.bind_eq_some_iff] at h
    obtain ⟨⟨r, s₁⟩, hr, h⟩ := h
    rcases hq s c (n + 1) r s₁ hs hr with hs₁ | ⟨rfl, hs₁⟩ | ⟨e, rfl⟩
    · cases r with
      | pending => exact absurd h (readExact_dry hd hs₁)
      | failed e => simp at h
      | got bytes =>
        dsimp only at h
        split_ifs at h
        · simp at h
        · cases hn : n + 1 - bytes.length with
          | zero =>
            rw [hn] at h
            have hdone : readExact src eof polls 0 (acc ++ bytes) s₁ = some (.done (acc ++ bytes), s₁, polls) := by
              cases polls <;> rfl
            rw [hdone] at h
            simp only [Option.some.injEq, Prod.mk.injEq] at h
            exact h.2.1 ▸ hs₁
          | succ m =>
            rw [hn] at h
            exact absurd h (readExact_dry hd hs₁)
    · exact ih hs₁ h
    · simp at h

/-- The computation still has to read, or its result is one of `bad`. -/
def Demand.Needs (bad : α → Prop) : Demand α → Prop
  | .done a => bad a
  | .read n _ => 0 < n

/-- **On a source that dries up** a computation that reads twice before any other result has none but `bad`. -/
theorem await_driesUp (hd : Dry src P) (hq : DriesUp src Q P) {bad : α → Prop} {n : ℕ} {next : List UInt8 → Demand α}
    {a : α} (hn : 0 < n) (hnext : ∀ buf, (next buf).Needs bad) (hs : Q s)
    (h : (Demand.read n next).await src eof polls s = some (.done a, s', polls')) : bad a := by
  simp only [Demand.await, Option.bind_eq_bind, Option.bind_eq_some_iff] at h
  obtain ⟨⟨r, s₁, polls₁⟩, hr, h⟩ := h
  obtain ⟨n, rfl⟩ := Nat.exists_eq_succ_of_ne_zero (Nat.pos_iff_ne_zero.mp hn)
  cases r with
  | failed e => simp at h
  | waiting => simp at h
  | done buf =>
    dsimp only at h
    have hs₁ : P s₁ := readExact_driesUp hd hq hs hr
    have hneeds := hnext buf
    cases ht : next buf with
    | done a' =>
      rw [ht] at h hneeds
      simp only [Demand.await, Option.some.injEq, Prod.mk.injEq, Await.done.injEq] at h
      exact h.1 ▸ hneeds
    | read m next' =>
      rw [ht] at h hneeds
      obtain ⟨m, rfl⟩ := Nat.exists_eq_succ_of_ne_zero (Nat.pos_iff_ne_zero.mp hneeds)
      simp only [Demand.await, Option.bind_eq_bind, Option.bind_eq_some_iff] at h
      obtain ⟨⟨r, s₂, polls₂⟩, hr₂, h⟩ := h
      cases r with
      | failed e => simp at h
      | waiting => simp at h
      | done buf' => exact absurd hr₂ (readExact_dry hd hs₁)

end Dry

end NetProtocols
