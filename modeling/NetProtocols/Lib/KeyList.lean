import Mathlib.Data.List.Basic
import Mathlib.Data.List.Range
import Mathlib.Data.List.Sort
import Mathlib.Tactic.Common

/-!
# NetProtocols.Lib.KeyList — lists strictly increasing in a key

`Increasing key l` says that the natural-number keys of `l` go strictly up.  The lemmas are what a window of
numbered items needs: insertion between two parts, dropping the items below a bound, removing one number, and
taking a contiguous run off the front.
-/

namespace NetProtocols

universe u

variable {α : Type u} {key : α → ℕ}

/-- The keys of `l` go strictly up. -/
def Increasing (key : α → ℕ) (l : List α) : Prop := l.Pairwise (fun a b => key a < key b)

theorem increasing_nil : Increasing key [] := List.Pairwise.nil

theorem increasing_cons {a : α} {l : List α} :
    Increasing key (a :: l) ↔ (∀ x ∈ l, key a < key x) ∧ Increasing key l := List.pairwise_cons

theorem increasing_append {l₁ l₂ : List α} :
    Increasing key (l₁ ++ l₂) ↔
      Increasing key l₁ ∧ Increasing key l₂ ∧ ∀ x ∈ l₁, ∀ y ∈ l₂, key x < key y := List.pairwise_append

theorem Increasing.sublist {l₁ l₂ : List α} (h : Increasing key l₂) (hs : l₁.Sublist l₂) :
    Increasing key l₁ := List.Pairwise.sublist hs h

theorem Increasing.drop {l : List α} (h : Increasing key l) (n : ℕ) : Increasing key (l.drop n) :=
  h.sublist (List.drop_sublist n l)

theorem Increasing.eq_of_key_eq {l : List α} (h : Increasing key l) {a b : α} (ha : a ∈ l) (hb : b ∈ l)
    (hab : key a = key b) : a = b := by
  have : Std.Symm fun a b : α => key a ≠ key b := ⟨fun _ _ h => h.symm⟩
  have hne : l.Pairwise fun a b => key a ≠ key b := h.imp ne_of_lt
  by_contra hab'
  exact hne.forall ha hb hab' hab

/-- Two such lists with the same items are the same. -/
theorem Increasing.eq_of_mem_iff {l₁ l₂ : List α} (h₁ : Increasing key l₁) (h₂ : Increasing key l₂)
    (h : ∀ a, a ∈ l₁ ↔ a ∈ l₂) : l₁ = l₂ := by
  have : Std.Irrefl fun a b : α => key a < key b := ⟨fun a => lt_irrefl (key a)⟩
  have : Std.Antisymm fun a b : α => key a < key b := ⟨fun a b hab hba => absurd hab hba.asymm⟩
  exact List.Pairwise.eq_of_mem_iff h₁ h₂ h

theorem insertIdx_eq {l : List α} {i : ℕ} {a : α} (h : i ≤ l.length) :
    l.insertIdx i a = l.take i ++ a :: l.drop i := by
  induction i generalizing l with
  | zero => rfl
  | succ i ih =>
    cases l with
    | nil => simp at h
    | cons b l => simp [ih (by simpa using h)]

/-- An item goes between the part that ends below it and the part above it. -/
theorem Increasing.insert {l₁ l₂ : List α} {a : α} (h : Increasing key (l₁ ++ l₂))
    (h₁ : ∀ x, l₁.getLast? = some x → key x < key a) (h₂ : ∀ x ∈ l₂, key a < key x) :
    Increasing key (l₁ ++ a :: l₂) := by
  obtain ⟨i1, i2, i3⟩ := increasing_append.mp h
  have hlast : ∀ x ∈ l₁, key x < key a := by
    intro x hx
    rcases List.eq_nil_or_concat l₁ with rfl | ⟨l, y, rfl⟩
    · simp at hx
    · simp only [List.concat_eq_append] at *
      have hy : key y < key a := h₁ y (by simp)
      rcases List.mem_append.mp hx with hx | hx
      · have := (increasing_append.mp i1).2.2 x hx y (by simp)
        omega
      · simp only [List.mem_singleton] at hx
        rwa [hx]
  refine increasing_append.mpr ⟨i1, increasing_cons.mpr ⟨h₂, i2⟩, ?_⟩
  intro x hx y hy
  rcases List.mem_cons.mp hy with rfl | hy
  · exact hlast x hx
  · exact i3 x hx y hy

/-- A contiguous run taken off the front leaves only greater keys. -/
theorem Increasing.le_of_mem_drop {l : List α} {lo n : ℕ} (h : Increasing key l)
    (hlo : ∀ x ∈ l, lo ≤ key x) (hrun : (l.take n).map key = List.range' lo n) :
    ∀ x ∈ l.drop n, lo + n ≤ key x := by
  induction n generalizing l lo with
  | zero => simpa using hlo
  | succ n ih =>
    cases l with
    | nil => simp
    | cons a l =>
      obtain ⟨h1, h2⟩ := increasing_cons.mp h
      simp only [List.take_succ_cons, List.map_cons, List.range'_succ, List.cons.injEq] at hrun
      intro x hx
      have := ih h2 (fun y hy => by have := h1 y hy; omega) hrun.2 x (by simpa using hx)
      omega

/-- A window of `w` numbers holds at most `w` items. -/
theorem Increasing.length_le {l : List α} {lo w : ℕ} (h : Increasing key l)
    (hlo : ∀ x ∈ l, lo ≤ key x) (hhi : ∀ x ∈ l, key x < lo + w) : l.length ≤ w := by
  induction l generalizing lo w with
  | nil => simp
  | cons a l ih =>
    obtain ⟨h1, h2⟩ := increasing_cons.mp h
    have ha := hlo a (by simp)
    have hb := hhi a (by simp)
    have hlo' : ∀ x ∈ l, lo + 1 ≤ key x := fun x hx => by
      have := h1 x hx
      omega
    have := ih (w := w - 1) h2 hlo' fun x hx => by
      have := hhi x (by simp [hx])
      omega
    simp only [List.length_cons]
    omega

end NetProtocols
