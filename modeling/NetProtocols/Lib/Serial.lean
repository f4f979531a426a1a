import Mathlib.Algebra.Order.Ring.Int
import Mathlib.Data.List.Basic
import Mathlib.Data.Option.Basic
import Mathlib.Tactic.Common

/-!
# NetProtocols.Lib.Serial — numbers on a circle, compared on a line

Adding `δ` to every number of a circle of `2 ^ 32` keeps their cyclic order.  A plain comparison keeps its outcome only
if both of its numbers pass `2 ^ 32`, or neither does; otherwise it turns around.

* `SameLap δ a b`: the one case; `lt_add_iff`: the comparison of `a` and `b` survives the shift in this case only.
* `Level δ pairs`: a list of comparisons survives it.
* `rel_bind`: two computations that stop together and return related results, in sequence.
-/

namespace NetProtocols

/-- Adding `δ` to `a` passes `2 ^ 32`. -/
def Wraps (δ a : UInt32) : Prop := 2 ^ 32 ≤ a.toNat + δ.toNat

instance (δ a : UInt32) : Decidable (Wraps δ a) := inferInstanceAs (Decidable (_ ≤ _))

/-- Both numbers pass `2 ^ 32` when `δ` is added, or neither does. -/
def SameLap (δ a b : UInt32) : Prop := Wraps δ a ↔ Wraps δ b

instance (δ a b : UInt32) : Decidable (SameLap δ a b) := inferInstanceAs (Decidable (_ ↔ _))

theorem add_shift (a b δ : UInt32) : a + δ + b = a + b + δ := by
  rw [UInt32.add_assoc, UInt32.add_comm δ, ← UInt32.add_assoc]

theorem sub_shift (a b δ : UInt32) : a + δ - (b + δ) = a - b := by
  have ha := a.toNat_lt
  have hb := b.toNat_lt
  refine UInt32.toNat_inj.mp ?_
  rw [UInt32.toNat_sub, UInt32.toNat_sub, UInt32.toNat_add, UInt32.toNat_add]
  omega

section SameLap

variable {δ a b : UInt32}

theorem SameLap.symm (h : SameLap δ a b) : SameLap δ b a := Iff.symm h

theorem SameLap.add_lt_add (h : SameLap δ a b) : a + δ < b + δ ↔ a < b := by
  have ha := a.toNat_lt
  have hb := b.toNat_lt
  have hδ := δ.toNat_lt
  unfold SameLap Wraps at h
  rw [UInt32.lt_iff_toNat_lt, UInt32.lt_iff_toNat_lt, UInt32.toNat_add, UInt32.toNat_add]
  omega

theorem SameLap.add_le_add (h : SameLap δ a b) : a + δ ≤ b + δ ↔ a ≤ b := by
  rw [← UInt32.not_lt, ← UInt32.not_lt, h.symm.add_lt_add]

/-- Across the end of a lap the order is turned around. -/
theorem add_lt_add_of_not_sameLap (h : ¬ SameLap δ a b) : a + δ < b + δ ↔ b < a := by
  have ha := a.toNat_lt
  have hb := b.toNat_lt
  have hδ := δ.toNat_lt
  unfold SameLap Wraps at h
  rw [UInt32.lt_iff_toNat_lt, UInt32.lt_iff_toNat_lt, UInt32.toNat_add, UInt32.toNat_add]
  omega

theorem ne_of_not_sameLap (h : ¬ SameLap δ a b) : a ≠ b := by
  rintro rfl
  exact h Iff.rfl

/-- **The comparison of two numbers survives a shift exactly when they stay on one lap.** -/
theorem lt_add_iff : (a + δ < b + δ ↔ a < b) ↔ SameLap δ a b := by
  refine ⟨fun h => ?_, fun h => h.add_lt_add⟩
  by_contra hlap
  have hflip := (add_lt_add_of_not_sameLap hlap).symm.trans h
  rcases UInt32.lt_or_lt_of_ne (ne_of_not_sameLap hlap) with hlt | hlt
  · exact UInt32.lt_asymm hlt (hflip.mpr hlt)
  · exact UInt32.lt_asymm hlt (hflip.mp hlt)

theorem SameLap.between {c : UInt32} (h : SameLap δ a c) (h1 : a ≤ b) (h2 : b ≤ c) : SameLap δ b c := by
  have h1 := UInt32.le_iff_toNat_le.mp h1
  have h2 := UInt32.le_iff_toNat_le.mp h2
  unfold SameLap Wraps at *
  omega

end SameLap

/-- Every comparison of the list survives the shift. -/
def Level (δ : UInt32) (pairs : List (UInt32 × UInt32)) : Prop := ∀ c ∈ pairs, SameLap δ c.1 c.2

instance (δ : UInt32) (pairs : List (UInt32 × UInt32)) : Decidable (Level δ pairs) :=
  List.decidableBAll (fun c : UInt32 × UInt32 => SameLap δ c.1 c.2) pairs

@[simp] theorem level_nil (δ : UInt32) : Level δ [] := fun _ h => nomatch h

@[simp] theorem level_cons {δ a b : UInt32} {pairs : List (UInt32 × UInt32)} :
    Level δ ((a, b) :: pairs) ↔ SameLap δ a b ∧ Level δ pairs := by
  simp [Level]

@[simp] theorem level_append {δ : UInt32} {l₁ l₂ : List (UInt32 × UInt32)} :
    Level δ (l₁ ++ l₂) ↔ Level δ l₁ ∧ Level δ l₂ := by
  simp [Level, or_imp, forall_and]

universe u v w x

/-- **Sequencing**: two computations that stop together and return related results are continued by two such. -/
theorem rel_bind {α : Type u} {β : Type v} {γ : Type w} {ε : Type x} {R : α → β → Prop} {S : γ → ε → Prop}
    {x : Option α} {y : Option β} {f : α → Option γ} {g : β → Option ε} (h : Option.Rel R x y)
    (hfg : ∀ a b, x = some a → R a b → Option.Rel S (f a) (g b)) : Option.Rel S (x.bind f) (y.bind g) := by
  cases h with
  | some hab => exact hfg _ _ rfl hab
  | none => exact Option.Rel.none

end NetProtocols
