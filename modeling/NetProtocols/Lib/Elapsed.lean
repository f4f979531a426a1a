import Mathlib.Algebra.Order.Ring.Int
import Mathlib.Tactic.Common

/-!
# NetProtocols.Lib.Elapsed — a clock on the circle, read from a fixed origin

A `u32` clock comes round after `2 ^ 32` ticks.  Counted from an origin its readings are natural numbers, and the signed
difference of two readings is the difference of these numbers as long as it fits into an `i32`.

* `elapsed origin t`: the ticks from `origin` to `t`, going forward.
* `toInt_diff`: signed differences are differences of elapsed times.
* `ahead_iff`, `near_iff`, `passed_iff`: a reading is ahead of the origin, close ahead, or just passed.
-/

namespace NetProtocols

/-- The ticks from `origin` to `t`, going forward. -/
def elapsed (origin t : UInt32) : ℕ := (t - origin).toNat

variable {origin a b : UInt32}

@[simp] theorem elapsed_self (origin : UInt32) : elapsed origin origin = 0 := by
  unfold elapsed
  rw [UInt32.sub_self]
  rfl

theorem elapsed_eq (origin t : UInt32) : elapsed origin t = (2 ^ 32 - origin.toNat + t.toNat) % 2 ^ 32 :=
  UInt32.toNat_sub _ _

theorem elapsed_add {d : UInt32} (h : elapsed origin a + d.toNat < 2 ^ 32) :
    elapsed origin (a + d) = elapsed origin a + d.toNat := by
  have ha := a.toNat_lt
  have ho := origin.toNat_lt
  simp only [elapsed_eq, UInt32.toNat_add] at *
  omega

/-- Going on from a reading: the ticks between two readings. -/
theorem toNat_sub_of_le (h : elapsed origin b ≤ elapsed origin a) :
    (a - b).toNat = elapsed origin a - elapsed origin b := by
  have ha := a.toNat_lt
  have hb := b.toNat_lt
  have ho := origin.toNat_lt
  simp only [elapsed_eq, UInt32.toNat_sub] at *
  omega

theorem toInt_toInt32 (x : UInt32) :
    x.toInt32.toInt = if 2 * x.toNat < 2 ^ 32 then (x.toNat : ℤ) else (x.toNat : ℤ) - 2 ^ 32 :=
  BitVec.toInt_eq_toNat_cond x.toBitVec

/-- **The signed difference of two readings** is the difference of their elapsed times, if that fits. -/
theorem toInt_diff (hlow : -2 ^ 31 ≤ (elapsed origin a : ℤ) - elapsed origin b)
    (hhigh : (elapsed origin a : ℤ) - elapsed origin b < 2 ^ 31) :
    (a.toInt32 - b.toInt32).toInt = (elapsed origin a : ℤ) - elapsed origin b := by
  have ha := a.toNat_lt
  have hb := b.toNat_lt
  have ho := origin.toNat_lt
  rw [← UInt32.toInt32_sub, toInt_toInt32, UInt32.toNat_sub]
  simp only [elapsed_eq] at *
  split_ifs <;> omega

/-- **Ahead of the origin**: by less than half a lap. -/
theorem ahead_iff : 0 < a.toInt32 - origin.toInt32 ↔ 0 < elapsed origin a ∧ elapsed origin a < 2 ^ 31 := by
  have hlt : elapsed origin a < 2 ^ 32 := (a - origin).toNat_lt
  have hsigned := toInt_toInt32 (a - origin)
  rw [Int32.lt_iff_toInt_lt, ← UInt32.toInt32_sub, hsigned]
  show 0 < (if 2 * elapsed origin a < 2 ^ 32 then (elapsed origin a : ℤ) else (elapsed origin a : ℤ) - 2 ^ 32) ↔ _
  split_ifs <;> omega

/-- **Close ahead of the origin**: by ten seconds at most. -/
theorem near_iff : (-10000 ≤ origin.toInt32 - a.toInt32 ∧ origin.toInt32 - a.toInt32 < 0) ↔
    0 < elapsed origin a ∧ elapsed origin a ≤ 10000 := by
  have ha := a.toNat_lt
  have ho := origin.toNat_lt
  have hsigned := toInt_toInt32 (origin - a)
  rw [UInt32.toNat_sub] at hsigned
  have h0 : (0 : Int32).toInt = 0 := rfl
  have h1 : (-10000 : Int32).toInt = -10000 := rfl
  rw [Int32.le_iff_toInt_le, Int32.lt_iff_toInt_lt, ← UInt32.toInt32_sub, hsigned, elapsed_eq, h0, h1]
  split_ifs <;> omega

/-- **At the origin or close behind it**: by less than ten seconds. -/
theorem passed_iff : (0 ≤ origin.toInt32 - a.toInt32 ∧ origin.toInt32 - a.toInt32 < 10000) ↔
    elapsed origin a = 0 ∨ 2 ^ 32 - 10000 < elapsed origin a := by
  have ha := a.toNat_lt
  have ho := origin.toNat_lt
  have hsigned := toInt_toInt32 (origin - a)
  rw [UInt32.toNat_sub] at hsigned
  have h0 : (0 : Int32).toInt = 0 := rfl
  have h1 : (10000 : Int32).toInt = 10000 := rfl
  rw [Int32.le_iff_toInt_le, Int32.lt_iff_toInt_lt, ← UInt32.toInt32_sub, hsigned, elapsed_eq, h0, h1]
  split_ifs <;> omega

end NetProtocols
