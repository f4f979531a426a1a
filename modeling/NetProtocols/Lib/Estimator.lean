import Mathlib.Algebra.Order.Ring.Int
import Mathlib.Data.List.Induction
import Mathlib.Tactic.Common

/-!
# NetProtocols.Lib.Estimator — a running mean and a running mean deviation

The estimate of a quantity that is sampled again and again: each sample moves the mean, and its distance from the mean
moves the mean deviation.  Both are natural numbers, rounded down.

* `blend w a x`: the old value `a` with weight `w`, the sample `x` with weight one.
* `Estimate.add u v`: one sample, with the weights `u` and `v`; `Estimate.of`: a sequence of samples.
* `Estimate.Within`: the mean is between the samples seen, and the deviation is not above the largest; `within_of`.
-/

namespace NetProtocols

/-- The old value with weight `w` and the sample with weight one. -/
def blend (w a x : ℕ) : ℕ := (w * a + x) / (w + 1)

theorem le_blend {w a x m : ℕ} (ha : m ≤ a) (hx : m ≤ x) : m ≤ blend w a x := by
  unfold blend
  rw [Nat.le_div_iff_mul_le (Nat.succ_pos w), Nat.mul_succ, Nat.mul_comm]
  exact Nat.add_le_add (Nat.mul_le_mul_left w ha) hx

theorem blend_le {w a x m : ℕ} (ha : a ≤ m) (hx : x ≤ m) : blend w a x ≤ m := by
  unfold blend
  refine Nat.div_le_of_le_mul ?_
  rw [Nat.succ_mul]
  exact Nat.add_le_add (Nat.mul_le_mul_left w ha) hx

/-- The distance of two numbers. -/
def gap (a x : ℕ) : ℕ := (a - x) + (x - a)

theorem gap_le {a x m : ℕ} (ha : a ≤ m) (hx : x ≤ m) : gap a x ≤ m := by
  unfold gap
  omega

/-- A mean and a mean deviation. -/
structure Estimate where
  mean : ℕ
  dev : ℕ
  deriving DecidableEq, Repr

namespace Estimate

variable {u v : ℕ} {est : Estimate} {seen : List ℕ} {x M : ℕ}

/-- One sample.  A mean of zero is none yet, and a mean is never rounded down to zero. -/
def add (u v : ℕ) (est : Estimate) (x : ℕ) : Estimate :=
  if est.mean = 0 then ⟨x, x / 2⟩ else ⟨max 1 (blend u est.mean x), blend v est.dev (gap est.mean x)⟩

/-- The estimate from a sequence of samples. -/
def of (u v : ℕ) (samples : List ℕ) : Estimate := samples.foldl (add u v) ⟨0, 0⟩

theorem of_concat (u v : ℕ) (seen : List ℕ) (x : ℕ) : of u v (seen ++ [x]) = (of u v seen).add u v x := by
  unfold of
  rw [List.foldl_append]
  rfl

/-- Samples up to `M` keep both averages up to `M`. -/
theorem le_add (hmean : est.mean ≤ M) (hdev : est.dev ≤ M) (hx : x ≤ M) :
    (est.add u v x).mean ≤ M ∧ (est.add u v x).dev ≤ M := by
  unfold add
  split_ifs with h0
  · exact ⟨hx, (Nat.div_le_self x 2).trans hx⟩
  · have hpos : 1 ≤ M := by omega
    exact ⟨max_le hpos (blend_le hmean hx), blend_le hdev (gap_le hmean hx)⟩

/-- The mean is not below the smallest of the samples, nor above the largest, and the deviation is not above the
largest. -/
structure Within (seen : List ℕ) (est : Estimate) : Prop where
  low : ∃ lo ∈ seen, lo ≤ est.mean
  high : ∃ hi ∈ seen, est.mean ≤ hi ∧ est.dev ≤ hi

theorem within_add (h : est.mean ≠ 0 → Within seen est) : Within (seen ++ [x]) (est.add u v x) := by
  have hmem : x ∈ seen ++ [x] := List.mem_append_right _ (List.mem_singleton_self x)
  by_cases h0 : est.mean = 0
  · rw [add, if_pos h0]
    exact ⟨⟨x, hmem, le_rfl⟩, x, hmem, le_rfl, Nat.div_le_self x 2⟩
  obtain ⟨⟨lo, hlo, hle⟩, hi, hhi, hmean, hdev⟩ := h h0
  constructor
  · rw [add, if_neg h0]
    rcases Nat.le_total lo x with hc | hc
    · exact ⟨lo, List.mem_append_left _ hlo, (le_blend hle hc).trans (le_max_right _ _)⟩
    · exact ⟨x, hmem, (le_blend (hc.trans hle) le_rfl).trans (le_max_right _ _)⟩
  · rcases Nat.le_total x hi with hc | hc
    · exact ⟨hi, List.mem_append_left _ hhi, le_add hmean hdev hc⟩
    · exact ⟨x, hmem, le_add (hmean.trans hc) (hdev.trans hc) le_rfl⟩

/-- **An estimate stays within its samples.** -/
theorem within_of (hne : seen ≠ []) : Within seen (of u v seen) := by
  induction seen using List.reverseRecOn with
  | nil => exact absurd rfl hne
  | append_singleton seen x ih =>
    rw [of_concat]
    refine within_add fun h0 => ih ?_
    rintro rfl
    exact h0 rfl

end Estimate

end NetProtocols
