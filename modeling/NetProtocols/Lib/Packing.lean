import Mathlib.Data.List.Basic
import Mathlib.Tactic.Common

/-!
# NetProtocols.Lib.Packing — packing pieces into buffers, one after the other

Pieces of given sizes are put into a buffer in order.  Before each piece a test `joins n e` on the buffer's length `n`
and the piece's size `e` decides whether the piece joins the buffer, or the buffer is written out first.

* `pack joins n es`: the lengths of the buffers written out, and the length left; `packTests`: the operands of the
  tests.
* `pack_le`: a bound on every length.
* `Fits`: packing by `larger`, no buffer grows beyond a limit.
* `packTests_descending_iff`, `loads_descending`: with `joins n e := n < e`, no test is passed exactly when the sizes
  never go up, and then every piece is written out alone.
-/

namespace NetProtocols

variable {joins : ℕ → ℕ → Bool}

/-- The lengths written out, and the length left. -/
def pack (joins : ℕ → ℕ → Bool) : ℕ → List ℕ → List ℕ × ℕ
  | n, [] => ([], n)
  | n, e :: es =>
    if joins n e then pack joins (n + e) es
    else (n :: (pack joins e es).1, (pack joins e es).2)

/-- The buffer's length and the piece's size at each test. -/
def packTests (joins : ℕ → ℕ → Bool) : ℕ → List ℕ → List (ℕ × ℕ)
  | _, [] => []
  | n, e :: es => (n, e) :: packTests joins (if joins n e then n + e else e) es

/-- All the lengths: those written out, and the one left. -/
def loads (joins : ℕ → ℕ → Bool) (n : ℕ) (es : List ℕ) : List ℕ := (pack joins n es).1 ++ [(pack joins n es).2]

/-- The last piece is tested against what the others have left. -/
theorem pack_snoc (n : ℕ) (es : List ℕ) (e : ℕ) :
    pack joins n (es ++ [e]) =
      if joins (pack joins n es).2 e then ((pack joins n es).1, (pack joins n es).2 + e)
      else ((pack joins n es).1 ++ [(pack joins n es).2], e) := by
  induction es generalizing n with
  | nil => rfl
  | cons a es ih =>
    by_cases hj : joins n a = true
    · simp only [List.cons_append, pack, if_pos hj, ih]
    · simp only [List.cons_append, pack, if_neg hj, ih]
      split_ifs <;> rfl

theorem packTests_snoc (n : ℕ) (es : List ℕ) (e : ℕ) :
    packTests joins n (es ++ [e]) = packTests joins n es ++ [((pack joins n es).2, e)] := by
  induction es generalizing n with
  | nil => rfl
  | cons a es ih =>
    simp only [List.cons_append, packTests, ih, pack]
    split_ifs <;> rfl

/-- A bound that every piece meets and that no joining piece breaks bounds every length. -/
theorem pack_le {bound n : ℕ} {es : List ℕ} (hn : n ≤ bound) (he : ∀ e ∈ es, e ≤ bound)
    (hj : ∀ n, ∀ e ∈ es, n ≤ bound → joins n e = true → n + e ≤ bound) : ∀ w ∈ loads joins n es, w ≤ bound := by
  induction es generalizing n with
  | nil => simpa [loads, pack] using hn
  | cons a es ih =>
    have he' : ∀ e ∈ es, e ≤ bound := fun e h => he e (by simp [h])
    have hj' : ∀ n, ∀ e ∈ es, n ≤ bound → joins n e = true → n + e ≤ bound := fun n e h => hj n e (by simp [h])
    intro w hw
    by_cases hja : joins n a = true
    · simp only [loads, pack, if_pos hja] at hw
      exact ih (hj n a (by simp) hn hja) he' hj' w hw
    · simp only [loads, pack, if_neg hja, List.cons_append, List.mem_cons] at hw
      rcases hw with rfl | hw
      · exact hn
      · exact ih (he a (by simp)) he' hj' w hw

theorem packTests_le {bound n : ℕ} {es : List ℕ} (hn : n ≤ bound) (he : ∀ e ∈ es, e ≤ bound)
    (hj : ∀ n, ∀ e ∈ es, n ≤ bound → joins n e = true → n + e ≤ bound) : ∀ t ∈ packTests joins n es, t.1 ≤ bound := by
  induction es generalizing n with
  | nil => exact fun t ht => absurd ht List.not_mem_nil
  | cons a es ih =>
    have hnext : (if joins n a then n + a else a) ≤ bound := by
      split_ifs with hja
      · exact hj n a (by simp) hn hja
      · exact he a (by simp)
    intro t ht
    rcases List.mem_cons.mp ht with rfl | ht
    · exact hn
    · exact ih hnext (fun e h => he e (by simp [h])) (fun n e h => hj n e (by simp [h])) t ht

/-! ### Joining what is larger -/

/-- A piece joins the buffer when it is larger than what is there. -/
def larger (n e : ℕ) : Bool := decide (n < e)

/-- Packing by `larger`, no buffer grows beyond `limit`. -/
def Fits (limit : ℕ) : ℕ → List ℕ → Prop
  | n, [] => n ≤ limit
  | n, e :: es => if n < e then Fits limit (n + e) es else n ≤ limit ∧ Fits limit e es

instance Fits.decidable (limit : ℕ) : ∀ (n : ℕ) (es : List ℕ), Decidable (Fits limit n es)
  | n, [] => inferInstanceAs (Decidable (n ≤ limit))
  | n, e :: es =>
    have := Fits.decidable limit (n + e) es
    have := Fits.decidable limit e es
    inferInstanceAs (Decidable (if n < e then Fits limit (n + e) es else n ≤ limit ∧ Fits limit e es))

theorem fits_iff {limit n : ℕ} {es : List ℕ} : Fits limit n es ↔ ∀ w ∈ loads larger n es, w ≤ limit := by
  induction es generalizing n with
  | nil => simp [Fits, loads, pack]
  | cons e es ih =>
    by_cases hlt : n < e
    · have hj : larger n e = true := by simp [larger, hlt]
      simp only [Fits, if_pos hlt, ih, loads, pack, if_pos hj]
    · have hj : ¬ larger n e = true := by simp [larger, hlt]
      simp only [Fits, if_neg hlt, ih, loads, pack, if_neg hj, List.cons_append, List.mem_cons, forall_eq_or_imp]

theorem fits_zero_iff {n : ℕ} {es : List ℕ} (he : ∀ e ∈ es, 0 < e) : Fits 0 n es ↔ n = 0 ∧ es = [] := by
  induction es generalizing n with
  | nil => simp [Fits]
  | cons e es ih =>
    have hpos := he e List.mem_cons_self
    refine iff_of_false (fun h => ?_) (by simp)
    unfold Fits at h
    split_ifs at h with hlt
    · have hzero := ((ih fun x hx => he x (List.mem_cons_of_mem e hx)).mp h).1
      omega
    · omega

/-- The sizes never go up, starting from the buffer's length. -/
def Descending (n : ℕ) (es : List ℕ) : Prop := (n :: es).Pairwise fun a b => b ≤ a

theorem descending_cons {n e : ℕ} {es : List ℕ} : Descending n (e :: es) ↔ e ≤ n ∧ Descending e es := by
  simp only [Descending, List.pairwise_cons, List.mem_cons, forall_eq_or_imp]
  constructor
  · rintro ⟨⟨h1, -⟩, h2⟩
    exact ⟨h1, h2⟩
  · rintro ⟨h1, h2⟩
    exact ⟨⟨h1, fun a ha => Nat.le_trans (h2.1 a ha) h1⟩, h2⟩

/-- **No piece is larger than the buffer it is tested against exactly when the sizes never go up.** -/
theorem packTests_descending_iff {n : ℕ} {es : List ℕ} :
    (∀ t ∈ packTests larger n es, t.2 ≤ t.1) ↔ Descending n es := by
  induction es generalizing n with
  | nil => simp [packTests, Descending]
  | cons e es ih =>
    rw [descending_cons]
    simp only [packTests, List.mem_cons, forall_eq_or_imp]
    constructor
    · rintro ⟨h1, h2⟩
      have hj : ¬ larger n e = true := by simp [larger, h1]
      rw [if_neg hj] at h2
      exact ⟨h1, ih.mp h2⟩
    · rintro ⟨h1, h2⟩
      have hj : ¬ larger n e = true := by simp [larger, h1]
      rw [if_neg hj]
      exact ⟨h1, ih.mpr h2⟩

/-- Then every piece makes up a buffer of its own. -/
theorem loads_descending {n : ℕ} {es : List ℕ} (h : Descending n es) : loads larger n es = n :: es := by
  induction es generalizing n with
  | nil => rfl
  | cons e es ih =>
    obtain ⟨h1, h2⟩ := descending_cons.mp h
    have hj : ¬ larger n e = true := by simp [larger, h1]
    have := ih h2
    simp only [loads] at this ⊢
    simp only [pack, if_neg hj, List.cons_append, this]

end NetProtocols
