import Mathlib.Algebra.Order.Ring.Int
import Mathlib.Data.List.Basic
import Mathlib.Tactic.Common

/-!
# NetProtocols.Lib.Text — cutting texts up and reading numbers

* `append_cons_cut`: a list is cut at the first place of an element in one way.
* `split`: the pieces of a text between the places of a character; `split_of_notMem`, `split_append`.
* `parseU16`: a decimal number below `2 ^ 16`; `notMem_of_parseU16`: it has no other characters.
-/

namespace NetProtocols

/-- A list is cut at the first place of an element in one way. -/
theorem append_cons_cut {α : Type} {c : α} {l₁ l₂ r₁ r₂ : List α} (h₁ : c ∉ l₁) (h₂ : c ∉ l₂)
    (h : l₁ ++ c :: r₁ = l₂ ++ c :: r₂) : l₁ = l₂ ∧ r₁ = r₂ := by
  induction l₁ generalizing l₂ with
  | nil =>
    cases l₂ with
    | nil => simpa using h
    | cons d l₂ =>
      simp only [List.nil_append, List.cons_append, List.cons.injEq] at h
      exact absurd (List.mem_cons.mpr (Or.inl h.1)) h₂
  | cons d l₁ ih =>
    cases l₂ with
    | nil =>
      simp only [List.nil_append, List.cons_append, List.cons.injEq] at h
      exact absurd (by simp [h.1]) h₁
    | cons d' l₂ =>
      simp only [List.cons_append, List.cons.injEq] at h
      obtain ⟨hl, hr⟩ := ih (fun hm => h₁ (by simp [hm])) (fun hm => h₂ (by simp [hm])) h.2
      exact ⟨by rw [h.1, hl], hr⟩

/-! ## Pieces -/

/-- The pieces of a text between the places of a character. -/
def split (c : Char) (s : String) : List String := (s.toList.splitOn c).map String.ofList

variable {c : Char} {s t : String}

theorem split_of_notMem (h : c ∉ s.toList) : split c s = [s] := by
  rw [split, List.splitOn_eq_singleton h, List.map_singleton, String.ofList_toList]

theorem split_append (h : c ∉ s.toList) (t : String) : split c (s ++ String.singleton c ++ t) = s :: split c t := by
  have hlist : (s ++ String.singleton c ++ t).toList = s.toList ++ c :: t.toList := by simp
  rw [split, hlist, List.splitOn_append_cons_self_of_not_mem h, List.map_cons, String.ofList_toList, split]

/-! ## Numbers -/

/-- One more decimal digit of a number below `2 ^ 16`. -/
def pushDigit (n : ℕ) (c : Char) : Option ℕ :=
  if c.isDigit ∧ n * 10 + (c.toNat - '0'.toNat) < 2 ^ 16 then some (n * 10 + (c.toNat - '0'.toNat)) else none

/-- A decimal number below `2 ^ 16`, which may have a plus sign. -/
def parseU16 (src : String) : Option UInt16 :=
  let digits := if src.toList.head? = some '+' then src.toList.tail else src.toList
  if digits = [] then none else (digits.foldlM pushDigit 0).map UInt16.ofNat

theorem isDigit_of_foldlM {l : List Char} {n m : ℕ} (h : l.foldlM pushDigit n = some m) : ∀ c ∈ l, c.isDigit := by
  induction l generalizing n with
  | nil => exact fun c hc => absurd hc List.not_mem_nil
  | cons d l ih =>
    simp only [List.foldlM_cons, Option.bind_eq_bind, Option.bind_eq_some_iff] at h
    obtain ⟨n', hd, h⟩ := h
    unfold pushDigit at hd
    split_ifs at hd with hdigit
    intro c hc
    rcases List.mem_cons.mp hc with rfl | hc
    · exact hdigit.1
    · exact ih h c hc

/-- A number has no character but its digits and its sign. -/
theorem notMem_of_parseU16 {p : UInt16} (h : parseU16 s = some p) (hdigit : c.isDigit = false) (hplus : c ≠ '+') :
    c ∉ s.toList := by
  intro hc
  unfold parseU16 at h
  dsimp only at h
  split_ifs at h with hsign hnil hnil
  all_goals obtain ⟨m, hfold, -⟩ := Option.map_eq_some_iff.mp h
  · obtain ⟨rest, hrest⟩ : ∃ rest, s.toList = '+' :: rest := by
      cases hl : s.toList with
      | nil => simp [hl] at hsign
      | cons d rest =>
        rw [hl, List.head?_cons, Option.some.injEq] at hsign
        exact ⟨rest, by rw [hsign]⟩
    rw [hrest] at hc hfold
    rcases List.mem_cons.mp hc with rfl | hc
    · exact hplus rfl
    · exact Bool.false_ne_true (hdigit.symm.trans (isDigit_of_foldlM hfold c hc))
  · exact Bool.false_ne_true (hdigit.symm.trans (isDigit_of_foldlM hfold c hc))

end NetProtocols
