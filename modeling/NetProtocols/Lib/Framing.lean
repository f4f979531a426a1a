import Mathlib.Data.List.Basic
import Mathlib.Tactic.Common

/-!
# NetProtocols.Lib.Framing — frames of pieces that count down

A message is cut into pieces; each piece says how many pieces of its message follow (`left`), the last one `0`.

* `Frame left l`: `l` is the pieces of one message.
* `headFrame left q`: the pieces of `q` up to and including the first one that is the last of its message.
* `headFrame_of_prefix`: at the front of a stream of frames stands its first frame, once enough pieces have arrived.
* `prefix_flatten`: a beginning of a stream of frames is whole frames and a proper beginning of the next one.
-/

namespace NetProtocols

universe u v

variable {α : Type u} {β : Type v} {left : α → ℕ}

/-- `n - 1, …, 1, 0`. -/
def countdown : ℕ → List ℕ
  | 0 => []
  | n + 1 => n :: countdown n

/-- The pieces of one message. -/
def Frame (left : α → ℕ) (l : List α) : Prop := l ≠ [] ∧ l.map left = countdown l.length

/-- The pieces up to and including the first one that is the last of its message. -/
def headFrame (left : α → ℕ) : List α → List α
  | [] => []
  | a :: l => if left a = 0 then [a] else a :: headFrame left l

theorem headFrame_map (f : β → α) (l : List β) :
    headFrame left (l.map f) = (headFrame (fun b => left (f b)) l).map f := by
  induction l with
  | nil => rfl
  | cons b l ih =>
    simp only [List.map_cons, headFrame, ih]
    split_ifs <;> rfl

/-- The first piece of a frame tells its length. -/
theorem Frame.length_eq {a : α} {l : List α} (h : Frame left (a :: l)) : (a :: l).length = left a + 1 := by
  have h2 := h.2
  simp only [List.map_cons, List.length_cons, countdown, List.cons.injEq] at h2
  simp [h2.1]

/-- Behind a frame nothing belongs to it. -/
theorem headFrame_append {l : List α} (h : Frame left l) (t : List α) : headFrame left (l ++ t) = l := by
  obtain ⟨hne, hmap⟩ := h
  induction l with
  | nil => exact absurd rfl hne
  | cons a l ih =>
    simp only [List.map_cons, List.length_cons, countdown, List.cons.injEq] at hmap
    simp only [List.cons_append, headFrame, hmap.1]
    split_ifs with h0
    · rw [List.length_eq_zero_iff.mp h0]
    · rw [ih (fun hl => h0 (by simp [hl])) hmap.2]

/-- **The first frame of a stream**: once as many pieces are there as the first one asks for, the frame at the head is
the first frame that was sent. -/
theorem headFrame_of_prefix {frames : List (List α)} (hf : ∀ f ∈ frames, Frame left f) {a : α} {q : List α}
    (hq : (a :: q) <+: frames.flatten) (hlen : left a + 1 ≤ (a :: q).length) :
    ∃ f rest, frames = f :: rest ∧ headFrame left (a :: q) = f := by
  cases frames with
  | nil => simp at hq
  | cons f rest =>
    refine ⟨f, rest, rfl, ?_⟩
    have hframe := hf f (by simp)
    rw [List.flatten_cons] at hq
    cases f with
    | nil => exact absurd rfl hframe.1
    | cons b l =>
      obtain ⟨t, ht⟩ := hq
      obtain ⟨rfl, -⟩ := List.cons.inj ht
      -- the frame is no longer than what has arrived
      have hpre : (a :: l) <+: (a :: q) := by
        refine List.prefix_of_prefix_length_le (List.prefix_append _ rest.flatten) ⟨t, ht⟩ ?_
        rw [hframe.length_eq]
        exact hlen
      obtain ⟨t', ht'⟩ := hpre
      rw [← ht', headFrame_append hframe]

/-- **What has arrived of a stream of frames**: some whole frames, and a proper beginning of the next one. -/
theorem prefix_flatten {frames : List (List α)} (hne : ∀ f ∈ frames, f ≠ []) {q : List α}
    (hq : q <+: frames.flatten) :
    ∃ n ≤ frames.length, ∃ t, q = (frames.take n).flatten ++ t ∧ (frames[n]? = none → t = []) ∧
      ∀ f, frames[n]? = some f → t <+: f ∧ t.length < f.length := by
  induction frames generalizing q with
  | nil => exact ⟨0, Nat.le_refl _, [], by simpa using hq, fun _ => rfl, by simp⟩
  | cons f frames ih =>
    rw [List.flatten_cons] at hq
    by_cases hlt : q.length < f.length
    · refine ⟨0, Nat.zero_le _, q, rfl, by simp, fun g hg => ?_⟩
      obtain rfl : f = g := by simpa using hg
      exact ⟨List.prefix_of_prefix_length_le hq (List.prefix_append _ _) (Nat.le_of_lt hlt), hlt⟩
    · obtain ⟨q', rfl⟩ :=
        List.prefix_of_prefix_length_le (List.prefix_append f frames.flatten) hq (Nat.le_of_not_lt hlt)
      obtain ⟨n, hn, t, hqt, hend, hnext⟩ :=
        ih (fun g hg => hne g (by simp [hg])) ((List.prefix_append_right_inj f).mp hq)
      refine ⟨n + 1, Nat.succ_le_succ hn, t, ?_, by simpa using hend, by simpa using hnext⟩
      rw [hqt, List.take_succ_cons, List.flatten_cons, List.append_assoc]

end NetProtocols
