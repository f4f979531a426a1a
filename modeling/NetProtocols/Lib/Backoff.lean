import Mathlib.Algebra.Order.Ring.Int
import Mathlib.Tactic.Common

/-!
# NetProtocols.Lib.Backoff — asking again, less and less often

Someone who is blocked asks again after a while, and waits longer after each question, up to a cap.  Times are natural
numbers; the clock does not go back.

* `Backoff`: the first wait, the cap, and how a wait grows.
* `Backoff.look now`: one look at the clock; the alarm is set at the first look, and set again when it rings.
* `Alarm.Sound`: the wait is between the first and the cap, and the alarm was set no later than now.
* `sound_look`, `lt_deadline_look`, `wait_le_look`: after every look the alarm is sound and still ahead, and the wait
  has not become shorter.
-/

namespace NetProtocols

/-- When to ask again, and how long was waited for it. -/
structure Alarm where
  deadline : ℕ
  wait : ℕ
  deriving DecidableEq, Repr

/-- The rule of a backoff. -/
structure Backoff where
  init : ℕ
  cap : ℕ
  grow : ℕ → ℕ
  init_pos : 0 < init
  init_le_cap : init ≤ cap
  le_grow : ∀ w, w ≤ grow w

namespace Backoff

variable (B : Backoff)

/-- The wait after a wait of `w`. -/
def next (w : ℕ) : ℕ := min (B.grow w) B.cap

/-- A new alarm, `wait` from now. -/
def set (now wait : ℕ) : Alarm := ⟨now + wait, wait⟩

/-- One look at the clock while blocked: the alarm afterwards, and whether it rang. -/
def look (now : ℕ) : Option Alarm → Alarm × Bool
  | none => (set now B.init, false)
  | some a => if a.deadline ≤ now then (set now (B.next a.wait), true) else (a, false)

/-- An alarm that was set by this rule, no later than `now`. -/
structure Sound (now : ℕ) (a : Alarm) : Prop where
  init_le : B.init ≤ a.wait
  le_cap : a.wait ≤ B.cap
  deadline_le : a.deadline ≤ now + a.wait

variable {B} {now now' : ℕ} {a : Alarm} {s : Option Alarm}

theorem Sound.mono (h : B.Sound now a) (hle : now ≤ now') : B.Sound now' a := by
  obtain ⟨h1, h2, h3⟩ := h
  exact ⟨h1, h2, by omega⟩

theorem sound_set {wait : ℕ} (h1 : B.init ≤ wait) (h2 : wait ≤ B.cap) : B.Sound now (set now wait) :=
  ⟨h1, h2, le_refl _⟩

theorem le_next {w : ℕ} (h : w ≤ B.cap) : w ≤ B.next w := le_min (B.le_grow w) h

theorem next_le (w : ℕ) : B.next w ≤ B.cap := min_le_right _ _

theorem look_late (h : a.deadline ≤ now) : B.look now (some a) = (set now (B.next a.wait), true) := if_pos h

theorem look_early (h : ¬ a.deadline ≤ now) : B.look now (some a) = (a, false) := if_neg h

theorem sound_look (h : ∀ a ∈ s, B.Sound now a) : B.Sound now (B.look now s).1 := by
  cases s with
  | none => exact sound_set (le_refl _) B.init_le_cap
  | some a =>
    have ha := h a rfl
    by_cases hd : a.deadline ≤ now
    · rw [look_late hd]
      exact sound_set (ha.init_le.trans (le_next ha.le_cap)) (next_le _)
    · rw [look_early hd]
      exact ha

/-- After a look the alarm is ahead. -/
theorem lt_deadline_look (h : ∀ a ∈ s, B.Sound now a) : now < (B.look now s).1.deadline := by
  have hpos := B.init_pos
  cases s with
  | none =>
    show now < now + B.init
    omega
  | some a =>
    have ha := h a rfl
    by_cases hd : a.deadline ≤ now
    · have hinit := ha.init_le.trans (le_next ha.le_cap)
      rw [look_late hd]
      show now < now + B.next a.wait
      omega
    · rw [look_early hd]
      exact Nat.lt_of_not_le hd

theorem wait_le_look (h : B.Sound now a) : a.wait ≤ (B.look now (some a)).1.wait := by
  by_cases hd : a.deadline ≤ now
  · rw [look_late hd]
    exact le_next h.le_cap
  · rw [look_early hd]

/-- The alarm rings exactly when it is looked at at or after its deadline. -/
theorem rings_iff : (B.look now (some a)).2 = true ↔ a.deadline ≤ now := by
  by_cases hd : a.deadline ≤ now
  · rw [look_late hd]
    exact iff_of_true rfl hd
  · rw [look_early hd]
    exact iff_of_false Bool.false_ne_true hd

end Backoff

end NetProtocols
