import Mathlib.Tactic.Ring
import Mathlib.Tactic.Linarith

/-!
# NetProtocols.Lib.Spacing — a timer that waits longer after each ring

Whoever asks again only when the last wait is over, and waits longer each time, can ask only so often in a given time.
Times are natural numbers, counted from when the timer was made; the clock does not go back.

* `spell first inc n`: the least time that `n` waits take, the first of `first` and each by `inc` longer than the one
  before; `two_mul_spell`: in closed form.
* `Spaced first inc n now deadline wait`: a timer that has rung `n` times.
* `Spaced.reset`: a timer that is set; `Spaced.rung`: a ring, after which it is to be set to a longer wait.
-/

namespace NetProtocols

/-- The least time that `n` waits take. -/
def spell (first inc : ℕ) : ℕ → ℕ
  | 0 => 0
  | n + 1 => spell first inc n + (first + n * inc)

variable {first inc n now now' deadline wait : ℕ}

theorem two_mul_spell (first inc n : ℕ) : 2 * spell first inc n + n * inc = n * (2 * first + n * inc) := by
  induction n with
  | zero => simp [spell]
  | succ n ih =>
    rw [spell]
    linarith [Nat.mul_comm inc n]

theorem spell_mono {first' inc' : ℕ} (hf : first ≤ first') (hi : inc ≤ inc') (n : ℕ) :
    spell first inc n ≤ spell first' inc' n := by
  induction n with
  | zero => exact Nat.le_refl _
  | succ n ih =>
    have hstep := Nat.mul_le_mul_left n hi
    rw [spell, spell]
    omega

/-- A timer that has rung `n` times by `now`. -/
structure Spaced (first inc n now deadline wait : ℕ) : Prop where
  spent : spell first inc n ≤ now
  wait_ge : first + n * inc ≤ wait
  ahead : spell first inc (n + 1) ≤ deadline

namespace Spaced

theorem later (h : Spaced first inc n now deadline wait) (hle : now ≤ now') : Spaced first inc n now' deadline wait :=
  ⟨h.spent.trans hle, h.wait_ge, h.ahead⟩

/-- The timer is set, to a deadline `wait` from now at least. -/
theorem reset (hspent : spell first inc n ≤ now) (hwait : first + n * inc ≤ wait) (hd : now + wait ≤ deadline) :
    Spaced first inc n now deadline wait := by
  refine ⟨hspent, hwait, ?_⟩
  rw [spell]
  omega

/-- **A ring**: it took the time of one wait more. -/
theorem rung (h : Spaced first inc n now deadline wait) (hd : deadline ≤ now) : spell first inc (n + 1) ≤ now :=
  h.ahead.trans hd

end Spaced

end NetProtocols
