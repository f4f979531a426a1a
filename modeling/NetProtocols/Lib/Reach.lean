import NetProtocols.Lib.Run

/-!
# NetProtocols.Lib.Reach — what a system can still come to

`LeadsTo step ok s s'`: from `s` some run of actions, each allowed by `ok` in the state it is taken in, ends in `s'`.

* `LeadsTo.refl`, `LeadsTo.single`, `LeadsTo.trans`: runs are put together.
* `LeadsTo.invariant`: the invariant rule.
* `LeadsTo.map`: what a part of a system can come to, the system can come to.
* `LeadsTo.of_decreasing`: when every state short of the goal reaches one of smaller measure, every state reaches the
  goal.
-/

namespace NetProtocols

universe u v

variable {σ : Type u} {α : Type v} {step : σ → α → Option σ} {ok : σ → α → Prop} {s s' s'' : σ}

/-- Some run of allowed actions leads from `s` to `s'`. -/
def LeadsTo (step : σ → α → Option σ) (ok : σ → α → Prop) (s s' : σ) : Prop :=
  ∃ as, Meets step ok s as ∧ run step s as = some s'

namespace LeadsTo

theorem refl (s : σ) : LeadsTo step ok s s := ⟨[], trivial, rfl⟩

theorem head {a : α} (ha : ok s a) (h : step s a = some s') (h' : LeadsTo step ok s' s'') : LeadsTo step ok s s'' := by
  obtain ⟨as, hm, hr⟩ := h'
  refine ⟨a :: as, ⟨ha, fun t ht => ?_⟩, run_cons.mpr ⟨s', h, hr⟩⟩
  obtain rfl := Option.some.inj (h.symm.trans ht)
  exact hm

theorem single {a : α} (ha : ok s a) (h : step s a = some s') : LeadsTo step ok s s' := head ha h (refl s')

theorem trans (h : LeadsTo step ok s s') (h' : LeadsTo step ok s' s'') : LeadsTo step ok s s'' := by
  obtain ⟨as, hm, hr⟩ := h
  induction as generalizing s with
  | nil =>
    obtain rfl := Option.some.inj hr
    exact h'
  | cons a as ih =>
    obtain ⟨t, h1, h2⟩ := run_cons.mp hr
    exact head hm.1 h1 (ih (hm.2 t h1) h2)

/-- **Invariant rule**: what every allowed step preserves. -/
theorem invariant {I : σ → Prop} (hstep : ∀ s a s', I s → ok s a → step s a = some s' → I s')
    (h : LeadsTo step ok s s') (hs : I s) : I s' := by
  obtain ⟨as, hm, hr⟩ := h
  exact run_invariant_of_meets hstep hm hr hs

/-- A part `t` of the system is moved by actions of its own; `put` puts it back. -/
theorem map {τ : Type u} {β : Type v} {part : τ → β → Option τ} {mine : τ → β → Prop} (act : β → α) (put : τ → σ)
    (hstep : ∀ t b t', mine t b → part t b = some t' → ok (put t) (act b) ∧ step (put t) (act b) = some (put t'))
    {t t' : τ} (h : LeadsTo part mine t t') : LeadsTo step ok (put t) (put t') := by
  obtain ⟨bs, hm, hr⟩ := h
  induction bs generalizing t with
  | nil =>
    obtain rfl := Option.some.inj hr
    exact refl _
  | cons b bs ih =>
    obtain ⟨t₁, h1, h2⟩ := run_cons.mp hr
    obtain ⟨hok, hs⟩ := hstep t b t₁ hm.1 h1
    exact head hok hs (ih (hm.2 t₁ h1) h2)

/-- **Progress rule**: from every state of the invariant short of the goal, one of the invariant with a smaller measure
can be reached. -/
theorem of_decreasing {I goal : σ → Prop} (μ : σ → ℕ)
    (hprogress : ∀ s, I s → ¬ goal s → ∃ s', LeadsTo step ok s s' ∧ I s' ∧ μ s' < μ s) (hs : I s) :
    ∃ s', LeadsTo step ok s s' ∧ I s' ∧ goal s' := by
  induction hn : μ s using Nat.strongRecOn generalizing s with
  | ind n ih =>
    by_cases hgoal : goal s
    · exact ⟨s, refl s, hs, hgoal⟩
    · obtain ⟨t, ht, hIt, hlt⟩ := hprogress s hs hgoal
      obtain ⟨s', hs', h⟩ := ih (μ t) (hn ▸ hlt) hIt rfl
      exact ⟨s', ht.trans hs', h⟩

end LeadsTo

end NetProtocols
