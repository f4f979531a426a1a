import Mathlib.Data.List.Induction
import Mathlib.Tactic.Common

/-!
# NetProtocols.Lib.Run — runs of a partial step function

A system is a step function `step : σ → α → Option σ` over states `σ` and actions `α`; `none` means that the
action is not possible, or stops the system.  `run step s as` takes the actions in order.

* `run_invariant`: what every step preserves holds after every run.
* `Meets step cond s as`: every action of the run meets `cond` in the state it is taken in;
  `run_invariant_of_meets` is the invariant rule for such runs, `meets_congr` exchanges the condition.
* `run_iff_meets`: a property that is lost exactly by the steps that do not meet the condition.
* `tally`: what the steps of a run weigh, added up; `run_tally` is the invariant rule for it, `run_potential` the rule
  of a potential that pays for what the steps weigh.
* `run_mono`: a reflexive and transitive relation kept by every step relates the ends of a run.
* `run_project`: a run without the actions that a part of the system does not notice.
* `run_matched`: a run of calls, each of which takes a run of actions, takes a run of actions.
* `run_history`: the invariant rule for what depends on the actions taken so far.
-/

namespace NetProtocols

universe u v u' v'

variable {σ : Type u} {α : Type v} {step : σ → α → Option σ}

/-- The state after the actions `as`. -/
def run (step : σ → α → Option σ) : σ → List α → Option σ
  | s, [] => some s
  | s, a :: as => (step s a).bind fun s' => run step s' as

@[simp] theorem run_nil (s : σ) : run step s [] = some s := rfl

theorem run_cons {s s' : σ} {a : α} {as : List α} :
    run step s (a :: as) = some s' ↔ ∃ t, step s a = some t ∧ run step t as = some s' := by
  simp [run, Option.bind_eq_some_iff]

theorem run_append {s s' : σ} {as bs : List α} :
    run step s (as ++ bs) = some s' ↔ ∃ t, run step s as = some t ∧ run step t bs = some s' := by
  induction as generalizing s with
  | nil => simp
  | cons a as ih =>
    rw [List.cons_append, run_cons]
    constructor
    · rintro ⟨t, h1, h2⟩
      obtain ⟨t', h3, h4⟩ := ih.mp h2
      exact ⟨t', run_cons.mpr ⟨t, h1, h3⟩, h4⟩
    · rintro ⟨t', h1, h2⟩
      obtain ⟨t, h3, h4⟩ := run_cons.mp h1
      exact ⟨t, h3, ih.mpr ⟨t', h4, h2⟩⟩

/-- Every action of the run meets `cond` in the state it is taken in. -/
def Meets (step : σ → α → Option σ) (cond : σ → α → Prop) : σ → List α → Prop
  | _, [] => True
  | s, a :: as => cond s a ∧ ∀ s', step s a = some s' → Meets step cond s' as

/-- A condition that can be decided for every action can be decided for a run. -/
instance Meets.decidable {cond : σ → α → Prop} [∀ s a, Decidable (cond s a)] :
    ∀ (s : σ) (as : List α), Decidable (Meets step cond s as)
  | _, [] => isTrue trivial
  | s, a :: as =>
    match h : step s a with
    | none => decidable_of_iff (cond s a) ⟨fun hc => ⟨hc, fun _ hs => nomatch h.symm.trans hs⟩, fun hm => hm.1⟩
    | some t =>
      have : Decidable (Meets step cond t as) := Meets.decidable t as
      decidable_of_iff (cond s a ∧ Meets step cond t as)
        ⟨fun hm => ⟨hm.1, fun _ hs => Option.some.inj (h.symm.trans hs) ▸ hm.2⟩, fun hm => ⟨hm.1, hm.2 t h⟩⟩

theorem meets_of_forall {cond : σ → α → Prop} {as : List α} (h : ∀ s, ∀ a ∈ as, cond s a) (s : σ) :
    Meets step cond s as := by
  induction as generalizing s with
  | nil => trivial
  | cons a as ih =>
    exact ⟨h s a (by simp), fun s' _ => ih (fun s b hb => h s b (by simp [hb])) s'⟩

theorem meets_append {cond : σ → α → Prop} {s : σ} {as bs : List α} (h : Meets step cond s (as ++ bs)) :
    Meets step cond s as := by
  induction as generalizing s with
  | nil => trivial
  | cons a as ih => exact ⟨h.1, fun s' hs => ih (h.2 s' hs)⟩

theorem meets_and {cond cond' : σ → α → Prop} {s : σ} {as : List α} (h : Meets step cond s as)
    (h' : Meets step cond' s as) : Meets step (fun s a => cond s a ∧ cond' s a) s as := by
  induction as generalizing s with
  | nil => trivial
  | cons a as ih => exact ⟨⟨h.1, h'.1⟩, fun t ht => ih (h.2 t ht) (h'.2 t ht)⟩

/-- Two conditions that agree in the states of an invariant are met by the same runs, if the invariant is kept by the
steps that meet them. -/
theorem meets_congr {I : σ → Prop} {cond cond' : σ → α → Prop}
    (hI : ∀ s a s', I s → cond s a → step s a = some s' → I s')
    (h : ∀ s a, I s → (cond s a ↔ cond' s a)) {s : σ} (hs : I s) {as : List α} :
    Meets step cond s as ↔ Meets step cond' s as := by
  induction as generalizing s with
  | nil => exact Iff.rfl
  | cons a as ih =>
    constructor
    · intro hm
      exact ⟨(h s a hs).mp hm.1, fun t ht => (ih (hI s a t hs hm.1 ht)).mp (hm.2 t ht)⟩
    · intro hm
      have hc : cond s a := (h s a hs).mpr hm.1
      exact ⟨hc, fun t ht => (ih (hI s a t hs hc ht)).mpr (hm.2 t ht)⟩

/-- **Invariant rule** for runs whose actions meet a condition. -/
theorem run_invariant_of_meets {cond : σ → α → Prop} {I : σ → Prop}
    (hstep : ∀ s a s', I s → cond s a → step s a = some s' → I s') {s s' : σ} {as : List α}
    (hm : Meets step cond s as) (hr : run step s as = some s') (hs : I s) : I s' := by
  induction as generalizing s with
  | nil =>
    cases hr
    exact hs
  | cons a as ih =>
    obtain ⟨t, h1, h2⟩ := run_cons.mp hr
    exact ih (hm.2 t h1) h2 (hstep s a t hs hm.1 h1)

/-- **Invariant rule**. -/
theorem run_invariant {I : σ → Prop} (hstep : ∀ s a s', I s → step s a = some s' → I s') {s s' : σ}
    {as : List α} (hr : run step s as = some s') (hs : I s) : I s' := by
  have hm : Meets step (fun _ _ => True) s as := meets_of_forall (fun _ _ _ => trivial) s
  exact run_invariant_of_meets (fun s a s' h _ => hstep s a s' h) hm hr hs

/-- A property that a step keeps exactly when its action meets the condition, and that is never restored, holds after a
run exactly when the run meets the condition. -/
theorem run_iff_meets {cond : σ → α → Prop} {I P : σ → Prop} (hI : ∀ s a s', I s → step s a = some s' → I s')
    (hP : ∀ s a s', I s → P s → step s a = some s' → (P s' ↔ cond s a))
    (hlost : ∀ s a s', I s → ¬ P s → step s a = some s' → ¬ P s') {s s' : σ} {as : List α}
    (hr : run step s as = some s') (hs : I s) (h : P s) : P s' ↔ Meets step cond s as := by
  induction as generalizing s with
  | nil =>
    cases hr
    exact iff_of_true h trivial
  | cons a as ih =>
    obtain ⟨t, h1, h2⟩ := run_cons.mp hr
    have ht : I t := hI s a t hs h1
    by_cases hPt : P t
    · rw [ih h2 ht hPt]
      have hc : cond s a := (hP s a t hs h h1).mp hPt
      constructor
      · intro hm
        refine ⟨hc, fun t' ht' => ?_⟩
        obtain rfl := Option.some.inj (h1.symm.trans ht')
        exact hm
      · intro hm
        exact hm.2 t h1
    · refine iff_of_false ?_ fun hm => hPt ((hP s a t hs h h1).mpr hm.1)
      have hboth : I s' ∧ ¬ P s' := by
        refine run_invariant (I := fun x => I x ∧ ¬ P x) ?_ h2 ⟨ht, hPt⟩
        intro x c x' hx hstep
        exact ⟨hI x c x' hx.1 hstep, hlost x c x' hx.1 hx.2 hstep⟩
      exact hboth.2

/-- A relation kept by every step from a state of the invariant relates the ends of a run. -/
theorem run_mono {I : σ → Prop} {R : σ → σ → Prop} (hI : ∀ s a s', I s → step s a = some s' → I s')
    (hrefl : ∀ s, R s s) (htrans : ∀ s t u, R s t → R t u → R s u)
    (hstep : ∀ s a s', I s → step s a = some s' → R s s') {s s' : σ} {as : List α}
    (hr : run step s as = some s') (hs : I s) : R s s' := by
  induction as generalizing s with
  | nil =>
    cases hr
    exact hrefl _
  | cons a as ih =>
    obtain ⟨t, h1, h2⟩ := run_cons.mp hr
    exact htrans s t s' (hstep s a t hs h1) (ih h2 (hI s a t hs h1))

/-- **Projection**: when the other actions do not change what is related, a run can be followed by a run of the own
actions alone. -/
theorem run_project {τ : Type u} {step' : τ → α → Option τ} {R : σ → τ → Prop} {cond : σ → α → Prop} {own : α → Bool}
    (hother : ∀ s t a s', R s t → own a = false → step s a = some s' → R s' t)
    (hown : ∀ s t a s', R s t → cond s a → own a = true → step s a = some s' → ∃ t', step' t a = some t' ∧ R s' t')
    {s s' : σ} {t : τ} {as : List α} (hm : Meets step cond s as) (hr : run step s as = some s') (hR : R s t) :
    ∃ t', run step' t (as.filter own) = some t' ∧ R s' t' := by
  induction as generalizing s t with
  | nil =>
    cases hr
    exact ⟨t, rfl, hR⟩
  | cons a as ih =>
    obtain ⟨s₁, h1, h2⟩ := run_cons.mp hr
    cases ha : own a with
    | false =>
      rw [List.filter_cons_of_neg (by simp [ha])]
      exact ih (hm.2 s₁ h1) h2 (hother s t a s₁ hR ha h1)
    | true =>
      obtain ⟨t₁, ht₁, hR₁⟩ := hown s t a s₁ hR hm.1 ha h1
      obtain ⟨t', ht', hR'⟩ := ih (hm.2 s₁ h1) h2 hR₁
      rw [List.filter_cons_of_pos ha]
      exact ⟨t', run_cons.mpr ⟨t₁, ht₁, ht'⟩, hR'⟩

/-- **Simulation**: when every call is matched by a run of actions, so is every run of calls; `ok` is what the actions
have to do with the calls. -/
theorem run_matched {τ : Type u'} {κ : Type v'} {call : τ → κ → Option τ} {R : τ → σ → Prop}
    {ok : List κ → List α → Prop} (hnil : ok [] [])
    (hcons : ∀ c cs as as', ok [c] as → ok cs as' → ok (c :: cs) (as ++ as'))
    (hstep : ∀ t s c t', R t s → call t c = some t' → ∃ as s', run step s as = some s' ∧ ok [c] as ∧ R t' s')
    {t t' : τ} {s : σ} {cs : List κ} (hr : run call t cs = some t') (hR : R t s) :
    ∃ as s', run step s as = some s' ∧ ok cs as ∧ R t' s' := by
  induction cs generalizing t s with
  | nil =>
    cases hr
    exact ⟨[], s, rfl, hnil, hR⟩
  | cons c cs ih =>
    obtain ⟨t₁, h1, h2⟩ := run_cons.mp hr
    obtain ⟨as, s₁, hs₁, hok, hR₁⟩ := hstep t s c t₁ hR h1
    obtain ⟨as', s', hs', hok', hR'⟩ := ih h2 hR₁
    exact ⟨as ++ as', s', run_append.mpr ⟨s₁, hs₁, hs'⟩, hcons c cs as as' hok hok', hR'⟩

/-- The weights of the steps of a run, added up; a step that is not possible ends the run. -/
def tally (step : σ → α → Option σ) (weight : σ → α → σ → ℕ) : σ → List α → ℕ
  | _, [] => 0
  | s, a :: as => (step s a).elim 0 fun s' => weight s a s' + tally step weight s' as

theorem tally_append {weight : σ → α → σ → ℕ} {s s' : σ} {as bs : List α} (hr : run step s as = some s') :
    tally step weight s (as ++ bs) = tally step weight s as + tally step weight s' bs := by
  induction as generalizing s with
  | nil =>
    cases hr
    exact (Nat.zero_add _).symm
  | cons a as ih =>
    obtain ⟨t, h1, h2⟩ := run_cons.mp hr
    rw [List.cons_append, tally, tally, h1, Option.elim_some, Option.elim_some, ih h2, Nat.add_assoc]

theorem tally_le_length {weight : σ → α → σ → ℕ} (hw : ∀ s a s', weight s a s' ≤ 1) (s : σ) (as : List α) :
    tally step weight s as ≤ as.length := by
  induction as generalizing s with
  | nil => exact Nat.le_refl 0
  | cons a as ih =>
    rw [tally, List.length_cons]
    cases step s a with
    | none => exact Nat.zero_le _
    | some t =>
      have h1 := hw s a t
      have h2 := ih t
      rw [Option.elim_some]
      omega

/-- **Invariant rule** with a tally. -/
theorem run_tally {w : σ → α → σ → ℕ} {I : ℕ → σ → Prop}
    (hstep : ∀ n s a s', I n s → step s a = some s' → I (n + w s a s') s') {s s' : σ} {as : List α}
    (hr : run step s as = some s') {n : ℕ} (hs : I n s) : I (n + tally step w s as) s' := by
  induction as generalizing s n with
  | nil =>
    cases hr
    exact hs
  | cons a as ih =>
    obtain ⟨t, h1, h2⟩ := run_cons.mp hr
    have hrest := ih h2 (hstep n s a t hs h1)
    rw [tally, h1, Option.elim_some, ← Nat.add_assoc]
    exact hrest

theorem tally_mul (c : ℕ) (weight : σ → α → σ → ℕ) (s : σ) (as : List α) :
    tally step (fun s a s' => c * weight s a s') s as = c * tally step weight s as := by
  induction as generalizing s with
  | nil => rfl
  | cons a as ih =>
    rw [tally, tally]
    cases step s a with
    | none => rfl
    | some t => rw [Option.elim_some, Option.elim_some, ih, Nat.mul_add]

/-- **Potential rule**: when in every step the potential `μ`, together with what the step weighs by `v`, is paid for by
the potential after it and what the step weighs by `w`, so it is in a run. -/
theorem run_potential {cond : σ → α → Prop} {I : σ → Prop} (μ : σ → ℕ) {v w : σ → α → σ → ℕ}
    (hI : ∀ s a s', I s → cond s a → step s a = some s' → I s')
    (hstep : ∀ s a s', I s → cond s a → step s a = some s' → μ s + v s a s' ≤ μ s' + w s a s') {s s' : σ}
    {as : List α} (hm : Meets step cond s as) (hr : run step s as = some s') (hs : I s) :
    μ s + tally step v s as ≤ μ s' + tally step w s as := by
  induction as generalizing s with
  | nil =>
    cases hr
    exact Nat.le_refl _
  | cons a as ih =>
    obtain ⟨t, h1, h2⟩ := run_cons.mp hr
    have hfirst := hstep s a t hs hm.1 h1
    have hrest := ih (hm.2 t h1) h2 (hI s a t hs hm.1 h1)
    rw [tally, tally, h1, Option.elim_some, Option.elim_some]
    omega

theorem tally_concat {weight : σ → α → σ → ℕ} {s s' s'' : σ} {as : List α} {a : α} (hr : run step s as = some s')
    (ha : step s' a = some s'') : tally step weight s (as ++ [a]) = tally step weight s as + weight s' a s'' := by
  rw [tally_append hr, tally, ha, Option.elim_some, tally, Nat.add_zero]

/-- **Invariant rule** for what depends on the actions taken so far. -/
theorem run_history {s : σ} {I : List α → σ → Prop} (h0 : I [] s)
    (hstep : ∀ as s' a s'', run step s as = some s' → I as s' → step s' a = some s'' → I (as ++ [a]) s'') {s' : σ}
    {as : List α} (hr : run step s as = some s') : I as s' := by
  induction as using List.reverseRecOn generalizing s' with
  | nil =>
    obtain rfl := Option.some.inj hr
    exact h0
  | append_singleton as a ih =>
    obtain ⟨t, h1, h2⟩ := run_append.mp hr
    obtain ⟨t', h3, h4⟩ := run_cons.mp h2
    obtain rfl := Option.some.inj h4
    exact hstep as t a t' h1 (ih h1) h3

theorem tally_eq_countP (kind : α → Bool) {s s' : σ} {as : List α} (hr : run step s as = some s') :
    tally step (fun _ a _ => if kind a then 1 else 0) s as = as.countP kind := by
  induction as generalizing s with
  | nil => rfl
  | cons a as ih =>
    obtain ⟨t, h1, h2⟩ := run_cons.mp hr
    rw [tally, h1, Option.elim_some, ih h2, List.countP_cons, Nat.add_comm]

end NetProtocols
