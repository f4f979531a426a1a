import Mathlib.Data.List.Basic
import Mathlib.Logic.Relation
import NetProtocols.Lib.Run

/-!
# NetProtocols.Lib.Channel — a reliable, ordered channel

What a transport is for: messages come out in the order in which they went in, each once, none altered.  A `Channel`
carries this as a field, so there is no state in which it fails.

* `Channel.Step`: a message goes in, or the next one comes out.
* `Simulates`: a system does on every step what a channel could have done; `run_simulates` carries this to runs.
* `delivered_prefix_of_simulates`: in such a system the messages delivered are a prefix of those sent.
-/

namespace NetProtocols

open Relation

universe u v w

/-- The messages sent and delivered so far. -/
structure Channel (M : Type u) where
  sent : List M
  delivered : List M
  ordered : delivered <+: sent

namespace Channel

variable {M : Type u}

/-- The channel before the first message. -/
def empty : Channel M := ⟨[], [], List.nil_prefix⟩

/-- The channel takes a message, or hands over the next one. -/
inductive Step : Channel M → Channel M → Prop
  | send (c : Channel M) (m : M) : Step c ⟨c.sent ++ [m], c.delivered, c.ordered.trans (List.prefix_append _ _)⟩
  | deliver (c : Channel M) {m : M} (h : c.delivered ++ [m] <+: c.sent) : Step c ⟨c.sent, c.delivered ++ [m], h⟩

end Channel

section Simulation

variable {M : Type u} {σ : Type v} {α : Type w} {step : σ → α → Option σ} {cond : σ → α → Prop} {I : σ → Prop}
  {sent delivered : σ → List M}

/-- From states with the invariant `I`, a step that meets `cond` keeps `I`, and does to the messages what some steps
of a channel do. -/
def Simulates (step : σ → α → Option σ) (cond : σ → α → Prop) (I : σ → Prop) (sent delivered : σ → List M) : Prop :=
  ∀ s a s' (c : Channel M), I s → cond s a → step s a = some s' → c.sent = sent s → c.delivered = delivered s →
    I s' ∧ ∃ c', ReflTransGen Channel.Step c c' ∧ c'.sent = sent s' ∧ c'.delivered = delivered s'

/-- **A run of a simulating system is a run of a channel.** -/
theorem run_simulates (hsim : Simulates step cond I sent delivered) {s s' : σ} {as : List α} {c : Channel M}
    (hm : Meets step cond s as) (hr : run step s as = some s') (hI : I s) (hs : c.sent = sent s)
    (hd : c.delivered = delivered s) :
    ∃ c', ReflTransGen Channel.Step c c' ∧ c'.sent = sent s' ∧ c'.delivered = delivered s' := by
  induction as generalizing s c with
  | nil =>
    cases hr
    exact ⟨c, .refl, hs, hd⟩
  | cons a as ih =>
    obtain ⟨t, h1, h2⟩ := run_cons.mp hr
    obtain ⟨hI', c1, hc1, hs1, hd1⟩ := hsim s a t c hI hm.1 h1 hs hd
    obtain ⟨c2, hc2, hs2, hd2⟩ := ih (hm.2 t h1) h2 hI' hs1 hd1
    exact ⟨c2, hc1.trans hc2, hs2, hd2⟩

/-- In a simulating system what was delivered is a prefix of what was sent. -/
theorem delivered_prefix_of_simulates (hsim : Simulates step cond I sent delivered) {s s' : σ} {as : List α}
    (hm : Meets step cond s as) (hr : run step s as = some s') (hI : I s) (hs : sent s = [])
    (hd : delivered s = []) : delivered s' <+: sent s' := by
  obtain ⟨c, -, h1, h2⟩ := run_simulates (c := Channel.empty) hsim hm hr hI hs.symm hd.symm
  rw [← h1, ← h2]
  exact c.ordered

end Simulation

end NetProtocols
