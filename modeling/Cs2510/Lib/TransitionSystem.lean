import Mathlib.Logic.Basic

/-!
# Transition systems with guarded runs

A system has one initial state, a predicate saying which actions a state allows, and the
effect of an action. `Reach G` is the set of states reached by steps that also satisfy `G`,
a condition on the state before the step and on the action. The unrestricted runs are
`Reachable`.

Invariants are proved once, by `Reach.invariant` or, on top of an invariant that is already
known, by `Reach.invariant_of`. Concrete runs are executed by `exec`, whose result is reachable
(`exec_reach`).
-/

universe u v

structure TransitionSystem (σ : Type u) (α : Type v) where
  init : σ
  enabled : σ → α → Prop
  next : σ → α → σ

namespace TransitionSystem

variable {σ : Type u} {α : Type v} (T : TransitionSystem σ α)

/-- The states reached by steps satisfying the guard `G`. -/
inductive Reach (G : σ → α → Prop) : σ → Prop
  | init : Reach G T.init
  | step {s : σ} {a : α} : Reach G s → T.enabled s a → G s a → Reach G (T.next s a)

/-- The states reached by any steps. -/
abbrev Reachable : σ → Prop := T.Reach fun _ _ => True

variable {T} {G H : σ → α → Prop} {s : σ}

theorem Reach.mono (hGH : ∀ s a, G s a → H s a) (h : T.Reach G s) : T.Reach H s := by
  induction h with
  | init => exact .init
  | step _ he hg ih => exact .step ih he (hGH _ _ hg)

theorem Reach.reachable (h : T.Reach G s) : T.Reachable s :=
  h.mono fun _ _ _ => trivial

/-- A run that starts where another one has ended. -/
theorem Reach.trans {s' : σ} (h : T.Reach G s) (h' : Reach { T with init := s } G s') :
    T.Reach G s' := by
  induction h' with
  | init => exact h
  | step _ he hg ih => exact .step ih he hg

/-- What holds initially and survives every guarded step holds of every state reached. -/
theorem Reach.invariant {I : σ → Prop} (hinit : I T.init)
    (hstep : ∀ s a, I s → T.enabled s a → G s a → I (T.next s a)) (h : T.Reach G s) : I s := by
  induction h with
  | init => exact hinit
  | step _ he hg ih => exact hstep _ _ ih he hg

/-- An invariant whose step may use an invariant `J` that every reached state is known to have. -/
theorem Reach.invariant_of {I J : σ → Prop} (hJ : ∀ s, T.Reach G s → J s) (hinit : I T.init)
    (hstep : ∀ s a, J s → I s → T.enabled s a → G s a → I (T.next s a)) (h : T.Reach G s) :
    I s := by
  induction h with
  | init => exact hinit
  | step hr he hg ih => exact hstep _ _ (hJ _ hr) ih he hg

/-- A system refines `T` if every step of it, in the states it reaches, is one of `T` or changes
nothing that `T` sees. -/
theorem Reach.refines {τ : Type*} {β : Type*} {U : TransitionSystem τ β} {f : τ → σ}
    {I : τ → Prop} {u : τ} (hI : ∀ u, U.Reachable u → I u) (hinit : f U.init = T.init)
    (hstep : ∀ u b, I u → U.enabled u b → f (U.next u b) = f u ∨
      ∃ a, T.enabled (f u) a ∧ f (U.next u b) = T.next (f u) a)
    (h : U.Reachable u) : T.Reachable (f u) := by
  induction h with
  | init =>
    rw [hinit]
    exact .init
  | step hr he _ ih =>
    obtain hsame | ⟨a, ha, hnext⟩ := hstep _ _ (hI _ hr) he
    · rw [hsame]
      exact ih
    · rw [hnext]
      exact ih.step ha trivial

section exec

variable (T G)
variable [∀ s a, Decidable (T.enabled s a)] [∀ s a, Decidable (G s a)]

/-- Run a list of actions, giving up at the first one that is disabled or violates the guard. -/
def exec : σ → List α → Option σ
  | s, [] => some s
  | s, a :: as => if T.enabled s a ∧ G s a then exec (T.next s a) as else none

variable {T G}

theorem exec_reach {as : List α} {s' : σ} (h : T.Reach G s) (he : T.exec G s as = some s') :
    T.Reach G s' := by
  induction as generalizing s with
  | nil => cases he; exact h
  | cons a as ih =>
    unfold exec at he
    split at he
    · next hs => exact ih (h.step hs.1 hs.2) he
    · cases he

/-- A run that ends in a state passing the test `p` gives a reached state passing it. -/
theorem exists_reach_of_exec {as : List α} {p : σ → Bool}
    (h : (T.exec G T.init as).any p = true) : ∃ s, T.Reach G s ∧ p s = true := by
  cases he : T.exec G T.init as with
  | none => simp [he] at h
  | some s => exact ⟨s, exec_reach .init he, by simpa [he] using h⟩

end exec

end TransitionSystem
