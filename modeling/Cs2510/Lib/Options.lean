import Cs2510.Lib.Bytes
import Mathlib.Data.List.Forall2

/-!
# The options of a command line

A program takes its options one after the other. Each is checked and changes the arguments, or
makes the program give up. Where every option has a meaning, and whether it is allowed depends on
this meaning alone, the program goes on exactly if all of them are (`options_spec`).
-/

universe u v w

variable {κ : Type} {ο : Type u} {ξ : Type v}

/-- The options are handled until one makes the program return. -/
def options (handle : κ → ο → Except Fault (Option κ)) : κ → List ο → Except Fault (Option κ)
  | args, [] => .ok (some args)
  | args, o :: os =>
    match handle args o with
    | .ok (some args) => options handle args os
    | .ok none => .ok none
    | .error f => .error f

variable {handle : κ → ο → Except Fault (Option κ)} {Sets : ο → ξ → Prop} {Allowed : ξ → Prop}
  {Holds : κ → List ξ → Prop} {args : κ} {os : List ο} {before xs : List ξ}

/-- What the arguments hold after the options that have been handled is what they hold in the
end. -/
theorem options_spec
    (hstep : ∀ {args before o x}, Holds args before → Sets o x →
      Allowed x ∧ (∃ args', handle args o = .ok (some args') ∧ Holds args' (before ++ [x])) ∨
        ¬ Allowed x ∧ handle args o = .ok none)
    (hargs : Holds args before) (hos : List.Forall₂ Sets os xs) :
    (∀ x ∈ xs, Allowed x) ∧
        (∃ args', options handle args os = .ok (some args') ∧ Holds args' (before ++ xs)) ∨
      (¬ ∀ x ∈ xs, Allowed x) ∧ options handle args os = .ok none := by
  induction hos generalizing args before with
  | nil => exact .inl ⟨fun _ hx => absurd hx List.not_mem_nil, args, rfl, by rwa [List.append_nil]⟩
  | @cons o x os xs ho _ ih =>
    simp only [List.forall_mem_cons, options]
    obtain ⟨hx, args', heq, hargs'⟩ | ⟨hx, heq⟩ := hstep hargs ho
    · rw [heq, List.append_cons]
      simpa only [hx, true_and] using ih hargs'
    · rw [heq]
      exact .inr ⟨fun hall => hx hall.1, rfl⟩

/-- What holds of the arguments at the start, and after each option that the program goes on from,
holds of those it goes on with. -/
theorem options_invariant {I : κ → Prop} {args' : κ}
    (hstep : ∀ {args o args'}, I args → handle args o = .ok (some args') → I args') (hargs : I args)
    (heq : options handle args os = .ok (some args')) : I args' := by
  induction os generalizing args with
  | nil =>
    cases heq
    exact hargs
  | cons o os ih =>
    rw [options] at heq
    split at heq
    · next args₁ hfirst => exact ih (hstep hargs hfirst) heq
    · cases heq
    · cases heq
