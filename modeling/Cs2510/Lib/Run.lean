import Cs2510.Lib.TransitionSystem
import Mathlib.Data.List.Basic

/-!
# Runs with their history

`Run G h s` is a run that ends in `s` with the history `h`: the steps made, each with the state
it was made in. Functions of the history (what was sent, who was accepted) are folds of it, and
`Run.invariant` relates them to the state reached. `Steps C h` says that every step of a history
meets a condition on the history before it (`Run.invariant_of_steps`).

`Interleaving` says that a list consists of the streams of several parties.
-/

universe u v

namespace TransitionSystem

variable {σ : Type u} {α : Type v} (T : TransitionSystem σ α)

/-- The system from a state that it has come to. -/
def startingAt (s : σ) : TransitionSystem σ α := { T with init := s }

instance startingAtDecidable [∀ s a, Decidable (T.enabled s a)] (s₀ s : σ) (a : α) :
    Decidable ((T.startingAt s₀).enabled s a) :=
  inferInstanceAs (Decidable (T.enabled s a))

/-- The runs whose steps satisfy the guard `G`, with their history. -/
inductive Run (G : σ → α → Prop) : List (σ × α) → σ → Prop
  | init : Run G [] T.init
  | step {h : List (σ × α)} {s : σ} {a : α} :
      Run G h s → T.enabled s a → G s a → Run G (h ++ [(s, a)]) (T.next s a)

variable {T} {G : σ → α → Prop} {h : List (σ × α)} {s : σ}

theorem Run.reach (hr : T.Run G h s) : T.Reach G s := by
  induction hr with
  | init => exact .init
  | step _ he hg ih => exact .step ih he hg

theorem Run.mono {H : σ → α → Prop} (hGH : ∀ s a, G s a → H s a) (hr : T.Run G h s) :
    T.Run H h s := by
  induction hr with
  | init => exact .init
  | step _ he hg ih => exact .step ih he (hGH _ _ hg)

/-- What holds of the empty history and survives every guarded step holds of every run. -/
theorem Run.invariant {I : List (σ × α) → σ → Prop} (hinit : I [] T.init)
    (hstep : ∀ h s a, T.Run G h s → I h s → T.enabled s a → G s a →
      I (h ++ [(s, a)]) (T.next s a)) (hr : T.Run G h s) : I h s := by
  induction hr with
  | init => exact hinit
  | step hr he hg ih => exact hstep _ _ _ hr ih he hg

/-- A run whose steps all lower a measure has at most as many of them as the measure is at its
start. -/
theorem Run.length_le {I : σ → Prop} {m : σ → Nat} (hinit : I T.init)
    (hstep : ∀ s a, I s → T.enabled s a → G s a → I (T.next s a) ∧ m (T.next s a) < m s)
    (hr : T.Run G h s) : I s ∧ h.length + m s ≤ m T.init := by
  induction hr with
  | init => exact ⟨hinit, Nat.le_of_eq (Nat.zero_add _)⟩
  | step _ he hg ih =>
    obtain ⟨hI, hlt⟩ := hstep _ _ ih.1 he hg
    refine ⟨hI, ?_⟩
    have hle := ih.2
    rw [List.length_append, List.length_singleton]
    omega

/-- Every step of the history meets `C`, a condition on the history before the step, the state and
the action. -/
def Steps (C : List (σ × α) → σ → α → Prop) (h : List (σ × α)) : Prop :=
  ∀ h₁ s a h₂, h = h₁ ++ (s, a) :: h₂ → C h₁ s a

section Steps

variable {C : List (σ × α) → σ → α → Prop} {a : α}

theorem steps_nil : Steps C ([] : List (σ × α)) := by
  intro h₁ s a h₂ heq
  cases h₁ <;> cases heq

theorem steps_append_singleton : Steps C (h ++ [(s, a)]) ↔ Steps C h ∧ C h s a := by
  constructor
  · intro hC
    refine ⟨fun h₁ s₁ a₁ h₂ heq => ?_, hC h s a [] rfl⟩
    exact hC h₁ s₁ a₁ (h₂ ++ [(s, a)]) (by rw [heq, List.append_assoc, List.cons_append])
  · rintro ⟨hC, hlast⟩ h₁ s₁ a₁ h₂ heq
    obtain rfl | ⟨h₃, x, rfl⟩ := h₂.eq_nil_or_concat
    · obtain ⟨rfl, hsingle⟩ := List.append_inj' heq rfl
      cases hsingle
      exact hlast
    · rw [List.concat_eq_append, ← List.cons_append, ← List.append_assoc] at heq
      obtain ⟨rfl, -⟩ := List.append_inj' heq rfl
      exact hC h₁ s₁ a₁ h₃ rfl

/-- What holds of the empty history and survives every step that meets `C` holds of every run
whose steps do. -/
theorem Run.invariant_of_steps {I : List (σ × α) → σ → Prop} (hinit : I [] T.init)
    (hstep : ∀ h s a, T.Run G h s → I h s → T.enabled s a → G s a → C h s a →
      I (h ++ [(s, a)]) (T.next s a)) (hr : T.Run G h s) (hC : Steps C h) : I h s := by
  induction hr with
  | init => exact hinit
  | step hr he hg ih =>
    obtain ⟨hC, hlast⟩ := steps_append_singleton.mp hC
    exact hstep _ _ _ hr (ih hC) he hg hlast

/-- What holds after one step of a run, and survives the steps behind it, holds at its end. -/
theorem Run.invariant_from {I : List (σ × α) → σ → Prop} {h₁ h₂ : List (σ × α)} {s₁ : σ} {a₁ : α}
    (hstart : T.enabled s₁ a₁ → G s₁ a₁ → I [] (T.next s₁ a₁))
    (hstep : ∀ h₂ s a, I h₂ s → T.enabled s a → G s a → I (h₂ ++ [(s, a)]) (T.next s a))
    (hr : T.Run G (h₁ ++ (s₁, a₁) :: h₂) s) : I h₂ s := by
  generalize hh : h₁ ++ (s₁, a₁) :: h₂ = h at hr
  induction hr generalizing h₂ with
  | init => cases h₁ <;> cases hh
  | @step h s a hr he hg ih =>
    obtain rfl | ⟨h₃, x, rfl⟩ := h₂.eq_nil_or_concat
    · obtain ⟨rfl, hsingle⟩ := List.append_inj' hh rfl
      cases hsingle
      exact hstart he hg
    · rw [List.concat_eq_append, ← List.cons_append, ← List.append_assoc] at hh
      obtain ⟨hbefore, hsingle⟩ := List.append_inj' hh rfl
      cases hsingle
      rw [List.concat_eq_append]
      exact hstep h₃ s a (ih hbefore) he hg

/-- The steps of a run meet what its guard implies. -/
theorem Run.steps (hr : T.Run G h s) (himp : ∀ h s a, G s a → C h s a) : Steps C h := by
  induction hr with
  | init => exact steps_nil
  | step _ _ hg ih => exact steps_append_singleton.mpr ⟨ih, himp _ _ _ hg⟩

end Steps

section exec

variable (T G)
variable [∀ s a, Decidable (T.enabled s a)] [∀ s a, Decidable (G s a)]

/-- The history of a list of actions. -/
def trace : σ → List α → List (σ × α)
  | _, [] => []
  | s, a :: as => (s, a) :: trace (T.next s a) as

variable {T G}

theorem exec_run {as : List α} {s' : σ} (hr : T.Run G h s) (he : T.exec G s as = some s') :
    T.Run G (h ++ T.trace s as) s' := by
  induction as generalizing h s with
  | nil =>
    cases he
    rw [trace, List.append_nil]
    exact hr
  | cons a as ih =>
    unfold exec at he
    split at he
    · next hs =>
      rw [trace, List.append_cons]
      exact ih (hr.step hs.1 hs.2) he
    · cases he

/-- Actions that can be run, with a history and an end that pass the test `p`. -/
theorem exists_run_of_exec {as : List α} {p : List (σ × α) → σ → Bool}
    (h : (T.exec G T.init as).any (p (T.trace T.init as)) = true) :
    ∃ h s, T.Run G h s ∧ p h s = true := by
  cases he : T.exec G T.init as with
  | none => simp [he] at h
  | some s => exact ⟨_, s, exec_run .init he, by simpa [he] using h⟩

end exec

end TransitionSystem

/-- The list `l` is made of the streams: each of its elements is the next one of exactly one of
them, and every element of a stream is used. -/
def Interleaving {ι α : Type*} [DecidableEq ι] (stream : ι → List α) (l : List α) : Prop :=
  ∃ tagged : List (ι × α), tagged.map Prod.snd = l ∧
    ∀ i, (tagged.filter (·.1 = i)).map Prod.snd = stream i
