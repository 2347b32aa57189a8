import Mathlib.Logic.Basic
set_option autoImplicit false

/-!
Machines that take steps under actions, and the invariants of their runs. A guard says which
steps a run may take: an invariant need only survive those.
-/

namespace DigitalObjects.Lib

variable {σ α : Type}

/-- A run of the machine `step` under a list of actions; it stops at a step that is refused. -/
def runSteps (step : σ → α → Option σ) : σ → List α → Option σ
  | s, [] => some s
  | s, a :: as => (step s a).bind fun s' => runSteps step s' as

theorem runSteps_append (step : σ → α → Option σ) (s : σ) (as bs : List α) :
    runSteps step s (as ++ bs) = (runSteps step s as).bind fun s' => runSteps step s' bs := by
  induction as generalizing s with
  | nil => rfl
  | cons a as ih => simp [runSteps, Option.bind_assoc, ih]

/-- Every step of the run meets the guard in the state before it. -/
def RunMeets (step : σ → α → Option σ) (guard : σ → α → Prop) : σ → List α → Prop
  | _, [] => True
  | s, a :: as => guard s a ∧ ∀ s' ∈ step s a, RunMeets step guard s' as

instance decidableRunMeets (step : σ → α → Option σ) (guard : σ → α → Prop)
    [∀ s a, Decidable (guard s a)] : (as : List α) → (s : σ) → Decidable (RunMeets step guard s as)
  | [], _ => .isTrue trivial
  | a :: as, s =>
    have : ∀ s', Decidable (RunMeets step guard s' as) := decidableRunMeets step guard as
    inferInstanceAs (Decidable (guard s a ∧ ∀ s' ∈ step s a, RunMeets step guard s' as))

/-- What every guarded step preserves holds after a guarded run. -/
theorem runSteps_invariant {step : σ → α → Option σ} {guard : σ → α → Prop} {I : σ → Prop}
    (hstep : ∀ s a s', I s → guard s a → step s a = some s' → I s') {as : List α} {s s' : σ}
    (hs : I s) (hguard : RunMeets step guard s as) (hrun : runSteps step s as = some s') : I s' := by
  induction as generalizing s with
  | nil =>
    cases hrun
    exact hs
  | cons a as ih =>
    obtain ⟨s₁, h₁, hrest⟩ := Option.bind_eq_some_iff.mp hrun
    exact ih (hstep s a s₁ hs hguard.1 h₁) (hguard.2 s₁ h₁) hrest

theorem RunMeets.mono {step : σ → α → Option σ} {guard guard' : σ → α → Prop} {s : σ} {as : List α}
    (h : RunMeets step guard s as) (hguard : ∀ s a, guard s a → guard' s a) :
    RunMeets step guard' s as := by
  induction as generalizing s with
  | nil => exact trivial
  | cons a as ih => exact ⟨hguard s a h.1, fun s₁ h₁ => ih (h.2 s₁ h₁)⟩

theorem RunMeets.and {step : σ → α → Option σ} {guard guard' : σ → α → Prop} {s : σ} {as : List α}
    (h : RunMeets step guard s as) (h' : RunMeets step guard' s as) :
    RunMeets step (fun s a => guard s a ∧ guard' s a) s as := by
  induction as generalizing s with
  | nil => exact trivial
  | cons a as ih => exact ⟨⟨h.1, h'.1⟩, fun s₁ h₁ => ih (h.2 s₁ h₁) (h'.2 s₁ h₁)⟩

theorem RunMeets.append {step : σ → α → Option σ} {guard : σ → α → Prop} {s s' : σ} {as bs : List α}
    (h : RunMeets step guard s (as ++ bs)) (hrun : runSteps step s as = some s') :
    RunMeets step guard s as ∧ RunMeets step guard s' bs := by
  induction as generalizing s with
  | nil =>
    cases hrun
    exact ⟨trivial, h⟩
  | cons a as ih =>
    obtain ⟨s₁, h₁, hrest⟩ := Option.bind_eq_some_iff.mp hrun
    refine ⟨⟨h.1, fun s₂ h₂ => ?_⟩, (ih (h.2 s₁ h₁) hrest).2⟩
    obtain rfl : s₁ = s₂ := Option.some.inj (h₁.symm.trans h₂)
    exact (ih (h.2 s₁ h₁) hrest).1

theorem runMeets_of_forall {step : σ → α → Option σ} {guard : σ → α → Prop} (h : ∀ s a, guard s a)
    (s : σ) (as : List α) : RunMeets step guard s as := by
  induction as generalizing s with
  | nil => exact trivial
  | cons a as ih => exact ⟨h s a, fun s' _ => ih s'⟩

theorem runMeets_of_mem {step : σ → α → Option σ} {p : α → Prop} {as : List α} (h : ∀ a ∈ as, p a) (s : σ) :
    RunMeets step (fun _ a => p a) s as := by
  induction as generalizing s with
  | nil => exact trivial
  | cons a as ih => exact ⟨h a (by simp), fun s' _ => ih (fun a' ha' => h a' (List.mem_cons_of_mem _ ha')) s'⟩

/-- What every step preserves holds after any run. -/
theorem runSteps_preserves {step : σ → α → Option σ} {I : σ → Prop}
    (hstep : ∀ s a s', I s → step s a = some s' → I s') {as : List α} {s s' : σ} (hs : I s)
    (hrun : runSteps step s as = some s') : I s' :=
  runSteps_invariant (fun s a s' hs _ h => hstep s a s' hs h) hs
    (runMeets_of_forall (fun _ _ => trivial) s as) hrun

end DigitalObjects.Lib
