import DigitalObjects.Sdk.Exe
set_option autoImplicit false
set_option linter.unusedSectionVars false

/-! When a rendered predicate applies to composed statements. -/

namespace DigitalObjects.Sdk

open Pod2 Lib

variable {V : Type} [Values V] [Decodes V]

/-- An argument has the rendered form, with the values of the assignment. -/
def TmplArg.Matches (classHash : String → Option V) (τ : Wild → V) :
    TmplArg V → OperationArg V → Prop
  | .wild w, .literal v => τ w = v
  | .anchor w key, .entry container k _ => k = key.value ∧ τ w = container
  | .literal u, .literal v => u = v
  | .selfPredicate class_, .literal v => classHash class_ = some v
  | _, _ => False

def Clause.Matches (classHash : String → Option V) (τ : Wild → V) (c : Clause V) (st : Stmt V) :
    Prop :=
  c.pred = st.pred ∧ List.Forall₂ (TmplArg.Matches classHash τ) c.args st.args

section Demands

variable {classHash : String → Option V} {τ : Wild → V}

theorem TmplArg.met_demand {t : TmplArg V} {a : OperationArg V} :
    Met τ (t.demand classHash a) ↔ t.Matches classHash τ a := by
  cases t <;> cases a <;> simp [Met, TmplArg.demand, TmplArg.Matches]

theorem Clause.met_demand {c : Clause V} {st : Stmt V} :
    Met τ (c.demand classHash st) ↔ c.Matches classHash τ st := by
  unfold Clause.demand Clause.Matches
  by_cases hp : c.pred = st.pred
  · simp only [hp, if_true, true_and, met_demandZip, TmplArg.met_demand]
  · simp [hp, Met]

end Demands

/-- A predicate that applies has a statement of the rendered form for every clause. -/
theorem applyPred_matches {env : Env V} {cs : List (Clause V)} {sts : List (Stmt V)}
    {σ : Wild → Option V} (h : applyPred env cs sts = .ok σ) {τ : Wild → V}
    (hτ : Extends τ σ) : List.Forall₂ (Clause.Matches env.classHash τ) cs sts := by
  unfold applyPred at h
  cases hσ : (demandZip (Clause.demand env.classHash) cs sts).bind
      (assignAll (headerOnly env)) with
  | none => simp [hσ] at h
  | some σ' =>
    simp only [hσ, Outcome.ok.injEq] at h
    subst h
    obtain ⟨ds, hds, hassign⟩ := Option.bind_eq_some_iff.mp hσ
    have hmet : Met τ (demandZip (Clause.demand env.classHash) cs sts) :=
      ⟨ds, hds, (hτ.of_assignAll hassign).2⟩
    simpa only [met_demandZip, Clause.met_demand] using hmet

/-- The assignment of a predicate that applied, with zero for what it leaves open. -/
def closed (σ : Wild → Option V) (w : Wild) : V := (σ w).getD (ofInt 0)

theorem closed_extends (σ : Wild → Option V) : Extends (closed σ) σ := by
  intro w v h
  simp [closed, h]

end DigitalObjects.Sdk
