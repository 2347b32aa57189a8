import DigitalObjects.Sdk.Load
import DigitalObjects.Txlib.Events
import DigitalObjects.Pod2.Terms
set_option autoImplicit false
set_option linter.unusedSectionVars false

/-!
Derivations in the generated podlang, and which objects a class guard vouches for.
-/

namespace DigitalObjects.Sdk

open Pod2 Lib Txlib

variable {V : Type} [Values V] [Decodes V]

/-- The meaning of the predicates that no clause below depends on, and the class hashes. -/
structure Interp (V : Type) where
  native : NativePredicate → List V → Prop
  intro : Intro → List V → Prop
  classHash : String → V

/-- An event that a derivation proves, with the type in its statement. -/
structure TypedEvent (V : Type) where
  event : Event V
  type : V

/-- The meaning of a sub-action: record, header, chain before and after, and its events. -/
abbrev ActionRel (V : Type) := String → V → V → V → V → List (TypedEvent V) → Prop

def Key.Selects (d v : V) : Key → Prop
  | .index n => ArrayContains d (ofInt n) v
  | .field s => DictContains d (ofStr s) v

def TmplArg.Denotes (I : Interp V) (σ : Wild → V) (v : V) : TmplArg V → Prop
  | .wild w => σ w = v
  | .anchor w key => key.Selects (σ w) v
  | .literal u => u = v
  | .selfPredicate class_ => I.classHash class_ = v

def Pred.Holds (I : Interp V) (sub : ActionRel V) (es : List (TypedEvent V)) :
    Pred → List V → Prop
  | .native .arrayContains, [a, i, v] => ArrayContains a i v ∧ es = []
  | .native p, vs => I.native p vs ∧ es = []
  | .intro p, vs => I.intro p vs ∧ es = []
  | .action name, [io, header, chain0, chain] => sub name io header chain0 chain es
  | .txInsert, [prev, chain, initial, new, type] =>
    TxInsert prev chain initial new type ∧ es = [⟨.insert new, type⟩]
  | .txMutate, [prev, chain, old, new, type] =>
    TxMutate prev chain old new type ∧ es = [⟨.mutate old new, type⟩]
  | .txDelete, [prev, chain, old, type] =>
    TxDelete prev chain old type ∧ es = [⟨.delete old, type⟩]
  | _, _ => False

def Clause.Holds (I : Interp V) (sub : ActionRel V) (σ : Wild → V) (es : List (TypedEvent V))
    (c : Clause V) : Prop :=
  ∃ vs, List.Forall₂ (fun a v => a.Denotes I σ v) c.args vs ∧ c.pred.Holds I sub es vs

/-- All clauses, with their events one after the other. -/
def ClausesHold (I : Interp V) (sub : ActionRel V) (σ : Wild → V) :
    List (Clause V) → List (TypedEvent V) → Prop
  | [], es => es = []
  | c :: cs, es => ∃ es₁ es₂, es = es₁ ++ es₂ ∧ c.Holds I sub σ es₁ ∧ ClausesHold I sub σ cs es₂

/-- A derivation of one action predicate. -/
def LoadedAction.Holds (I : Interp V) (sub : ActionRel V) (a : LoadedAction V)
    (io header chain0 chain : V) (es : List (TypedEvent V)) : Prop :=
  ∃ σ : Wild → V, σ .io = io ∧ σ (.var "state_header" 0) = header ∧
    (0 < a.meta_.chainMaxTs → σ (.var "chain" 0) = chain0) ∧
    σ (.var "chain" a.meta_.chainMaxTs) = chain ∧ ClausesHold I sub σ a.clauses es

/-- A sub-action is one of the actions loaded before; the latest comes first here. -/
def ActionHolds (I : Interp V) : List (LoadedAction V) → ActionRel V
  | [], _, _, _, _, _, _ => False
  | a :: prior, name, io, header, chain0, chain, es =>
    if a.meta_.name = name then a.Holds I (ActionHolds I prior) io header chain0 chain es
    else ActionHolds I prior name io header chain0 chain es

/-- The state that the guard of an object vouches for is what its event names. -/
def Touches (o : ActionObjectRef) (state : V) : Event V → Prop
  | .insert new => o.io = .output ∧ new = state
  | .mutate _ new => o.io = .mutate ∧ new = state
  | .delete old => o.io = .input ∧ old = state

theorem ClausesHold.mem {I : Interp V} {sub : ActionRel V} {σ : Wild → V} {cs : List (Clause V)}
    {es : List (TypedEvent V)} (h : ClausesHold I sub σ cs es) {c : Clause V} (hc : c ∈ cs) :
    ∃ es₁, c.Holds I sub σ es₁ ∧ ∀ e ∈ es₁, e ∈ es := by
  induction cs generalizing es with
  | nil => cases hc
  | cons d cs ih =>
    obtain ⟨es₁, es₂, rfl, hd, hrest⟩ := h
    rcases List.mem_cons.mp hc with rfl | hc
    · exact ⟨es₁, hd, fun e he => List.mem_append_left es₂ he⟩
    · obtain ⟨es₃, hc', hsub⟩ := ih hrest hc
      exact ⟨es₃, hc', fun e he => List.mem_append_right es₁ (hsub e he)⟩

/-- With distinct names, a predicate is the one of the action of its name. -/
theorem ActionHolds.action {I : Interp V} {actions : List (LoadedAction V)} {a : LoadedAction V}
    {io header chain0 chain : V} {es : List (TypedEvent V)}
    (hnames : (actions.map fun a => a.meta_.name).Nodup) (ha : a ∈ actions)
    (h : ActionHolds I actions a.meta_.name io header chain0 chain es) :
    ∃ sub, a.Holds I sub io header chain0 chain es := by
  induction actions with
  | nil => cases ha
  | cons b prior ih =>
    simp only [List.map_cons, List.nodup_cons, List.mem_map, not_exists, not_and] at hnames
    unfold ActionHolds at h
    by_cases hb : b.meta_.name = a.meta_.name
    · rw [if_pos hb] at h
      rcases List.mem_cons.mp ha with rfl | ha
      · exact ⟨_, h⟩
      · exact absurd hb.symm (hnames.1 a ha)
    · rw [if_neg hb] at h
      rcases List.mem_cons.mp ha with rfl | ha
      · exact absurd rfl hb
      · exact ih hnames.2 ha h

theorem ArrayContains.unique {a i v w : V} (hv : ArrayContains a i v) (hw : ArrayContains a i w) :
    v = w := by
  obtain ⟨m, n, rfl, rfl, h⟩ := hv
  rw [arrayContains_ofArray, h, Option.some.injEq] at hw
  exact hw

section Objects

variable {a : LoadedAction V} (ha : a.Loads) {o : ActionObjectRef} (ho : o ∈ a.meta_.objectRefs)
  (hnames : (a.meta_.objectRefs.map (·.varname)).Nodup)

end Objects

theorem Touches.eq {o : ActionObjectRef} {v w : V} {ev : Event V} (h : Touches o v ev)
    (heq : v = w) : Touches o w ev := heq ▸ h

section Samples

noncomputable local instance : Decodes Term := .classical

def sampleEnv : Env Term where
  classHash c := some (ofStr c)
  stateHeader := ∅
  random n := ofInt n
  grind d key _ := d.lookup key
  vdf _ input := some input
  ltEqU256 _ _ := true
  native _ _ := true

end Samples

end DigitalObjects.Sdk
