import DigitalObjects.Sdk.Load
set_option autoImplicit false
set_option linter.unusedSectionVars false

/-!
The shape of an action: the inputs that it takes and the objects that it produces, in the
order of its declarations and in the order in which an execution emits them.
-/

namespace DigitalObjects.Sdk

open Pod2 Lib ActionContext

variable {V : Type} [Values V] [Decodes V]

inductive Decl where
  | object (io : ObjectIO) (class_ : String)
  | sub (action : String)
deriving DecidableEq, Repr

def Call.decl : Call V → Option Decl
  | .object io class_ => some (.object io class_)
  | .subaction action => some (.sub action)
  | _ => none

def Inst.decl : Inst V → Option Decl
  | .object io _ class_ _ => some (.object io class_)
  | .subAction action _ _ => some (.sub action)
  | _ => none

/-- A produced object: its class, and for a mutate the input that it comes from. -/
structure Slot where
  class_ : String
  input : Option Nat
deriving DecidableEq, Repr

def Slot.shift (base : Nat) (s : Slot) : Slot := { s with input := s.input.map (base + ·) }

structure Shape where
  inputs : List Taken
  declared : List Slot
  emitted : List Slot

namespace Decl

variable (sub : String → Shape)

def takes : Decl → List Taken
  | .object io class_ => if io.consumes then [⟨io, class_⟩] else []
  | .sub action => (sub action).inputs

/-- The object that a declaration of the action itself produces, at this number of inputs. -/
def own (base : Nat) : Decl → List Slot
  | .object io class_ =>
    if io.produces then [⟨class_, if io = .mutate then some base else none⟩] else []
  | .sub _ => []

def called (slots : String → List Slot) (base : Nat) : Decl → List Slot
  | .object .. => []
  | .sub action => (slots action).map (Slot.shift base)

end Decl

variable (sub : String → Shape)

/-- Slots along the declarations, with the number of inputs taken before each. -/
def walk (f : Nat → Decl → List Slot) (base : Nat) : List Decl → List Slot
  | [] => []
  | d :: ds => f base d ++ walk f (base + (d.takes sub).length) ds

/-- An execution emits the objects of the sub-actions first, and those of the action itself
after the script. -/
def shapeOf (ds : List Decl) : Shape where
  inputs := ds.flatMap (Decl.takes sub)
  declared := walk sub (fun base d => d.own base ++ d.called (fun a => (sub a).declared) base) 0 ds
  emitted := walk sub (Decl.called fun a => (sub a).emitted) 0 ds ++ walk sub Decl.own 0 ds

/-- The shape of an action of a list with the latest one first. -/
def shapeAt (decls : LoadedAction V → List Decl) : List (LoadedAction V) → String → Shape
  | [], _ => ⟨[], [], []⟩
  | a :: prior, name =>
    if a.meta_.name = name then shapeOf (shapeAt decls prior) (decls a)
    else shapeAt decls prior name

/-- What `Load` saw an action declare. -/
def loadDecls (a : LoadedAction V) : List Decl := a.ctx.insts.filterMap Inst.decl

/-- What the scripts declare in an execution. -/
def exeDecls (calls : String → List (Call V)) (a : LoadedAction V) : List Decl :=
  (calls a.meta_.name).filterMap Call.decl

/-- The shape of a script or of a built-in rekey. -/
def moduleShape (decls : LoadedAction V → List Decl) (actions : List (LoadedAction V))
    (m : ActionMeta) : Shape :=
  match m.kind with
  | .script => shapeAt decls actions.reverse m.name
  | .rekey => shapeOf (fun _ => ⟨[], [], []⟩) (m.objectRefs.map fun o => .object o.io o.class_)

/-! ## Walks -/

theorem walk_append (f : Nat → Decl → List Slot) (base : Nat) (ds es : List Decl) :
    walk sub f base (ds ++ es) =
      walk sub f base ds ++ walk sub f (base + (ds.flatMap (Decl.takes sub)).length) es := by
  induction ds generalizing base with
  | nil => simp [walk]
  | cons d ds ih =>
    simp only [List.cons_append, walk, ih, List.append_assoc, List.flatMap_cons,
      List.length_append]
    rw [Nat.add_assoc]

def Slot.tag (s : Slot) : String × Bool := (s.class_, s.input.isSome)

theorem Slot.tag_shift (base : Nat) (s : Slot) : (s.shift base).tag = s.tag := by
  simp [Slot.tag, Slot.shift]

def Taken.mutates (t : Taken) : Bool := t.io = .mutate

/-- The mutates among the declared slots come from the mutates among the inputs, in order. -/
def Shape.Paired (s : Shape) : Prop :=
  s.declared.filterMap Slot.input = s.inputs.findIdxs Taken.mutates

theorem filterMap_shift (base : Nat) (slots : List Slot) :
    (slots.map (Slot.shift base)).filterMap Slot.input =
      (slots.filterMap Slot.input).map (base + ·) := by
  induction slots with
  | nil => rfl
  | cons s slots ih =>
    cases hs : s.input with
    | none => simp [Slot.shift, hs, ← ih]
    | some k => simp [Slot.shift, hs, ← ih]

theorem findIdxs_base (ts : List Taken) (base : Nat) :
    ts.findIdxs Taken.mutates base = (ts.findIdxs Taken.mutates).map (base + ·) := by
  rw [List.findIdxs_start]
  simp [Nat.add_comm]

variable {sub}

theorem walk_paired (hsub : ∀ a, (sub a).Paired) (base : Nat) (ds : List Decl) :
    (walk sub (fun base d => d.own base ++ d.called (fun a => (sub a).declared) base) base
      ds).filterMap Slot.input =
      (ds.flatMap (Decl.takes sub)).findIdxs Taken.mutates base := by
  induction ds generalizing base with
  | nil => rfl
  | cons d ds ih =>
    simp only [walk, List.filterMap_append, ih, List.flatMap_cons, List.findIdxs_append]
    congr 1
    cases d with
    | object io class_ =>
      cases io <;> simp [Decl.own, Decl.called, Decl.takes, ObjectIO.produces, ObjectIO.consumes,
        Taken.mutates, List.findIdxs_cons]
    | sub action =>
      simp only [Decl.own, Decl.called, Decl.takes, List.filterMap_nil, List.nil_append]
      rw [filterMap_shift, hsub action, ← findIdxs_base]

theorem shapeOf_paired (hsub : ∀ a, (sub a).Paired) (ds : List Decl) : (shapeOf sub ds).Paired :=
  walk_paired hsub 0 ds

theorem shapeAt_paired (decls : LoadedAction V → List Decl) (actions : List (LoadedAction V))
    (name : String) : (shapeAt decls actions name).Paired := by
  induction actions generalizing name with
  | nil => rfl
  | cons a prior ih =>
    unfold shapeAt
    by_cases hn : a.meta_.name = name
    · rw [if_pos hn]
      exact shapeOf_paired ih (decls a)
    · rw [if_neg hn]
      exact ih name

/-- Positions of the mutates, zipped with where they come from. -/
theorem zip_mutates (slots : List Slot) (start : Nat) (p : MutatedObjectSlots)
    (h : p ∈ (slots.filterMap Slot.input).zipWith MutatedObjectSlots.mk
      (slots.findIdxs (fun s => s.input.isSome) start)) :
    ∃ s k, p.outputIndex = start + k ∧ slots[k]? = some s ∧ s.input = some p.inputIndex := by
  induction slots generalizing start with
  | nil => simp at h
  | cons s slots ih =>
    cases hs : s.input with
    | none =>
      simp only [List.filterMap_cons, hs, List.findIdxs_cons, Option.isSome_none] at h
      obtain ⟨s', k, hout, hk, hin⟩ := ih (start + 1) (by simpa using h)
      exact ⟨s', k + 1, by omega, by simpa using hk, hin⟩
    | some i =>
      simp only [List.filterMap_cons, hs, List.findIdxs_cons, Option.isSome_some, if_true,
        List.zipWith_cons_cons, List.mem_cons] at h
      rcases h with rfl | h
      · exact ⟨s, 0, rfl, by simp, hs⟩
      · obtain ⟨s', k, hout, hk, hin⟩ := ih (start + 1) h
        exact ⟨s', k + 1, by omega, by simpa using hk, hin⟩

theorem filterMap_decls (insts : List (Inst V)) :
    (insts.filter Inst.declares).filterMap Inst.decl = insts.filterMap Inst.decl := by
  induction insts with
  | nil => rfl
  | cons inst insts ih => cases inst <;> simp [List.filter_cons, List.filterMap_cons,
      Inst.declares, Inst.decl, ih]

/-- A run records the declarations of its calls. -/
theorem runCalls_decls {env : Env V} {runSub : RunSub V} {ctx ctx' : ActionContext V}
    {calls : List (Call V)} (h : ctx.runCalls env runSub calls = .ok ctx') :
    ctx'.decls.filterMap Inst.decl = ctx.decls.filterMap Inst.decl ++ calls.filterMap Call.decl := by
  induction calls generalizing ctx with
  | nil =>
    cases h
    simp
  | cons call calls ih =>
    obtain ⟨ctx₁, hcall, h⟩ := Outcome.bind_eq_ok h
    rw [ih h]
    have hstep : ctx₁.decls.filterMap Inst.decl =
        ctx.decls.filterMap Inst.decl ++ call.decl.toList := by
      cases call with
      | object io class_ =>
        obtain ⟨exe, value, original, s, -, -, rfl⟩ := objIo_ok hcall
        rw [decls_declare rfl]
        simp [Inst.decl, Call.decl]
      | subaction action =>
        obtain ⟨exe, value, captured, s, -, -, rfl⟩ := subaction_ok hcall
        rw [decls_declare rfl]
        simp [Inst.decl, Call.decl]
      | _ =>
        rcases call_cases hcall with hstill | ⟨_, _, _, _, _, _, heq, -⟩ | ⟨_, _, _, _, _, heq, -⟩
        · simp [hstill.decls, Call.decl]
        · cases heq
        · cases heq
    rw [hstep]
    cases hd : call.decl <;> simp [hd]

end DigitalObjects.Sdk
