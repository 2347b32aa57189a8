import DigitalObjects.Sdk.Meta
set_option autoImplicit false

/-!
The generated podlang: `fmt_action` renders the instructions of an action as clauses over
wildcards and record slots. An unknown name panics, as indexing the map of variables does.
-/

namespace DigitalObjects.Sdk

open Pod2 Lib

variable {V : Type} [Values V] [Decodes V]

/-- The wildcards of an action predicate: a variable at a timestamp, and the records. -/
inductive Wild where
  | var (name : String) (ts : Nat)
  | io
  | initials
  | chainSteps
  | subIo (sub : String) (idx : Nat)
deriving DecidableEq, Repr

/-- A record slot or the field of a dictionary. -/
inductive Key where
  | index (n : Nat)
  | field (name : String)
deriving DecidableEq, Repr

inductive TmplArg (V : Type) where
  | wild (w : Wild)
  | anchor (w : Wild) (key : Key)
  | literal (v : V)
  | selfPredicate (class_ : String)
deriving DecidableEq

inductive Pred where
  | native (p : NativePredicate)
  | intro (p : Intro)
  | action (name : String)
  | txInsert
  | txMutate
  | txDelete
deriving DecidableEq, Repr

structure Clause (V : Type) where
  pred : Pred
  args : List (TmplArg V)

/-- `VarNameFmt`: a variable at a timestamp. -/
def ActionMeta.renderVar (m : ActionMeta) (name : String) (ts : Nat) :
    RuntimeResult (TmplArg V) := do
  let c ← m.collapsedAt name ts
  match c with
  | some (.io _, slot) => pure (.anchor .io (.index slot))
  | some (.initials, slot) => pure (.anchor .initials (.index slot))
  | none => do
    let maxTs ← m.maxTs name
    match if name = "chain" then chainStepAt ts maxTs else none with
    | some slot => pure (.anchor .chainSteps (.index slot))
    | none => pure (.wild (.var name ts))

/-- How a field is written after a wildcard. Only `state_header` is a record with fields of
its own. -/
def fieldKey (w : Wild) (key : String) : Key :=
  match w with
  | .var "state_header" _ => .index (ActionContext.recordStateHeader.findIdx (· = key))
  | _ => .field key

/-- A record slot cannot be anchored twice. -/
def TmplArg.field (key : String) : TmplArg V → RuntimeResult (TmplArg V)
  | .wild w => .ok (.anchor w (fieldKey w key))
  | _ => .panic "compiles"

/-- Timestamps after an instruction; a sub-action is a step of the chain. -/
def Inst.step (inst : Inst V) (ts : String → Nat) : String → Nat :=
  match inst with
  | .subAction .. => Function.update ts "chain" (ts "chain" + 1)
  | _ => inst.advance ts

def Inst.subName : Inst V → Option String
  | .subAction action _ _ => some action
  | _ => none

namespace ActionContext

variable (ctx : ActionContext V) (m : ActionMeta)

def renderName (ts : String → Nat) (name : String) : RuntimeResult (TmplArg V) := do
  let _ ← Outcome.require (name ∈ ctx.vars) "unknown name"
  m.renderVar name (ts name)

/-- `ArgFmt`. -/
def renderArg (ts : String → Nat) (r : Ref) : RuntimeResult (TmplArg V) := do
  let c ← ctx.cell r
  match c with
  | .value v => pure (.literal v)
  | .var v => do
    let base ← ctx.renderName m ts v.name
    match v.key with
    | none => pure base
    | some key => base.field key

def renderArgs (ts : String → Nat) : List Ref → RuntimeResult (List (TmplArg V))
  | [] => pure []
  | r :: rs => do
    let a ← ctx.renderArg m ts r
    let as ← renderArgs ts rs
    pure (a :: as)

def dictContains (obj : TmplArg V) (kv : String × TmplArg V) : Clause V :=
  ⟨.native .dictContains, [obj, .literal (ofStr kv.1), kv.2]⟩

/-- The clauses of one instruction. `subs` are the sub-actions called before. -/
def fmtInst (ts : String → Nat) (subs : List String) : Inst V → RuntimeResult (List (Clause V))
  | .object .. => pure []
  | .set obj kvs _ => do
    let o ← ctx.renderName m ts obj
    let values ← ctx.renderArgs m ts (kvs.map Prod.snd)
    pure (((kvs.map Prod.fst).zip values).map (dictContains o))
  | .update obj key value _ => do
    let old ← ctx.renderName m ts obj
    let v ← ctx.renderArg m ts value
    let new ← m.renderVar obj (ts obj + 1)
    pure [⟨.native .dictUpdate, [old, .literal (ofStr key), v, new]⟩]
  | .statement pred args _ => do
    let as ← ctx.renderArgs m ts args
    pure [⟨.native pred, as⟩]
  | .intro pred args _ => do
    let as ← ctx.renderArgs m ts args
    pure [⟨.intro pred, as⟩]
  | .subAction action _ _ => do
    let chain ← m.renderVar "chain" (ts "chain")
    let chainNext ← m.renderVar "chain" (ts "chain" + 1)
    pure [⟨.action action, [.wild (.subIo action (subs.count action)),
      .wild (.var "state_header" 0), chain, chainNext]⟩]

/-- The body, with the timestamps after it. -/
def fmtBody (ts : String → Nat) (subs : List String) :
    List (Inst V) → RuntimeResult (List (Clause V) × (String → Nat))
  | [] => pure ([], ts)
  | inst :: insts => do
    let cs ← ctx.fmtInst m ts subs inst
    let (rest, ts) ← fmtBody (inst.step ts) (subs ++ inst.subName.toList) insts
    pure (cs ++ rest, ts)

/-- An `ArrayContains` clause for a form that stays a wildcard. -/
def fmtPin (record : Wild) (entry : Option (Nat × EntryShape)) (varname : String) (ts : Nat) :
    List (Clause V) :=
  match entry with
  | some (slot, e) =>
    if e.needsWildcard then
      [⟨.native .arrayContains,
        [.wild record, .literal (ofInt slot), .wild (.var varname ts)]⟩]
    else []
  | none => []

def fmtPins : List ActionObjectRef → RuntimeResult (List (Clause V))
  | [] => pure []
  | o :: os => do
    let maxTs ← m.maxTs o.varname
    let rest ← fmtPins os
    pure (fmtPin .io (m.inEntry o.varname) o.varname 0 ++
      fmtPin .io (m.outEntry o.varname) o.varname maxTs ++
      fmtPin .initials (m.initialsEntry o.varname) o.varname (initialsTs maxTs) ++ rest)

/-- Pins of the sub-action aliases that the body refers to. -/
def fmtAliases (metas : List ActionMeta) (subs : List String) :
    List (Inst V) → RuntimeResult (List (Clause V))
  | [] => pure []
  | .subAction action obj _ :: insts => do
    let rest ← fmtAliases metas (subs ++ [action]) insts
    match metas.find? fun m => m.name = action with
    | none => .panic "sub-action meta exists at fmt time"
    | some sub =>
      let bound := ctx.varName obj
      if bound ≠ "?" ∧ bound ∈ ctx.bodyReferencedVars ∧ sub.outEntries ≠ [] then do
        let _ ← m.maxTs bound
        pure (⟨.native .arrayContains, [.wild (.subIo action (subs.count action)),
          .literal (ofInt sub.inEntries.length), .wild (.var bound 0)]⟩ :: rest)
      else pure rest
  | _ :: insts => fmtAliases metas subs insts

/-- The Tx event of an object. -/
def fmtEvent (ts : String → Nat) (o : ActionObjectRef) : RuntimeResult (Clause V) := do
  let chain ← m.renderVar "chain" (ts "chain")
  let chainNext ← m.renderVar "chain" (ts "chain" + 1)
  let obj ← ctx.renderName m ts o.varname
  match o.io with
  | .input => pure ⟨.txDelete, [chain, chainNext, obj, .selfPredicate o.class_]⟩
  | .output => do
    let objWithId ← m.renderVar o.varname (ts o.varname + 1)
    pure ⟨.txInsert, [chain, chainNext, obj, objWithId, .selfPredicate o.class_]⟩
  | .mutate => do
    let pre ← m.renderVar o.varname 0
    pure ⟨.txMutate, [chain, chainNext, pre, obj, .selfPredicate o.class_]⟩

def fmtEvents (ts : String → Nat) : List ActionObjectRef → RuntimeResult (List (Clause V))
  | [] => pure []
  | o :: os => do
    let c ← ctx.fmtEvent m ts o
    let cs ← fmtEvents (Function.update ts "chain" (ts "chain" + 1)) os
    pure (c :: cs)

/-- The clauses of an action predicate. -/
def fmtAction (metas : List ActionMeta) : RuntimeResult (List (Clause V)) := do
  let pins ← fmtPins m m.objectRefs
  let aliases ← ctx.fmtAliases m metas [] ctx.insts
  let (body, ts) ← ctx.fmtBody m (fun _ => 0) [] ctx.insts
  let events ← ctx.fmtEvents m ts m.objectRefs
  pure (pins ++ aliases ++ body ++ events)

end ActionContext

/-! ## Modules -/

/-- A script with the name of its action. -/
structure Script (V : Type) where
  name : String
  calls : List (Call V)

structure LoadedAction (V : Type) where
  ctx : ActionContext V
  meta_ : ActionMeta
  clauses : List (Clause V)

/-- `Load` runs no sub-action. -/
def loadSub : ActionContext.RunSub V := fun _ _ => .panic "no execution"

/-- Load one script after the actions before it. -/
def loadAction (env : Env V) (prior : List (LoadedAction V)) (script : Script V) :
    RuntimeResult (LoadedAction V) := do
  let ctx ← (ActionContext.new env none).runCalls env loadSub script.calls
  let metas := prior.map LoadedAction.meta_
  let m ← ActionMeta.fromActionCtx metas script.name ctx
  let clauses ← ctx.fmtAction m (metas ++ [m])
  pure ⟨ctx, m, clauses⟩

def loadActions (env : Env V) (prior : List (LoadedAction V)) :
    List (Script V) → RuntimeResult (List (LoadedAction V))
  | [] => pure prior
  | script :: scripts => do
    let action ← loadAction env prior script
    loadActions env (prior ++ [action]) scripts

/-- `Loader::new` and `Loader::module`. -/
def loadModule (env : Env V) (scripts : List (Script V)) :
    RuntimeResult (List (LoadedAction V)) := do
  let actions ← loadActions env [] scripts
  let names := actions.map fun a => a.meta_.name
  let classes := actions.flatMap fun a => a.meta_.objectRefs.map fun o => o.class_
  let _ ← Outcome.check (∀ c ∈ classes, "Rekey" ++ c ∉ names) "action is reserved for rekeying"
  -- Two predicates of one name do not compile.
  let _ ← Outcome.require names.Nodup "compiles"
  pure actions

end DigitalObjects.Sdk
