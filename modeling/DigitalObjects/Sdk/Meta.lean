import DigitalObjects.Sdk.Host
set_option autoImplicit false

/-! Metadata that `Load` derives from the recorded instructions of an action. -/

namespace DigitalObjects.Sdk

open Pod2 Lib

variable {V : Type} [Values V] [Decodes V]

structure ActionObjectRef where
  io : ObjectIO
  class_ : String
  varname : String
deriving DecidableEq, Repr

structure EntryShape where
  varname : String
  needsWildcard : Bool
deriving DecidableEq, Repr

structure MutatedObjectSlots where
  inputIndex : Nat
  outputIndex : Nat
deriving DecidableEq, Repr

inductive ActionKind where
  | script
  | rekey
deriving DecidableEq, Repr

structure ActionMeta where
  name : String
  kind : ActionKind
  objectRefs : List ActionObjectRef
  totalInputs : List ActionObjectRef
  totalOutputs : List ActionObjectRef
  inEntries : List EntryShape
  outEntries : List EntryShape
  initialsEntries : Option (List EntryShape)
  chainMaxTs : Nat
  varMaxTs : String → Option Nat

inductive Side where
  | in_
  | out
deriving DecidableEq, Repr

inductive Collapse where
  | io (side : Side)
  | initials
deriving DecidableEq, Repr

def outputMaxTs (baseTs : Nat) (isOutput : Bool) : Nat := if isOutput then baseTs + 1 else baseTs

def initialsTs (maxTs : Nat) : Nat := maxTs - 1

def chainPackMinTs : Nat := 3

def chainPacked (chainMaxTs : Nat) : Bool := chainMaxTs ≥ chainPackMinTs

def chainStepAt (ts chainMaxTs : Nat) : Option Nat :=
  if chainPacked chainMaxTs ∧ 0 < ts ∧ ts < chainMaxTs then some (ts - 1) else none

/-- Inputs dispatch on their in entry, outputs and mutates on their out entry. -/
def dispatchSide : ObjectIO → Side
  | .input => .in_
  | .output | .mutate => .out

/-- The first entry of a name, with its slot from `base` on. -/
def findEntry (base : Nat) (varname : String) : List EntryShape → Option (Nat × EntryShape)
  | [] => none
  | e :: es => if e.varname = varname then some (base, e) else findEntry (base + 1) varname es

namespace ActionMeta

def rekey (class_ : String) : ActionMeta :=
  let object : ActionObjectRef := ⟨.mutate, class_, "state"⟩
  { name := "Rekey" ++ class_
    kind := .rekey
    objectRefs := [object]
    totalInputs := [object]
    totalOutputs := [object]
    inEntries := []
    outEntries := []
    initialsEntries := none
    chainMaxTs := 0
    varMaxTs := fun _ => none }

/-- The positions of the mutates in a list of objects. -/
def mutatePositions (refs : List ActionObjectRef) : List Nat :=
  refs.findIdxs fun r => r.io = .mutate

/-- The k-th mutate of each list is the same object. -/
def totalMutations (m : ActionMeta) : List MutatedObjectSlots :=
  (mutatePositions m.totalInputs).zipWith MutatedObjectSlots.mk (mutatePositions m.totalOutputs)

def initialsEntry (m : ActionMeta) (varname : String) : Option (Nat × EntryShape) :=
  m.initialsEntries.bind (findEntry 0 varname)

def inEntry (m : ActionMeta) (varname : String) : Option (Nat × EntryShape) :=
  findEntry 0 varname m.inEntries

/-- The out entries follow the in entries of the record. -/
def outEntry (m : ActionMeta) (varname : String) : Option (Nat × EntryShape) :=
  findEntry m.inEntries.length varname m.outEntries

/-- The slot that the bridge of an object pins. -/
def dispatchSlot (m : ActionMeta) (o : ActionObjectRef) : Option Nat :=
  match dispatchSide o.io with
  | .in_ => (m.inEntry o.varname).map Prod.fst
  | .out => (m.outEntry o.varname).map Prod.fst

def maxTs (m : ActionMeta) (varname : String) : RuntimeResult Nat :=
  match m.varMaxTs varname with
  | some ts => .ok ts
  | none => .panic "varname is a var of this action"

/-- The slot of an entry that needs no wildcard. -/
def collapsedSlot : Option (Nat × EntryShape) → Option Nat
  | some (slot, e) => if e.needsWildcard then none else some slot
  | none => none

/-- The record that holds an object's state at a timestamp, with the slot. -/
def collapsedAt (m : ActionMeta) (varname : String) (ts : Nat) :
    RuntimeResult (Option (Collapse × Nat)) := do
  let maxTs ← m.maxTs varname
  match if ts = 0 then collapsedSlot (m.inEntry varname) else none with
  | some slot => pure (some (.io .in_, slot))
  | none => match if ts = maxTs then collapsedSlot (m.outEntry varname) else none with
    | some slot => pure (some (.io .out, slot))
    | none =>
      match if ts = initialsTs maxTs then collapsedSlot (m.initialsEntry varname) else none with
      | some slot => pure (some (.initials, slot))
      | none => pure none

end ActionMeta

/-- The cells that an instruction of the body reads. -/
def Inst.reads : Inst V → List Ref
  | .update _ _ value _ => [value]
  | .set _ kvs _ => kvs.map Prod.snd
  | .statement _ args _ | .intro _ args _ => args
  | .object .. | .subAction .. => []

/-- The name that an `update` or a `set` writes to. -/
def Inst.target : Inst V → Option String
  | .update obj _ _ _ | .set obj _ _ => some obj
  | _ => none

/-- Timestamps after an instruction: an `update` advances its target. -/
def Inst.advance (inst : Inst V) (ts : String → Nat) : String → Nat :=
  match inst with
  | .update obj _ _ _ => Function.update ts obj (ts obj + 1)
  | _ => ts

namespace ActionContext

def varName (ctx : ActionContext V) (r : Ref) : String := (ctx.nameOf r).getD "?"

/-- The direct objects of an action, in declaration order. -/
def objectRefs (ctx : ActionContext V) : List ActionObjectRef :=
  ctx.insts.filterMap fun
    | .object io obj class_ _ => some ⟨io, class_, ctx.varName obj⟩
    | _ => none

def outputVars (ctx : ActionContext V) : List String :=
  (ctx.objectRefs.filter fun r => r.io = .output).map (·.varname)

/-- Timestamps with the extra one that an output reserves for its identity stamp. -/
def maxTsPerVar (ctx : ActionContext V) (var : String) : Option Nat :=
  (ctx.varState var).map fun s => outputMaxTs s.ts (ctx.outputVars.contains var)

/-- The variable of a cell, with the key of an entry. -/
def varOf (ctx : ActionContext V) (r : Ref) : Option (String × Option String) :=
  match ctx.heap[r]? with
  | some (.var v) => some (v.name, v.key)
  | _ => none

def bodyReferencedVars (ctx : ActionContext V) : List String :=
  ctx.insts.flatMap fun inst =>
    inst.target.toList ++ inst.reads.filterMap ctx.nameOf

structure WildcardNeeds where
  inSide : List String
  outSide : List String
  initials : List String

/-- The forms that one field reference forces open. -/
def checkNeeds (ctx : ActionContext V) (ts : String → Nat) (r : Ref) (needs : WildcardNeeds) :
    WildcardNeeds :=
  match ctx.varOf r with
  | some (name, some _) =>
    match ctx.objectRefs.reverse.find? fun o => o.varname = name with
    | none => needs
    | some o =>
      let maxTs := (ctx.maxTsPerVar name).getD 0
      let needs := if o.io.consumes ∧ ts name = 0 then
        { needs with inSide := name :: needs.inSide } else needs
      let needs := if o.io.produces ∧ ts name = maxTs then
        { needs with outSide := name :: needs.outSide } else needs
      if o.io = .output ∧ ts name = initialsTs maxTs then
        { needs with initials := name :: needs.initials } else needs
  | _ => needs

def wildcardNeeds (ctx : ActionContext V) (ts : String → Nat) :
    List (Inst V) → WildcardNeeds → WildcardNeeds
  | [], needs => needs
  | inst :: insts, needs =>
    let needs := inst.reads.foldl (fun needs r => ctx.checkNeeds ts r needs) needs
    ctx.wildcardNeeds (inst.advance ts) insts needs

def computeWildcardNeeds (ctx : ActionContext V) : WildcardNeeds :=
  ctx.wildcardNeeds (fun _ => 0) ctx.insts ⟨[], [], []⟩

/-- What an instruction adds to `total_inputs` and `total_outputs`. -/
def instTotals (ctx : ActionContext V) (prior : List ActionMeta) :
    Inst V → RuntimeResult (List ActionObjectRef × List ActionObjectRef)
  | .object io obj class_ _ =>
    let r : ActionObjectRef := ⟨io, class_, ctx.varName obj⟩
    .ok (if io.consumes then [r] else [], if io.produces then [r] else [])
  | .subAction action obj _ =>
    match prior.find? fun m => m.name = action with
    | none => .err ("subaction " ++ action ++ " not defined")
    | some sub =>
      let bound := ctx.varName obj
      if bound ≠ "?" ∧ bound ∈ ctx.bodyReferencedVars ∧ sub.outEntries = [] then
        .err ("subaction " ++ action ++ " produces no object")
      else .ok (sub.totalInputs, sub.totalOutputs)
  | _ => .ok ([], [])

def totals (ctx : ActionContext V) (prior : List ActionMeta) :
    List (Inst V) → RuntimeResult (List ActionObjectRef × List ActionObjectRef)
  | [] => pure ([], [])
  | inst :: insts => do
    let (ins, outs) ← ctx.instTotals prior inst
    let (ins', outs') ← ctx.totals prior insts
    pure (ins ++ ins', outs ++ outs')

end ActionContext

/-- The metadata of a loaded script. `prior` has every sub-action that it calls. -/
def ActionMeta.fromActionCtx (prior : List ActionMeta) (name : String) (ctx : ActionContext V) :
    RuntimeResult ActionMeta := do
  let (totalInputs, totalOutputs) ← ctx.totals prior ctx.insts
  let needs := ctx.computeWildcardNeeds
  let refs := ctx.objectRefs
  let outputs := (refs.filter fun r => r.io = .output).map fun r =>
    EntryShape.mk r.varname (needs.initials.contains r.varname)
  pure {
    name := name
    kind := .script
    objectRefs := refs
    totalInputs := totalInputs
    totalOutputs := totalOutputs
    inEntries := (refs.filter fun r => r.io.consumes).map fun r =>
      ⟨r.varname, needs.inSide.contains r.varname⟩
    outEntries := (refs.filter fun r => r.io.produces).map fun r =>
      ⟨r.varname, needs.outSide.contains r.varname⟩
    initialsEntries := if outputs.isEmpty then none else some outputs
    chainMaxTs := ((ctx.varState "chain").map (·.ts)).getD 0
    varMaxTs := ctx.maxTsPerVar }

end DigitalObjects.Sdk
