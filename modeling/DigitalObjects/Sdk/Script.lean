import DigitalObjects.Pod2.Values
import DigitalObjects.Lib.Outcome
set_option autoImplicit false

/-!
The state of an action script: variables in shared cells, and the recorded instructions.
A `Ref` of the source is an index of the heap, so copies of a handle share their cell.
-/

namespace DigitalObjects.Sdk

open Pod2 Lib

/-- The typed views of a pod2 value. -/
class Decodes (V : Type) [Values V] where
  asInt : V → Option Int
  asStr : V → Option String
  asDict : V → Option (Dictionary V)
  asArray : V → Option (Pod2.Array V)
  asDict_ofDict : ∀ d : Dictionary V, asDict (ofDict d) = some d
  asArray_ofArray : ∀ a : Pod2.Array V, asArray (ofArray a) = some a

export Decodes (asInt asStr asDict asArray)

section Classical

variable {W α : Type}

/-- The inverse of a constructor, where it has one. -/
noncomputable def decode (f : α → W) (v : W) : Option α :=
  open Classical in if h : ∃ a, f a = v then some h.choose else none

theorem decode_apply {f : α → W} (hf : Function.Injective f) (a : α) : decode f (f a) = some a := by
  have h : ∃ b, f b = f a := ⟨a, rfl⟩
  simp only [decode, h, dif_pos, Option.some.injEq]
  exact hf h.choose_spec

/-- Constructors are injective, so their views exist. -/
noncomputable def Decodes.classical [Values W] : Decodes W where
  asInt := decode ofInt
  asStr := decode ofStr
  asDict := decode ofDict
  asArray := decode ofArray
  asDict_ofDict := decode_apply Values.ofDict_injective
  asArray_ofArray := decode_apply Values.ofArray_injective

end Classical

variable {V : Type} [Values V] [Decodes V]

abbrev RuntimeResult := Outcome String

inductive ObjectIO where
  | input
  | mutate
  | output
deriving DecidableEq, Repr

namespace ObjectIO

def consumes : ObjectIO → Bool
  | .input | .mutate => true
  | .output => false

def produces : ObjectIO → Bool
  | .output | .mutate => true
  | .input => false

end ObjectIO

/-- Value types; an array has the field names of its record. -/
inductive Typ where
  | unk
  | raw
  | int
  | str
  | dict
  | array (record : List String)
deriving DecidableEq, Repr

inductive NativePredicate where
  | equal | notEqual | lt | ltEq | gt | gtEq | sum | product | max | hash
  | contains | notContains | dictContains | dictNotContains | setContains | setNotContains
  | arrayContains | containerInsert | containerUpdate | containerDelete
  | dictInsert | dictUpdate | dictDelete | setInsert | setDelete | arrayUpdate
deriving DecidableEq, Repr

/-- The table of `st_methods!`. -/
def NativePredicate.argTypes : NativePredicate → List Typ
  | .equal | .notEqual | .notContains | .setContains | .setNotContains => [.unk, .unk]
  | .lt | .ltEq | .gt | .gtEq => [.int, .int]
  | .sum | .product | .max => [.int, .int, .int]
  | .hash | .contains | .containerDelete | .setInsert | .setDelete => [.unk, .unk, .unk]
  | .dictContains => [.dict, .str, .unk]
  | .dictNotContains => [.dict, .str]
  | .arrayContains => [.unk, .int, .unk]
  | .containerInsert | .containerUpdate => [.unk, .unk, .unk, .unk]
  | .dictInsert | .dictUpdate => [.dict, .str, .unk, .dict]
  | .dictDelete => [.dict, .str, .dict]
  | .arrayUpdate => [.unk, .int, .unk, .unk]

inductive Intro where
  | vdf
  | ltEqU256
deriving DecidableEq, Repr

/-- A variable, or with a `key` the entry of one. The name is `?` until it is bound. -/
structure Var (V : Type) where
  name : String
  typ : Typ
  value : Option V
  key : Option String

inductive VarOrValue (V : Type) where
  | var (v : Var V)
  | value (v : V)

abbrev Ref := Nat

/-- An argument of a pod2 operation: a value, or an entry with its container and key. -/
inductive OperationArg (V : Type) where
  | literal (v : V)
  | entry (container key v : V)
deriving DecidableEq

def OperationArg.val : OperationArg V → V
  | .literal v => v
  | .entry _ _ v => v

/-- What `subaction` keeps of an executed sub-action: the record and the chains in its
statement, and where its first produced object is: the record, the slot and the dictionary. -/
structure SubRun (V : Type) where
  io : V
  chain0 : V
  chain : V
  out : Option (V × Nat × Dictionary V)

/-- One operation of a script. The last component of each is captured in `Execute` only. -/
inductive Inst (V : Type) where
  | object (io : ObjectIO) (obj : Ref) (class_ : String) (original : Option (Dictionary V))
  | update (obj key : String) (value : Ref)
      (captured : Option (OperationArg V × Dictionary V × Dictionary V))
  | set (obj : String) (kvs : List (String × Ref))
      (captured : Option (List (OperationArg V) × Dictionary V))
  | statement (pred : NativePredicate) (args : List Ref) (captured : Option (List (OperationArg V)))
  | intro (pred : Intro) (args : List Ref) (captured : Option (List (OperationArg V)))
  | subAction (action : String) (obj : Ref) (captured : Option (SubRun V))

structure VarState where
  anonymous : Bool
  ts : Nat
  dictRead : Bool

def VarState.default : VarState := ⟨false, 0, false⟩

/-- A declaration that took an input. -/
structure Taken where
  io : ObjectIO
  class_ : String
deriving DecidableEq, Repr

/-- The shared state of an execution. Inputs are taken from the front, outputs are added
at the end, and `draws` counts the random values used. `taken` is a history variable that the
code does not have: the declarations that took an input, in the order of the inputs. -/
structure ExeContext (V : Type) where
  inputs : List (Dictionary V)
  outputs : List (Dictionary V)
  chain : V
  draws : Nat
  taken : List Taken

/-- What an execution relies on: class hashes, the grounding header, random values, the
search of `pow_obj_grind`, and the pods and native checks of pod2. -/
structure Env (V : Type) where
  classHash : String → Option V
  stateHeader : Pod2.Array V
  random : Nat → V
  grind : Dictionary V → String → V → Option V
  vdf : V → V → Option V
  ltEqU256 : V → V → Bool
  native : NativePredicate → List V → Bool

structure ActionContext (V : Type) where
  heap : List (VarOrValue V)
  insts : List (Inst V)
  vars : List String
  varState : String → Option VarState
  anonSeq : Nat
  unsafeBlock : Bool
  exeCtx : Option (ExeContext V)

/-! ## Cells -/

def VarOrValue.typeCheck (c : VarOrValue V) (typ : Typ) : RuntimeResult Unit :=
  match c with
  | .value v =>
    let fits : Bool := match typ with
      | .unk | .raw => true
      | .int => (asInt v).isSome
      | .str => (asStr v).isSome
      | .dict => (asDict v).isSome
      | .array _ => (asArray v).isSome
    if fits then .ok () else .err "type check: unexpected value"
  | .var { typ := varType, key := none, .. } =>
    if typ = .unk ∨ typ = .raw ∨ varType = .unk ∨ varType = typ then .ok ()
    else .err "type check: unexpected variable"
  | .var { key := some _, .. } => .ok ()

def VarOrValue.name? : VarOrValue V → Option String
  | .var v => some v.name
  | .value _ => none

def tryResolveEntry (typ : Typ) (value : V) (key : String) : RuntimeResult (V × V × V) :=
  match typ with
  | .array record =>
    match asArray value, record.findIdx? (fun k => k = key) with
    | none, _ => .err ("." ++ key ++ " on a record that is not an array")
    | _, none => .err ("record has no entry " ++ key)
    | some array, some index => match array.lookup index with
      | none => .err ("record slot of " ++ key ++ " is empty")
      | some entry => .ok (ofArray array, ofInt index, entry)
  | _ =>
    match asDict value with
    | none => .err ("." ++ key ++ " on a value that is not a dictionary")
    | some dict => match dict.lookup key with
      | none => .err ("no entry " ++ key)
      | some entry => .ok (ofDict dict, ofStr key, entry)

def resolveEntry (typ : Typ) (value : V) (key : String) : RuntimeResult (V × V × V) :=
  match tryResolveEntry typ value key with
  | .ok e => .ok e
  | _ => .panic "entry checked where the script wrote it"

/-- The argument with its value, at this time of an execution. -/
def VarOrValue.asOpArg (c : VarOrValue V) : RuntimeResult (OperationArg V) :=
  match c with
  | .value v => .ok (.literal v)
  | .var { value := none, .. } => .panic "has value at exec time"
  | .var { value := some v, key := none, .. } => .ok (.literal v)
  | .var { value := some v, key := some k, typ := t, .. } => do
    let (container, key, entry) ← resolveEntry t v k
    pure (.entry container key entry)

def VarOrValue.asValue (c : VarOrValue V) : RuntimeResult V := do
  let a ← c.asOpArg
  pure a.val

/-- `as_mut_value` followed by a write. -/
def VarOrValue.assign (c : VarOrValue V) (v : V) : RuntimeResult (VarOrValue V) :=
  match c with
  | .value _ => .ok (.value v)
  | .var x => match x.key, x.value with
    | some _, _ => .panic "entry can't be mutated"
    | none, none => .panic "has value at exec time"
    | none, some _ => .ok (.var { x with value := some v })

def VarOrValue.toDict (c : VarOrValue V) : RuntimeResult (Dictionary V) := do
  let v ← c.asValue
  match asDict v with
  | some d => pure d
  | none => .panic "is dict"

/-- The targets of recorded `update`s and `set`s are renamed with the variable. -/
def Inst.rename (old new : String) : Inst V → Inst V
  | .update obj key value captured => .update (if obj = old then new else obj) key value captured
  | .set obj kvs captured => .set (if obj = old then new else obj) kvs captured
  | inst => inst

namespace ActionContext

/-! ## Variables -/

def cell (ctx : ActionContext V) (r : Ref) : RuntimeResult (VarOrValue V) :=
  match ctx.heap[r]? with
  | some c => .ok c
  | none => .panic "no such handle"

def write (ctx : ActionContext V) (r : Ref) (c : VarOrValue V) : ActionContext V :=
  { ctx with heap := ctx.heap.set r c }

def alloc (ctx : ActionContext V) (c : VarOrValue V) : Ref × ActionContext V :=
  (ctx.heap.length, { ctx with heap := ctx.heap ++ [c] })

/-- The name in a cell that holds a variable. -/
def nameOf (ctx : ActionContext V) (r : Ref) : Option String :=
  ctx.heap[r]?.bind VarOrValue.name?

def setVarState (ctx : ActionContext V) (var : String) (s : VarState) : ActionContext V :=
  { ctx with varState := Function.update ctx.varState var (some s) }

def addVar (ctx : ActionContext V) (var : String) : RuntimeResult (ActionContext V) :=
  match ctx.varState var with
  | some _ => .err ("var " ++ var ++ " already exists")
  | none => .ok { ctx.setVarState var .default with vars := ctx.vars ++ [var] }

def anonName (tag : String) (seq : Nat) : String := "_" ++ tag ++ toString seq

/-- The first unused number from `seq` on, within `fuel` tries. -/
def freshSeq (ctx : ActionContext V) (tag : String) : Nat → Nat → Nat
  | 0, seq => seq
  | fuel + 1, seq =>
    if (ctx.varState (anonName tag seq)).isSome then freshSeq ctx tag fuel (seq + 1) else seq

/-- Registered names are in `vars`, so one try more than those finds an unused name. -/
def newWitness (ctx : ActionContext V) (tag : String) (typ : Typ) :
    RuntimeResult (Ref × ActionContext V) := do
  let _ ← Outcome.require (ctx.unsafeBlock = false) "cannot register a witness inside unsafe"
  let seq := ctx.freshSeq tag (ctx.vars.length + 1) ctx.anonSeq
  let name := anonName tag seq
  match { ctx with anonSeq := seq + 1 }.addVar name with
  | .ok ctx =>
    let ctx := ctx.setVarState name ⟨true, 0, false⟩
    pure (ctx.alloc (.var ⟨name, typ, none, none⟩))
  | _ => .panic "generated name is unused"

def renameVar (ctx : ActionContext V) (old new : String) : RuntimeResult (ActionContext V) :=
  if old = new then .ok ctx
  else match ctx.varState new, ctx.varState old with
    | some _, _ => .err ("var " ++ new ++ " already exists")
    | none, none => .panic "renaming a live var"
    | none, some state => .ok { ctx with
        varState := Function.update (Function.update ctx.varState old none) new (some state)
        vars := ctx.vars.replace old new
        insts := ctx.insts.map (Inst.rename old new) }

def incTVar (ctx : ActionContext V) (var : String) : RuntimeResult (ActionContext V) :=
  match ctx.varState var with
  | none => .panic "var exists"
  | some s => .ok (ctx.setVarState var { s with ts := s.ts + 1 })

/-- How the action declared the object bound to `var`, if `var` is one. -/
def objectIo (ctx : ActionContext V) (var : String) : Option ObjectIO :=
  ctx.insts.findSome? fun
    | .object io obj _ _ => if ctx.nameOf obj = some var then some io else none
    | _ => none

def markDictRead (ctx : ActionContext V) (var : String) : ActionContext V :=
  match ctx.varState var with
  | none => ctx
  | some s => ctx.setVarState var { s with dictRead := true }

/-- Whether a recorded operation committed to the contents of `var`. -/
def pinnedBy (ctx : ActionContext V) (var : String) : Bool :=
  let namesVar := fun r => ctx.nameOf r = some var
  ctx.insts.any (fun
    | .update obj _ value _ => obj = var || namesVar value
    | .set _ kvs _ => kvs.any fun kv => namesVar kv.2
    | .statement _ args _ | .intro _ args _ => args.any namesVar
    | .object .. | .subAction .. => false) ||
  ((ctx.varState var).any (·.dictRead))

/-- Only an output that no operation has committed to can be `set`. -/
def checkSettable (ctx : ActionContext V) (var : String) : RuntimeResult Unit :=
  if var = "?" then .err "set: bind the object with `var` first"
  else match ctx.objectIo var with
    | some .output =>
      if ctx.pinnedBy var then .err ("set on " ++ var ++ ": already committed to its contents")
      else .ok ()
    | some _ => .err ("set on " ++ var ++ ": only an output object can be initialized with set")
    | none => .err ("set on " ++ var ++ ": expected an output object declared in this action")

def assertUnsafe (ctx : ActionContext V) (unsafeBlock : Bool) : RuntimeResult Unit :=
  if ctx.unsafeBlock = unsafeBlock then .ok ()
  else if ctx.unsafeBlock then .err "unexpected unsafe block" else .err "expected unsafe block"

def recordStateHeader : List String :=
  ["block_number", "block_timestamp", "block_hash", "created", "nullifiers", "prior_state_history"]

/-- A new action: `chain` and `state_header` are registered, and the first handle is the
one of the header. -/
def new (env : Env V) (exeCtx : Option (ExeContext V)) : ActionContext V where
  heap := [.var ⟨"state_header", .array recordStateHeader,
    exeCtx.map fun _ => ofArray env.stateHeader, none⟩]
  insts := []
  vars := ["chain", "state_header"]
  varState := Function.update (Function.update (fun _ => none) "chain" (some .default))
    "state_header" (some .default)
  anonSeq := 0
  unsafeBlock := false
  exeCtx := exeCtx

end ActionContext

end DigitalObjects.Sdk
