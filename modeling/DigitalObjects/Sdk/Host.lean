import DigitalObjects.Sdk.Script
set_option autoImplicit false

/-!
The host API that an action script calls. `Load` and `Execute` run the same calls; only
the second has an `ExeContext`, and then values are computed and captured on the way.
-/

namespace DigitalObjects.Sdk

open Pod2 Lib

variable {V : Type} [Values V] [Decodes V]

/-- A script passes a literal or a handle. -/
inductive Arg (V : Type) where
  | lit (v : V)
  | ref (r : Ref)

inductive Lookup where
  | dict
  | array
deriving DecidableEq, Repr

def Lookup.pred : Lookup → NativePredicate
  | .dict => .dictContains
  | .array => .arrayContains

def Lookup.keyType : Lookup → Typ
  | .dict => .str
  | .array => .int

inductive ArithOp where
  | add
  | sub
  | mul
deriving DecidableEq, Repr

/-- Checked `i64` arithmetic. -/
def ArithOp.apply (op : ArithOp) (a b : Int) : Option Int :=
  let c := match op with
    | .add => a + b
    | .sub => a - b
    | .mul => a * b
  if -2 ^ 63 ≤ c ∧ c < 2 ^ 63 then some c else none

/-- The host calls. Those that return a handle return the next cell of the heap, except
that `endUnsafe` may return the handle it was given. -/
inductive Call (V : Type) where
  | object (io : ObjectIO) (class_ : String)
  | bind (name : String) (handle : Ref)
  | set (handle : Ref) (kvs : List (String × Arg V))
  | update (handle : Ref) (key : String) (value : Arg V)
  | commitment (handle : Ref)
  | entry (handle : Ref) (key : String)
  | get (lookup : Lookup) (container key : Arg V)
  | statement (pred : NativePredicate) (args : List (Arg V))
  | introVdf (nIters input : Arg V)
  | introLtEqU256 (lhs rhs : Arg V)
  | subaction (action : String)
  | beginUnsafe
  | endUnsafe (result : Option (Arg V))
  | random
  | powObjGrind (obj : Arg V) (key : String) (target : Arg V)
  | arith (op : ArithOp) (a b : Arg V)
  | varAssign (lhs : Ref) (rhs : Arg V)

namespace ActionContext

/-- `try_ref_from_dynamic`: a literal gets a cell of its own. -/
def deref (ctx : ActionContext V) : Arg V → Ref × ActionContext V
  | .lit v => ctx.alloc (.value v)
  | .ref r => (r, ctx)

/-- `validate_args`. -/
def validateArgs (ctx : ActionContext V) :
    List (Arg V) → List Typ → RuntimeResult (List Ref × ActionContext V)
  | [], _ => pure ([], ctx)
  | arg :: args, typs => do
    let (r, ctx) := ctx.deref arg
    let c ← ctx.cell r
    c.typeCheck (typs.headD .unk)
    let (rs, ctx) ← ctx.validateArgs args typs.tail
    pure (r :: rs, ctx)

def asOpArgs (ctx : ActionContext V) : List Ref → RuntimeResult (List (OperationArg V))
  | [] => pure []
  | r :: rs => do
    let c ← ctx.cell r
    let a ← c.asOpArg
    let as ← ctx.asOpArgs rs
    pure (a :: as)

/-- `capture_op_args`. -/
def capture (ctx : ActionContext V) (args : List Ref) :
    RuntimeResult (Option (List (OperationArg V))) :=
  match ctx.exeCtx with
  | none => pure none
  | some _ => do
    let as ← ctx.asOpArgs args
    pure (some as)

def push (ctx : ActionContext V) (inst : Inst V) : ActionContext V :=
  { ctx with insts := ctx.insts ++ [inst] }

/-- The value that `Execute` gives to a new cell; `Load` leaves it open. -/
def atExe (ctx : ActionContext V) (value : ExeContext V → RuntimeResult V) :
    RuntimeResult (Option V) :=
  match ctx.exeCtx with
  | none => pure none
  | some exe => do
    let v ← value exe
    pure (some v)

def validClassName (name : String) : Bool :=
  !name.isEmpty && name.toList.all fun c =>
    c.isAlpha || c.isDigit || c = '-' || c = '_'

/-- The dictionary that `obj_io` gives an object, and the context without it. -/
def takeObject (env : Env V) (io : ObjectIO) (class_ : String) (exe : ExeContext V) :
    RuntimeResult (Dictionary V × ExeContext V) :=
  match io with
  | .output => match env.classHash class_ with
    | none => .panic "no predicate hash registered"
    | some h => .ok (((∅ : Dictionary V).insert "type" h).insert "key" (env.random exe.draws),
        { exe with draws := exe.draws + 1 })
  | .input | .mutate => match exe.inputs with
    | [] => .panic "exists"
    | obj :: rest => .ok (obj, { exe with inputs := rest, taken := exe.taken ++ [⟨io, class_⟩] })

def objIo (env : Env V) (ctx : ActionContext V) (io : ObjectIO) (class_ : String) :
    RuntimeResult (ActionContext V) := do
  let _ ← Outcome.check (validClassName class_ = true) "invalid class name"
  ctx.assertUnsafe false
  match ctx.exeCtx with
  | none =>
    let (r, ctx) := ctx.alloc (.var ⟨"?", .dict, none, none⟩)
    (ctx.push (.object io r class_ none)).incTVar "chain"
  | some exe => do
    let (d, exe) ← takeObject env io class_ exe
    let (r, ctx) := { ctx with exeCtx := some exe }.alloc (.var ⟨"?", .dict, some (ofDict d), none⟩)
    let original := if io = .mutate then some d else none
    (ctx.push (.object io r class_ original)).incTVar "chain"

/-- A generated variable keeps its place when the script names it; any other name is new. -/
def nameVar (ctx : ActionContext V) (old name : String) : RuntimeResult (ActionContext V) :=
  if (ctx.varState old).any (·.anonymous) then do
    let ctx ← ctx.renameVar old name
    match ctx.varState name with
    | none => .panic "renamed var exists"
    | some s => pure (ctx.setVarState name { s with anonymous := false })
  else ctx.addVar name

/-- The custom syntax `var name = handle`. -/
def bindVar (ctx : ActionContext V) (name : String) (r : Ref) : RuntimeResult (ActionContext V) := do
  let c ← ctx.cell r
  if ctx.unsafeBlock then pure ctx
  else match c with
    | .value _ => pure ctx
    | .var v => do
      let ctx ← ctx.nameVar v.name name
      pure (ctx.write r (.var { v with name := name }))

def derefKvs (ctx : ActionContext V) : List (String × Arg V) → List (String × Ref) × ActionContext V
  | [] => ([], ctx)
  | (key, value) :: kvs =>
    let (r, ctx) := ctx.deref value
    let (rest, ctx) := ctx.derefKvs kvs
    ((key, r) :: rest, ctx)

/-- `insert` every pair into the dictionary; a key that is there already is an error. -/
def insertAll (d : Dictionary V) : List (String × OperationArg V) → RuntimeResult (Dictionary V)
  | [] => pure d
  | (key, value) :: kvs => do
    let _ ← Outcome.require (key ∉ d) "TODO"
    insertAll (d.insert key value.val) kvs

def setObj (ctx : ActionContext V) (r : Ref) (kvs : List (String × Arg V)) :
    RuntimeResult (ActionContext V) := do
  let c ← ctx.cell r
  c.typeCheck .dict
  let (kvs, ctx) := ctx.derefKvs kvs
  match c with
  | .value _ => pure ctx
  | .var v => do
    ctx.assertUnsafe false
    ctx.checkSettable v.name
    let opArgs ← ctx.capture (kvs.map Prod.snd)
    match opArgs with
    | none => pure (ctx.push (.set v.name kvs none))
    | some as => do
      let d ← c.toDict
      let d ← insertAll d ((kvs.map Prod.fst).zip as)
      let c ← c.assign (ofDict d)
      pure ((ctx.write r c).push (.set v.name kvs (some (as, d))))

def updateObj (ctx : ActionContext V) (r : Ref) (key : String) (value : Arg V) :
    RuntimeResult (ActionContext V) := do
  let c ← ctx.cell r
  c.typeCheck .dict
  match c with
  | .value _ => pure ctx
  | .var v => do
    let (arg, ctx) := ctx.deref value
    ctx.assertUnsafe false
    let opArg ← ctx.capture [arg]
    match opArg with
    | some [a] => do
      let old ← c.toDict
      let _ ← Outcome.require (key ∈ old) "TODO"
      let new := old.insert key a.val
      let c ← c.assign (ofDict new)
      let ctx ← (ctx.write r c).incTVar v.name
      pure (ctx.push (.update v.name key arg (some (a, old, new))))
    | _ => do
      let ctx ← ctx.incTVar v.name
      pure (ctx.push (.update v.name key arg none))

def commitment (ctx : ActionContext V) (r : Ref) : RuntimeResult (ActionContext V) := do
  let c ← ctx.cell r
  match c with
  | .value _ => .err "commitment: expected an object"
  | .var v =>
    if v.key.isSome || (ctx.objectIo v.name).isNone then
      .err ("commitment: " ++ v.name ++ " is not an object")
    else pure (ctx.alloc (.var { v with typ := .raw })).2

/-- An entry that is read in `Execute` must be there. -/
def checkEntry (v : Var V) (key : String) : RuntimeResult Unit :=
  match v.value with
  | none => pure ()
  | some value => do
    let _ ← tryResolveEntry v.typ value key
    pure ()

def entry (ctx : ActionContext V) (r : Ref) (key : String) : RuntimeResult (ActionContext V) := do
  let c ← ctx.cell r
  match c with
  | .value v => do
    let (_, _, e) ← tryResolveEntry .dict v key
    pure (ctx.alloc (.value e)).2
  | .var v => do
    let _ ← Outcome.check (v.typ ≠ .raw) (v.name ++ " has no fields")
    let known : Bool := match v.typ with
      | .array record => record.contains key
      | _ => true
    let _ ← Outcome.check (known = true) ("record has no entry " ++ key)
    checkEntry v key
    pure (ctx.alloc (.var { v with key := some key })).2

/-- Container kinds that `Load` knows. -/
def checkContainerKind (lookup : Lookup) (c : VarOrValue V) : RuntimeResult Unit :=
  let ok : Bool := match c with
    | .value v => match lookup with
      | .dict => (asDict v).isSome
      | .array => (asArray v).isSome
    | .var v => v.key.isSome || match v.typ with
      | .dict => lookup = .dict
      | .array _ => lookup = .array
      | .unk | .raw => true
      | .int | .str => false
  if ok then .ok () else .err "container has the wrong kind"

def containerLookup (lookup : Lookup) (container key : V) : RuntimeResult V :=
  let found := match lookup with
    | .dict => (asDict container).bind fun d => (asStr key).bind fun k => d.lookup k
    | .array => (asArray container).bind fun a => (asInt key).bind fun k => a.lookup k.toNat
  match found with
  | some v => .ok v
  | none => .err "no entry"

def statement (ctx : ActionContext V) (pred : NativePredicate) (args : List (Arg V)) :
    RuntimeResult (ActionContext V) := do
  let (rs, ctx) ← ctx.validateArgs args pred.argTypes
  ctx.assertUnsafe false
  let opArgs ← ctx.capture rs
  pure (ctx.push (.statement pred rs opArgs))

/-- Give a new witness its value. -/
def setWitness (ctx : ActionContext V) (w : Ref) (value : Option V) : ActionContext V :=
  match ctx.heap[w]? with
  | some (.var v) => ctx.write w (.var { v with value := value })
  | _ => ctx

/-- A lookup among literals is checked by `Load` already. -/
def checkLiteralLookup (lookup : Lookup) (c k : VarOrValue V) : RuntimeResult Unit :=
  match c, k with
  | .value c, .value k => do
    let _ ← containerLookup lookup c k
    pure ()
  | _, _ => pure ()

/-- `container_get`: the witness is the matching entry. -/
def get (ctx : ActionContext V) (lookup : Lookup) (container key : Arg V) :
    RuntimeResult (ActionContext V) := do
  let (cr, ctx) := ctx.deref container
  let c ← ctx.cell cr
  checkContainerKind lookup c
  let (kr, ctx) := ctx.deref key
  let k ← ctx.cell kr
  k.typeCheck lookup.keyType
  ctx.assertUnsafe false
  let (w, ctx) ← ctx.newWitness "get" .unk
  let found ← ctx.atExe fun _ => do
    let container ← c.asValue
    let key ← k.asValue
    containerLookup lookup container key
  checkLiteralLookup lookup c k
  let ctx := ctx.setWitness w found
  let opArgs ← ctx.capture [cr, kr, w]
  pure (ctx.push (.statement lookup.pred [cr, kr, w] opArgs))

def introVdf (env : Env V) (ctx : ActionContext V) (nIters input : Arg V) :
    RuntimeResult (ActionContext V) := do
  let (rs, ctx) ← ctx.validateArgs [nIters, input] [.int, .raw]
  ctx.assertUnsafe false
  let (w, ctx) ← ctx.newWitness "vdf" .raw
  let work ← ctx.atExe fun _ => do
    let as ← ctx.asOpArgs rs
    match as.map OperationArg.val with
    | [n, inp] => match env.vdf n inp with
      | some v => .ok v
      | none => .err "vdf pod failed"
    | _ => .err "vdf pod failed"
  let ctx := ctx.setWitness w work
  let opArgs ← ctx.capture (rs ++ [w])
  pure (ctx.push (.intro .vdf (rs ++ [w]) opArgs))

/-- The pod is built in `Execute` only. -/
def provesLtEq (env : Env V) : Option (List (OperationArg V)) → RuntimeResult Unit
  | some [l, r] => do
    let _ ← Outcome.check (env.ltEqU256 l.val r.val = true) "lt_eq_u256 pod failed"
    pure ()
  | _ => pure ()

def introLtEqU256 (env : Env V) (ctx : ActionContext V) (lhs rhs : Arg V) :
    RuntimeResult (ActionContext V) := do
  let (rs, ctx) ← ctx.validateArgs [lhs, rhs] [.raw, .raw]
  ctx.assertUnsafe false
  let opArgs ← ctx.capture rs
  provesLtEq env opArgs
  pure (ctx.push (.intro .ltEqU256 rs opArgs))

/-- How a sub-action is executed. -/
abbrev RunSub (V : Type) := String → ExeContext V → RuntimeResult (SubRun V × ExeContext V)

/-- The returned handle stands for the first object that the sub-action produces. -/
def subaction (runSub : RunSub V) (ctx : ActionContext V) (action : String) :
    RuntimeResult (ActionContext V) := do
  ctx.assertUnsafe false
  match ctx.exeCtx with
  | none =>
    let (r, ctx) := ctx.alloc (.var ⟨"?", .dict, none, none⟩)
    (ctx.push (.subAction action r none)).incTVar "chain"
  | some exe => do
    let (sub, exe) ← runSub action exe
    let (r, ctx) := { ctx with exeCtx := some exe }.alloc
      (.var ⟨"?", .dict, sub.out.map fun (o : V × Nat × Dictionary V) => ofDict o.2.2, none⟩)
    (ctx.push (.subAction action r (some sub))).incTVar "chain"

def beginUnsafe (ctx : ActionContext V) : RuntimeResult (ActionContext V) :=
  if ctx.unsafeBlock then .err "unsafe already set" else .ok { ctx with unsafeBlock := true }

/-- The type of a witness for a value that an unsafe block returns. -/
def unsafeType (c : VarOrValue V) : Typ :=
  match c with
  | .var v => if v.key.isNone then v.typ else .unk
  | .value v =>
    if (asInt v).isSome then .int
    else if (asStr v).isSome then .str
    else if (asDict v).isSome then .dict
    else .raw

/-- An unnamed temporary that an unsafe block returns becomes the witness itself. -/
def adopt (ctx : ActionContext V) (r : Ref) (c : VarOrValue V) (w : Ref) : ActionContext V :=
  match c, ctx.heap[w]? with
  | .var v, some x => if v.name = "?" ∧ v.key = none then ctx.write r x else ctx
  | _, _ => ctx

def endUnsafe (ctx : ActionContext V) (result : Option (Arg V)) :
    RuntimeResult (ActionContext V) := do
  let ctx := { ctx with unsafeBlock := false }
  match result with
  | none => pure ctx
  | some arg => do
    let (r, ctx) := ctx.deref arg
    let c ← ctx.cell r
    let (w, ctx) ← ctx.newWitness "unsafe" (unsafeType c)
    let value ← ctx.atExe fun _ => c.asValue
    pure ((ctx.setWitness w value).adopt r c w)

/-- A temporary of an unsafe block. -/
def temporary (ctx : ActionContext V) (typ : Typ) (value : ExeContext V → RuntimeResult V) :
    RuntimeResult (ActionContext V) := do
  let value ← ctx.atExe value
  pure (ctx.alloc (.var ⟨"?", typ, value, none⟩)).2

def random (env : Env V) (ctx : ActionContext V) : RuntimeResult (ActionContext V) := do
  ctx.assertUnsafe true
  let ctx' ← ctx.temporary .raw fun exe => .ok (env.random exe.draws)
  pure { ctx' with exeCtx := ctx'.exeCtx.map fun exe => { exe with draws := exe.draws + 1 } }

def powObjGrind (env : Env V) (ctx : ActionContext V) (obj : Arg V) (key : String)
    (target : Arg V) : RuntimeResult (ActionContext V) := do
  ctx.assertUnsafe true
  let (rs, ctx) ← ctx.validateArgs [obj, target] [.dict, .raw]
  match rs with
  | [o, t] => do
    let c ← ctx.cell o
    let ctx := match c with
      | .var v => ctx.markDictRead v.name
      | .value _ => ctx
    ctx.temporary .raw fun _ => do
      let d ← c.toDict
      let x ← ctx.cell t
      let target ← x.asValue
      match env.grind d key target with
      | some v => .ok v
      | none => .err "pow_obj_grind: object has no such field"
  | _ => .panic "len = N"

def arith (ctx : ActionContext V) (op : ArithOp) (a b : Arg V) :
    RuntimeResult (ActionContext V) := do
  let (rs, ctx) ← ctx.validateArgs [a, b] [.int, .int]
  ctx.assertUnsafe true
  ctx.temporary .int fun _ => do
    let as ← ctx.asOpArgs rs
    match as.map fun x => asInt x.val with
    | [some x, some y] => match op.apply x y with
      | some z => .ok (ofInt z)
      | none => .err "integer overflow"
    | _ => .err "operand is not an int"

/-- `try_value_from_dynamic`. -/
def valueOf (ctx : ActionContext V) : Arg V → RuntimeResult V
  | .lit v => pure v
  | .ref r => do
    let c ← ctx.cell r
    c.asValue

/-- `var_assign` only sets a value at execution time and records nothing. -/
def varAssign (ctx : ActionContext V) (lhs : Ref) (rhs : Arg V) :
    RuntimeResult (ActionContext V) :=
  match ctx.exeCtx with
  | none => pure ctx
  | some _ => do
    let v ← ctx.valueOf rhs
    let c ← ctx.cell lhs
    let c ← c.assign v
    pure (ctx.write lhs c)

end ActionContext

def Call.run (env : Env V) (runSub : ActionContext.RunSub V) (ctx : ActionContext V) :
    Call V → RuntimeResult (ActionContext V)
  | .object io class_ => ctx.objIo env io class_
  | .bind name r => ctx.bindVar name r
  | .set r kvs => ctx.setObj r kvs
  | .update r key value => ctx.updateObj r key value
  | .commitment r => ctx.commitment r
  | .entry r key => ctx.entry r key
  | .get lookup container key => ctx.get lookup container key
  | .statement pred args => ctx.statement pred args
  | .introVdf n input => ctx.introVdf env n input
  | .introLtEqU256 lhs rhs => ctx.introLtEqU256 env lhs rhs
  | .subaction action => ctx.subaction runSub action
  | .beginUnsafe => ctx.beginUnsafe
  | .endUnsafe result => ctx.endUnsafe result
  | .random => ctx.random env
  | .powObjGrind obj key target => ctx.powObjGrind env obj key target
  | .arith op a b => ctx.arith op a b
  | .varAssign lhs rhs => ctx.varAssign lhs rhs

def ActionContext.runCalls (env : Env V) (runSub : ActionContext.RunSub V)
    (ctx : ActionContext V) : List (Call V) → RuntimeResult (ActionContext V)
  | [] => pure ctx
  | call :: calls => do
    let ctx ← call.run env runSub ctx
    ctx.runCalls env runSub calls

end DigitalObjects.Sdk
