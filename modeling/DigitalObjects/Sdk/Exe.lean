import DigitalObjects.Sdk.Podlang
import DigitalObjects.Txlib.Builder
import DigitalObjects.Lib.Assignment
set_option autoImplicit false

/-!
`exe_action`: run the script of an action, emit the events of its objects, and compose the
statements that the rendered predicate is applied to.
-/

namespace DigitalObjects.Sdk

open Pod2 Lib Txlib

variable {V : Type} [Values V] [Decodes V]

/-- A proved statement. -/
structure Stmt (V : Type) where
  pred : Pred
  args : List (OperationArg V)

def arrayFrom (base : Nat) : List V → Pod2.Array V
  | [] => ∅
  | v :: vs => (arrayFrom (base + 1) vs).insert base v

/-- `Array::new`. -/
def arrayOf (vs : List V) : Pod2.Array V := arrayFrom 0 vs

/-- `entry(record, slot)`, which must be there. -/
def slotEntry (record : Pod2.Array V) (slot : Nat) : RuntimeResult (OperationArg V) :=
  match record.lookup slot with
  | some v => .ok (.entry (ofArray record) (ofInt slot) v)
  | none => .panic "slot exists"

/-- A literal argument is replaced by an entry of the same value. -/
def replaceArg (entry : Option (OperationArg V)) (arg : OperationArg V) :
    RuntimeResult (OperationArg V) :=
  match entry with
  | none => pure arg
  | some e => do
    let _ ← Outcome.require (e.val = arg.val) "entry has another value"
    pure e

/-- `replace_value_with_entry`. -/
def replaceArgs : List (Option (OperationArg V)) → List (OperationArg V) →
    RuntimeResult (List (OperationArg V))
  | [], args => pure args
  | _, [] => pure []
  | e :: es, arg :: args => do
    let a ← replaceArg e arg
    let as ← replaceArgs es args
    pure (a :: as)

def Stmt.lift (entries : List (Option (OperationArg V))) (st : Stmt V) : RuntimeResult (Stmt V) := do
  let args ← replaceArgs entries st.args
  pure { st with args := args }

/-! ## Objects -/

/-- An object of the action when its script has ended. -/
structure ExeObject (V : Type) where
  io : ObjectIO
  class_ : String
  varname : String
  final : Dictionary V
  original : Option (Dictionary V)

/-- What an `Object` instruction stands for after the script. -/
def ActionContext.exeObjects (ctx : ActionContext V) :
    List (Inst V) → RuntimeResult (List (ExeObject V))
  | [] => pure []
  | .object io obj class_ original :: insts => do
    let c ← ctx.cell obj
    let d ← c.toDict
    let rest ← ctx.exeObjects insts
    pure (⟨io, class_, ctx.varName obj, d, original⟩ :: rest)
  | _ :: insts => ctx.exeObjects insts

def stampOutput (o : ExeObject V) : RuntimeResult (String × Dictionary V) := do
  let d ← (withStableIdentifier o.final).unwrap
  pure (o.varname, d)

def outputsOf (objs : List (ExeObject V)) : List (ExeObject V) :=
  objs.filter fun o => o.io = .output

/-- A later output replaces an earlier one of the same name. -/
def stampedOf (stamped : List (String × Dictionary V)) (varname : String) :
    RuntimeResult (Dictionary V) :=
  match stamped.reverse.find? fun s => s.1 = varname with
  | some s => .ok s.2
  | none => .panic "output is stamped"

def ExeObject.post (stamped : List (String × Dictionary V)) (o : ExeObject V) :
    RuntimeResult (Dictionary V) :=
  match o.io with
  | .output => stampedOf stamped o.varname
  | .input | .mutate => pure o.final

def ExeObject.pre (stamped : List (String × Dictionary V)) (o : ExeObject V) :
    RuntimeResult (Dictionary V) :=
  match o.io, o.original with
  | .mutate, some d => pure d
  | .mutate, none => .panic "Mutate records a pre-mutation dict"
  | .input, _ | .output, _ => o.post stamped

/-- The records of an action: the forms of its objects, and its intermediate chain values. -/
structure Records (V : Type) where
  io : Pod2.Array V
  initials : Option (Pod2.Array V)
  chainSteps : Option (Pod2.Array V)

def ioRecord (stamped : List (String × Dictionary V)) (objs : List (ExeObject V)) :
    RuntimeResult (Pod2.Array V) := do
  let ins ← Outcome.mapList (ExeObject.pre stamped) (objs.filter fun o => o.io.consumes)
  let outs ← Outcome.mapList (ExeObject.post stamped) (objs.filter fun o => o.io.produces)
  pure (arrayOf ((ins ++ outs).map ofDict))

def initialsRecord (m : ActionMeta) (objs : List (ExeObject V)) : Option (Pod2.Array V) :=
  m.initialsEntries.map fun _ => arrayOf ((outputsOf objs).map fun o => ofDict o.final)

/-! ## Pins -/

def exePin (record : Option (Pod2.Array V)) (entry : Option (Nat × EntryShape))
    (d : Dictionary V) : RuntimeResult (List (Stmt V)) :=
  match entry, record with
  | some (slot, e), some record =>
    if e.needsWildcard then do
      let _ ← Outcome.require (record.lookup slot = some (ofDict d)) unwrapMessage
      pure [⟨.native .arrayContains,
        [.literal (ofArray record), .literal (ofInt slot), .literal (ofDict d)]⟩]
    else pure []
  | _, _ => pure []

def exePins (m : ActionMeta) (io : Pod2.Array V) (initials : Option (Pod2.Array V))
    (stamped : List (String × Dictionary V)) : List (ExeObject V) → RuntimeResult (List (Stmt V))
  | [] => pure []
  | o :: os => do
    let pre ← o.pre stamped
    let post ← o.post stamped
    let ins ← exePin (some io) (m.inEntry o.varname) pre
    let outs ← exePin (some io) (m.outEntry o.varname) post
    let inits ← exePin initials (m.initialsEntry o.varname) o.final
    let rest ← exePins m io initials stamped os
    pure (ins ++ outs ++ inits ++ rest)

def aliasPin (record : V) (slot : Nat) (d : Dictionary V) : RuntimeResult (Stmt V) := do
  let found := (asArray record).bind fun a => a.lookup slot
  let _ ← Outcome.require (found = some (ofDict d)) unwrapMessage
  pure ⟨.native .arrayContains, [.literal record, .literal (ofInt slot), .literal (ofDict d)]⟩

/-- The pin of a sub-action alias that the body refers to. -/
def ActionContext.exeAlias (ctx : ActionContext V) (obj : Ref) (captured : Option (SubRun V)) :
    RuntimeResult (List (Stmt V)) :=
  match captured.bind SubRun.out with
  | none => pure []
  | some (record, slot, d) =>
    if ctx.varName obj = "?" ∨ ctx.varName obj ∉ ctx.bodyReferencedVars then pure []
    else do
      let st ← aliasPin record slot d
      pure [st]

def ActionContext.exeAliases (ctx : ActionContext V) : List (Inst V) → RuntimeResult (List (Stmt V))
  | [] => pure []
  | .subAction _ obj captured :: insts => do
    let sts ← ctx.exeAlias obj captured
    let rest ← ctx.exeAliases insts
    pure (sts ++ rest)
  | _ :: insts => ctx.exeAliases insts

/-! ## Events -/

/-- An emitted event, with the dictionary that the action returns or consumes. -/
structure Pending (V : Type) where
  obj : ExeObject V
  dict : Dictionary V
  stmt : Stmt V
  chain : V

def literals (vs : List V) : List (OperationArg V) := vs.map .literal

/-- `TxBuilder::insert`, `delete` and `mutate`, as far as the chain and the statement. -/
def emit (chain : V) (o : ExeObject V) : RuntimeResult (Pending V) :=
  match o.io with
  | .output => do
    let new ← (withStableIdentifier o.final).unwrap
    let type ← (objectType new).unwrap
    let next := hash chain (hash empty (ofDict new))
    pure ⟨o, new, ⟨.txInsert, literals [chain, next, ofDict o.final, ofDict new, type]⟩, next⟩
  | .input => do
    let type ← (objectType o.final).unwrap
    let next := hash chain (hash (ofDict o.final) empty)
    pure ⟨o, o.final, ⟨.txDelete, literals [chain, next, ofDict o.final, type]⟩, next⟩
  | .mutate => match o.original with
    | none => .panic "Mutate records a pre-mutation dict"
    | some old => do
      let newType ← (objectType o.final).unwrap
      let oldType ← (objectType old).unwrap
      let _ ← Outcome.require (newType = oldType) "mutate must preserve object type"
      let newId ← (expectField o.final "stable_identifier" "mutate target").unwrap
      let oldId ← (expectField old "stable_identifier" "mutate source").unwrap
      let _ ← Outcome.require (newId = oldId) "mutate must preserve object stable identifier"
      let next := hash chain (hash (ofDict old) (ofDict o.final))
      pure ⟨o, o.final,
        ⟨.txMutate, literals [chain, next, ofDict old, ofDict o.final, newType]⟩, next⟩

def emitAll (chain : V) : List (ExeObject V) → RuntimeResult (List (Pending V))
  | [] => pure []
  | o :: os => do
    let p ← emit chain o
    let ps ← emitAll p.chain os
    pure (p :: ps)

/-- The chain after the events. -/
def lastChain (chain : V) (ps : List (Pending V)) : V := (ps.map (·.chain)).getLastD chain

/-- The outputs that the events add. -/
def produced (ps : List (Pending V)) : List (Dictionary V) :=
  (ps.filter fun p => p.obj.io.produces).map (·.dict)

/-- The chain after each sub-action. -/
def subChains (insts : List (Inst V)) : List V :=
  insts.filterMap fun
    | .subAction _ _ (some sub) => some sub.chain
    | _ => none

def chainSteps (m : ActionMeta) (values : List V) : Option (Pod2.Array V) :=
  if chainPacked m.chainMaxTs then
    some (arrayOf ((List.range (m.chainMaxTs - 1)).map fun i => values.getD i (ofInt 0)))
  else none

namespace Records

variable (rec : Records V) (m : ActionMeta)

/-- The entry of a slot that needs no wildcard. -/
def slotAnchor (record : Option (Pod2.Array V)) (entry : Option (Nat × EntryShape)) :
    RuntimeResult (Option (OperationArg V)) :=
  match ActionMeta.collapsedSlot entry, record with
  | some slot, some record => do
    let e ← slotEntry record slot
    pure (some e)
  | _, _ => pure none

def chainAnchor (ts : Nat) : RuntimeResult (Option (OperationArg V)) :=
  match chainStepAt ts m.chainMaxTs, rec.chainSteps with
  | some slot, some record => do
    let e ← slotEntry record slot
    pure (some e)
  | _, _ => pure none

/-- The event of an object, lifted to the records. -/
def liftEvent (postTs : Nat) (p : Pending V) : RuntimeResult (Stmt V) := do
  let old ← slotAnchor (some rec.io) (m.inEntry p.obj.varname)
  let new ← slotAnchor (some rec.io) (m.outEntry p.obj.varname)
  let initial ← slotAnchor rec.initials (m.initialsEntry p.obj.varname)
  let prev ← rec.chainAnchor m (postTs - 1)
  let next ← rec.chainAnchor m postTs
  p.stmt.lift <| match p.obj.io with
    | .output => [prev, next, initial, new, none]
    | .input => [prev, next, old, none]
    | .mutate => [prev, next, old, new, none]

def liftEvents (postTs : Nat) : List (Pending V) → RuntimeResult (List (Stmt V))
  | [] => pure []
  | p :: ps => do
    let st ← rec.liftEvent m postTs p
    let sts ← liftEvents (postTs + 1) ps
    pure (st :: sts)

/-! ## The body -/

def anchorAt (varname : String) (ts : Nat) : RuntimeResult (Option (OperationArg V)) := do
  let c ← m.collapsedAt varname ts
  match c with
  | none => pure none
  | some (.io _, slot) => do
    let e ← slotEntry rec.io slot
    pure (some e)
  | some (.initials, slot) => match rec.initials with
    | none => .panic "collapsed_at promised an initials slot"
    | some record => do
      let e ← slotEntry record slot
      pure (some e)

def anchorOrLiteral (varname : String) (d : Dictionary V) (ts : Nat) :
    RuntimeResult (OperationArg V) := do
  let a ← rec.anchorAt m varname ts
  pure (a.getD (.literal (ofDict d)))

/-- `arg_anchor`: the timestamps are those of the objects of the action only. -/
def argAnchor (ctx : ActionContext V) (ts : String → Option Nat) (r : Ref)
    (snap : OperationArg V) : RuntimeResult (Option (OperationArg V)) := do
  let c ← ctx.cell r
  match c with
  | .value _ => pure none
  | .var v => match v.key, ts v.name with
    | some _, _ => pure (some snap)
    | none, some t => rec.anchorAt m v.name t
    | none, none => pure none

def argAnchors (ctx : ActionContext V) (ts : String → Option Nat) :
    List Ref → List (OperationArg V) → RuntimeResult (List (Option (OperationArg V)))
  | r :: rs, snap :: snaps => do
    let a ← rec.argAnchor m ctx ts r snap
    let as ← argAnchors ctx ts rs snaps
    pure (a :: as)
  | _, _ => pure []

/-- Arguments in the form that the podlang names, built in one step. -/
def opArgs (ctx : ActionContext V) (ts : String → Option Nat) (rs : List Ref)
    (snaps : List (OperationArg V)) : RuntimeResult (List (OperationArg V)) := do
  let anchors ← rec.argAnchors m ctx ts rs snaps
  pure (anchors.zipWith (fun a snap => a.getD snap) snaps)

/-- `dict_contains`. -/
def dictContainsStmt (dict : OperationArg V) (kv : String × OperationArg V) :
    RuntimeResult (Stmt V) := do
  let found := (asDict dict.val).bind fun d => d.lookup kv.1
  let _ ← Outcome.require (found = some kv.2.val) unwrapMessage
  pure ⟨.native .dictContains, [dict, .literal (ofStr kv.1), kv.2]⟩

/-- `dict_update`. -/
def dictUpdateStmt (old : OperationArg V) (key : String) (value new : OperationArg V) :
    RuntimeResult (Stmt V) := do
  let next := (asDict old.val).bind fun d =>
    if key ∈ d then some (ofDict (d.insert key value.val)) else none
  let _ ← Outcome.require (next = some new.val) unwrapMessage
  pure ⟨.native .dictUpdate, [old, .literal (ofStr key), value, new]⟩

/-- A sub-action's statement; `postTs` counts the sub-actions. -/
def subStmt (env : Env V) (action : String) (sub : SubRun V) (postTs : Nat) :
    RuntimeResult (Stmt V) := do
  let prev ← rec.chainAnchor m (postTs - 1)
  let next ← rec.chainAnchor m postTs
  let st : Stmt V := ⟨.action action,
    literals [sub.io, ofArray env.stateHeader, sub.chain0, sub.chain]⟩
  match st.lift [none, none, prev, next] with
  | .ok st => pure st
  | _ => .err "SubAction chain anchor failed"

/-- The statements of one instruction. `subs` counts the sub-actions before it. -/
def exeInst (env : Env V) (ctx : ActionContext V) (ts : String → Option Nat) (subs : Nat) :
    Inst V → RuntimeResult (List (Stmt V))
  | .object .. => pure []
  | .statement pred args (some snaps) => do
    let as ← rec.opArgs m ctx ts args snaps
    let _ ← Outcome.check (env.native pred (as.map OperationArg.val) = true) "statement failed"
    pure [⟨.native pred, as⟩]
  | .intro pred args (some snaps) => do
    let anchors ← rec.argAnchors m ctx ts args snaps
    let st ← Stmt.lift anchors ⟨.intro pred, literals (snaps.map OperationArg.val)⟩
    pure [st]
  | .subAction action _ (some sub) => do
    let st ← rec.subStmt m env action sub (subs + 1)
    pure [st]
  | .set obj kvs (some (snaps, final)) => do
    let dict ← rec.anchorOrLiteral m obj final ((ts obj).getD 0)
    let as ← rec.opArgs m ctx ts (kvs.map Prod.snd) snaps
    Outcome.mapList (dictContainsStmt dict) ((kvs.map Prod.fst).zip as)
  | .update obj key value (some (snap, old, new)) => do
    let as ← rec.argAnchor m ctx ts value snap
    let newArg ← rec.anchorOrLiteral m obj new ((ts obj).getD 0 + 1)
    let oldArg ← rec.anchorOrLiteral m obj old ((ts obj).getD 0)
    let st ← dictUpdateStmt oldArg key (as.getD snap) newArg
    pure [st]
  | _ => .panic "captured at Rhai"

def exeAdvance (inst : Inst V) (ts : String → Option Nat) : String → Option Nat :=
  match inst with
  | .update obj _ _ _ => Function.update ts obj ((ts obj).map (· + 1))
  | _ => ts

def exeBody (env : Env V) (ctx : ActionContext V) (ts : String → Option Nat) (subs : Nat) :
    List (Inst V) → RuntimeResult (List (Stmt V))
  | [] => pure []
  | inst :: insts => do
    let sts ← rec.exeInst m env ctx ts subs inst
    let rest ← exeBody env ctx (exeAdvance inst ts) (subs + inst.subName.toList.length) insts
    pure (sts ++ rest)

end Records

/-! ## Applying the predicate -/

def Key.value : Key → V
  | .index n => ofInt n
  | .field s => ofStr s

/-- What an argument demands of the wildcards; `none` when it does not have the rendered form. -/
def TmplArg.demand (classHash : String → Option V) :
    TmplArg V → OperationArg V → Option (List (Wild × V))
  | .wild w, .literal v => some [(w, v)]
  | .anchor w key, .entry container k _ => if k = key.value then some [(w, container)] else none
  | .literal u, .literal v => if u = v then some [] else none
  | .selfPredicate class_, .literal v => if classHash class_ = some v then some [] else none
  | _, _ => none

def Clause.demand (classHash : String → Option V) (c : Clause V) (st : Stmt V) :
    Option (List (Wild × V)) :=
  if c.pred = st.pred then demandZip (TmplArg.demand classHash) c.args st.args else none

/-- The wildcard map that `exe_action` passes. -/
def headerOnly (env : Env V) (w : Wild) : Option V :=
  if w = .var "state_header" 0 then some (ofArray env.stateHeader) else none

/-- `apply_custom_pred`: one statement for each clause, under one assignment. -/
def applyPred (env : Env V) (clauses : List (Clause V)) (sts : List (Stmt V)) :
    RuntimeResult (Wild → Option V) :=
  match (demandZip (Clause.demand env.classHash) clauses sts).bind (assignAll (headerOnly env)) with
  | some σ => .ok σ
  | none => .panic "custom predicate does not apply"

/-- Every object of a module: its action, its index there and its class. -/
def moduleObjects (metas : List ActionMeta) : List (String × Nat × String) :=
  metas.flatMap fun m => m.objectRefs.zipIdx.map fun o => (m.name, o.2, o.1.class_)

/-- `ClassMeta::actions`: the branches of a class guard, before `Rekey`. -/
def classActions (objects : List (String × Nat × String)) (class_ : String) : List (String × Nat) :=
  (objects.filter fun o => o.2.2 = class_).map fun o => (o.1, o.2.1)

/-- `object_index_class_st_index`, with the number of branches counted for each class. -/
def classStIndex (action : String) (idx : Nat) (count : String → Nat) :
    List (String × Nat × String) → Option Nat
  | [] => none
  | (name, i, class_) :: objects =>
    if name = action ∧ i = idx then some (count class_)
    else classStIndex action idx (Function.update count class_ (count class_ + 1)) objects

/-- `build_is_x` for the object at `idx`, with the record in the statement of its action. -/
def buildIsX (metas : List ActionMeta) (m : ActionMeta) (io : Pod2.Array V) (stIo : V) (idx : Nat)
    (p : Pending V) : RuntimeResult Unit :=
  match m.objectRefs[idx]?.bind m.dispatchSlot with
  | none => .panic "object has an entry"
  | some slot => do
    let _ ← Outcome.require (io.lookup slot = some (ofDict p.dict)) "ArrayContains for IsX bridge"
    let _ ← Outcome.require (stIo = ofArray io) "apply bridge predicate"
    let objects := moduleObjects metas
    let branch := (classStIndex m.name idx (fun _ => 0) objects).bind fun i =>
      (classActions objects p.obj.class_)[i]?
    let _ ← Outcome.require (branch = some (m.name, idx)) "apply IsX OR"
    pure ()

def attachGuards (metas : List ActionMeta) (m : ActionMeta) (io : Pod2.Array V) (stIo : V)
    (idx : Nat) : List (Pending V) → RuntimeResult Unit
  | [] => pure ()
  | p :: ps => do
    buildIsX metas m io stIo idx p
    attachGuards metas m io stIo (idx + 1) ps

/-! ## Actions -/

/-- An executed action: its statement's arguments, its record and its objects. -/
structure ActionRun (V : Type) where
  stIo : V
  chain0 : V
  chain : V
  io : Pod2.Array V
  objs : List (ExeObject V)

/-- Timestamps of the objects that `Load` knows. -/
def ActionMeta.objectTs (m : ActionMeta) (varname : String) : Option Nat :=
  if varname ∈ m.objectRefs.map (·.varname) then some 0 else none

/-- `exe_action` after the script. -/
def finishAction (env : Env V) (metas : List ActionMeta) (a : LoadedAction V)
    (ctx : ActionContext V) (exe : ExeContext V) : RuntimeResult (ActionRun V × ExeContext V) := do
  let m := a.meta_
  let objs ← ctx.exeObjects ctx.insts
  let stamped ← Outcome.mapList stampOutput (outputsOf objs)
  let io ← ioRecord stamped objs
  let initials := initialsRecord m objs
  let pins ← exePins m io initials stamped objs
  let aliases ← ctx.exeAliases ctx.insts
  let pending ← emitAll exe.chain objs
  let subs := subChains ctx.insts
  let records : Records V := ⟨io, initials, chainSteps m (subs ++ pending.map (·.chain))⟩
  let events ← records.liftEvents m (subs.length + 1) pending
  let body ← records.exeBody m env ctx m.objectTs 0 ctx.insts
  let σ ← applyPred env a.clauses (pins ++ aliases ++ body ++ events)
  let stIo := (σ .io).getD (ofInt 0)
  attachGuards metas m io stIo 0 pending
  let _ ← Outcome.require (0 < subs.length + pending.length)
    "end_action: action scope must contain at least one event"
  pure (⟨stIo, (σ (.var "chain" 0)).getD (ofInt 0), (σ (.var "chain" m.chainMaxTs)).getD (ofInt 0),
    io, objs⟩, { exe with
      chain := lastChain exe.chain pending
      outputs := exe.outputs ++ produced pending })

def exeAction (env : Env V) (metas : List ActionMeta) (calls : List (Call V))
    (runSub : ActionContext.RunSub V) (a : LoadedAction V) (exe : ExeContext V) :
    RuntimeResult (ActionRun V × ExeContext V) := do
  let ctx ← (ActionContext.new env (some exe)).runCalls env runSub calls
  match ctx.exeCtx with
  | none => .panic "exe phase"
  | some exe => finishAction env metas a ctx exe

/-- Where the first produced object of a sub-action is. -/
def subOut (m : ActionMeta) (run : ActionRun V) :
    RuntimeResult (Option (V × Nat × Dictionary V)) :=
  match run.objs.find? fun o => o.io.produces with
  | none => pure none
  | some o => match m.outEntry o.varname with
    | none => .panic "produced object has an out entry"
    | some (slot, _) => match (run.io.lookup slot).bind asDict with
      | none => .panic "out entry is a dict"
      | some d => pure (some (ofArray run.io, slot, d))

/-- The actions loaded so far, the latest first. `calls` are the host calls that the script of
an action makes in this execution. -/
def runSubaction (env : Env V) (metas : List ActionMeta) (calls : String → List (Call V)) :
    List (LoadedAction V) → ActionContext.RunSub V
  | [], _, _ => .panic "action exists"
  | a :: prior, name, exe =>
    if a.meta_.name = name then do
      let (run, exe) ← exeAction env metas (calls name) (runSubaction env metas calls prior) a exe
      let out ← subOut a.meta_ run
      pure (⟨run.stIo, run.chain0, run.chain, out⟩, exe)
    else runSubaction env metas calls prior name exe

/-- The top-level action has the ones before it as sub-actions. -/
def runAction (env : Env V) (metas : List ActionMeta) (calls : String → List (Call V)) :
    List (LoadedAction V) → String → ExeContext V → RuntimeResult (ActionRun V × ExeContext V)
  | [], _, _ => .panic "action exists"
  | a :: prior, name, exe =>
    if a.meta_.name = name then
      exeAction env metas (calls name) (runSubaction env metas calls prior) a exe
    else runAction env metas calls prior name exe

/-- The type of every input is the class that the action declares. -/
def checkInputs (env : Env V) : List (Dictionary V) → List ActionObjectRef → RuntimeResult Unit
  | input :: inputs, r :: refs => match env.classHash r.class_ with
    | none => .panic "class has a hash"
    | some h => do
      let _ ← Outcome.check (input.lookup "type" = some h) "action requires an input of a class"
      checkInputs env inputs refs
  | _, _ => pure ()

/-- A built-in rekey: the new object. -/
def buildRekey (env : Env V) (chain : V) (class_ : String) :
    List (Dictionary V) → RuntimeResult (List (Dictionary V))
  | [old] => do
    let mid ← (txWith old "key" empty).unwrap
    let new ← (txWith mid "key" (env.random 0)).unwrap
    let _ ← emit chain ⟨.mutate, class_, "state", new, some old⟩
    pure [new]
  | _ => .panic "index out of bounds"

def classNames (metas : List ActionMeta) : List String :=
  (metas.flatMap fun m => m.objectRefs.map (·.class_)).eraseDups

/-- The actions of a module: its scripts and a rekey for every class. -/
def moduleActions (metas : List ActionMeta) : List ActionMeta :=
  metas ++ (classNames metas).map ActionMeta.rekey

/-- `build_action` up to `finalize`: the outputs and the history of the inputs. -/
def buildAction (env : Env V) (actions : List (LoadedAction V)) (calls : String → List (Call V))
    (action : String) (inputs : List (Dictionary V)) :
    RuntimeResult (List (Dictionary V) × List Taken) :=
  let metas := actions.map LoadedAction.meta_
  let chain := hash (ofSet (inputs.map ofDict).toFinset) empty
  match (moduleActions metas).find? fun m => m.name = action with
  | none => .err "unknown action"
  | some m => do
    let _ ← Outcome.check (inputs.length = m.totalInputs.length) "wrong number of input objects"
    checkInputs env inputs m.totalInputs
    match m.kind, m.totalInputs with
    | .rekey, [r] => do
      let outs ← buildRekey env chain r.class_ inputs
      pure (outs, [⟨r.io, r.class_⟩])
    | .rekey, _ => .panic "index out of bounds"
    | .script, _ => do
      let (_, exe) ← runAction env metas calls actions.reverse action ⟨inputs, [], chain, 0, []⟩
      pure (exe.outputs, exe.taken)

end DigitalObjects.Sdk
