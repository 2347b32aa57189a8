import DigitalObjects.Txlib.Finalized
import DigitalObjects.Lib.Outcome
set_option autoImplicit false

/-!
`TxBuilder`: grounding of the inputs and recording of events in nested action
scopes. A statement that the builder holds is kept with its arguments and its proof.
-/

namespace DigitalObjects.Txlib

open Pod2 Lib

variable {V : Type} [Values V]

instance (m : Dictionary V) (s : String) (v : V) :
    Decidable (DictContains (ofDict m) (ofStr s) v) :=
  decidable_of_iff _ dictContains_ofDict.symm

instance (m : Dictionary V) (s : String) (v new : V) :
    Decidable (DictInsert (ofDict m) (ofStr s) v new) :=
  decidable_of_iff _ dictInsert_ofDict.symm

instance (m : Dictionary V) (s : String) (v new : V) :
    Decidable (DictUpdate (ofDict m) (ofStr s) v new) :=
  decidable_of_iff _ dictUpdate_ofDict.symm

instance (m : Dictionary V) (s : String) (new : V) :
    Decidable (DictDelete (ofDict m) (ofStr s) new) :=
  decidable_of_iff _ dictDelete_ofDict.symm

instance (m : Finset V) (v : V) : Decidable (SetContains (ofSet m) v) :=
  decidable_of_iff _ setContains_ofSet.symm

instance (m : Finset V) (v new : V) : Decidable (SetInsert (ofSet m) v new) :=
  decidable_of_iff _ setInsert_ofSet.symm

instance (m : Pod2.Array V) (n : Nat) (v : V) :
    Decidable (ArrayContains (ofArray m) (ofInt n) v) :=
  decidable_of_iff _ arrayContains_ofArray.symm

/-- The errors of the builder. -/
inductive TxError (V : Type) where
  | missingKey
  | unavailable (state : V)
  | alreadyConsumed (state : V)
  | alreadyCreated (state : V)
  | notSpent (input : V)
  /-- An error that a pod2 operation returned. -/
  | pod2
deriving DecidableEq, Repr

def TxError.message (commitment : V → String) : TxError V → String
  | .missingKey => "object missing required key field"
  | .unavailable s => "object state " ++ commitment s ++
      " is neither a transaction input nor created earlier in this transaction"
  | .alreadyConsumed s => "object state " ++ commitment s ++
      " was already consumed in this transaction"
  | .alreadyCreated s => "object state " ++ commitment s ++
      " was already created in this transaction"
  | .notSpent x => "input object " ++ commitment x ++ " was not spent"
  | .pod2 => "pod2 error"

abbrev TxResult (V α : Type) := Outcome (TxError V) α

open Outcome (require)

/-- The message of `Result::unwrap` and `Option::unwrap`. -/
def unwrapMessage : String := "called unwrap on an absent value"

def objectKeyHash (obj : Dictionary V) : TxResult V V :=
  match obj.lookup "key" with
  | none => .err .missingKey
  | some key => .ok (hash (ofDict obj) key)

def expectField (obj : Dictionary V) (field message : String) : TxResult V V :=
  match obj.lookup field with
  | none => .panic message
  | some value => .ok value

def objectType (obj : Dictionary V) : TxResult V V :=
  expectField obj "type" "object missing required type field"

def objectNullifierFromKeyHash (objKeyHash : V) : V := hash objKeyHash (ofStr "txlib-nullifier-v1")

def objectNullifierHash (obj : Dictionary V) : TxResult V V := do
  let objKeyHash ← objectKeyHash obj
  pure (objectNullifierFromKeyHash objKeyHash)

/-- Stamp `stable_identifier = commitment(initial)` into the dict. -/
def withStableIdentifier (initial : Dictionary V) : TxResult V (Dictionary V) := do
  let _ ← require ("stable_identifier" ∉ initial) unwrapMessage
  pure (initial.insert "stable_identifier" (ofDict initial))

/-- A copy of `tx` with one field replaced. -/
def txWith (tx : Dictionary V) (key : String) (value : V) : TxResult V (Dictionary V) := do
  let _ ← require (key ∈ tx) unwrapMessage
  pure (tx.insert key value)

/-! ## Grounding -/

/-- Grounding data. A Merkle proof is known by the array that it opens, and the
proofs are keyed by object commitment. -/
structure GroundingWitness (V : Type) where
  stateHeader : StateHeader V
  createdProofs : Finmap (fun _ : V => Nat × Pod2.Array V)

/-- An `InputsGrounded` statement about a set of inputs. -/
structure GroundedInputs (createdRoot : V) where
  inputsSet : Finset V
  holds : InputsGrounded createdRoot (ofSet inputsSet)

/-- Prove `ArrayContains(created, index, obj)` for one input object. -/
def proveObjInCreated (createdRoot : V) (grounding : GroundingWitness V) (obj : Dictionary V) :
    TxResult V {index : Nat // ArrayContains createdRoot (ofInt index) (ofDict obj)} :=
  match grounding.createdProofs.lookup (ofDict obj) with
  | none => .panic "missing created-set proof in grounding witness"
  | some (index, proof) => do
    let ⟨root⟩ ← require (createdRoot = ofArray proof) unwrapMessage
    let ⟨entry⟩ ← require (ArrayContains (ofArray proof) (ofInt index) (ofDict obj)) unwrapMessage
    pure ⟨index, root ▸ entry⟩

def extendSet (set : Finset V) (obj : Dictionary V) :
    TxResult V {s : Finset V // SetInsert (ofSet set) (ofDict obj) (ofSet s)} := do
  let ⟨fresh⟩ ← require (ofDict obj ∉ set) unwrapMessage
  pure ⟨insert (ofDict obj) set, setInsert_ofSet.mpr ⟨fresh, rfl⟩⟩

theorem ofSet_empty_eq : (ofSet ∅ : V) = empty := ofSet_eq_empty.mpr rfl

/-- Peel two inputs per recursion level. -/
def peelInputs (createdRoot : V) (grounding : GroundingWitness V) :
    List (Dictionary V) → GroundedInputs createdRoot → TxResult V (GroundedInputs createdRoot)
  | [], st => pure st
  | [_], _ => .panic "index out of bounds"
  | first :: second :: rest, st => do
    let mid ← extendSet st.inputsSet first
    let nextSet ← extendSet mid.1 second
    let stFirst ← proveObjInCreated createdRoot grounding first
    let stSecond ← proveObjInCreated createdRoot grounding second
    peelInputs createdRoot grounding rest ⟨nextSet.1,
      .recursive _ _ _ _ _ _ stFirst.2 mid.2 stSecond.2 nextSet.2 st.holds⟩

/-- Bottom of the recursion: one input for an odd count, two for an even one. -/
def noInputs (grounding : GroundingWitness V) : GroundedInputs grounding.stateHeader.createdRoot :=
  ⟨∅, .none ofSet_empty_eq⟩

def buildInputsGrounded (inputs : List (Dictionary V)) (grounding : GroundingWitness V) :
    TxResult V (GroundedInputs grounding.stateHeader.createdRoot) :=
  let createdRoot := grounding.stateHeader.createdRoot
  match inputs with
  | [] => pure ⟨∅, .none ofSet_empty_eq⟩
  | obj :: rest =>
    if inputs.length % 2 = 1 then do
      let inputsSet ← extendSet ∅ obj
      let stLive ← proveObjInCreated createdRoot grounding obj
      peelInputs createdRoot grounding rest
        ⟨inputsSet.1, .single _ _ stLive.2 (ofSet_empty_eq (V := V) ▸ inputsSet.2)⟩
    else
      match rest with
      | [] => .panic "index out of bounds"
      | second :: rest => do
        let setFirst ← extendSet ∅ obj
        let inputsPair ← extendSet setFirst.1 second
        let stFirst ← proveObjInCreated createdRoot grounding obj
        let stSecond ← proveObjInCreated createdRoot grounding second
        peelInputs createdRoot grounding rest ⟨inputsPair.1, .pair _ _ _ _ _ stFirst.2
          (ofSet_empty_eq (V := V) ▸ setFirst.2) stSecond.2 inputsPair.2⟩

/-! ## Recorded events -/

/-- A statement of a type's guard predicate, with its arguments. -/
structure GuardStatement (G : Guard V) where
  type : V
  state : V
  stateHeader : V
  chainStart : V
  chainEnd : V
  holds : G type state stateHeader chainStart chainEnd

/-- What may be attached as guard evidence: a guard's statement or any other. -/
inductive Statement (G : Guard V) where
  | guard (st : GuardStatement G)
  | other

/-- The two chains and the type are arguments of the recorded statement. -/
structure InsertEvent (G : Guard V) where
  new : Dictionary V
  initial : Dictionary V
  prevChain : V
  chainAfter : V
  type : V
  txStmt : TxInsert prevChain chainAfter (ofDict initial) (ofDict new) type
  guardEvidence : Option (Statement G)

structure MutateEvent (G : Guard V) where
  new : Dictionary V
  old : Dictionary V
  prevChain : V
  chainAfter : V
  type : V
  txStmt : TxMutate prevChain chainAfter (ofDict old) (ofDict new) type
  guardEvidence : Option (Statement G)

structure DeleteEvent (G : Guard V) where
  old : Dictionary V
  prevChain : V
  chainAfter : V
  type : V
  txStmt : TxDelete prevChain chainAfter (ofDict old) type
  guardEvidence : Option (Statement G)

/-- A list of chain events, by the kind of its head. -/
inductive ChainEvents (G : Guard V) where
  | nil
  | insert (head : InsertEvent G) (rest : ChainEvents G)
  | mutate (head : MutateEvent G) (rest : ChainEvents G)
  | delete (head : DeleteEvent G) (rest : ChainEvents G)
  | action (chainAfter : V) (contents : ChainEvents G) (rest : ChainEvents G)

namespace ChainEvents

variable {G : Guard V}

def append : ChainEvents G → ChainEvents G → ChainEvents G
  | nil, fs => fs
  | insert e rest, fs => insert e (rest.append fs)
  | mutate e rest, fs => mutate e (rest.append fs)
  | delete e rest, fs => delete e (rest.append fs)
  | action c contents rest, fs => action c contents (rest.append fs)

def length : ChainEvents G → Nat
  | nil => 0
  | insert _ rest => rest.length + 1
  | mutate _ rest => rest.length + 1
  | delete _ rest => rest.length + 1
  | action _ _ rest => rest.length + 1

/-- All recorded events from left to right, without the actions around them. -/
def events : ChainEvents G → List (Event V)
  | nil => []
  | insert e rest => .insert (ofDict e.new) :: rest.events
  | mutate e rest => .mutate (ofDict e.old) (ofDict e.new) :: rest.events
  | delete e rest => .delete (ofDict e.old) :: rest.events
  | action _ contents rest => contents.events ++ rest.events

/-- Fill the slot for guard evidence, which must be free. -/
def attach (slot : Option (Statement G)) (guard : Statement G) :
    TxResult V (Option (Statement G)) :=
  match slot with
  | some _ => .panic "guard evidence already set"
  | none => pure (some guard)

def setGuard (guard : Statement G) : ChainEvents G → Nat → TxResult V (ChainEvents G)
  | nil, _ => .panic "event index out of range"
  | insert e rest, 0 => do
    let guardEvidence ← attach e.guardEvidence guard
    pure (insert { e with guardEvidence } rest)
  | mutate e rest, 0 => do
    let guardEvidence ← attach e.guardEvidence guard
    pure (mutate { e with guardEvidence } rest)
  | delete e rest, 0 => do
    let guardEvidence ← attach e.guardEvidence guard
    pure (delete { e with guardEvidence } rest)
  | action _ _ _, 0 => .panic "cannot set guard evidence on an action"
  | insert e rest, n + 1 => do
    let rest ← setGuard guard rest n
    pure (insert e rest)
  | mutate e rest, n + 1 => do
    let rest ← setGuard guard rest n
    pure (mutate e rest)
  | delete e rest, n + 1 => do
    let rest ← setGuard guard rest n
    pure (delete e rest)
  | action c contents rest, n + 1 => do
    let rest ← setGuard guard rest n
    pure (action c contents rest)

/-- Every direct event has guard evidence attached. -/
def guardsSet : ChainEvents G → Bool
  | nil => true
  | insert e rest => e.guardEvidence.isSome && rest.guardsSet
  | mutate e rest => e.guardEvidence.isSome && rest.guardsSet
  | delete e rest => e.guardEvidence.isSome && rest.guardsSet
  | action _ _ rest => rest.guardsSet

end ChainEvents

structure ActionScope (G : Guard V) where
  events : ChainEvents G
  scopeId : Nat

structure EventHandle where
  scopeId : Nat
  index : Nat
deriving DecidableEq, Repr

/-- The scope on top of the stack comes first. -/
structure TxBuilder (G : Guard V) where
  chain : V
  chainStart : V
  stateHeader : StateHeader V
  inputs : List (Dictionary V)
  stInputsGrounded : GroundedInputs stateHeader.createdRoot
  events : ChainEvents G
  actionStack : List (ActionScope G)
  nextScopeId : Nat

namespace TxBuilder

variable {G : Guard V}

variable (G) in
/-- Seeds `chain_start = H(inputs, {})`. -/
def new (inputs : List (Dictionary V)) (grounding : GroundingWitness V) :
    TxResult V (TxBuilder G) := do
  let st ← buildInputsGrounded inputs grounding
  let chainStart := hash (ofSet st.inputsSet) empty
  pure {
    chain := chainStart
    chainStart := chainStart
    stateHeader := grounding.stateHeader
    inputs := inputs
    stInputsGrounded := st
    events := .nil
    actionStack := []
    nextScopeId := 0 }

def pushEvent (b : TxBuilder G) (event : ChainEvents G) : TxBuilder G :=
  match b.actionStack with
  | scope :: scopes =>
    { b with actionStack := { scope with events := scope.events.append event } :: scopes }
  | [] => { b with events := b.events.append event }

def beginAction (b : TxBuilder G) : TxBuilder G × Nat :=
  ({ b with
      nextScopeId := b.nextScopeId + 1
      actionStack := ⟨.nil, b.nextScopeId⟩ :: b.actionStack }, b.nextScopeId)

def handleForLastEvent (b : TxBuilder G) : TxResult V EventHandle :=
  match b.actionStack with
  | [] => .panic "scope missing"
  | scope :: _ => pure ⟨scope.scopeId, scope.events.length - 1⟩

def verifyScopeGuards (b : TxBuilder G) (scopeId : Nat) : TxResult V Unit :=
  match b.actionStack with
  | [] => .panic "action scope missing"
  | scope :: _ => do
    let _ ← require (scope.scopeId = scopeId) "assertion failed: scope.scope_id == scope_id"
    let _ ← require (scope.events.guardsSet = true) "direct event has no guard evidence"

def endAction (b : TxBuilder G) (scopeId : Nat) : TxResult V (TxBuilder G) := do
  verifyScopeGuards b scopeId
  match b.actionStack with
  | [] => .panic "no action scope to close"
  | scope :: scopes => do
    let _ ← require (scope.scopeId = scopeId) "end_action scope id mismatch"
    let _ ← require (0 < scope.events.length)
      "end_action: action scope must contain at least one event"
    pure (pushEvent { b with actionStack := scopes } (.action b.chain scope.events .nil))

def setGuard (b : TxBuilder G) (handle : EventHandle) (guard : Statement G) :
    TxResult V (TxBuilder G) :=
  match b.actionStack with
  | [] => .panic "no open scope"
  | scope :: scopes => do
    let _ ← require (handle.scopeId = scope.scopeId) "EventHandle from a different scope"
    let events ← scope.events.setGuard guard handle.index
    pure { b with actionStack := { scope with events } :: scopes }

/-- Record an insertion. The event hashes hold by construction of the chain. -/
def insert (b : TxBuilder G) (initial : Dictionary V) :
    TxResult V (TxBuilder G × Dictionary V × EventHandle) := do
  let _ ← require (b.actionStack.length ≠ 0) "insert must be called inside an action scope"
  let new ← withStableIdentifier initial
  let prev := b.chain
  let chain := hash prev (hash empty (ofDict new))
  let newType ← objectType new
  let ⟨stDc⟩ ← require (Entry (ofDict new) "type" newType) unwrapMessage
  let ⟨stDi⟩ ← require
    (DictInsert (ofDict initial) (ofStr "stable_identifier") (ofDict initial) (ofDict new))
    unwrapMessage
  let b := pushEvent { b with chain } (.insert {
    new := new
    initial := initial
    prevChain := prev
    chainAfter := chain
    type := newType
    txStmt := txInsert_iff.mpr ⟨stDc, stDi, rfl⟩
    guardEvidence := none } .nil)
  let handle ← b.handleForLastEvent
  pure (b, new, handle)

def mutate (b : TxBuilder G) (new old : Dictionary V) : TxResult V (TxBuilder G × EventHandle) := do
  let _ ← require (b.actionStack.length ≠ 0) "mutate must be called inside an action scope"
  let prev := b.chain
  let chain := hash prev (hash (ofDict old) (ofDict new))
  let newType ← objectType new
  let oldType ← objectType old
  let _ ← require (newType = oldType) "mutate must preserve object type"
  let newId ← expectField new "stable_identifier"
    "mutate target missing stable identifier field (must come from TxBuilder::insert)"
  let oldId ← expectField old "stable_identifier"
    "mutate source missing stable identifier field (must come from TxBuilder::insert)"
  let ⟨same⟩ ← require (newId = oldId) "mutate must preserve object stable identifier"
  let ⟨stDcNew⟩ ← require (Entry (ofDict new) "type" newType) unwrapMessage
  let ⟨stDcOld⟩ ← require (Entry (ofDict old) "type" newType) unwrapMessage
  let ⟨idNew⟩ ← require (Entry (ofDict new) "stable_identifier" newId) unwrapMessage
  let ⟨idOld⟩ ← require (Entry (ofDict old) "stable_identifier" oldId) unwrapMessage
  let b := pushEvent { b with chain } (.mutate {
    new := new
    old := old
    prevChain := prev
    chainAfter := chain
    type := newType
    txStmt := txMutate_iff.mpr ⟨stDcNew, stDcOld, ⟨oldId, idOld, same ▸ idNew⟩, rfl⟩
    guardEvidence := none } .nil)
  let handle ← b.handleForLastEvent
  pure (b, handle)

/-- Transfer an object to `newKey`: one mutation, whose erased-key intermediate is
never recorded. -/
def rekey (b : TxBuilder G) (old : Dictionary V) (newKey : V) :
    TxResult V (TxBuilder G × Dictionary V × EventHandle) := do
  let mid ← txWith old "key" empty
  let new ← txWith mid "key" newKey
  let (b, handle) ← b.mutate new old
  let _ ← require (DictUpdate (ofDict old) (ofStr "key") empty (ofDict mid)) unwrapMessage
  let _ ← require (DictUpdate (ofDict mid) (ofStr "key") newKey (ofDict new)) unwrapMessage
  pure (b, new, handle)

def delete (b : TxBuilder G) (old : Dictionary V) : TxResult V (TxBuilder G × EventHandle) := do
  let _ ← require (b.actionStack.length ≠ 0) "delete must be called inside an action scope"
  let prev := b.chain
  let chain := hash prev (hash (ofDict old) empty)
  let oldType ← objectType old
  let ⟨stDc⟩ ← require (Entry (ofDict old) "type" oldType) unwrapMessage
  let b := pushEvent { b with chain } (.delete {
    old := old
    prevChain := prev
    chainAfter := chain
    type := oldType
    txStmt := txDelete_iff.mpr ⟨stDc, rfl⟩
    guardEvidence := none } .nil)
  let handle ← b.handleForLastEvent
  pure (b, handle)

end TxBuilder

/-- A call of the recording interface with its arguments. -/
inductive BuilderCall (G : Guard V) where
  | beginAction
  | insert (initial : Dictionary V)
  | mutate (new old : Dictionary V)
  | rekey (old : Dictionary V) (newKey : V)
  | delete (old : Dictionary V)
  | setGuard (handle : EventHandle) (guard : Statement G)
  | endAction (scopeId : Nat)

variable {G : Guard V}

def BuilderCall.run (b : TxBuilder G) : BuilderCall G → TxResult V (TxBuilder G)
  | .beginAction => pure b.beginAction.1
  | .insert initial => do pure (← b.insert initial).1
  | .mutate new old => do pure (← b.mutate new old).1
  | .rekey old newKey => do pure (← b.rekey old newKey).1
  | .delete old => do pure (← b.delete old).1
  | .setGuard handle guard => b.setGuard handle guard
  | .endAction scopeId => b.endAction scopeId

/-- The calls of one transaction, in order. -/
def TxBuilder.run (b : TxBuilder G) : List (BuilderCall G) → TxResult V (TxBuilder G)
  | [] => pure b
  | call :: calls => do
    let b ← call.run b
    b.run calls

end DigitalObjects.Txlib
