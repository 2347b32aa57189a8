import DigitalObjects.Txlib.Builder
set_option autoImplicit false

/-!
Replay construction for `TxBuilder::finalize`. A statement under construction is a
derivation with its arguments, and a step that joins two of them checks that their
shared arguments agree, as the wildcards of a predicate do.
-/

namespace DigitalObjects.Txlib

open Pod2 Lib
open Outcome (require check)

variable {V : Type} [Values V] {G : Guard V}

/-- A derived replay statement with its arguments. -/
structure Proven (P : V → V → V → V → V → Type) where
  stateHeader : V
  beforeTx : V
  afterTx : V
  beforeChain : V
  afterChain : V
  proof : P stateHeader beforeTx afterTx beforeChain afterChain

variable {P Q R : V → V → V → V → V → Type}

def Proven.map (f : ∀ {h b a c c' : V}, P h b a c c' → Q h b a c c') (st : Proven P) : Proven Q :=
  { st with proof := f st.proof }

/-- Join a head and a tail that share the header and what lies between them. -/
def applyStep
    (mk : ∀ {h b a c c' : V} (midTx midChain : V), P h b midTx c midChain →
      Q h midTx a midChain c' → R h b a c c')
    (head : Proven P) (tail : Proven Q) : TxResult V (Proven R) :=
  match head, tail with
  | ⟨h, b, midTx, c, midChain, p⟩, ⟨h', midTx', a, midChain', c', q⟩ =>
    if e : h' = h ∧ midTx' = midTx ∧ midChain' = midChain then
      .ok ⟨h, b, a, c, c', mk midTx midChain p (by obtain ⟨rfl, rfl, rfl⟩ := e; exact q)⟩
    else .panic unwrapMessage

/-- Per-step world view: the two sets and the chain bounds of the action. -/
structure ReplayFrame (V : Type) where
  inputs : Finset V
  created : Finset V
  nullifiers : Finset V
  chainStart : V
  chainEnd : V

/-- Where a consumed state was found and the nullifier set after consuming it. -/
structure Consumption (V : Type) where
  sourceKey : String
  source : Finset V
  newNullifiers : Finset V

structure MutateScratch (V : Type) where
  btx : Dictionary V
  newCreated : Finset V
  newNullifiers : Finset V
  sourceKey : String
  source : Finset V

/-- `Set::insert` with the context of its error. -/
def insertState (set : Finset V) (value : V) (error : TxError V) : TxResult V (Finset V) :=
  if value ∈ set then .err error else .ok (insert value set)

namespace ReplayFrame

def withCreated (f : ReplayFrame V) (created : Finset V) : ReplayFrame V := { f with created }

def advance (f : ReplayFrame V) (created nullifiers : Finset V) : ReplayFrame V :=
  { f with created, nullifiers }

def rescope (f : ReplayFrame V) (chainStart chainEnd : V) : ReplayFrame V :=
  { f with chainStart, chainEnd }

def toTxDict (f : ReplayFrame V) : Dictionary V :=
  buildTx f.inputs f.created f.nullifiers f.chainStart f.chainEnd

def sourceFor (f : ReplayFrame V) (old : Dictionary V) : String × Finset V :=
  if ofDict old ∈ f.inputs then ("inputs", f.inputs) else ("created", f.created)

def consume (f : ReplayFrame V) (old : Dictionary V) : TxResult V (Consumption V) := do
  let sourceKey := (f.sourceFor old).1
  let source := (f.sourceFor old).2
  if ofDict old ∉ source then
    .err (.unavailable (ofDict old))
  else do
    let objKeyHash ← objectKeyHash old
    let newNullifiers ← insertState f.nullifiers (objectNullifierFromKeyHash objKeyHash)
      (.alreadyConsumed (ofDict old))
    pure ⟨sourceKey, source, newNullifiers⟩

def mutateScratch (f : ReplayFrame V) (old new : Dictionary V) : TxResult V (MutateScratch V) := do
  let btx := f.toTxDict
  let consumption ← f.consume old
  let newCreated ← insertState f.created (ofDict new) (.alreadyCreated (ofDict new))
  pure ⟨btx, newCreated, consumption.newNullifiers, consumption.sourceKey, consumption.source⟩

end ReplayFrame

def expectEvidence (evidence : Option (Statement G)) (message : String) :
    TxResult V (Statement G) :=
  match evidence with
  | none => .panic message
  | some st => pure st

/-- Use guard evidence as the dispatch clause about these arguments. -/
def dispatchTo (evidence : Statement G) (type state chainStart chainEnd : V) :
    TxResult V {header : V // G type state header chainStart chainEnd} :=
  match evidence with
  | .other => .panic unwrapMessage
  | .guard g => do
    let ⟨same⟩ ← require (g.type = type ∧ g.state = state ∧ g.chainStart = chainStart ∧
      g.chainEnd = chainEnd) unwrapMessage
    pure ⟨g.stateHeader, by
      obtain ⟨rfl, rfl, rfl, rfl⟩ := same
      exact g.holds⟩

/-- The pair of `ReplayInsert` and `ReplayActionInsert`. -/
def insertPair (initial : Dictionary V) (newCreated : Finset V) : Dictionary V :=
  ((∅ : Dictionary V).insert "initial" (ofDict initial)).insert "new_created" (ofSet newCreated)

def buildReplayInsert (e : InsertEvent G) (frame : ReplayFrame V) (evidence : Statement G) :
    TxResult V (Proven (ReplayInsert G) × Finset V) := do
  let btx := frame.toTxDict
  let newCreated ← insertState frame.created (ofDict e.new) (.alreadyCreated (ofDict e.new))
  let atx ← txWith btx "created" (ofSet newCreated)
  let pair := insertPair e.initial newCreated
  let ⟨pairInitial⟩ ← require (Entry (ofDict pair) "initial" (ofDict e.initial)) unwrapMessage
  let ⟨btxCreated⟩ ← require (Entry (ofDict btx) "created" (ofSet frame.created)) unwrapMessage
  let ⟨pairCreated⟩ ← require (Entry (ofDict pair) "new_created" (ofSet newCreated)) unwrapMessage
  let ⟨opSi⟩ ← require (SetInsert (ofSet frame.created) (ofDict e.new) (ofSet newCreated))
    unwrapMessage
  let ⟨opDu⟩ ← require (DictUpdate (ofDict btx) (ofStr "created") (ofSet newCreated) (ofDict atx))
    unwrapMessage
  let ⟨start⟩ ← require (Entry (ofDict btx) "chain_start" frame.chainStart) unwrapMessage
  let ⟨stop⟩ ← require (Entry (ofDict btx) "chain_end" frame.chainEnd) unwrapMessage
  let rebound ← dispatchTo evidence e.type (ofDict e.new) frame.chainStart frame.chainEnd
  pure (⟨rebound.1, ofDict btx, ofDict atx, e.prevChain, e.chainAfter, {
    new := ofDict e.new
    pair := ofDict pair
    guard := e.type
    initial := ofDict e.initial
    newCreated := ofSet newCreated
    created := ofSet frame.created
    chainStart := frame.chainStart
    chainEnd := frame.chainEnd
    pair_initial := pairInitial
    pair_newCreated := pairCreated
    beforeTx_created := btxCreated
    beforeTx_chainStart := start
    beforeTx_chainEnd := stop
    txInsert := e.txStmt
    setInsert := opSi
    update := opDu
    dispatch := rebound.2 }⟩, newCreated)

/-- `nullifiers` is the entry of `midTx` under that name. -/
def buildReplayNullify (old midTx afterTx : Dictionary V)
    (nullifiers newNullifiers source : Finset V) :
    TxResult V (ReplayNullify (ofDict midTx) (ofDict afterTx) (ofDict old) (ofSet source)) := do
  let ⟨opContains⟩ ← require (SetContains (ofSet source) (ofDict old)) unwrapMessage
  let key ← expectField old "key" unwrapMessage
  let okh := hash (ofDict old) key
  let nul := objectNullifierFromKeyHash okh
  let ⟨oldKey⟩ ← require (Entry (ofDict old) "key" key) unwrapMessage
  let ⟨midNullifiers⟩ ← require (Entry (ofDict midTx) "nullifiers" (ofSet nullifiers)) unwrapMessage
  let ⟨opSi⟩ ← require (SetInsert (ofSet nullifiers) nul (ofSet newNullifiers)) unwrapMessage
  let ⟨opDu⟩ ← require
    (DictUpdate (ofDict midTx) (ofStr "nullifiers") (ofSet newNullifiers) (ofDict afterTx))
    unwrapMessage
  pure {
    objKeyHash := okh
    nullifier := nul
    newNullifiers := ofSet newNullifiers
    key := key
    nullifiers := ofSet nullifiers
    old_key := oldKey
    midTx_nullifiers := midNullifiers
    contains := opContains
    hash_key := rfl
    hash_nullifier := rfl
    setInsert := opSi
    update := opDu }

instance (v : V) : Decidable (SetContains sourceKeys v) :=
  decidable_of_iff _ setContains_ofSet.symm

/-- The mutation's two writes, and the derivation that takes `btx` to the second. -/
def buildReplayMutateEvent (new old : Dictionary V) (frame : ReplayFrame V)
    (scratch : MutateScratch V) :
    TxResult V (Σ atx : Dictionary V,
      ReplayMutateEvent (ofDict scratch.btx) (ofDict atx) (ofDict old) (ofDict new)) := do
  let m1 ← txWith scratch.btx "created" (ofSet scratch.newCreated)
  let atx ← txWith m1 "nullifiers" (ofSet scratch.newNullifiers)
  let stNullify ← buildReplayNullify old m1 atx frame.nullifiers scratch.newNullifiers scratch.source
  let ⟨opSourceKey⟩ ← require (SetContains sourceKeys (ofStr scratch.sourceKey : V)) unwrapMessage
  let ⟨opSource⟩ ← require
    (DictContains (ofDict scratch.btx) (ofStr scratch.sourceKey) (ofSet scratch.source))
    unwrapMessage
  let ⟨btxCreated⟩ ← require (Entry (ofDict scratch.btx) "created" (ofSet frame.created))
    unwrapMessage
  let ⟨opSi⟩ ← require (SetInsert (ofSet frame.created) (ofDict new) (ofSet scratch.newCreated))
    unwrapMessage
  let ⟨opDu⟩ ← require
    (DictUpdate (ofDict scratch.btx) (ofStr "created") (ofSet scratch.newCreated) (ofDict m1))
    unwrapMessage
  pure ⟨atx, {
    newCreated := ofSet scratch.newCreated
    midTx := ofDict m1
    sourceKey := ofStr scratch.sourceKey
    source := ofSet scratch.source
    created := ofSet frame.created
    beforeTx_created := btxCreated
    source_key := opSourceKey
    source_entry := opSource
    setInsert := opSi
    update := opDu
    nullify := stNullify }⟩

def buildReplayMutate (e : MutateEvent G) (frame : ReplayFrame V) (evidence : Statement G) :
    TxResult V (Proven (ReplayMutate G) × Finset V × Finset V) := do
  let scratch ← frame.mutateScratch e.old e.new
  let stEvent ← buildReplayMutateEvent e.new e.old frame scratch
  let ⟨start⟩ ← require (Entry (ofDict scratch.btx) "chain_start" frame.chainStart) unwrapMessage
  let ⟨stop⟩ ← require (Entry (ofDict scratch.btx) "chain_end" frame.chainEnd) unwrapMessage
  let rebound ← dispatchTo evidence e.type (ofDict e.new) frame.chainStart frame.chainEnd
  pure (⟨rebound.1, ofDict scratch.btx, ofDict stEvent.1, e.prevChain, e.chainAfter, {
    old := ofDict e.old
    new := ofDict e.new
    guard := e.type
    chainStart := frame.chainStart
    chainEnd := frame.chainEnd
    beforeTx_chainStart := start
    beforeTx_chainEnd := stop
    txMutate := e.txStmt
    event := stEvent.2
    dispatch := rebound.2 }⟩, scratch.newCreated, scratch.newNullifiers)

def buildReplayDelete (e : DeleteEvent G) (frame : ReplayFrame V) (evidence : Statement G) :
    TxResult V (Proven (ReplayDelete G) × Finset V × Finset V) := do
  let btx := frame.toTxDict
  let consumption ← frame.consume e.old
  let atx ← txWith btx "nullifiers" (ofSet consumption.newNullifiers)
  let pair : Dictionary V := ((∅ : Dictionary V).insert "source_key"
    (ofStr consumption.sourceKey)).insert "source" (ofSet consumption.source)
  let stNullify ← buildReplayNullify e.old btx atx frame.nullifiers consumption.newNullifiers
    consumption.source
  let ⟨pairSource⟩ ← require (Entry (ofDict pair) "source" (ofSet consumption.source)) unwrapMessage
  let ⟨pairKey⟩ ← require (Entry (ofDict pair) "source_key" (ofStr consumption.sourceKey))
    unwrapMessage
  let ⟨opSourceKey⟩ ← require (SetContains sourceKeys (ofStr consumption.sourceKey : V))
    unwrapMessage
  let ⟨opSource⟩ ← require
    (DictContains (ofDict btx) (ofStr consumption.sourceKey) (ofSet consumption.source))
    unwrapMessage
  let ⟨start⟩ ← require (Entry (ofDict btx) "chain_start" frame.chainStart) unwrapMessage
  let ⟨stop⟩ ← require (Entry (ofDict btx) "chain_end" frame.chainEnd) unwrapMessage
  let rebound ← dispatchTo evidence e.type (ofDict e.old) frame.chainStart frame.chainEnd
  pure (⟨rebound.1, ofDict btx, ofDict atx, e.prevChain, e.chainAfter, {
    old := ofDict e.old
    guard := e.type
    pair := ofDict pair
    sourceKey := ofStr consumption.sourceKey
    source := ofSet consumption.source
    chainStart := frame.chainStart
    chainEnd := frame.chainEnd
    pair_sourceKey := pairKey
    pair_source := pairSource
    beforeTx_chainStart := start
    beforeTx_chainEnd := stop
    txDelete := e.txStmt
    source_key := opSourceKey
    source_entry := opSource
    nullify := stNullify
    dispatch := rebound.2 }⟩, frame.created, consumption.newNullifiers)

/-- The recursive predicate `w` as a predicate of its arguments. -/
abbrev Recursive (G : Guard V) (w : Walk) (h b a c c' : V) : Type := Replay G h w b a c c'

/-- A replay statement and where it leaves the chain and the two sets. -/
structure Replayed (P : V → V → V → V → V → Type) where
  st : Proven P
  chain : V
  created : Finset V
  nullifiers : Finset V

def Replayed.map (f : ∀ {h b a c c' : V}, P h b a c c' → Q h b a c c') (r : Replayed P) :
    Replayed Q := { r with st := r.st.map f }

/-- Open the action scope, replay the contents in a child frame, then copy the sets
back. `replayContents` is the replay of the action's contents. -/
def buildReplayAction
    (replayContents : V → ReplayFrame V → TxResult V (Replayed (Recursive G .contents)))
    (chain : V) (parent : ReplayFrame V) (chainAfter : V) :
    TxResult V (Replayed (Recursive G .action)) := do
  let btx := parent.toTxDict
  let ms ← txWith btx "chain_start" chain
  let itx ← txWith ms "chain_end" chainAfter
  let r ← replayContents chain (parent.rescope chain chainAfter)
  let etx := buildTx parent.inputs r.created r.nullifiers chain chainAfter
  let fm1 ← txWith btx "created" (ofSet r.created)
  let atx ← txWith fm1 "nullifiers" (ofSet r.nullifiers)
  let pair : Dictionary V :=
    ((∅ : Dictionary V).insert "scope_mid" (ofDict ms)).insert "mid" (ofDict fm1)
  let ⟨pairScopeMid⟩ ← require (Entry (ofDict pair) "scope_mid" (ofDict ms)) unwrapMessage
  let ⟨opScope1⟩ ← require (DictUpdate (ofDict btx) (ofStr "chain_start") chain (ofDict ms))
    unwrapMessage
  let ⟨opScope2⟩ ← require (DictUpdate (ofDict ms) (ofStr "chain_end") chainAfter (ofDict itx))
    unwrapMessage
  let ⟨etxCreated⟩ ← require (Entry (ofDict etx) "created" (ofSet r.created)) unwrapMessage
  let ⟨pairMid⟩ ← require (Entry (ofDict pair) "mid" (ofDict fm1)) unwrapMessage
  let ⟨opDu1⟩ ← require (DictUpdate (ofDict btx) (ofStr "created") (ofSet r.created) (ofDict fm1))
    unwrapMessage
  let ⟨etxNullifiers⟩ ← require (Entry (ofDict etx) "nullifiers" (ofSet r.nullifiers)) unwrapMessage
  let ⟨opDu2⟩ ← require
    (DictUpdate (ofDict fm1) (ofStr "nullifiers") (ofSet r.nullifiers) (ofDict atx)) unwrapMessage
  let ⟨same⟩ ← require (r.st.beforeTx = ofDict itx ∧ r.st.afterTx = ofDict etx ∧
    r.st.beforeChain = chain ∧ r.st.afterChain = chainAfter) unwrapMessage
  pure ⟨⟨r.st.stateHeader, ofDict btx, ofDict atx, chain, chainAfter,
    .action (ofDict pair) (ofDict itx) (ofDict etx) (ofDict ms) (ofDict fm1) (ofSet r.created)
      (ofSet r.nullifiers) pairScopeMid pairMid etxCreated etxNullifiers opScope1 opScope2
      (by
        obtain ⟨hb, ha, hc, hc'⟩ := same
        rw [← hb, ← ha, ← hc, ← hc']
        exact r.st.proof)
      opDu1 opDu2⟩, chainAfter, r.created, r.nullifiers⟩

/-- One event of a body: alone it is a `ReplayElement`, else the head of its
`ReplayContentsStep` with the replay of the rest as the tail. -/
def joinContents
    (element : ∀ {h b a c c' : V}, P h b a c c' → Replay G h .element b a c c')
    (step : ∀ {h b a c c' : V} (midTx midChain : V), P h b midTx c midChain →
      Replay G h .contents midTx a midChain c' → Replay G h .contents b a c c')
    (frame : ReplayFrame V) (rest : ChainEvents G)
    (replayRest : V → ReplayFrame V → TxResult V (Replayed (Recursive G .contents)))
    (head : Replayed P) : TxResult V (Replayed (Recursive G .contents)) :=
  if rest.length = 0 then
    pure (head.map fun r => .contentsElement (element r))
  else do
    let tail ← replayRest head.chain (frame.advance head.created head.nullifiers)
    let st ← applyStep (P := P) (Q := Recursive G .contents) (R := Recursive G .contents) step
      head.st tail.st
    pure { tail with st }

/-- Recursively build `ReplayContents` for a list of events. -/
def buildReplayContents :
    ChainEvents G → V → ReplayFrame V → TxResult V (Replayed (Recursive G .contents))
  | .nil, _, _ =>
    .panic "build_replay_contents: empty event list (empty action scope is forbidden)"
  | .insert e rest, _, frame => do
    let evidence ← expectEvidence e.guardEvidence "missing guard evidence for insert"
    let (st, created) ← buildReplayInsert e frame evidence
    joinContents .elementInsert (fun m mc p q => .contentsInsert (.stepInsert m mc p q)) frame rest
      (buildReplayContents rest) ⟨st, e.chainAfter, created, frame.nullifiers⟩
  | .mutate e rest, _, frame => do
    let evidence ← expectEvidence e.guardEvidence "missing guard evidence for mutate"
    let (st, created, nullifiers) ← buildReplayMutate e frame evidence
    joinContents .elementMutate (fun m mc p q => .contentsMutate (.stepMutate m mc p q)) frame rest
      (buildReplayContents rest) ⟨st, e.chainAfter, created, nullifiers⟩
  | .delete e rest, _, frame => do
    let evidence ← expectEvidence e.guardEvidence "missing guard evidence for delete"
    let (st, created, nullifiers) ← buildReplayDelete e frame evidence
    joinContents .elementDelete (fun m mc p q => .contentsDelete (.stepDelete m mc p q)) frame rest
      (buildReplayContents rest) ⟨st, e.chainAfter, created, nullifiers⟩
  | .action chainAfter contents rest, chain, frame => do
    let head ← buildReplayAction (buildReplayContents contents) chain frame chainAfter
    joinContents (P := Recursive G .action) .elementAction
      (fun m mc p q => .contentsAction (.stepAction m mc p q)) frame rest
      (buildReplayContents rest) head

/-- The fast path for a single top-level action whose body is one insert. The guard
evidence is used as it was recorded, with the chain bounds of that insert. -/
def buildReplayActionInsert (e : InsertEvent G) (parent : ReplayFrame V) :
    TxResult V (Proven (ReplayActionInsert G) × Finset V × Finset V) := do
  let evidence ← expectEvidence e.guardEvidence "missing guard evidence for insert"
  let btx := parent.toTxDict
  let newCreated ← insertState parent.created (ofDict e.new) (.alreadyCreated (ofDict e.new))
  let atx ← txWith btx "created" (ofSet newCreated)
  let pair := insertPair e.initial newCreated
  let ⟨pairInitial⟩ ← require (Entry (ofDict pair) "initial" (ofDict e.initial)) unwrapMessage
  let ⟨btxCreated⟩ ← require (Entry (ofDict btx) "created" (ofSet parent.created)) unwrapMessage
  let ⟨pairCreated⟩ ← require (Entry (ofDict pair) "new_created" (ofSet newCreated)) unwrapMessage
  let ⟨opSi⟩ ← require (SetInsert (ofSet parent.created) (ofDict e.new) (ofSet newCreated))
    unwrapMessage
  let ⟨opDu⟩ ← require (DictUpdate (ofDict btx) (ofStr "created") (ofSet newCreated) (ofDict atx))
    unwrapMessage
  let dispatch ← dispatchTo evidence e.type (ofDict e.new) e.prevChain e.chainAfter
  pure (⟨dispatch.1, ofDict btx, ofDict atx, e.prevChain, e.chainAfter, {
    new := ofDict e.new
    pair := ofDict pair
    guard := e.type
    initial := ofDict e.initial
    newCreated := ofSet newCreated
    created := ofSet parent.created
    pair_initial := pairInitial
    pair_newCreated := pairCreated
    beforeTx_created := btxCreated
    txInsert := e.txStmt
    setInsert := opSi
    update := opDu
    dispatch := dispatch.2 }⟩, newCreated, parent.nullifiers)

/-- The body of the only top-level action. -/
def buildReplaySingle (contents : ChainEvents G) (chain : V) (frame : ReplayFrame V)
    (chainAfter : V) : TxResult V (Replayed (Recursive G .actions)) :=
  match contents with
  | .insert e .nil => do
    let (st, created, nullifiers) ← buildReplayActionInsert e frame
    pure ⟨st.map (Q := Recursive G .actions) .actionsInsert, chainAfter, created, nullifiers⟩
  | contents => do
    let r ← buildReplayAction (buildReplayContents contents) chain frame chainAfter
    pure (r.map (Q := Recursive G .actions) .actionsAction)

/-- Walk the top-level event list, where only actions are allowed. -/
def buildReplayActions :
    ChainEvents G → V → ReplayFrame V → TxResult V (Replayed (Recursive G .actions))
  | .nil, _, _ => .panic "build_replay_actions: empty event list (empty Tx is forbidden)"
  | .action chainAfter contents rest, chain, frame =>
    if rest.length = 0 then
      buildReplaySingle contents chain frame chainAfter
    else do
      let head ← buildReplayAction (buildReplayContents contents) chain frame chainAfter
      let tail ← buildReplayActions rest head.chain (frame.advance head.created head.nullifiers)
      let st ← applyStep (P := Recursive G .action) (Q := Recursive G .actions)
        (R := Recursive G .actions) (fun m mc p q => .actionsStep (.step m mc p q)) head.st tail.st
      pure { tail with st }
  | _, _, _ => .panic "top-level event must be a ChainEvent::Action"

/-- Output of a finalized transaction; `tx_final` is the commitment of `ctx`. -/
structure Tx (V : Type) where
  created : Finset V
  nullifiers : Finset V
  ctx : Dictionary V
  stateHeader : StateHeader V

/-- A transaction with its `TxFinalized` statement. -/
structure FinalizedTx (G : Guard V) where
  tx : Tx V
  st : TxFinalized G tx.stateHeader.hash (ofDict tx.ctx) (ofSet tx.nullifiers) (ofSet tx.created)

def checkSpent (nullifiers : Finset V) : List (Dictionary V) → TxResult V Unit
  | [] => pure ()
  | input :: inputs => do
    let nullifier ← objectNullifierHash input
    if nullifier ∉ nullifiers then .err (.notSpent (ofDict input)) else checkSpent nullifiers inputs

/-- Build the replay chain and emit `TxFinalized`. -/
def TxBuilder.finalize (b : TxBuilder G) : TxResult V (FinalizedTx G) := do
  let _ ← require (b.actionStack.length = 0) "unclosed action scopes"
  let _ ← require (0 < b.events.length) "finalize: Tx must contain at least one top-level action"
  let inputsSet := b.stInputsGrounded.inputsSet
  let beforeTx := buildTx inputsSet ∅ ∅ empty empty
  let r ← buildReplayActions b.events b.chainStart ⟨inputsSet, ∅, ∅, empty, empty⟩
  checkSpent r.nullifiers b.inputs
  let afterTx := buildTx inputsSet r.created r.nullifiers empty empty
  let txFinal := afterTx.erase "inputs"
  let ⟨inputsEntry⟩ ← require (Entry (ofDict beforeTx) "inputs" (ofSet inputsSet)) unwrapMessage
  let ⟨headerCreated⟩ ← require (ArrayContains (ofArray b.stateHeader.array)
    (ofInt stateHeaderCreatedSlot) b.stateHeader.createdRoot) unwrapMessage
  let ⟨seed⟩ ← require (b.chainStart = hash (ofSet inputsSet) empty) unwrapMessage
  let ⟨schema⟩ ← require (DictInsert (ofDict (scopeDict empty empty empty empty)) (ofStr "inputs")
    (ofSet inputsSet) (ofDict beforeTx)) unwrapMessage
  let ⟨delete⟩ ← check (DictDelete (ofDict afterTx) (ofStr "inputs") (ofDict txFinal)) .pod2
  let ⟨nullifiersEntry⟩ ← require
    (DictContains (ofDict txFinal) (ofStr "nullifiers") (ofSet r.nullifiers)) unwrapMessage
  let ⟨createdEntry⟩ ← require
    (DictContains (ofDict txFinal) (ofStr "created") (ofSet r.created)) unwrapMessage
  let ⟨same⟩ ← require (r.st.stateHeader = b.stateHeader.hash ∧ r.st.beforeTx = ofDict beforeTx ∧
    r.st.afterTx = ofDict afterTx ∧ r.st.beforeChain = b.chainStart) unwrapMessage
  pure {
    tx := ⟨r.created, r.nullifiers, txFinal, b.stateHeader⟩
    st := {
      beforeTx := ofDict beforeTx
      afterTx := ofDict afterTx
      chainStart := b.chainStart
      chainFinal := r.st.afterChain
      inputs := ofSet inputsSet
      headerCreated := b.stateHeader.createdRoot
      beforeTx_inputs := inputsEntry
      stateHeader_created := headerCreated
      grounded := b.stInputsGrounded.holds
      seed := seed
      schema := schema
      bindings := ⟨delete, nullifiersEntry, createdEntry⟩
      replay := by
        obtain ⟨hh, hb, ha, hc⟩ := same
        rw [← hh, ← hb, ← ha, ← hc]
        exact r.st.proof } }

end DigitalObjects.Txlib
