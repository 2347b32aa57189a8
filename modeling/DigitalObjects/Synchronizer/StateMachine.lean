import DigitalObjects.Synchronizer.State
set_option autoImplicit false

/-!
Slot derivation: `parse_blobs`, `apply_payload` and `derive_slot_state` of the state
machine, and the node's steps from a slot context to a committed slot.
-/

namespace DigitalObjects.Synchronizer

open Pod2 Txlib

variable {V : Type}

/-- Outcome of one blob of a target transaction during slot derivation. -/
structure BlobStatus (V : Type) where
  txFinal : Option V
  error : Option String

structure TxStatus (V : Type) where
  txHash : Nat
  blobs : List (BlobStatus V)

/-- A target transaction's blobs at one derivation stage. A blob dropped at an earlier
stage is `none`, and positions match those of the statuses. -/
structure TargetTx (V α : Type) where
  blobs : List (Option (Nat × α))
  status : TxStatus V

abbrev Bytes := List Nat

/-- A blob parser: a verified payload, a foreign blob, or a failure. -/
abbrev BlobParser (V : Type) := Bytes → Except String (Option (Payload V))

/-- The blob loop of `parse_blobs` for one transaction. -/
def parseTxBlobs (parser : BlobParser V) :
    List (Option (Nat × Bytes)) → List (BlobStatus V) →
    List (Option (Nat × Payload V)) × List (BlobStatus V)
  | none :: blobs, s :: statuses =>
    let rest := parseTxBlobs parser blobs statuses
    (none :: rest.1, s :: rest.2)
  | some (index, bytes) :: blobs, s :: statuses =>
    let rest := parseTxBlobs parser blobs statuses
    match parser bytes with
    | .ok (some p) => (some (index, p) :: rest.1, { s with txFinal := some p.txFinal } :: rest.2)
    | .ok none =>
      (none :: rest.1,
        { s with error := some "Blob did not contain a valid TxFinalized proof" } :: rest.2)
    | .error err =>
      let error := "Failed to parse/verify TxFinalized payload: " ++ err
      (none :: rest.1, { s with error := some error } :: rest.2)
  | _, statuses => ([], statuses)

def parseBlobs (parser : BlobParser V) (txs : List (TargetTx V Bytes)) :
    List (TargetTx V (Payload V)) :=
  txs.map fun t =>
    let parsed := parseTxBlobs parser t.blobs t.status.blobs
    ⟨parsed.1, { t.status with blobs := parsed.2 }⟩

/-- The base state's containers and counts, mutated while deriving one slot. The two
hash maps are association lists with the latest entry first. -/
structure WorkingState (V : Type) where
  createdCount : Nat
  nullifierCount : Nat
  created : Pod2.Array V
  nullifiers : Finset V
  nextStateHistory : Pod2.Array V
  recentStateRoots : List (V × Int)
  createdAdded : List (V × Nat)

/-- One call of `apply_payload`: the state it saw and what it answered. -/
structure Attempt (V : Type) where
  before : WorkingState V
  payload : Payload V
  rejection : Option String

structure DerivedSlot (V : Type) where
  state : DonState V
  createdAdded : List (V × Nat)

section Values

variable [Values V]

/-- Whether `obj` exists as of the in-progress slot state: it was added earlier this
slot, or the prefetched index points at a position that really holds it. -/
def alreadyCreated (w : WorkingState V) (priorIndices : List (V × Nat)) (obj : V) : Bool :=
  (w.createdAdded.lookup obj).isSome ||
    match priorIndices.lookup obj with
    | some index => createdArrayHolds w.created index obj
    | none => false

/-- The collision loop over one of the payload's lists: the message of the first entry
that repeats an earlier one or is already present. -/
def firstCollision (duplicate collision : String) (present : V → Bool) :
    List V → List V → Option String
  | _, [] => none
  | seen, v :: rest =>
    if v ∈ seen then some duplicate
    else if present v then some collision
    else firstCollision duplicate collision present (v :: seen) rest

def createdCollision (w : WorkingState V) (priorIndices : List (V × Nat)) (p : Payload V) :
    Option String :=
  firstCollision "Duplicate created object within payload"
    "Created object already exists (creation collision)" (alreadyCreated w priorIndices) [] p.created

def nullifierCollision (w : WorkingState V) (p : Payload V) : Option String :=
  firstCollision "Duplicate nullifier within payload" "Duplicate nullifier"
    (fun n => n ∈ w.nullifiers) [] p.nullifiers

def appendCreated : WorkingState V → List V → Except Fault (WorkingState V)
  | w, [] => .ok w
  | w, obj :: rest =>
    if (w.created.lookup w.createdCount).isSome then .error .occupied
    else appendCreated
      { w with
        created := w.created.insert w.createdCount obj
        createdAdded := (obj, w.createdCount) :: w.createdAdded
        createdCount := w.createdCount + 1 } rest

def insertNullifiers : WorkingState V → List V → Except Fault (WorkingState V)
  | w, [] => .ok w
  | w, n :: rest =>
    if n ∈ w.nullifiers then .error .occupied
    else insertNullifiers
      { w with
        nullifiers := insert n w.nullifiers
        nullifierCount := w.nullifierCount + 1 } rest

/-- Validate one parsed payload against the in-progress slot state and apply it, or
reject it with a reason and the state untouched. -/
def applyPayload (w : WorkingState V) (p : Payload V) (priorIndices : List (V × Nat))
    (blockNumber : Nat) : Except Fault (Option String × WorkingState V) :=
  match w.recentStateRoots.lookup p.stateRoot with
  | none => .ok (some "Blob proof state_root not found in recent state root history", w)
  | some stateRootBlock =>
    let age := (blockNumber : Int) - stateRootBlock
    if groundingAgedOut blockNumber stateRootBlock then
      .ok (some s!"Blob proof state_root is too old: {age} blocks (state root at block {stateRootBlock})", w)
    else match createdCollision w priorIndices p with
      | some reason => .ok (some reason, w)
      | none => match nullifierCollision w p with
        | some reason => .ok (some reason, w)
        | none => do
          let w ← appendCreated w p.created
          let w ← insertNullifiers w p.nullifiers
          .ok (none, w)

/-- The blob loop of `derive_slot_state` for one transaction, with its calls. -/
def applyTxBlobs (priorIndices : List (V × Nat)) (blockNumber : Nat) :
    WorkingState V → List (Option (Nat × Payload V)) → List (BlobStatus V) →
    Except Fault (WorkingState V × List (BlobStatus V) × List (Attempt V))
  | w, none :: blobs, s :: statuses => do
    let (w', statuses, attempts) ← applyTxBlobs priorIndices blockNumber w blobs statuses
    .ok (w', s :: statuses, attempts)
  | w, some (_, p) :: blobs, s :: statuses => do
    let (rejection, w₁) ← applyPayload w p priorIndices blockNumber
    let (w', statuses, attempts) ← applyTxBlobs priorIndices blockNumber w₁ blobs statuses
    let s := match rejection with
      | some error => { s with error := some error }
      | none => s
    .ok (w', s :: statuses, ⟨w, p, rejection⟩ :: attempts)
  | w, _, statuses => .ok (w, statuses, [])

def applyTxs (priorIndices : List (V × Nat)) (blockNumber : Nat) :
    WorkingState V → List (TargetTx V (Payload V)) →
    Except Fault (WorkingState V × List (TxStatus V) × List (Attempt V))
  | w, [] => .ok (w, [], [])
  | w, t :: txs => do
    let (w, blobs, attempts) ← applyTxBlobs priorIndices blockNumber w t.blobs t.status.blobs
    let (w, statuses, rest) ← applyTxs priorIndices blockNumber w txs
    .ok (w, { t.status with blobs := blobs } :: statuses, attempts ++ rest)

/-- The working state that a slot starts from. -/
def startWorking (db : ContainerDb V) (baseState : Option (DonState V))
    (recentStateRoots : List (V × Int)) : Except Fault (WorkingState V) := do
  let baseRoots := baseState.elim StateRoots.empty DonState.roots
  let created ← db.openArray baseRoots.created
  let nullifiers ← db.openSet baseRoots.nullifiers
  let nextStateHistory ← db.openArray baseRoots.nextStateHistory
  .ok {
    createdCount := baseState.elim 0 fun s => s.metadata.createdCount
    nullifierCount := baseState.elim 0 fun s => s.metadata.nullifierCount
    created := created
    nullifiers := nullifiers
    nextStateHistory := nextStateHistory
    recentStateRoots := recentStateRoots.reverse
    createdAdded := [] }

/-- The candidate state of a slot, with its root appended to the history. -/
def finishState (baseState : Option (DonState V)) (block : ExecutionBlock) (w : WorkingState V) :
    Except Fault (DonState V × Pod2.Array V) :=
  let baseRoots := baseState.elim StateRoots.empty DonState.roots
  let stateRootCount := baseState.elim 0 fun s => s.metadata.stateRootCount
  let priorStateHistory := baseRoots.nextStateHistory
  let header := stateHeader block (ofArray w.created) (ofSet w.nullifiers) priorStateHistory
  if (w.nextStateHistory.lookup stateRootCount).isSome then .error .occupied
  else
    let history := w.nextStateHistory.insert stateRootCount header.hash
    .ok (
      { roots := ⟨ofArray w.created, ofSet w.nullifiers, priorStateHistory, ofArray history⟩
        metadata := ⟨header.hash, block, w.createdCount, w.nullifierCount, stateRootCount + 1⟩ },
      history)

/-- Derive the state at `block` from the base state. Inserts into the containers land in
the store at once. -/
def deriveSlotState (db : ContainerDb V) (baseState : Option (DonState V))
    (recentStateRoots : List (V × Int)) (block : ExecutionBlock)
    (txs : List (TargetTx V (Payload V))) (priorIndices : List (V × Nat)) :
    Except Fault (DerivedSlot V × List (TxStatus V) × ContainerDb V × List (Attempt V)) := do
  let w ← startWorking db baseState recentStateRoots
  let (w, statuses, attempts) ← applyTxs priorIndices block.number w txs
  let (state, history) ← finishState baseState block w
  .ok (⟨state, w.createdAdded⟩, statuses,
    ⟨w.created :: history :: db.arrays, w.nullifiers :: db.sets⟩, attempts)

/-- The node: its container store and its state log. -/
structure Node (V : Type) where
  containers : ContainerDb V
  stateLog : StateLogDb V

def Node.genesis : Node V := ⟨⟨[], []⟩, ⟨[], [], []⟩⟩

/-- A blob transaction to the target address: for each blob its index in the block and
its bytes, or why the blob did not decode. -/
structure TargetBlobTx where
  txHash : Nat
  blobs : List (Except String (Nat × Bytes))

/-- A slot of the chain. A slot without a block, and one whose block made no payload
canonical, have no execution block. -/
structure Slot where
  payload : Option ExecutionBlock
  targetBlobTxs : List TargetBlobTx

structure SlotContext (V : Type) where
  payload : Option ExecutionBlock
  targetTxs : List (TargetTx V Bytes)

def fetchTargetBlobs (txs : List TargetBlobTx) : List (TargetTx V Bytes) :=
  txs.map fun tx =>
    ⟨tx.blobs.map Except.toOption,
      ⟨tx.txHash, tx.blobs.map fun b => match b with
        | .ok _ => ⟨none, none⟩
        | .error err => ⟨none, some ("Invalid byte encoding: " ++ err)⟩⟩⟩

def fetchSlotContext (s : Slot) : SlotContext V :=
  ⟨s.payload, s.payload.elim [] fun _ => fetchTargetBlobs s.targetBlobTxs⟩

structure ProcessedSlot (V : Type) where
  slot : Nat
  derived : Option (DerivedSlot V)
  txStatuses : List (TxStatus V)

/-- Parse the slot's blobs, prefetch the positions of their created commitments and
derive the next state. -/
def deriveSlot (parser : BlobParser V) (n : Node V) (baseState : Option (DonState V))
    (recentStateRoots : List (V × Int)) (block : ExecutionBlock) (txs : List (TargetTx V Bytes)) :
    Except Fault (DerivedSlot V × List (TxStatus V) × ContainerDb V × List (Attempt V)) :=
  let txs := parseBlobs parser txs
  let candidates := txs.flatMap fun t =>
    t.blobs.flatMap fun b => b.elim [] fun (_, p) => p.created
  deriveSlotState n.containers baseState recentStateRoots block txs
    (n.stateLog.createdIndices candidates)

def deriveFromContext (parser : BlobParser V) (n : Node V) (slot : Nat) (ctx : SlotContext V) :
    Except Fault (ProcessedSlot V × ContainerDb V × List (Attempt V)) :=
  match ctx.payload with
  | none => .ok (⟨slot, none, []⟩, n.containers, [])
  | some block => do
    let baseState := n.stateLog.donStateAtHead
    let minBlockNumber := baseState.elim 0 fun s =>
      s.metadata.block.number - maxStateRootAgeBlocks.toNat
    let roots := n.stateLog.recentStateRoots minBlockNumber
    let (derived, statuses, db, attempts) ← deriveSlot parser n baseState roots block ctx.targetTxs
    .ok (⟨slot, some derived, statuses⟩, db, attempts)

def maxStoredErrorChars : Nat := 256

/-- Truncate a stored error, ending a truncated one with dots. -/
def capError (error : String) : String :=
  if error.length ≤ maxStoredErrorChars then error
  else String.ofList (error.toList.take (maxStoredErrorChars - 3)) ++ "..."

def statusRows (slot : Nat) (statuses : List (TxStatus V)) : List (TxStatusRow V) :=
  statuses.flatMap fun s => s.blobs.zipIdx.map fun (b, i) =>
    ⟨slot, s.txHash, i, b.txFinal, b.error.map capError⟩

/-- Commit one new slot with its created-index rows and blob statuses. A row that repeats
a primary key fails the whole commit. -/
def commitSlot (log : StateLogDb V) (p : ProcessedSlot V) : Except Fault (StateLogDb V) :=
  let added := p.derived.elim [] fun d => d.createdAdded.map fun (c, i) =>
    (⟨c, i, p.slot⟩ : CreatedRow V)
  let rows := statusRows p.slot p.txStatuses
  if p.slot ∈ log.slots.map SlotRow.slot then .error .duplicateRow
  else if ¬ ((added ++ log.createdIndex).map CreatedRow.commitment).Nodup then .error .duplicateRow
  else if ¬ ((rows ++ log.txStatuses).map fun r => (r.txHash, r.txBlobIndex)).Nodup then
    .error .duplicateRow
  else .ok ⟨⟨p.slot, p.derived.map DerivedSlot.state⟩ :: log.slots, added ++ log.createdIndex,
    rows ++ log.txStatuses⟩

/-- The slot the sync loop processes next. -/
def Node.nextSlot (initStartSlot : Nat) (n : Node V) : Nat :=
  n.stateLog.lastProcessedSlot.elim initStartSlot (· + 1)

/-- Derive a slot at the committed head and commit it under its number. -/
def Node.commitSlotAt (parser : BlobParser V) (n : Node V) (number : Nat) (slot : Slot) :
    Except Fault (Node V × List (Attempt V)) := do
  let (processed, db, attempts) ← deriveFromContext parser n number (fetchSlotContext slot)
  let log ← commitSlot n.stateLog processed
  .ok (⟨db, log⟩, attempts)

/-- One turn of the sync loop without reorgs: derive the next slot and commit it. -/
def Node.processSlot (parser : BlobParser V) (initStartSlot : Nat) (n : Node V)
    (slot : Slot) : Except Fault (Node V × List (Attempt V)) := do
  let (processed, db, attempts) ←
    deriveFromContext parser n (n.nextSlot initStartSlot) (fetchSlotContext slot)
  let log ← commitSlot n.stateLog processed
  .ok (⟨db, log⟩, attempts)

/-- Slots processed one after another, with all calls of `apply_payload` in order. -/
def Node.run (parser : BlobParser V) (initStartSlot : Nat) :
    Node V → List Slot → Except Fault (Node V × List (Attempt V))
  | n, [] => .ok (n, [])
  | n, slot :: slots => do
    let (n, attempts) ← n.processSlot parser initStartSlot slot
    let (n, rest) ← Node.run parser initStartSlot n slots
    .ok (n, attempts ++ rest)

end Values

end DigitalObjects.Synchronizer
