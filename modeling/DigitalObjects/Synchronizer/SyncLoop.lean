import DigitalObjects.Lib.Prog
import DigitalObjects.Synchronizer.Rollback
import DigitalObjects.Synchronizer.Blobs
set_option autoImplicit false

/-!
The sync loop: slots are fetched one by one or in batches, checked against the committed
chain, derived and committed, and a chain that diverged is rewound. Every call to a node or
to the database may fail, and the beacon chain may be another one at the next call.
-/

namespace DigitalObjects.Synchronizer

open Lib EthClients

/-! ## The chain as the node sees it -/

/-- The blocks and blobs that there are, by root and hash. A call may fail to get at them,
but what it gets does not depend on the time. -/
structure World where
  net : Network
  archiver : B256 → List B256 → Fetch (List HeapBlob)

def World.block (w : World) (root : B256) : Option Block := w.net.clients.beaconBlock root

structure SyncConfig where
  initStartSlot : Nat
  catchupBatchSize : Nat
  /-- Checked when the state log is connected. -/
  init_pos : 1 ≤ initStartSlot

/-- A beacon chain as a node serves it at one moment: the header of every slot with a block.
All of them hold the finalized block `initRoot` at the first slot. -/
structure View (w : World) (cfg : SyncConfig) (initRoot : B256) where
  header : Nat → Option BlockHeader
  head : BlockHeader
  finalized : BlockHeader
  genuine : ∀ {s h}, header s = some h →
    h.slot = s ∧ ∃ b, w.block h.root = some b ∧ b.slot = h.slot ∧ b.parentRoot = h.parentRoot
  init : ∃ h, header cfg.initStartSlot = some h ∧ h.root = initRoot
  linked : ∀ {s h}, header s = some h → cfg.initStartSlot < s →
    ∃ p hp, cfg.initStartSlot ≤ p ∧ p < s ∧ header p = some hp ∧ hp.root = h.parentRoot ∧
      ∀ k, p < k → k < s → header k = none
  head_mem : header head.slot = some head

/-- What a slot is derived from, with the slot and the root of its block. -/
structure BlockContext (V : Type) where
  slot : Nat
  beaconBlockRoot : B256
  context : SlotContext V

inductive FetchedSlot (V : Type) where
  | missing (slot : Nat)
  | present (slot : Nat) (header : BlockHeader) (context : BlockContext V)

inductive SlotHeaderState where
  | shutdown
  | missing
  | present (header : BlockHeader)

inductive MissingSlotAction where
  | rewound (slot : Nat)
  | applied

section Contexts

variable {V : Type} (w : World)

def World.fetchSlotContext (header : BlockHeader) (b : Block) (prev : Option BlockAndRoot) :
    Fetch (BlockContext V) := do
  let payload ← w.net.canonicalPayload header b prev
  match payload with
  | none => pure ⟨header.slot, header.root, ⟨none, []⟩⟩
  | some p => do
    let txs ← p.fetchTargetBlobs (w.archiver p.committingBlockRoot)
    pure ⟨header.slot, header.root, ⟨some p.executionBlock, txs⟩⟩

/-- What the block with the given root is derived from. -/
def World.contextOf (root : B256) : Fetch (SlotContext V) := do
  let b ← w.net.clients.getBeaconBlock root
  let c ← w.fetchSlotContext ⟨root, b.parentRoot, b.slot⟩ b none
  pure c.context

end Contexts

/-! ## The database -/

/-- The node, the `cl_block_root` column of its slots (newest first, as the slots are) and
what the coming calls meet: a chain, or nobody who answers. -/
structure SyncState (w : World) (cfg : SyncConfig) (initRoot : B256) (V : Type) where
  node : Node V
  blockRoots : List (Nat × Option B256)
  answers : List (Option (View w cfg initRoot))

abbrev Sync (w : World) (cfg : SyncConfig) (initRoot : B256) (V α : Type) :=
  Prog (SyncState w cfg initRoot V) FetchError α

variable {V : Type} {w : World} {cfg : SyncConfig} {initRoot : B256}

namespace SyncState

variable (s : SyncState w cfg initRoot V)

def slotRoot (slot : Nat) : Option B256 := (s.blockRoots.lookup slot).join

/-- The nearest committed block root strictly before `slot`, skipping empty slots. -/
def latestBlockRootBefore (slot : Nat) : Option B256 :=
  s.blockRoots.findSome? fun r => if r.1 < slot then r.2 else none

def rollbackToSlot (keepSlot : Nat) : SyncState w cfg initRoot V :=
  { s with
    node := ⟨s.node.containers, s.node.stateLog.rollbackToSlot keepSlot⟩
    blockRoots := s.blockRoots.filter fun r => r.1 ≤ keepSlot }

end SyncState

/-- One call to the outside. -/
def answer : Sync w cfg initRoot V (View w cfg initRoot) := fun s =>
  match s.answers with
  | [] => (.err (.node "no answer"), s)
  | none :: rest => (.err (.node "no answer"), { s with answers := rest })
  | some v :: rest => (.ok v, { s with answers := rest })

def getBlockHeader (slot : Nat) : Sync w cfg initRoot V (Option BlockHeader) := do
  let v ← answer
  pure (v.header slot)

def getBeaconHeadHeader : Sync w cfg initRoot V BlockHeader := do
  let v ← answer
  pure v.head

/-- A call for something that is found by its root or hash. -/
def fetchContent {α : Type} (o : Fetch α) : Sync w cfg initRoot V α := do
  let _ ← answer
  Prog.lift o

def rollbackToSlot (keepSlot : Nat) : Sync w cfg initRoot V Unit := do
  let _ ← answer
  fun s => (.ok (), s.rollbackToSlot keepSlot)

section Values

variable [Pod2.Values V] (parser : BlobParser V)

/-- The containers are written while the slot is derived, before anything is committed. -/
def deriveBlock (c : BlockContext V) : Sync w cfg initRoot V (ProcessedSlot V) := fun s =>
  match deriveFromContext parser s.node c.slot c.context with
  | .ok (p, db, _) => (.ok p, { s with node := ⟨db, s.node.stateLog⟩ })
  | .error _ => (.err (.other "derive slot"), s)

/-- Commit a slot under its block root. A root or a key that is taken fails the commit. -/
def commitBlock (blockRoot : Option B256) (p : ProcessedSlot V) : Sync w cfg initRoot V Unit := do
  let _ ← answer
  fun s =>
    if blockRoot.isSome ∧ blockRoot ∈ s.blockRoots.map Prod.snd then
      (.err (.other "duplicate key"), s)
    else match commitSlot s.node.stateLog p with
      | .ok log => (.ok (),
          { s with node := ⟨s.node.containers, log⟩, blockRoots := (p.slot, blockRoot) :: s.blockRoots })
      | .error _ => (.err (.other "duplicate key"), s)

/-! ## Reorgs -/

omit [Pod2.Values V] in
/-- The slot after the last block both the stored and the live chain have. -/
def findDivergenceSlot : Nat → Sync w cfg initRoot V Nat
  | 0 => pure cfg.initStartSlot
  | prevSlot + 1 =>
    if cfg.initStartSlot < prevSlot + 1 then do
      let storedRoot ← Prog.read fun s => s.slotRoot prevSlot
      let live ← getBlockHeader prevSlot
      if storedRoot.isSome ∧ storedRoot = live.map BlockHeader.root then pure (prevSlot + 1)
      else findDivergenceSlot prevSlot
    else pure cfg.initStartSlot

omit [Pod2.Values V] in
def rewindForReorg (currentSlot : Nat) : Sync w cfg initRoot V Nat := do
  let rewindStart ← findDivergenceSlot currentSlot
  rollbackToSlot (rewindStart - 1)
  pure rewindStart

def handleMissingSlot (slot : Nat) : Sync w cfg initRoot V MissingSlotAction := do
  let storedRoot ← Prog.read fun s => s.slotRoot slot
  if storedRoot.isSome then do
    let rewindSlot ← rewindForReorg slot
    pure (.rewound rewindSlot)
  else do
    commitBlock none ⟨slot, none, []⟩
    pure .applied

omit [Pod2.Values V] in
/-- The check of a block's parent, which the first slot is spared. -/
def checkParent (slot : Nat) (header : BlockHeader) : Sync w cfg initRoot V (Option Nat) :=
  if slot = cfg.initStartSlot then pure none
  else do
    let prevRoot ← Prog.read fun s => s.latestBlockRootBefore slot
    match prevRoot with
    | none => Prog.lift (.err (.other "no rows returned"))
    | some prevRoot =>
      if header.parentRoot ≠ prevRoot then do
        let rewindSlot ← rewindForReorg slot
        pure (some rewindSlot)
      else pure none

omit [Pod2.Values V] in
/-- All checks of a present slot: the slot to resume from, if history changed. -/
def handleReorgsForPresentSlot (slot : Nat) (header : BlockHeader) :
    Sync w cfg initRoot V (Option Nat) := do
  let lastProcessedSlot ← Prog.read fun s => s.node.stateLog.lastProcessedSlot
  let storedRoot ← Prog.read fun s => s.slotRoot slot
  if (∃ last ∈ lastProcessedSlot, slot ≤ last) ∧ storedRoot = none then do
    let rewindSlot ← rewindForReorg slot
    pure (some rewindSlot)
  else if storedRoot.isSome ∧ storedRoot ≠ some header.root then do
    let rewindSlot ← rewindForReorg slot
    pure (some rewindSlot)
  else checkParent slot header

/-! ## The loop -/

omit [Pod2.Values V] in
def fetchBlock (slot : Nat) : Sync w cfg initRoot V (Nat × Option (BlockHeader × BlockAndRoot)) := do
  let header ← getBlockHeader slot
  match header with
  | none => pure (slot, none)
  | some header => do
    let block ← fetchContent (w.net.clients.getBeaconBlock header.root)
    pure (slot, some (header, ⟨header.root, block⟩))

omit [Pod2.Values V] in
def fetchContextOf (blocks : List BlockAndRoot)
    (fetched : Nat × Option (BlockHeader × BlockAndRoot)) :
    Sync w cfg initRoot V (FetchedSlot V) :=
  match fetched with
  | (slot, none) => pure (.missing slot)
  | (slot, some (header, block)) => do
    let parent := blocks.find? fun b => b.root = block.block.parentRoot
    let context ← fetchContent (w.fetchSlotContext header block.block parent)
    pure (.present slot header context)

omit [Pod2.Values V] in
/-- Headers and blocks first, then the contexts; a parent in the batch is not fetched again. -/
def fetchBatch (slots : List Nat) : Sync w cfg initRoot V (List (FetchedSlot V)) := do
  let blocks ← Prog.mapList fetchBlock slots
  Prog.mapList (fetchContextOf (blocks.filterMap fun b => b.2.map Prod.snd)) blocks

/-- Process a fetched batch: the slot to go on with, and whether a reorg cut it short. -/
def processBatch : Nat → List (FetchedSlot V) → Sync w cfg initRoot V (Nat × Bool)
  | nextSlot, [] => pure (nextSlot, false)
  | _, .missing slot :: rest => do
    let action ← handleMissingSlot slot
    match action with
    | .rewound rewindSlot => pure (rewindSlot, true)
    | .applied => processBatch (slot + 1) rest
  | _, .present slot header context :: rest => do
    let rewind ← handleReorgsForPresentSlot slot header
    match rewind with
    | some rewindSlot => pure (rewindSlot, true)
    | none => do
      let processed ← deriveBlock parser context
      commitBlock (some context.beaconBlockRoot) processed
      processBatch (slot + 1) rest

omit [Pod2.Values V] in
/-- Wait until the head has reached `slot`; every round reads the head again. -/
def resolveSlotFromHead (slot : Nat) :
    Nat → BlockHeader → Sync w cfg initRoot V (SlotHeaderState × BlockHeader)
  | 0, head => pure (.shutdown, head)
  | rounds + 1, _ => do
    let head ← getBeaconHeadHeader
    if head.slot < slot then resolveSlotFromHead slot rounds head
    else if head.slot = slot then pure (.present head, head)
    else do
      let header ← getBlockHeader slot
      pure (header.elim .missing .present, head)

omit [Pod2.Values V] in
def nextSlotHeader (rounds slot : Nat) (head : BlockHeader) :
    Sync w cfg initRoot V (SlotHeaderState × BlockHeader) :=
  if slot < head.slot then do
    let header ← getBlockHeader slot
    pure (header.elim .missing .present, head)
  else resolveSlotFromHead slot rounds head

/-- The variables of the loop. -/
structure LoopVars where
  nextSlot : Nat
  head : BlockHeader
  prevBlock : Option BlockAndRoot

/-- The batch path of one round. -/
def batchRound (vars : LoopVars) : Sync w cfg initRoot V LoopVars := do
  let slots := List.range' vars.nextSlot cfg.catchupBatchSize
  let fetched ← fetchBatch slots
  let (nextSlot, reorgDetected) ← processBatch parser vars.nextSlot fetched
  if reorgDetected then do
    let head ← getBeaconHeadHeader
    pure { vars with nextSlot := nextSlot, head := head }
  else pure { vars with nextSlot := nextSlot }

/-- The present slot of the single-slot path. -/
def presentSlot (vars : LoopVars) (header : BlockHeader) : Sync w cfg initRoot V LoopVars := do
  let rewind ← handleReorgsForPresentSlot vars.nextSlot header
  match rewind with
  | some rewindSlot => pure { vars with nextSlot := rewindSlot }
  | none => do
    let block ← fetchContent (w.net.clients.getBeaconBlock header.root)
    let context ← fetchContent (w.fetchSlotContext header block vars.prevBlock)
    let processed ← deriveBlock parser context
    commitBlock (some context.beaconBlockRoot) processed
    pure { vars with nextSlot := vars.nextSlot + 1, prevBlock := some ⟨header.root, block⟩ }

/-- The single-slot path of one round, or none at a shutdown. -/
def singleRound (rounds : Nat) (vars : LoopVars) : Sync w cfg initRoot V (Option LoopVars) := do
  let (state, head) ← nextSlotHeader rounds vars.nextSlot vars.head
  let vars := { vars with head := head }
  match state with
  | .shutdown => pure none
  | .missing => do
    let action ← handleMissingSlot vars.nextSlot
    match action with
    | .rewound rewindSlot => pure (some { vars with nextSlot := rewindSlot })
    | .applied => pure (some { vars with nextSlot := vars.nextSlot + 1 })
  | .present header => do
    let vars ← presentSlot parser vars header
    pure (some vars)

/-- The loop, for at most `rounds` rounds: after the last one it is shut down. -/
def runSyncLoop : Nat → LoopVars → Sync w cfg initRoot V Unit
  | 0, _ => pure ()
  | rounds + 1, vars =>
    if cfg.catchupBatchSize ≤ vars.head.slot - vars.nextSlot then do
      let vars ← batchRound parser vars
      runSyncLoop rounds vars
    else do
      let next ← singleRound parser rounds vars
      match next with
      | none => pure ()
      | some vars => runSyncLoop rounds vars

omit [Pod2.Values V] in
/-- The first slot has to be finalized and to have an execution block. -/
def validateGenesisSlot (slot : Nat) : Sync w cfg initRoot V Unit := do
  let v ← answer
  if v.finalized.slot < slot then Prog.lift (.err (.node "finalization of INIT_START_SLOT"))
  else do
    let header ← getBlockHeader slot
    match header with
    | none => Prog.lift (.err (.other "INIT_START_SLOT has no beacon block"))
    | some header => do
      let block ← fetchContent (w.net.clients.getBeaconBlock header.root)
      let payload ← fetchContent (w.net.canonicalPayload header block none)
      if payload.isSome then pure ()
      else Prog.lift (.err (.other "INIT_START_SLOT has no execution block"))

omit [Pod2.Values V] in
def initializeSync : Sync w cfg initRoot V LoopVars := do
  let head ← getBeaconHeadHeader
  let lastProcessedSlot ← Prog.read fun s => s.node.stateLog.lastProcessedSlot
  match lastProcessedSlot with
  | some last => pure ⟨last + 1, head, none⟩
  | none => do
    validateGenesisSlot cfg.initStartSlot
    pure ⟨cfg.initStartSlot, head, none⟩

def syncOnce (rounds : Nat) : Sync w cfg initRoot V Unit := do
  let vars ← initializeSync
  runSyncLoop parser rounds vars

def SyncState.start (answers : List (Option (View w cfg initRoot))) :
    SyncState w cfg initRoot V :=
  ⟨Node.genesis, [], answers⟩

/-- The database after runs of the loop that were each stopped, or failed, and started over. -/
def syncForever (runs : List Nat) (s : SyncState w cfg initRoot V) : SyncState w cfg initRoot V :=
  runs.foldl (fun s rounds => (syncOnce parser rounds s).2) s

end Values

end DigitalObjects.Synchronizer
