import DigitalObjects.Archiver.Paths
import DigitalObjects.Lib.Machine
set_option autoImplicit false

/-!
Following the chain: the archiver takes slot after slot, goes back where the chain it sees has
another parent, and starts over from its store after a failure. The nodes may answer out of a
different view of the chain every time.
-/

namespace DigitalObjects.Archiver

open Lib EthClients FileTree

/-! ## The network -/

/-- All blocks there are, on whatever branch. -/
structure Network where
  block : B256 → Option Block
  /-- An execution block in full. -/
  execution : B256 → Option RpcBlock
  kzgToVersionedHash : KzgCommitment → B256
  blobOf : B256 → HeapBlob
  filterAddress : Address
  valid : ∀ r b, block r = some b → IsB256 r ∧ IsB256 b.parentRoot
  parent_before : ∀ r b p, block r = some b → block b.parentRoot = some p → p.slot < b.slot
  /-- A block commits to the blobs of its payload's transactions, in their order. -/
  commitments : ∀ r b x txs, block r = some b → execution b.executionPayload.blockHash = some x →
    x.transactions = some txs →
    (txs.flatMap fun tx => tx.blobVersionedHashes.getD []) = b.blobKzgCommitments.map kzgToVersionedHash

/-- A header of a block whose slot has a path of its own. -/
def Network.Known (net : Network) (h : BlockHeader) : Prop :=
  h.slot < 1000000000 ∧ ∃ b, net.block h.root = some b ∧ b.slot = h.slot ∧ b.parentRoot = h.parentRoot

/-- A view of the chain: at most one block a slot. -/
structure View (net : Network) where
  header : Nat → Option BlockHeader
  known : ∀ slot h, header slot = some h → h.slot = slot ∧ net.Known h

/-- What the nodes answer while a block is processed; they may not have everything. -/
structure Replies (net : Network) where
  clients : Clients
  beaconBlobs : B256 → List B256 → Option (List HeapBlob)
  beaconBlock_eq : ∀ r b, clients.beaconBlock r = some b → net.block r = some b
  rpcBlock_eq : ∀ hash x, clients.rpcBlock hash .full = some x → net.execution hash = some x
  /-- Blobs come in the order of the block's commitments. -/
  beaconBlobs_eq : ∀ r b hs blobs, net.block r = some b → beaconBlobs r hs = some blobs →
    blobs = ((b.blobKzgCommitments.map net.kzgToVersionedHash).filter (· ∈ hs)).map net.blobOf

def Replies.source {net : Network} (replies : Replies net) : Source :=
  ⟨replies.clients, replies.beaconBlobs, net.kzgToVersionedHash, net.filterAddress⟩

/-! ## Processing a block -/

namespace Node

def fetched {α : Type} : Fetch α → Task α
  | .ok a => .ret a
  | .err e => .throw (.client e)
  | .panic message => .throw (.panicked message)

/-- Archive the filtered blobs of the payload a block committed to, under the block's root. -/
def processPayloadBlobs (src : Source) (root : B256) (block : Block) : Task Unit := do
  let t ← Routine.get
  let added ← fetched (src.processPayloadBlobs (Store.loadBlobsDisk t root) root block)
  if added = [] then .ret () else Store.storeBlobsDisk root added

def processBeaconBlockBlobs (src : Source) (header : BlockHeader) (prevBlock : Option BlockAndRoot) :
    Task BlockAndRoot := do
  let block ← fetched (src.clients.getBeaconBlock header.root)
  match block.executionPayload with
  | .embedded _ => do
    processPayloadBlobs src header.root block
    .ret ⟨header.root, block⟩
  | .bid _ _ => do
    let parent ← match prevBlock with
      | some prev =>
        if prev.root = header.parentRoot then .ret prev.block
        else fetched (src.clients.getBeaconBlock header.parentRoot)
      | none => fetched (src.clients.getBeaconBlock header.parentRoot)
    if block.buildsOnPayloadOf parent then do
      processPayloadBlobs src header.parentRoot parent
      .ret ⟨header.root, block⟩
    else .ret ⟨header.root, block⟩

def processBeaconBlockHeader (src : Source) (header : BlockHeader) (prevBlock : Option BlockAndRoot) :
    Task BlockAndRoot := do
  let slotPath := Store.slotDir header.slot
  Store.createDirAll slotPath.tail
  Store.call (.symlink (Store.rootLink header.root) slotPath)
  let rootDir := Store.rootDir header.root
  Store.createDirAll rootDir
  -- `header.json` without the `.tmp` is to mean that the block's data is all there
  Store.call (.write (.headerJsonTmp :: rootDir) (.header header))
  let block ← processBeaconBlockBlobs src header prevBlock
  Store.call (.rename (.headerJsonTmp :: rootDir) (.headerJson :: rootDir))
  .ret block

end Node

/-! ## The loop -/

/-- What `follow_chain` carries from slot to slot. -/
structure Following where
  prev : Option BlockHeader
  slot : Nat
  prevBlock : Option BlockAndRoot
deriving DecidableEq, Repr

/-- The slot after the last header. -/
def nextSlot (initStartSlot : Nat) : Option BlockHeader → Nat
  | some h => h.slot + 1
  | none => initStartSlot

/-- `slot` has not been stored yet: its parent is deleted. -/
def reorgLoop (order : RemovalOrder Name Content) : Nat → Task (Option BlockHeader)
  | 0 => .throw (.panicked "attempt to subtract with overflow")
  | slot + 1 => do
    let deleted ← Store.deleteBlockData order (Store.slotDir slot)
    let prev ← Store.lastHeader order
    -- either a parent slot is deleted or the store is empty
    if deleted ∨ prev = none then .ret prev else reorgLoop order slot

def isReorg (prev : Option BlockHeader) (header : BlockHeader) : Bool :=
  match prev with
  | some p => header.parentRoot ≠ p.root
  | none => false

def startFollowing (initStartSlot : Nat) (order : RemovalOrder Name Content) : Task Following := do
  let prev ← Store.lastHeader order
  .ret ⟨prev, nextSlot initStartSlot prev, none⟩

/-- One round of the loop, for what the node has at the slot. -/
def checkSlot (initStartSlot : Nat) (src : Source) (order : RemovalOrder Name Content)
    (header : Option BlockHeader) (f : Following) : Task Following :=
  match header with
  | none => .ret { f with slot := f.slot + 1 }
  | some h =>
    if isReorg f.prev h then do
      let prev ← reorgLoop order f.slot
      .ret { f with prev := prev, slot := nextSlot initStartSlot prev }
    else do
      let block ← Node.processBeaconBlockHeader src h f.prevBlock
      .ret ⟨some h, f.slot + 1, some block⟩

/-! ## The machine -/

/-- The store, and what the process that follows the chain carries. -/
structure Archive where
  tree : Tree
  following : Option Following

namespace Archive

def empty : Archive := ⟨∅, none⟩

inductive Action (net : Network) where
  | start (order : RemovalOrder Name Content) (answers : List Answer)
  | check (view : View net) (replies : Replies net) (order : RemovalOrder Name Content)
      (answers : List Answer)
  /-- The nodes fail, or the process dies. -/
  | stop

variable {net : Network} (initStartSlot : Nat)

/-- An error or a crash ends `follow_chain`. -/
def after (result : End StoreError Following × Tree) : Archive :=
  match result.1 with
  | .returned f => ⟨result.2, some f⟩
  | .failed _ => ⟨result.2, none⟩
  | .crashed => ⟨result.2, none⟩

/-- What a process does in one action. -/
def task (a : Archive) : Action net → Option (Task Following × List Answer)
  | .start order answers => match a.following with
    | none => some (startFollowing initStartSlot order, answers)
    | some _ => none
  | .check view replies order answers => match a.following with
    | some f => some (checkSlot initStartSlot replies.source order (view.header f.slot) f, answers)
    | none => none
  | .stop => none

def step (a : Archive) (action : Action net) : Option Archive :=
  match action with
  | .stop => some ⟨a.tree, none⟩
  | action => (a.task initStartSlot action).map fun x => after (x.1.exec disk a.tree x.2)

end Archive

end DigitalObjects.Archiver
