import DigitalObjects.Lib.Outcome
set_option autoImplicit false

/-!
The beacon and execution clients: the blocks they answer with, and how a fetch that
finds nothing ends.
-/

namespace DigitalObjects.EthClients

open Lib

/-- 32 bytes. -/
abbrev B256 := List Nat

instance : LawfulBEq B256 := List.instLawfulBEq

/-- 48 bytes. -/
abbrev KzgCommitment := List Nat

abbrev Address := List Nat

abbrev HeapBlob := List Nat

inductive ExecutionPayloadRef where
  /-- The block carries its own payload, canonical along with the block. -/
  | embedded (blockHash : B256)
  /-- The block carries a bid. Its payload is canonical once a child's bid builds on it. -/
  | bid (blockHash parentBlockHash : B256)
deriving DecidableEq, Repr

def ExecutionPayloadRef.blockHash : ExecutionPayloadRef → B256
  | .embedded h => h
  | .bid h _ => h

structure Block where
  blobKzgCommitments : List KzgCommitment
  executionPayload : ExecutionPayloadRef
  parentRoot : B256
  slot : Nat
deriving DecidableEq, Repr

structure BlockHeader where
  root : B256
  parentRoot : B256
  slot : Nat
deriving DecidableEq, Repr

structure BlockAndRoot where
  root : B256
  block : Block
deriving DecidableEq, Repr

/-- Whether `b` makes the bid of `parent` canonical. An embedded payload became canonical
with its own block. -/
def Block.buildsOnPayloadOf (b parent : Block) : Bool :=
  match b.executionPayload, parent.executionPayload with
  | .bid _ parentBlockHash, .bid blockHash _ => parentBlockHash = blockHash
  | _, _ => false

inductive BlockTransactionsKind where
  | hashes
  | full
deriving DecidableEq, Repr

structure Transaction where
  hash : B256
  to_ : Option Address
  blobVersionedHashes : Option (List B256)
deriving DecidableEq, Repr

/-- An execution block. Its transactions are there only when asked for in full. -/
structure RpcBlock where
  number : Nat
  timestamp : Nat
  transactions : Option (List Transaction)
deriving DecidableEq, Repr

/-- How a call to a client ends badly: `node` errors are retried by restarting the loop, the
others stop the process. -/
inductive FetchError where
  | node (what : String)
  | other (message : String)
deriving DecidableEq, Repr

def FetchError.isNodeError : FetchError → Bool
  | .node _ => true
  | .other _ => false

abbrev Fetch (α : Type) := Outcome FetchError α

/-- What the polling ends with. -/
def fetchOnceAvailable {α : Type} (what : String) (found : Option α) : Fetch α :=
  match found with
  | some a => .ok a
  | none => .err (.node what)

/-- What the nodes answer. -/
structure Clients where
  beaconBlock : B256 → Option Block
  rpcBlock : B256 → BlockTransactionsKind → Option RpcBlock

def Clients.getBeaconBlock (c : Clients) (root : B256) : Fetch Block :=
  fetchOnceAvailable "beacon block" (c.beaconBlock root)

end DigitalObjects.EthClients
