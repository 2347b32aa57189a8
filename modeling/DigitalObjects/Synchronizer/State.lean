import DigitalObjects.Txlib.Finalized
import Mathlib.Algebra.GroupWithZero.Nat
import Mathlib.Data.List.Sort
set_option autoImplicit false

/-!
The synchronizer's data: payloads and the DON state, the container store that is
opened by root, and the Postgres tables with the queries the derivation makes.
-/

namespace DigitalObjects.Synchronizer

open Pod2 Txlib

variable {V : Type}

/-- A payload as it travels in a blob. The proof is kept as bytes. -/
structure Payload (V : Type) where
  proof : List Nat
  txFinal : V
  stateRoot : V
  nullifiers : List V
  created : List V
deriving DecidableEq

structure ExecutionBlock where
  number : Nat
  timestamp : Nat
  hash : List Nat
deriving DecidableEq, Repr

structure StateRoots (V : Type) where
  created : V
  nullifiers : V
  priorStateHistory : V
  nextStateHistory : V

structure StateMetadata (V : Type) where
  stateRoot : V
  block : ExecutionBlock
  createdCount : Nat
  nullifierCount : Nat
  stateRootCount : Nat

structure DonState (V : Type) where
  roots : StateRoots V
  metadata : StateMetadata V

/-- What aborts the derivation or the commit of a slot. -/
inductive Fault where
  | missingContainer
  | occupied
  | duplicateRow
deriving DecidableEq, Repr

section Values

variable [Values V]

/-- The public statement that the proof of a payload is checked against. -/
def Payload.finalizedStatement (G : Guard V) (p : Payload V) : Type :=
  TxFinalized G p.stateRoot p.txFinal (ofSet p.nullifiers.toFinset) (ofSet p.created.toFinset)

/-- A payload whose proof verifies: its statement is derivable. -/
def Payload.Verified (G : Guard V) (p : Payload V) : Prop := Nonempty (p.finalizedStatement G)

def fieldOrder : Nat := 2 ^ 64 - 2 ^ 32 + 1

/-- The 32 bytes of a hash as four little-endian limbs, each read as a field element. -/
def b256ToHash (bytes : List Nat) : V :=
  ofRaw ((List.range 4).map fun i =>
    ((List.range 8).map fun j => bytes.getD (8 * i + j) 0 * 256 ^ j).sum % fieldOrder)

def stateHeader (block : ExecutionBlock) (createdRoot nullifiersRoot priorStateHistoryRoot : V) :
    StateHeader V :=
  ⟨block.number, block.timestamp, b256ToHash block.hash, createdRoot, nullifiersRoot,
    priorStateHistoryRoot⟩

def DonState.stateHeader (s : DonState V) : StateHeader V :=
  Synchronizer.stateHeader s.metadata.block s.roots.created s.roots.nullifiers
    s.roots.priorStateHistory

def StateRoots.empty : StateRoots V := ⟨Pod2.empty, Pod2.empty, Pod2.empty, Pod2.empty⟩

/-- The Merkle containers on disk. Nodes are content-addressed, so a container is
found by its root; the empty root needs no nodes. -/
structure ContainerDb (V : Type) where
  arrays : List (Pod2.Array V)
  sets : List (Finset V)

def ContainerDb.openArray (db : ContainerDb V) (root : V) : Except Fault (Pod2.Array V) :=
  if root = empty then .ok ∅
  else match db.arrays.find? fun a => ofArray a = root with
    | some a => .ok a
    | none => .error .missingContainer

def ContainerDb.openSet (db : ContainerDb V) (root : V) : Except Fault (Finset V) :=
  if root = empty then .ok ∅
  else match db.sets.find? fun s => ofSet s = root with
    | some s => .ok s
    | none => .error .missingContainer

theorem ContainerDb.openArray_root {db : ContainerDb V} {root : V} {a : Pod2.Array V}
    (h : db.openArray root = .ok a) : ofArray a = root := by
  unfold openArray at h
  split at h
  case isTrue hr =>
    cases h
    rw [hr, empty, Values.ofArray_empty]
  case isFalse hr =>
    cases hf : db.arrays.find? fun a => ofArray a = root with
    | none => simp [hf] at h
    | some b =>
      have hb := List.find?_some hf
      simp only [hf, Except.ok.injEq] at h
      subst h
      simpa using hb

theorem ContainerDb.openSet_root {db : ContainerDb V} {root : V} {s : Finset V}
    (h : db.openSet root = .ok s) : ofSet s = root := by
  unfold openSet at h
  split at h
  case isTrue hr =>
    cases h
    rw [hr, empty, Values.ofSet_empty]
  case isFalse hr =>
    cases hf : db.sets.find? fun s => ofSet s = root with
    | none => simp [hf] at h
    | some b =>
      have hb := List.find?_some hf
      simp only [hf, Except.ok.injEq] at h
      subst h
      simpa using hb

theorem ContainerDb.openArray_empty (db : ContainerDb V) : db.openArray (ofArray ∅) = .ok ∅ := by
  rw [openArray, if_pos (show (ofArray ∅ : V) = Pod2.empty from Values.ofArray_empty)]

theorem ContainerDb.openSet_empty (db : ContainerDb V) : db.openSet (ofSet ∅) = .ok ∅ := by
  rw [openSet, if_pos (show (ofSet ∅ : V) = Pod2.empty from Values.ofSet_empty)]

/-- A stored container is found again by its root. -/
theorem ContainerDb.openArray_mem {db : ContainerDb V} {a : Pod2.Array V} (h : a ∈ db.arrays) :
    db.openArray (ofArray a) = .ok a := by
  unfold openArray
  split
  case isTrue he =>
    rw [Pod2.empty, ← Values.ofArray_empty, ofArray_inj] at he
    rw [he]
  case isFalse he =>
    cases hf : db.arrays.find? fun b => ofArray b = (ofArray a : V) with
    | none =>
      have hne := List.find?_eq_none.mp hf a h
      simp at hne
    | some b =>
      have hb := List.find?_some hf
      simp only [ofArray_inj, decide_eq_true_eq] at hb
      simp [hb]

theorem ContainerDb.openSet_mem {db : ContainerDb V} {s : Finset V} (h : s ∈ db.sets) :
    db.openSet (ofSet s) = .ok s := by
  unfold openSet
  split
  case isTrue he =>
    rw [Pod2.empty, ← Values.ofSet_empty, ofSet_inj] at he
    rw [he]
  case isFalse he =>
    cases hf : db.sets.find? fun t => ofSet t = (ofSet s : V) with
    | none =>
      have hne := List.find?_eq_none.mp hf s h
      simp at hne
    | some t =>
      have ht := List.find?_some hf
      simp only [ofSet_inj, decide_eq_true_eq] at ht
      simp [ht]

/-- Whether the created array holds `commitment` at `index`. -/
def createdArrayHolds (created : Pod2.Array V) (index : Nat) (commitment : V) : Bool :=
  created.lookup index = some commitment

end Values

/-! The tables. Slots are committed in increasing order, so `slots` keeps them newest
first and `ORDER BY slot DESC` is the order of the list. -/

structure SlotRow (V : Type) where
  slot : Nat
  state : Option (DonState V)

structure CreatedRow (V : Type) where
  commitment : V
  arrayIndex : Nat
  slot : Nat

structure TxStatusRow (V : Type) where
  slot : Nat
  txHash : Nat
  txBlobIndex : Nat
  txFinal : Option V
  error : Option String

structure StateLogDb (V : Type) where
  slots : List (SlotRow V)
  createdIndex : List (CreatedRow V)
  txStatuses : List (TxStatusRow V)

/-- The last committed slot, or none before the first. -/
def StateLogDb.lastProcessedSlot (log : StateLogDb V) : Option Nat := log.slots.head?.map SlotRow.slot

/-- The state of the highest slot with an execution block. -/
def StateLogDb.donStateAtHead (log : StateLogDb V) : Option (DonState V) :=
  log.slots.findSome? SlotRow.state

/-- Map each known object commitment to its position in the created array. -/
def StateLogDb.createdIndices [DecidableEq V] (log : StateLogDb V) (commitments : List V) :
    List (V × Nat) :=
  (log.createdIndex.filter fun r => r.commitment ∈ commitments).map fun r =>
    (r.commitment, r.arrayIndex)

/-- State roots derived at or above the given block number, by block and then by slot. -/
def StateLogDb.recentStateRoots (log : StateLogDb V) (minBlockNumber : Nat) : List (V × Int) :=
  let rows := (log.slots.reverse.filterMap SlotRow.state).filter fun s =>
    minBlockNumber ≤ s.metadata.block.number
  (rows.map fun s => (s.metadata.stateRoot, (s.metadata.block.number : Int))).mergeSort
    fun a b => a.2 ≤ b.2

theorem StateLogDb.mem_recentStateRoots {log : StateLogDb V} {min : Nat} {root : V} {number : Int}
    (h : (root, number) ∈ log.recentStateRoots min) :
    ∃ row ∈ log.slots, ∃ s, row.state = some s ∧ s.metadata.stateRoot = root := by
  rw [recentStateRoots, List.mem_mergeSort, List.mem_map] at h
  obtain ⟨s, hs, heq⟩ := h
  rw [List.mem_filter, List.mem_filterMap] at hs
  obtain ⟨⟨row, hrow, hstate⟩, -⟩ := hs
  exact ⟨row, List.mem_reverse.mp hrow, s, hstate, (Prod.mk.inj heq).1⟩

/-- `ORDER BY error IS NOT NULL, slot DESC, tx_hash, tx_blob_index`. -/
def TxStatusRow.before (a b : TxStatusRow V) : Bool :=
  if a.error.isSome ≠ b.error.isSome then b.error.isSome
  else if a.slot ≠ b.slot then b.slot < a.slot
  else if a.txHash ≠ b.txHash then a.txHash < b.txHash
  else a.txBlobIndex < b.txBlobIndex

/-- `LIMIT 1` under the order above. -/
def TxStatusRow.first : List (TxStatusRow V) → Option (TxStatusRow V)
  | [] => none
  | r :: rs => match first rs with
    | none => some r
    | some q => if q.before r then some q else some r

/-- The status of `txFinal`: the blob that applied it, or else the latest rejected one. -/
def StateLogDb.txStatusByTxFinal [DecidableEq V] (log : StateLogDb V) (txFinal : V) :
    Option (TxStatusRow V) :=
  TxStatusRow.first (log.txStatuses.filter fun r => r.txFinal = some txFinal)

theorem TxStatusRow.first_mem {rs : List (TxStatusRow V)} {r : TxStatusRow V}
    (h : first rs = some r) : r ∈ rs := by
  induction rs generalizing r with
  | nil => simp [first] at h
  | cons a rs ih =>
    cases hf : first rs with
    | none =>
      simp only [first, hf, Option.some.injEq] at h
      subst h
      exact List.mem_cons_self
    | some q =>
      simp only [first, hf] at h
      split at h
      · cases h
        exact List.mem_cons_of_mem a (ih hf)
      · cases h
        exact List.mem_cons_self

theorem TxStatusRow.first_eq_none {rs : List (TxStatusRow V)} : first rs = none ↔ rs = [] := by
  cases rs with
  | nil => simp [first]
  | cons r rs =>
    simp only [first, reduceCtorEq, iff_false]
    split
    · simp
    · split <;> simp

/-- An applied row is preferred to every rejected one. -/
theorem TxStatusRow.first_error {rs : List (TxStatusRow V)} {r : TxStatusRow V}
    (h : first rs = some r) (herr : r.error ≠ none) : ∀ q ∈ rs, q.error ≠ none := by
  induction rs generalizing r with
  | nil => simp
  | cons a rs ih =>
    cases hf : first rs with
    | none =>
      simp only [first, hf, Option.some.injEq] at h
      subst h
      rw [first_eq_none.mp hf]
      simpa using herr
    | some q =>
      simp only [first, hf] at h
      have hq : q.error ≠ none ∧ a.error ≠ none := by
        split at h
        case isTrue hb =>
          cases h
          refine ⟨herr, fun ha => ?_⟩
          simp [before, ha, Option.isSome_iff_ne_none.mpr herr] at hb
        case isFalse hb =>
          cases h
          refine ⟨fun hq => ?_, herr⟩
          simp [before, hq, Option.isSome_iff_ne_none.mpr herr] at hb
      simp only [List.mem_cons, forall_eq_or_imp]
      exact ⟨hq.2, ih hf hq.1⟩

end DigitalObjects.Synchronizer
