import DigitalObjects.Driver.ObjectStore
import DigitalObjects.Lib.Bytes
import DigitalObjects.Lib.Lists
import DigitalObjects.Synchronizer.SinglePayload
set_option autoImplicit false

/-!
In-process stand-in for the DON network: a submitted transaction is checked with the synchronizer's
rules and applied at once, in a block of its own.
-/

namespace DigitalObjects.Driver.MockDon

open Pod2 Txlib Synchronizer Objects

variable {V : Type} [Values V]

/-! ## Block hashes -/

/-- The hash of a block number, and the field elements of a hash. -/
structure BlockHashes (V : Type) [Values V] where
  blockHash : Int → V
  limbs : V → List Nat
  length_limbs : ∀ n, (limbs (blockHash n)).length = 4
  limbs_lt : ∀ n, ∀ x ∈ limbs (blockHash n), x < fieldOrder
  ofRaw_limbs : ∀ n, ofRaw (limbs (blockHash n)) = blockHash n

def leBytes (x : Nat) : List Nat := (List.range 8).map fun j => x / 256 ^ j % 256

/-- The bytes that `b256_to_hash` reads back as the hash. -/
def BlockHashes.hashBytes (net : BlockHashes V) (hash : V) : List Nat :=
  (List.range 4).flatMap fun i => leBytes ((net.limbs hash).getD i 0)

theorem getD_leBytes (x : Nat) {j : Nat} (hj : j < 8) : (leBytes x).getD j 0 = x / 256 ^ j % 256 := by
  simp [leBytes, List.getD_eq_getElem?_getD, hj]

theorem sum_leBytes {x : Nat} (h : x < 256 ^ 8) :
    ((List.range 8).map fun j => (leBytes x).getD j 0 * 256 ^ j).sum = x := by
  have hbytes : ∀ j ∈ List.range 8, (leBytes x).getD j 0 * 256 ^ j = x / 256 ^ j % 256 * 256 ^ j := by
    intro j hj
    rw [getD_leBytes x (List.mem_range.mp hj)]
  rw [List.map_congr_left hbytes, Lib.sum_digits, Nat.mod_eq_of_lt h]

/-- The block of a header has the header's hash. -/
theorem BlockHashes.b256ToHash_hashBytes (net : BlockHashes V) (n : Int) :
    b256ToHash (net.hashBytes (net.blockHash n)) = net.blockHash n := by
  have hlimbs : (net.limbs (net.blockHash n)).length = 4 := net.length_limbs n
  have hlimb : ∀ i ∈ List.range 4, ((List.range 8).map fun j =>
      (net.hashBytes (net.blockHash n)).getD (8 * i + j) 0 * 256 ^ j).sum % fieldOrder =
        (net.limbs (net.blockHash n)).getD i 0 := by
    intro i hi
    have hlt : i < 4 := List.mem_range.mp hi
    have hget : (net.limbs (net.blockHash n)).getD i 0 < fieldOrder := by
      rw [List.getD_eq_getElem?_getD, List.getElem?_eq_getElem (by omega), Option.getD_some]
      exact net.limbs_lt n _ (List.getElem_mem _)
    have hbytes : ∀ j ∈ List.range 8, (net.hashBytes (net.blockHash n)).getD (8 * i + j) 0 * 256 ^ j =
        (leBytes ((net.limbs (net.blockHash n)).getD i 0)).getD j 0 * 256 ^ j := by
      intro j hj
      have hpos := Lib.getElem?_flatMap_range (f := fun i => leBytes ((net.limbs (net.blockHash n)).getD i 0))
        (fun i _ => by simp [leBytes]) hlt (List.mem_range.mp hj)
      rw [List.getD_eq_getElem?_getD, hashBytes, hpos, ← List.getD_eq_getElem?_getD]
    have horder : fieldOrder < 256 ^ 8 := by decide
    rw [List.map_congr_left hbytes, sum_leBytes (Nat.lt_trans hget horder), Nat.mod_eq_of_lt hget]
  have hlist : (List.range 4).map (fun i => (net.limbs (net.blockHash n)).getD i 0) = net.limbs (net.blockHash n) := by
    refine List.ext_getElem (by simp [hlimbs]) fun i hi hi' => ?_
    simp [List.getD_eq_getElem?_getD, List.getElem?_eq_getElem hi']
  unfold b256ToHash
  rw [List.map_congr_left hlimb, hlist, net.ofRaw_limbs]

/-! ## The state -/

/-- What the mock relayer receives instead of a proof-bearing blob payload. -/
structure MockPayload (V : Type) where
  txFinal : V
  stateRoot : V
  nullifiers : List V
  created : List V

structure MockJob (V : Type) where
  txFinal : V
  stateRoot : V
  txHash : String
  blockNumber : Int
  createdAt : Int

structure SynchronizerTxStatus where
  txHash : String
  blockNumber : Int
  error : Option String

structure StateHeadResponse (V : Type) where
  slot : Nat
  stateRoot : V
  blockNumber : Int
  blockHash : List Nat
  createdCount : Nat
  nullifierCount : Nat
  stateRootCount : Nat

/-- `stateHistory` has every state root except the head's, in block order, `rootBlocks` the block
number of every state root, the head's included. -/
structure MockDonState (V : Type) [Values V] where
  head : StateHeader V
  created : Pod2.Array V
  createdIndex : Finmap fun _ : V => Int
  nullifiers : Finset V
  nullifierHashes : Finset V
  stateHistory : Pod2.Array V
  rootBlocks : Finmap fun _ : V => Int
  derivedStates : Finmap fun _ : Int => StateHeadResponse V
  txStatuses : Finmap fun _ : V => SynchronizerTxStatus
  jobs : Finmap fun _ : String => MockJob V
  jobIdsByTxFinal : Finmap fun _ : V => String

structure SubmitProofResponse (V : Type) where
  jobId : String
  txFinal : V
  stateRoot : V
  attemptCount : Nat
  createdAt : Int

inductive SubmitError where
  | invalidPayload (err : String)
  | container
deriving DecidableEq, Repr

/-- A call of `submit`: the payload's bytes, parsed, and what the clock says in it. -/
structure Submission (V : Type) where
  payload : Except String (MockPayload V)
  now : Nat
  createdAt : Nat

namespace MockDonState

variable (net : BlockHashes V)

def recordHead (m : MockDonState V) : MockDonState V :=
  let response : StateHeadResponse V := {
    slot := m.head.blockNumber.toNat % 2 ^ 32
    stateRoot := m.head.hash
    blockNumber := m.head.blockNumber
    blockHash := net.hashBytes m.head.blockHash
    createdCount := m.createdIndex.keys.card
    nullifierCount := m.nullifierHashes.card
    stateRootCount := m.rootBlocks.keys.card }
  { m with derivedStates := m.derivedStates.insert m.head.blockNumber response }

def genesis (now : Nat) : MockDonState V :=
  let head : StateHeader V := ⟨1, now, net.blockHash 1, ofArray ∅, ofSet ∅, ofArray ∅⟩
  recordHead net
    { head := head
      created := ∅
      createdIndex := ∅
      nullifiers := ∅
      nullifierHashes := ∅
      stateHistory := ∅
      rootBlocks := (∅ : Finmap fun _ : V => Int).insert head.hash head.blockNumber
      derivedStates := ∅
      txStatuses := ∅
      jobs := ∅
      jobIdsByTxFinal := ∅ }

/-- Why the synchronizer would reject `payload` in the next block, if it would. -/
def rejection (m : MockDonState V) (p : MockPayload V) : Option String :=
  let inclusionBlock := m.head.blockNumber + 1
  match m.rootBlocks.lookup p.stateRoot with
  | none => some "Blob proof state_root not found in recent state root history"
  | some rootBlock =>
    if groundingAgedOut inclusionBlock rootBlock then
      let age := inclusionBlock - rootBlock
      some s!"Blob proof state_root is too old: {age} blocks (state root at block {rootBlock})"
    else match firstCollision "Duplicate created object within payload"
        "Created object already exists (creation collision)" (fun c => (m.createdIndex.lookup c).isSome) []
        p.created with
      | some reason => some reason
      | none => firstCollision "Duplicate nullifier within payload" "Duplicate nullifier"
          (fun n => n ∈ m.nullifierHashes) [] p.nullifiers

/-! An insert that fails leaves what was inserted before it; the error has the state as it is then. -/

def insertCreated : MockDonState V → List V → Except (MockDonState V) (MockDonState V)
  | m, [] => .ok m
  | m, commitment :: rest =>
    let index := m.createdIndex.keys.card
    if (m.created.lookup index).isSome then .error m
    else insertCreated
      { m with
        created := m.created.insert index commitment
        createdIndex := m.createdIndex.insert commitment index } rest

def insertNullifiers : MockDonState V → List V → Except (MockDonState V) (MockDonState V)
  | m, [] => .ok m
  | m, nullifier :: rest =>
    if nullifier ∈ m.nullifiers then .error m
    else insertNullifiers
      { m with
        nullifiers := insert nullifier m.nullifiers
        nullifierHashes := insert nullifier m.nullifierHashes } rest

/-- The next block, over the containers as they are. -/
def nextHead (m : MockDonState V) (now : Nat) : Except (MockDonState V) (MockDonState V) :=
  let historyLen := m.rootBlocks.keys.card - 1
  if (m.stateHistory.lookup historyLen).isSome then .error m
  else
    let stateHistory := m.stateHistory.insert historyLen m.head.hash
    let blockNumber := m.head.blockNumber + 1
    let head : StateHeader V := ⟨blockNumber, max now (m.head.blockTimestamp + 1), net.blockHash blockNumber,
      ofArray m.created, ofSet m.nullifiers, ofArray stateHistory⟩
    .ok (recordHead net { m with
      stateHistory := stateHistory
      head := head
      rootBlocks := m.rootBlocks.insert head.hash blockNumber })

def apply (m : MockDonState V) (p : MockPayload V) (now : Nat) : Except (MockDonState V) (MockDonState V) := do
  let m ← m.insertCreated p.created
  let m ← m.insertNullifiers p.nullifiers
  m.nextHead net now

def submitResponse (m : MockDonState V) (jobId : String) : Option (SubmitProofResponse V) :=
  (m.jobs.lookup jobId).map fun job => ⟨jobId, job.txFinal, job.stateRoot, 1, job.createdAt⟩

/-- The status and the job of a submission that was tried. -/
def record [EncodeHex V] (m : MockDonState V) (p : MockPayload V) (error : Option String) (createdAt : Nat) :
    MockDonState V :=
  let jobId := "mock-" ++ toString (m.jobs.keys.card + 1)
  let txHash := EncodeHex.encodeHex p.txFinal
  { m with
    txStatuses := m.txStatuses.insert p.txFinal ⟨txHash, m.head.blockNumber, error⟩
    jobs := m.jobs.insert jobId ⟨p.txFinal, p.stateRoot, txHash, m.head.blockNumber, createdAt⟩
    jobIdsByTxFinal := m.jobIdsByTxFinal.insert p.txFinal jobId }

/-- A response is `none` where the job of a known id is missing, and the index panics. -/
def submit [EncodeHex V] (m : MockDonState V) (s : Submission V) :
    MockDonState V × Except SubmitError (Option (SubmitProofResponse V)) :=
  match s.payload with
  | .error err => (m, .error (.invalidPayload err))
  | .ok p =>
    match m.jobIdsByTxFinal.lookup p.txFinal with
    | some jobId => (m, .ok (m.submitResponse jobId))
    | none =>
      match m.rejection p with
      | some reason =>
        let m := m.record p (some reason) s.createdAt
        (m, .ok (m.submitResponse ("mock-" ++ toString m.jobs.keys.card)))
      | none =>
        match m.apply net p s.now with
        | .error m => (m, .error .container)
        | .ok m =>
          let m := m.record p none s.createdAt
          (m, .ok (m.submitResponse ("mock-" ++ toString m.jobs.keys.card)))

end MockDonState

end DigitalObjects.Driver.MockDon
