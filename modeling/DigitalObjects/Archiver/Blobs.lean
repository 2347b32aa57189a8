import DigitalObjects.EthClients.Beacon
import Mathlib.Data.List.Sort
import Mathlib.Data.List.Flatten
import Mathlib.Order.Lex
import Mathlib.Data.List.Lex
import Mathlib.Data.Fintype.Basic
set_option autoImplicit false

/-!
The blobs of the archiver: how it fetches those of a payload from the beacon node, and how
its API answers for a stored block.
-/

namespace DigitalObjects.Archiver

open Lib EthClients

/-- A blob file: its name carries the index and the versioned hash. -/
structure StoredBlob where
  index : Nat
  versionedHash : B256
  blob : HeapBlob
deriving DecidableEq, Repr

/-! ## The API -/

/-- `Vec::dedup`: of equal neighbours only one stays. -/
def dedup : List B256 → List B256
  | [] => []
  | [a] => [a]
  | a :: b :: rest => if a = b then dedup (b :: rest) else a :: dedup (b :: rest)

def findBlobs (stored : List StoredBlob) : List B256 → Option (List StoredBlob)
  | [] => some []
  | vh :: rest => do
    let b ← stored.find? fun b => b.versionedHash = vh
    let bs ← findBlobs stored rest
    some (b :: bs)

inductive StatusCode where
  | badRequest
  | notFound
deriving DecidableEq, Repr

/-- `/eth/v1/beacon/blobs/{block_id}` over the blobs of the block on disk. A query without
hashes does not parse. -/
def getBlobsResponse (stored : List StoredBlob) (versionedHashes : List B256) :
    Except StatusCode (List HeapBlob) :=
  if versionedHashes = [] then .error .badRequest
  else match findBlobs stored (dedup (versionedHashes.insertionSort (· ≤ ·))) with
    | some blobs => .ok ((blobs.insertionSort fun a b => a.index ≤ b.index).map StoredBlob.blob)
    | none => .error .notFound

theorem mem_dedup {hs : List B256} {h : B256} : h ∈ dedup hs ↔ h ∈ hs := by
  induction hs using dedup.induct with
  | case1 => simp [dedup]
  | case2 a => simp [dedup]
  | case3 b rest ih =>
    rw [dedup, if_pos rfl, ih]
    simp
  | case4 a b rest hne ih =>
    rw [dedup, if_neg hne, List.mem_cons, ih]
    simp

theorem dedup_pairwise {hs : List B256} (h : hs.Pairwise (· ≤ ·)) : (dedup hs).Pairwise (· < ·) := by
  induction hs using dedup.induct with
  | case1 => simp [dedup]
  | case2 a => simp [dedup]
  | case3 b rest ih =>
    rw [dedup, if_pos rfl]
    exact ih (List.Pairwise.of_cons h)
  | case4 a b rest hne ih =>
    rw [dedup, if_neg hne]
    have hrest := ih (List.Pairwise.of_cons h)
    refine List.pairwise_cons.mpr ⟨?_, hrest⟩
    intro c hc
    have hac : a ≤ c := (List.pairwise_cons.mp h).1 c (mem_dedup.mp hc)
    have hbc : b ≤ c := by
      rcases List.mem_cons.mp (mem_dedup.mp hc) with rfl | hc
      · exact le_refl _
      · exact (List.pairwise_cons.mp (List.Pairwise.of_cons h)).1 c hc
    have hab : a < b := lt_of_le_of_ne ((List.pairwise_cons.mp h).1 b (by simp)) hne
    exact lt_of_lt_of_le hab hbc

/-- What the API asks its store for: each hash of the query once. -/
theorem sorted_hashes_nodup (hs : List B256) : (dedup (hs.insertionSort (· ≤ ·))).Nodup := by
  have h := dedup_pairwise (hs.pairwise_insertionSort (· ≤ ·))
  exact h.imp fun hab => ne_of_lt hab

theorem mem_sorted_hashes {hs : List B256} {h : B256} :
    h ∈ dedup (hs.insertionSort (· ≤ ·)) ↔ h ∈ hs := by
  rw [mem_dedup, List.mem_insertionSort]

theorem findBlobs_of_entry {stored : List StoredBlob} {entry : B256 → StoredBlob} (hs : List B256)
    (h : ∀ vh ∈ hs, (stored.find? fun b => b.versionedHash = vh) = some (entry vh)) :
    findBlobs stored hs = some (hs.map entry) := by
  induction hs with
  | nil => rfl
  | cons vh hs ih =>
    have hvh := h vh (by simp)
    have hrest := ih fun v hv => h v (List.mem_cons_of_mem vh hv)
    simp [findBlobs, hvh, hrest]

/-! ## Fetching -/

/-- What the archiver asks the nodes, and for whom. -/
structure Source where
  clients : Clients
  /-- `get_blobs` of the beacon node for a block root; nothing when it is not found. -/
  beaconBlobs : B256 → List B256 → Option (List HeapBlob)
  kzgToVersionedHash : KzgCommitment → B256
  filterAddress : Address

namespace Source

variable (src : Source)

def commitmentHashes (b : Block) : List B256 := b.blobKzgCommitments.map src.kzgToVersionedHash

/-- The versioned hashes of the filtered blob transactions. -/
def filteredHashes (txs : List Transaction) : List B256 :=
  (txs.filter fun tx => tx.blobVersionedHashes.isSome ∧ tx.to_ = some src.filterAddress).flatMap
    fun tx => tx.blobVersionedHashes.getD []

/-- The position of the first commitment with the hash. -/
def blobIndex (commitments : List B256) (vh : B256) : Fetch Nat :=
  match commitments.findIdx? fun v => v = vh with
  | some i => .ok i
  | none => .panic "called unwrap on a None value"

/-- `get_blobs`: the blobs of the hashes, and which of them had to be stored. -/
def getBlobs (stored : List StoredBlob) (root : B256) (commitments hashes : List B256) :
    Fetch (List StoredBlob × List StoredBlob) := do
  let result := hashes.filterMap fun vh => stored.find? fun b => b.versionedHash = vh
  let missing := hashes.filter fun vh => (stored.find? fun b => b.versionedHash = vh).isNone
  if missing = [] then pure (result, [])
  else do
    let blobs ← fetchOnceAvailable "blobs of block" (src.beaconBlobs root missing)
    let _ ← Outcome.require (blobs.length = missing.length) "assertion failed: blobs"
    let added ← Outcome.mapList (fun (p : B256 × HeapBlob) => do
      let i ← blobIndex commitments p.1
      pure (⟨i, p.1, p.2⟩ : StoredBlob)) (missing.zip blobs)
    pure (result ++ added, added)

/-- `process_payload_blobs`, with the blobs of the block on disk before it. Returns the ones
it stores. -/
def processPayloadBlobs (stored : List StoredBlob) (root : B256) (b : Block) :
    Fetch (List StoredBlob) :=
  let commitments := src.commitmentHashes b
  if commitments = [] then pure []
  else do
    let block ← fetchOnceAvailable "execution block"
      (src.clients.rpcBlock b.executionPayload.blockHash .full)
    match block.transactions with
    | none =>
      .err (.other "Consensus block has blobs but the execution block doesn't have txs")
    | some txs =>
      let hashes := src.filteredHashes txs
      if hashes = [] then pure []
      else do
        let (result, added) ← src.getBlobs stored root commitments hashes
        let _ ← Outcome.require (result.length = hashes.length) "assertion failed: blobs"
        pure added

/-- The blobs of a block, by their hashes. -/
def entry (commitments : List B256) (blobOf : B256 → HeapBlob) (vh : B256) : StoredBlob :=
  ⟨commitments.findIdx fun v => v = vh, vh, blobOf vh⟩

/-- The beacon API: the blobs of distinct hashes of the block, in the order of its
commitments. -/
def Answers (root : B256) (commitments : List B256) (blobOf : B256 → HeapBlob) : Prop :=
  ∀ hs : List B256, hs.Nodup → (∀ vh ∈ hs, commitments.count vh = 1) →
    src.beaconBlobs root hs = some ((commitments.filter (· ∈ hs)).map blobOf)

variable {src}

theorem blobIndex_mem {commitments : List B256} {vh : B256} (h : vh ∈ commitments) :
    blobIndex commitments vh = .ok (commitments.findIdx fun v => v = vh) := by
  have hidx : (commitments.findIdx? fun v => v = vh) =
      some (commitments.findIdx fun v => v = vh) := by
    rw [List.findIdx?_eq_some_iff_findIdx_eq]
    exact ⟨List.findIdx_lt_length.mpr ⟨vh, h, by simp⟩, rfl⟩
  simp [blobIndex, hidx]

theorem filteredHashes_sublist (txs : List Transaction) :
    (src.filteredHashes txs).Sublist (txs.flatMap fun tx => tx.blobVersionedHashes.getD []) := by
  unfold filteredHashes
  exact List.Sublist.flatMap List.filter_sublist _

theorem getBlobs_complete {root : B256} {commitments hashes : List B256}
    {blobOf : B256 → HeapBlob} (hanswers : src.Answers root commitments blobOf)
    (hsub : hashes.Sublist commitments) (hcount : ∀ vh ∈ hashes, commitments.count vh = 1)
    (stored : List StoredBlob) : ∃ result,
    src.getBlobs stored root commitments hashes = .ok (result,
      (hashes.filter fun vh => (stored.find? fun b => b.versionedHash = vh).isNone).map
        (entry commitments blobOf)) ∧ result.length = hashes.length := by
  generalize hmissing : (hashes.filter fun vh => (stored.find? fun b => b.versionedHash = vh).isNone) =
    missing
  have hparts : ∀ hs : List B256,
      (hs.filterMap fun vh => stored.find? fun b => b.versionedHash = vh).length +
        (hs.filter fun vh => (stored.find? fun b => b.versionedHash = vh).isNone).length =
      hs.length := by
    intro hs
    induction hs with
    | nil => rfl
    | cons vh hs ih =>
      cases hf : stored.find? fun b => b.versionedHash = vh with
      | none =>
        simp only [List.filterMap_cons, List.filter_cons, hf, Option.isNone_none, if_true,
          List.length_cons]
        omega
      | some b =>
        simp only [List.filterMap_cons, List.filter_cons, hf, Option.isNone_some,
          Bool.false_eq_true, if_false, List.length_cons]
        omega
  have hlen := hparts hashes
  rw [hmissing] at hlen
  unfold getBlobs
  simp only [hmissing]
  by_cases hnone : missing = []
  · rw [if_pos hnone]
    subst hnone
    exact ⟨_, rfl, by simpa using hlen⟩
  · rw [if_neg hnone]
    have hmsub : missing.Sublist hashes := hmissing ▸ List.filter_sublist
    have hmcount : ∀ vh ∈ missing, commitments.count vh = 1 :=
      fun vh hvh => hcount vh (hmsub.subset hvh)
    have heq := eq_filter_of_count (hmsub.trans hsub) hmcount
    have hnodup : missing.Nodup := heq ▸ filter_nodup_of_count hmcount
    have hanswer := hanswers missing hnodup hmcount
    rw [← heq] at hanswer
    have hadded : Outcome.mapList (fun (p : B256 × HeapBlob) => do
        let i ← blobIndex commitments p.1
        pure (⟨i, p.1, p.2⟩ : StoredBlob)) (missing.zip (missing.map blobOf)) =
        .ok (missing.map (entry commitments blobOf)) := by
      rw [Outcome.mapList_eq_ok, List.zip_map_right, List.forall₂_map_left_iff,
        List.forall₂_map_right_iff]
      have hzip : missing.zip missing = missing.map fun vh => (vh, vh) := by
        rw [List.zip_eq_zipWith, List.zipWith_self]
      rw [hzip, List.forall₂_map_left_iff, List.forall₂_same]
      intro vh hvh
      simp [blobIndex_mem ((hmsub.trans hsub).subset hvh), entry]
    simp only [hanswer, fetchOnceAvailable, Outcome.ok_bind, hadded]
    rw [Outcome.require_pos (by rw [hmissing, List.length_map])]
    refine ⟨_, rfl, ?_⟩
    rw [List.length_append, List.length_map]
    omega

/-- The archiver completes a block none of whose filtered hashes is repeated in it. -/
theorem processPayloadBlobs_complete {root : B256} {b : Block} {txs : List Transaction}
    {block : RpcBlock} {blobOf : B256 → HeapBlob}
    (hrpc : src.clients.rpcBlock b.executionPayload.blockHash .full = some block)
    (htxs : block.transactions = some txs)
    (hhashes : (txs.flatMap fun tx => tx.blobVersionedHashes.getD []) = src.commitmentHashes b)
    (hanswers : src.Answers root (src.commitmentHashes b) blobOf)
    (hcount : ∀ vh ∈ src.filteredHashes txs, (src.commitmentHashes b).count vh = 1)
    (stored : List StoredBlob) :
    src.processPayloadBlobs stored root b = .ok
      (((src.filteredHashes txs).filter fun vh =>
        (stored.find? fun s => s.versionedHash = vh).isNone).map
          (entry (src.commitmentHashes b) blobOf)) := by
  have hsub : (src.filteredHashes txs).Sublist (src.commitmentHashes b) :=
    hhashes ▸ filteredHashes_sublist txs
  unfold processPayloadBlobs
  by_cases hempty : src.commitmentHashes b = []
  · have hnone : src.filteredHashes txs = [] := List.sublist_nil.mp (hempty ▸ hsub)
    simp [hempty, hnone]
  · simp only [hempty, if_false, hrpc, fetchOnceAvailable, Outcome.ok_bind, htxs]
    by_cases hnone : src.filteredHashes txs = []
    · simp [hnone]
    · obtain ⟨result, hget, hlen⟩ := getBlobs_complete hanswers hsub hcount stored
      simp only [hnone, if_false, hget, Outcome.ok_bind, Outcome.require_pos hlen]
      rfl

end Source

end DigitalObjects.Archiver
