import DigitalObjects.Synchronizer.Blobs
import DigitalObjects.Archiver.Runs
set_option autoImplicit false

/-!
The synchronizer on top of the archiver: what it asks of the archiver for a payload is what the
archiver keeps for the block that makes the payload canonical.
-/

namespace DigitalObjects.Synchronizer

open Lib EthClients Archiver

/-- The clients of the synchronizer answer from the same blocks, with the same address. -/
structure Agrees (net : Archiver.Network) (snet : Network) : Prop where
  beaconBlock : ∀ r b, snet.clients.beaconBlock r = some b → net.block r = some b
  rpcBlock : ∀ hash x, snet.clients.rpcBlock hash .full = some x → net.execution hash = some x
  rpcBlock_hashes : ∀ hash x, snet.clients.rpcBlock hash .hashes = some x → x.transactions = none
  kzgToVersionedHash : snet.kzgToVersionedHash = net.kzgToVersionedHash
  address : snet.toAddress = net.filterAddress

variable {net : Archiver.Network} {snet : Network} {k : BlockHeader} {b block : Block} {root : B256}

theorem fetchOnceAvailable_ok {α : Type} {what : String} {found : Option α} {a : α}
    (h : fetchOnceAvailable what found = .ok a) : found = some a := by
  cases found with
  | none => cases h
  | some a' =>
    cases h
    rfl

/-- The synchronizer's committing block is the one whose payload the block settles. -/
theorem Agrees.settles (hagrees : Agrees net snet) (hk : net.Known k) (hb : net.block k.root = some b)
    {prev : Option BlockAndRoot} (hprev : ∀ p, prev = some p → net.block p.root = some p.block)
    (hok : snet.committingBlock k b prev = .ok (some (root, block))) :
    net.Settles k root ∧ net.block root = some block := by
  obtain ⟨-, b', hb', -, hparent⟩ := hk
  rw [hb, Option.some.injEq] at hb'
  subst hb'
  unfold Network.committingBlock at hok
  split at hok
  · rename_i hash hpayload
    cases hok
    exact ⟨.embedded b hash hb hpayload, hb⟩
  · obtain ⟨parent, hfetch, hok⟩ := Outcome.bind_eq_ok hok
    have hknown : net.block b.parentRoot = some parent := by
      unfold Network.parentBlock at hfetch
      split at hfetch
      · rename_i p
        split at hfetch
        · rename_i hroot
          cases hfetch
          rw [← hroot]
          exact hprev p rfl
        · exact hagrees.beaconBlock _ _ (fetchOnceAvailable_ok hfetch)
      · exact hagrees.beaconBlock _ _ (fetchOnceAvailable_ok hfetch)
    by_cases hbuilds : b.buildsOnPayloadOf parent = true
    · rw [if_pos hbuilds] at hok
      cases hok
      rw [hparent] at hknown ⊢
      exact ⟨.bid b block hb hknown hbuilds, hknown⟩
    · rw [if_neg hbuilds] at hok
      cases hok

/-- What a payload is read from. -/
theorem Agrees.readPayload (hagrees : Agrees net snet) {p : CanonicalPayload} (hok : snet.readPayload root block = .ok p) :
    p.committingBlockRoot = root ∧ p.commitmentHashes = block.blobKzgCommitments.map net.kzgToVersionedHash ∧
      (p.targetBlobTxs = [] ∨ ∃ x txs, net.execution block.executionPayload.blockHash = some x ∧
        x.transactions = some txs ∧ p.targetBlobTxs = snet.targetTxHashes txs) := by
  unfold Network.readPayload at hok
  obtain ⟨x, hx, hok⟩ := Outcome.bind_eq_ok hok
  obtain ⟨txs, htxs, hok⟩ := Outcome.bind_eq_ok hok
  cases hok
  have hx := fetchOnceAvailable_ok hx
  refine ⟨rfl, ?_, ?_⟩
  · unfold CanonicalPayload.commitmentHashes Network.commitments
    rw [List.map_map, hagrees.kzgToVersionedHash]
    rfl
  · by_cases hnone : snet.commitments block = []
    · rw [if_pos hnone] at hx
      rw [hagrees.rpcBlock_hashes _ _ hx, Network.targetBlobTxs, if_pos hnone] at htxs
      cases htxs
      exact .inl rfl
    · rw [if_neg hnone] at hx
      unfold Network.targetBlobTxs at htxs
      split at htxs
      · rename_i txs' htxs'
        cases htxs
        exact .inr ⟨x, txs', hagrees.rpcBlock _ _ hx, htxs', rfl⟩
      · rw [if_neg hnone] at htxs
        cases htxs

theorem Agrees.targetHashes (hagrees : Agrees net snet) (txs : List Transaction) :
    (snet.targetTxHashes txs).flatMap (·.versionedHashes) = net.filteredHashes txs :=
  CanonicalPayload.targetHashes_eq snet ⟨⟨fun _ => none, fun _ _ => none⟩, fun _ _ => none,
    net.kzgToVersionedHash, net.filterAddress⟩ hagrees.address.symm txs

/-- What is archived for a complete block is what the synchronizer looks for. -/
theorem archived_of_complete {t : Tree} (hstocked : Stocked net t) (hs : Shape net t) (hk : net.Known k)
    (hc : Complete t k) (hr : net.Settles k root) (hblock : net.block root = some block) {targets : List B256}
    (htargets : ∀ vh ∈ targets, net.Wanted root vh) :
    Archived (Store.loadBlobsDisk t root) (block.blobKzgCommitments.map net.kzgToVersionedHash) targets net.blobOf := by
  obtain ⟨hall, hfits⟩ := hstocked.blobs hs hk hc hr
  refine ⟨fun s hmem => ?_, fun vh hvh => hall vh (htargets vh hvh)⟩
  obtain ⟨b, hb, hindex, hblob⟩ := hfits s hmem
  rw [hblock, Option.some.injEq] at hb
  subst hb
  simp only [Inode.file.injEq, Content.blob.injEq] at hblob
  cases s
  simp only [Source.entry, StoredBlob.mk.injEq, true_and]
  exact ⟨hindex, hblob⟩

/-- In every run of the archiver whose reorgs remove headers first: for a block that it has completed,
the synchronizer retrieves the blobs of the payload that becomes canonical with the block, as they are
in the chain, exactly when the payload's block repeats no target hash. -/
theorem archiver_serves {V : Type} (net : Archiver.Network) (snet : Network) (hagrees : Agrees net snet)
    (hblobs : ∀ hash x txs, net.execution hash = some x → x.transactions = some txs →
      ∀ tx ∈ txs, tx.blobVersionedHashes ≠ some [])
    (initStartSlot : Nat) (actions : List (Archive.Action net)) (a : Archive)
    (hfirst : ∀ action ∈ actions, action.HeaderFirst) (hrun : runSteps (Archive.step initStartSlot) Archive.empty actions = some a)
    (k : BlockHeader) (b : Block) (hk : net.Known k) (hc : Complete a.tree k) (hb : net.block k.root = some b)
    (prev : Option BlockAndRoot) (hprev : ∀ p, prev = some p → net.block p.root = some p.block) (p : CanonicalPayload)
    (hok : snet.canonicalPayload k b prev = .ok (some p)) :
    p.fetchTargetBlobs (archivedBlobs (Store.loadBlobsDisk a.tree p.committingBlockRoot)) =
        .ok (p.expected net.blobOf : List (TargetTx V Bytes)) ↔
      ∀ vh ∈ p.targetHashes, p.commitmentHashes.count vh = 1 := by
  obtain ⟨hs, hstocked⟩ := Archive.run_sound (P := True) (fun _ => hfirst) hrun
  unfold Network.canonicalPayload at hok
  obtain ⟨committing, hcommitting, hok⟩ := Outcome.bind_eq_ok hok
  cases committing with
  | none => cases hok
  | some rb =>
    obtain ⟨root, block⟩ := rb
    obtain ⟨payload, hpayload, hok⟩ := Outcome.bind_eq_ok hok
    cases hok
    obtain ⟨hsettles, hblock⟩ := hagrees.settles hk hb hprev hcommitting
    obtain ⟨hroot, hcommitments, htargets⟩ := hagrees.readPayload hpayload
    rw [hroot]
    rcases htargets with hnone | ⟨x, txs, hx, htxs, htargets⟩
    · simp [CanonicalPayload.fetchTargetBlobs, CanonicalPayload.targetHashes, CanonicalPayload.expected, hnone,
        Synchronizer.fetchTargetBlobs]
    · have hhashes : p.targetHashes = net.filteredHashes txs := by
        rw [CanonicalPayload.targetHashes, htargets, hagrees.targetHashes]
      have harchived : Archived (Store.loadBlobsDisk a.tree root) p.commitmentHashes p.targetHashes net.blobOf := by
        rw [hcommitments]
        refine archived_of_complete (hstocked trivial) hs.shape hk hc hsettles hblock fun vh hvh => ?_
        rw [hhashes] at hvh
        exact ⟨block, x, txs, hblock, hx, htxs, hvh⟩
      have hsub : p.targetHashes.Sublist p.commitmentHashes := by
        rw [hhashes, hcommitments]
        exact net.filteredHashes_sublist hblock hx htxs
      have hne : ∀ tx ∈ p.targetBlobTxs, tx.versionedHashes ≠ [] := by
        intro tx htx hnil
        rw [htargets] at htx
        obtain ⟨tx', htx', hmap⟩ := List.mem_filterMap.mp htx
        obtain ⟨hs', hhs, rfl⟩ := Option.map_eq_some_iff.mp hmap
        have hempty : hs' = [] := hnil
        rw [hempty] at hhs
        exact hblobs _ x txs hx htxs tx' (List.mem_of_mem_filter htx') hhs
      constructor
      · intro hfetch vh hvh
        by_contra hcount
        rcases CanonicalPayload.fetchTargetBlobs_stops harchived hsub hvh hcount with ⟨m, hm⟩ | ⟨m, hm⟩
        · rw [hm] at hfetch
          cases hfetch
        · rw [hm] at hfetch
          cases hfetch
      · exact CanonicalPayload.fetchTargetBlobs_ok harchived hne hsub

/-- The synchronizer over the archiver's sample chain. -/
def archivedNetwork : Network where
  clients := ⟨Archive.sampleBlock, fun hash kind => match kind with
    | .full => Archive.sampleExecution hash
    | .hashes => (Archive.sampleExecution hash).map fun x => { x with transactions := none }⟩
  kzgToVersionedHash := id
  toAddress := [7]

def archivedPayload : CanonicalPayload :=
  ⟨Archive.sampleRoot 1, ⟨1, 12, [5]⟩, [([9], [9])], [⟨[1], [[9]]⟩]⟩

theorem archiver_serves_sample :
    archivedPayload.fetchTargetBlobs (archivedBlobs (Store.loadBlobsDisk (Archive.sampleArchive 7).tree (Archive.sampleRoot 1))) =
      .ok (archivedPayload.expected (fun _ => [0]) : List (TargetTx Nat Bytes)) := by
  refine (archiver_serves Archive.sampleNet archivedNetwork ⟨fun _ _ h => h, fun _ _ h => h, ?_, rfl, rfl⟩ ?_ 3
    (Archive.sampleRun.take 7) (Archive.sampleArchive 7) (Archive.sampleRun_headerFirst 7)
    (Archive.sampleArchive_run (by decide +kernel)) (Archive.sampleHeader 1 3 0)
    ⟨[[9]], .embedded [5], Archive.sampleRoot 0, 3⟩ ⟨by decide, _, rfl, rfl, rfl⟩ ⟨?_, ?_⟩ rfl none (by simp)
    archivedPayload rfl).mpr (by decide)
  · intro hash x hx
    obtain ⟨x', -, rfl⟩ := Option.map_eq_some_iff.mp hx
    rfl
  · intro hash x txs hx htxs tx htx
    have hx' : Archive.sampleExecution hash = some x := hx
    unfold Archive.sampleExecution at hx'
    split at hx'
    · cases hx'
      cases htxs
      rw [List.mem_singleton.mp htx]
      decide
    · cases hx'
  · unfold Linked
    decide +kernel
  · decide +kernel

end DigitalObjects.Synchronizer
