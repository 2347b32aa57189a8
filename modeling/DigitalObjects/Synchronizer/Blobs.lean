import DigitalObjects.Synchronizer.Payloads
import DigitalObjects.Synchronizer.StateMachine
import DigitalObjects.Archiver.Blobs
set_option autoImplicit false

/-!
`fetch_target_blobs`: the blobs of a payload's target transactions, fetched from the
archiver and decoded. It succeeds exactly for the blocks that repeat no target hash.
-/

namespace DigitalObjects.Synchronizer

open Lib EthClients Archiver

/-! ## Decoding -/

def fieldElementBytes : Nat := 32

/-- A big-endian number. -/
def beNat (bytes : List Nat) : Nat := bytes.foldl (fun n b => 256 * n + b) 0

def byteAt (blob : HeapBlob) (i : Nat) : Outcome String Nat :=
  match blob[i]? with
  | some b => .ok b
  | none => .panic "index out of bounds"

/-- `chunks`, for a length that the chunk size divides. -/
def fieldElements (blob : HeapBlob) : List (List Nat) :=
  (List.range (blob.length / fieldElementBytes)).map fun i =>
    (blob.drop (fieldElementBytes * i)).take fieldElementBytes

/-- `chunk[1..]`. -/
def chunkData : List Nat → Outcome String (List Nat)
  | [] => .panic "range start index out of range"
  | _ :: bytes => .ok bytes

def decodeSimpleBlob (blob : HeapBlob) : Outcome String Bytes :=
  if blob.length < 9 then
    .err s!"Invalid blob length {blob.length}; expected at least 9 bytes"
  else if blob.length % fieldElementBytes ≠ 0 then
    .err s!"Invalid blob length {blob.length}; expected multiple of {fieldElementBytes}"
  else do
    let lenBytes ← Outcome.mapList (fun i => byteAt blob (1 + i)) (List.range 8)
    let dataLen := beNat lenBytes
    let elements := blob.length / fieldElementBytes
    if elements < 1 then .err s!"Invalid blob length {blob.length}"
    else if dataLen > (elements - 1) * (fieldElementBytes - 1) then
      .err s!"Given blob of length {blob.length} cannot accommodate {dataLen} bytes"
    else do
      let data ← Outcome.mapList chunkData ((fieldElements blob).drop 1)
      pure (data.flatten.take dataLen)

theorem mapList_byteAt {blob : HeapBlob} (h : 9 ≤ blob.length) :
    Outcome.mapList (fun i => byteAt blob (1 + i)) (List.range 8) = .ok ((blob.drop 1).take 8) := by
  match blob, h with
  | b₀ :: b₁ :: b₂ :: b₃ :: b₄ :: b₅ :: b₆ :: b₇ :: b₈ :: rest, _ => rfl

/-- No field element is empty. -/
theorem mapList_chunkData (blob : HeapBlob) :
    Outcome.mapList chunkData ((fieldElements blob).drop 1) =
      .ok (((fieldElements blob).drop 1).map List.tail) := by
  rw [Outcome.mapList_eq_ok, List.forall₂_map_right_iff, List.forall₂_same]
  intro chunk hchunk
  obtain ⟨i, hi, rfl⟩ := List.mem_map.mp (List.mem_of_mem_drop hchunk)
  have hi := List.mem_range.mp hi
  have hlen : 0 < ((blob.drop (fieldElementBytes * i)).take fieldElementBytes).length := by
    have hdiv := Nat.div_mul_le_self blob.length fieldElementBytes
    have hmul : fieldElementBytes * (i + 1) ≤ blob.length := by
      calc fieldElementBytes * (i + 1)
          ≤ fieldElementBytes * (blob.length / fieldElementBytes) := Nat.mul_le_mul_left _ hi
        _ ≤ blob.length := by rw [Nat.mul_comm]; exact hdiv
    rw [List.length_take, List.length_drop]
    unfold fieldElementBytes at *
    omega
  obtain ⟨b, rest, hcons⟩ := List.exists_cons_of_length_pos hlen
  rw [hcons]
  rfl

/-- Decoding returns, whatever the bytes are. -/
theorem decodeSimpleBlob_returns (blob : HeapBlob) :
    (∃ bytes, decodeSimpleBlob blob = .ok bytes) ∨ ∃ e, decodeSimpleBlob blob = .err e := by
  unfold decodeSimpleBlob
  by_cases hshort : blob.length < 9
  · simp [hshort]
  by_cases hmod : blob.length % fieldElementBytes ≠ 0
  · simp [hshort, hmod]
  simp only [hshort, if_false, hmod, mapList_byteAt (Nat.le_of_not_lt hshort), Outcome.ok_bind,
    mapList_chunkData]
  split
  · exact .inr ⟨_, rfl⟩
  · split
    · exact .inr ⟨_, rfl⟩
    · exact .inl ⟨_, rfl⟩

/-! ## Retrieval -/

/-- The archiver's answer to the synchronizer, once its polling has ended. -/
def archivedBlobs (stored : List StoredBlob) (versionedHashes : List B256) : Fetch (List HeapBlob) :=
  match getBlobsResponse stored versionedHashes with
  | .ok blobs => .ok blobs
  | .error _ => .err (.node "archived blobs")

/-- The walk over the commitments: each one whose hash was asked for takes the next blob. The
hash map is an association list with the latest entry first. -/
def assignBlobs (versionedHashes : List B256) :
    List B256 → List HeapBlob → List (B256 × HeapBlob) → Fetch (List (B256 × HeapBlob))
  | [], _, map => pure map
  | vh :: rest, blobs, map =>
    if vh ∈ versionedHashes then
      match blobs with
      | [] => .panic "not empty"
      | blob :: blobs => assignBlobs versionedHashes rest blobs ((vh, blob) :: map)
    else assignBlobs versionedHashes rest blobs map

def getBlobs (archiver : List B256 → Fetch (List HeapBlob)) (commitments versionedHashes : List B256) :
    Fetch (List (B256 × HeapBlob)) := do
  let blobs ← archiver versionedHashes
  if blobs.length ≠ versionedHashes.length then
    .err (.other s!"Fetched {versionedHashes.length} blobs, but got {blobs.length}")
  else assignBlobs versionedHashes commitments blobs []

/-- One blob of a target transaction: its index in the block and its bytes, or why it did not
decode. -/
def targetBlob (commitments : List B256) (blobs : List (B256 × HeapBlob)) (vh : B256) :
    Fetch (Except String (Nat × Bytes)) :=
  match commitments.findIdx? (fun v => v = vh), blobs.lookup vh with
  | none, _ => .panic "vh exists"
  | some _, none => .panic "no entry found for key"
  | some index, some blob => match decodeSimpleBlob blob with
    | .ok bytes => pure (.ok (index, bytes))
    | .err e => pure (.error e)
    | .panic m => .panic m

def targetBlobTx (commitments : List B256) (blobs : List (B256 × HeapBlob)) (tx : TargetTxHashes) :
    Fetch TargetBlobTx := do
  let bs ← Outcome.mapList (targetBlob commitments blobs) tx.versionedHashes
  pure ⟨beNat tx.txHash, bs⟩

namespace CanonicalPayload

def commitmentHashes (p : CanonicalPayload) : List B256 := p.kzgBlobCommitments.map Prod.fst

def targetHashes (p : CanonicalPayload) : List B256 := p.targetBlobTxs.flatMap (·.versionedHashes)

/-- `fetch_target_blobs`. -/
def fetchTargetBlobs {V : Type} (archiver : List B256 → Fetch (List HeapBlob))
    (p : CanonicalPayload) : Fetch (List (TargetTx V Bytes)) :=
  if p.targetBlobTxs = [] then pure []
  else do
    let blobs ← getBlobs archiver p.commitmentHashes p.targetHashes
    let txs ← Outcome.mapList (targetBlobTx p.commitmentHashes blobs) p.targetBlobTxs
    pure (Synchronizer.fetchTargetBlobs txs)

/-- What the retrieval is for: for each blob of a target transaction the bytes of the blob
with its hash, or the decode error of just that blob. -/
def decoded (p : CanonicalPayload) (blobOf : B256 → HeapBlob) (vh : B256) :
    Except String (Nat × Bytes) :=
  match decodeSimpleBlob (blobOf vh) with
  | .ok bytes => .ok (p.commitmentHashes.findIdx (fun v => v = vh), bytes)
  | .err e => .error e
  | .panic m => .error m

def expected {V : Type} (p : CanonicalPayload) (blobOf : B256 → HeapBlob) : List (TargetTx V Bytes) :=
  Synchronizer.fetchTargetBlobs (p.targetBlobTxs.map fun tx =>
    ⟨beNat tx.txHash, tx.versionedHashes.map (p.decoded blobOf)⟩)

end CanonicalPayload

/-! ## Which blocks can be retrieved -/

theorem assignBlobs_ok {hashes : List B256} (blobOf : B256 → HeapBlob) (commitments : List B256)
    (map : List (B256 × HeapBlob)) :
    assignBlobs hashes commitments ((commitments.filter (· ∈ hashes)).map blobOf) map =
      .ok (((commitments.filter (· ∈ hashes)).map fun v => (v, blobOf v)).reverse ++ map) := by
  induction commitments generalizing map with
  | nil => rfl
  | cons vh rest ih =>
    by_cases hvh : vh ∈ hashes
    · simp [assignBlobs, hvh, ih]
    · simp [assignBlobs, hvh, ih]

/-- A repeated hash takes one blob too many. -/
theorem assignBlobs_panic {hashes commitments : List B256} {blobs : List HeapBlob}
    (h : blobs.length < (commitments.filter (· ∈ hashes)).length) (map : List (B256 × HeapBlob)) :
    assignBlobs hashes commitments blobs map = .panic "not empty" := by
  induction commitments generalizing blobs map with
  | nil => simp at h
  | cons vh rest ih =>
    by_cases hvh : vh ∈ hashes
    · cases blobs with
      | nil => simp [assignBlobs, hvh]
      | cons blob blobs =>
        simp only [List.filter_cons, hvh, decide_true, if_true, List.length_cons] at h
        simp only [assignBlobs, hvh, if_true]
        exact ih (by omega) _
    · simp only [List.filter_cons, hvh, decide_false, Bool.false_eq_true, if_false] at h
      simp only [assignBlobs, hvh, if_false]
      exact ih h map

theorem lookup_assigned {blobOf : B256 → HeapBlob} {vs : List B256} {vh : B256} (h : vh ∈ vs) :
    (vs.map fun v => (v, blobOf v)).reverse.lookup vh = some (blobOf vh) := by
  rw [← List.map_reverse]
  have hmem : vh ∈ vs.reverse := List.mem_reverse.mpr h
  generalize vs.reverse = us at hmem
  induction us with
  | nil => cases hmem
  | cons v us ih =>
    by_cases hv : vh = v
    · simp [hv]
    · rcases List.mem_cons.mp hmem with rfl | hmem
      · exact absurd rfl hv
      · have hbeq : (vh == v) = false := by simpa using hv
        simp [List.lookup_cons, hbeq, ih hmem]

/-- The block directory of the committing block: blobs under their first position, those of
every target hash among them. -/
structure Archived (stored : List StoredBlob) (commitments targets : List B256)
    (blobOf : B256 → HeapBlob) : Prop where
  entries : ∀ s ∈ stored, s = Source.entry commitments blobOf s.versionedHash
  complete : ∀ vh ∈ targets, ∃ s ∈ stored, s.versionedHash = vh

theorem Archived.find {stored : List StoredBlob} {commitments targets : List B256}
    {blobOf : B256 → HeapBlob} (h : Archived stored commitments targets blobOf) {vh : B256}
    (hvh : vh ∈ targets) : (stored.find? fun b => b.versionedHash = vh) =
      some (Source.entry commitments blobOf vh) := by
  obtain ⟨s, hs, heq⟩ := h.complete vh hvh
  cases hf : stored.find? fun b => b.versionedHash = vh with
  | none =>
    have hnone := List.find?_eq_none.mp hf s hs
    simp [heq] at hnone
  | some s' =>
    have hs' := h.entries s' (List.mem_of_find?_eq_some hf)
    have hvh' : s'.versionedHash = vh := by simpa using List.find?_some hf
    rw [hs', hvh']

/-- Over a sublist without repetitions, first positions increase. -/
theorem findIdx_pairwise {commitments : List B256} {p : B256 → Bool}
    (h : ∀ v, p v = true → v ∈ commitments → commitments.count v = 1) :
    (commitments.filter p).Pairwise fun a b =>
      (commitments.findIdx fun v => v = a) ≤ commitments.findIdx fun v => v = b := by
  induction commitments with
  | nil => simp
  | cons x rest ih =>
    have hshift : ∀ v, v ≠ x → ((x :: rest).findIdx fun u => u = v) =
        (rest.findIdx fun u => u = v) + 1 := by
      intro v hv
      simp [List.findIdx_cons, hv.symm]
    have hrest : ∀ v, p v = true → v ∈ rest → v ≠ x := by
      intro v hpv hv hvx
      have hone := h v hpv (List.mem_cons_of_mem x hv)
      have hpos := List.count_pos_iff.mpr hv
      rw [← hvx, List.count_cons_self] at hone
      omega
    have hcount : ∀ v, p v = true → v ∈ rest → rest.count v = 1 := by
      intro v hpv hv
      have hone := h v hpv (List.mem_cons_of_mem x hv)
      rwa [List.count_cons_of_ne (hrest v hpv hv).symm] at hone
    have htail : (rest.filter p).Pairwise fun a b =>
        ((x :: rest).findIdx fun v => v = a) ≤ (x :: rest).findIdx fun v => v = b := by
      refine (ih hcount).imp_of_mem fun {a b} ha hb hab => ?_
      have ha' := List.mem_filter.mp ha
      have hb' := List.mem_filter.mp hb
      rw [hshift a (hrest a ha'.2 ha'.1), hshift b (hrest b hb'.2 hb'.1)]
      omega
    by_cases hpx : p x = true
    · rw [List.filter_cons_of_pos hpx]
      refine List.pairwise_cons.mpr ⟨?_, htail⟩
      intro b _
      simp [List.findIdx_cons]
    · rw [List.filter_cons_of_neg hpx]
      exact htail

/-- The archiver answers with one blob for each distinct target hash. -/
theorem archivedBlobs_length {stored : List StoredBlob} {commitments targets : List B256}
    {blobOf : B256 → HeapBlob} (h : Archived stored commitments targets blobOf)
    (hne : targets ≠ []) : ∃ blobs, archivedBlobs stored targets = .ok blobs ∧
      blobs.length = (dedup (targets.insertionSort (· ≤ ·))).length := by
  have hfind := findBlobs_of_entry (dedup (targets.insertionSort (· ≤ ·)))
    fun vh hvh => h.find (mem_sorted_hashes.mp hvh)
  simp only [archivedBlobs, getBlobsResponse, hne, if_false, hfind, Outcome.ok.injEq,
    exists_eq_left']
  rw [List.length_map, List.length_insertionSort, List.length_map]

/-- Without repetitions, the blobs come in the order of the commitments. -/
theorem archivedBlobs_order {stored : List StoredBlob} {commitments targets : List B256}
    {blobOf : B256 → HeapBlob} (h : Archived stored commitments targets blobOf)
    (hne : targets ≠ []) (hsub : targets.Sublist commitments)
    (hcount : ∀ vh ∈ targets, commitments.count vh = 1) :
    archivedBlobs stored targets = .ok ((commitments.filter (· ∈ targets)).map blobOf) := by
  have hfind := findBlobs_of_entry (dedup (targets.insertionSort (· ≤ ·)))
    fun vh hvh => h.find (mem_sorted_hashes.mp hvh)
  have hperm : (dedup (targets.insertionSort (· ≤ ·))).Perm (commitments.filter (· ∈ targets)) := by
    rw [List.perm_ext_iff_of_nodup (sorted_hashes_nodup targets) (filter_nodup_of_count hcount)]
    intro vh
    rw [mem_sorted_hashes, List.mem_filter, decide_eq_true_eq]
    exact ⟨fun hvh => ⟨hsub.subset hvh, hvh⟩, fun hvh => hvh.2⟩
  have hsorted : ((dedup (targets.insertionSort (· ≤ ·))).map
      (Source.entry commitments blobOf)).insertionSort (fun a b => a.index ≤ b.index) =
      (commitments.filter (· ∈ targets)).map (Source.entry commitments blobOf) := by
    refine List.Perm.eq_of_pairwise ?_ (List.pairwise_insertionSort _ _) ?_
      ((List.perm_insertionSort _ _).trans (hperm.map _))
    · intro a b ha hb hab hba
      rw [List.mem_insertionSort] at ha
      obtain ⟨u, hu, rfl⟩ := List.mem_map.mp ha
      obtain ⟨v, hv, rfl⟩ := List.mem_map.mp hb
      have hidx : (commitments.findIdx fun w => w = u) = commitments.findIdx fun w => w = v :=
        le_antisymm hab hba
      have hu' := hsub.subset (mem_sorted_hashes.mp hu)
      have hlt : (commitments.findIdx fun w => w = u) < commitments.length :=
        List.findIdx_lt_length.mpr ⟨u, hu', by simp⟩
      have hfirst := List.findIdx_getElem (w := hlt)
      have hsecond := List.findIdx_getElem (w := hidx ▸ hlt)
      simp only [decide_eq_true_eq] at hfirst hsecond
      have huv : u = v := by
        rw [← hfirst, ← hsecond]
        simp only [hidx]
      rw [huv]
    · rw [List.pairwise_map]
      exact findIdx_pairwise fun v hv _ => hcount v (by simpa using hv)
  simp only [archivedBlobs, getBlobsResponse, hne, if_false, hfind, hsorted, List.map_map]
  rfl

namespace CanonicalPayload

variable {p : CanonicalPayload} {stored : List StoredBlob} {blobOf : B256 → HeapBlob}

theorem targetBlob_assigned {commitments us : List B256} {vh : B256} (hc : vh ∈ commitments)
    (hus : vh ∈ us) (hp : p.commitmentHashes = commitments) :
    targetBlob commitments ((us.map fun v => (v, blobOf v)).reverse ++ []) vh =
      .ok (p.decoded blobOf vh) := by
  have hidx : (commitments.findIdx? fun v => v = vh) =
      some (commitments.findIdx fun v => v = vh) := by
    rw [List.findIdx?_eq_some_iff_findIdx_eq]
    exact ⟨List.findIdx_lt_length.mpr ⟨vh, hc, by simp⟩, rfl⟩
  unfold targetBlob decoded
  rw [List.append_nil, lookup_assigned hus, hidx, hp]
  rcases decodeSimpleBlob_returns (blobOf vh) with ⟨bytes, hbytes⟩ | ⟨e, he⟩
  · simp [hbytes]
  · simp [he]

/-- Without repeated target hashes the retrieval succeeds. -/
theorem fetchTargetBlobs_ok {V : Type}
    (harchived : Archived stored p.commitmentHashes p.targetHashes blobOf)
    (hne : ∀ tx ∈ p.targetBlobTxs, tx.versionedHashes ≠ [])
    (hsub : p.targetHashes.Sublist p.commitmentHashes)
    (hcount : ∀ vh ∈ p.targetHashes, p.commitmentHashes.count vh = 1) :
    p.fetchTargetBlobs (archivedBlobs stored) = .ok (p.expected blobOf : List (TargetTx V Bytes)) := by
  unfold fetchTargetBlobs
  by_cases hnone : p.targetBlobTxs = []
  · simp [hnone, expected, Synchronizer.fetchTargetBlobs]
  have htargets : p.targetHashes ≠ [] := by
    obtain ⟨tx, hmem⟩ := List.exists_mem_of_ne_nil _ hnone
    obtain ⟨vh, hvh⟩ := List.exists_mem_of_ne_nil _ (hne tx hmem)
    exact List.ne_nil_of_mem (List.mem_flatMap.mpr ⟨tx, hmem, hvh⟩)
  have hblobs := archivedBlobs_order harchived htargets hsub hcount
  have hfilter := eq_filter_of_count hsub hcount
  have hlen : ((p.commitmentHashes.filter (· ∈ p.targetHashes)).map blobOf).length =
      p.targetHashes.length := by
    rw [List.length_map, ← hfilter]
  have hget : getBlobs (archivedBlobs stored) p.commitmentHashes p.targetHashes =
      .ok (((p.commitmentHashes.filter (· ∈ p.targetHashes)).map
        fun v => (v, blobOf v)).reverse ++ []) := by
    unfold getBlobs
    simp only [hblobs, Outcome.ok_bind, hlen, ne_eq, not_true, if_false]
    exact assignBlobs_ok blobOf p.commitmentHashes []
  have htxs : Outcome.mapList (targetBlobTx p.commitmentHashes
      (((p.commitmentHashes.filter (· ∈ p.targetHashes)).map fun v => (v, blobOf v)).reverse ++ []))
      p.targetBlobTxs = .ok (p.targetBlobTxs.map fun tx =>
        ⟨beNat tx.txHash, tx.versionedHashes.map (p.decoded blobOf)⟩) := by
    rw [Outcome.mapList_eq_ok, List.forall₂_map_right_iff, List.forall₂_same]
    intro tx htx
    have hbs : Outcome.mapList (targetBlob p.commitmentHashes
        (((p.commitmentHashes.filter (· ∈ p.targetHashes)).map fun v => (v, blobOf v)).reverse ++ []))
        tx.versionedHashes = .ok (tx.versionedHashes.map (p.decoded blobOf)) := by
      rw [Outcome.mapList_eq_ok, List.forall₂_map_right_iff, List.forall₂_same]
      intro vh hvh
      have hmem : vh ∈ p.targetHashes := List.mem_flatMap.mpr ⟨tx, htx, hvh⟩
      have hc := hsub.subset hmem
      exact targetBlob_assigned hc (List.mem_filter.mpr ⟨hc, by simpa using hmem⟩) rfl
    rw [targetBlobTx, hbs]
    rfl
  simp only [hnone, if_false, hget, Outcome.ok_bind, htxs]
  rfl

/-- A target hash that the block repeats stops the retrieval. -/
theorem fetchTargetBlobs_stops {V : Type}
    (harchived : Archived stored p.commitmentHashes p.targetHashes blobOf)
    (hsub : p.targetHashes.Sublist p.commitmentHashes) {vh : B256} (hvh : vh ∈ p.targetHashes)
    (hcount : p.commitmentHashes.count vh ≠ 1) :
    (∃ m, p.fetchTargetBlobs (archivedBlobs stored) =
      (.err (.other m) : Fetch (List (TargetTx V Bytes)))) ∨
    ∃ m, p.fetchTargetBlobs (archivedBlobs stored) =
      (.panic m : Fetch (List (TargetTx V Bytes))) := by
  have htargets : p.targetHashes ≠ [] := List.ne_nil_of_mem hvh
  have hnone : p.targetBlobTxs ≠ [] := by
    intro h
    simp [targetHashes, h] at htargets
  obtain ⟨blobs, hblobs, hlen⟩ := archivedBlobs_length harchived htargets
  unfold fetchTargetBlobs getBlobs
  simp only [hnone, if_false, hblobs, Outcome.ok_bind]
  by_cases heq : blobs.length = p.targetHashes.length
  · right
    have hlt : blobs.length < (p.commitmentHashes.filter (· ∈ p.targetHashes)).length := by
      have hself : p.targetHashes.Sublist (p.commitmentHashes.filter (· ∈ p.targetHashes)) := by
        have h := hsub.filter (· ∈ p.targetHashes)
        rwa [List.filter_eq_self.mpr (by simp)] at h
      rcases Nat.lt_or_ge blobs.length (p.commitmentHashes.filter (· ∈ p.targetHashes)).length with
        hlt | hge
      · exact hlt
      -- As many target hashes as distinct ones, so no repetition is left anywhere.
      have hsame := hself.eq_of_length_le (by omega)
      have hnodup : p.targetHashes.Nodup := by
        have hsubperm := List.subperm_of_subset (sorted_hashes_nodup p.targetHashes)
          fun v hv => mem_sorted_hashes.mp hv
        have hperm := hsubperm.perm_of_length_le (by omega)
        exact hperm.nodup_iff.mp (sorted_hashes_nodup p.targetHashes)
      have hle := List.nodup_iff_count_le_one.mp hnodup vh
      rw [hsame, List.count_filter (by simpa using hvh)] at hle
      have hpos := List.count_pos_iff.mpr (hsub.subset hvh)
      omega
    simp only [heq, ne_eq, not_true, if_false, assignBlobs_panic hlt, Outcome.panic_bind]
    exact ⟨_, rfl⟩
  · left
    simp only [heq, ne_eq, not_false_eq_true, if_true, Outcome.err_bind]
    exact ⟨_, rfl⟩

/-- An execution block and the beacon block that committed to it, as consensus allows them
and as both services read them. -/
structure Committed (net : Network) (src : Source) (b : Block) (txs : List Transaction)
    (p : CanonicalPayload) : Prop where
  hashes : (txs.flatMap fun tx => tx.blobVersionedHashes.getD []) = src.commitmentHashes b
  blobs : ∀ tx ∈ txs, tx.blobVersionedHashes ≠ some []
  commitments : p.kzgBlobCommitments = net.commitments b
  targets : p.targetBlobTxs = net.targetTxHashes txs
  address : src.filterAddress = net.toAddress
  versioned : src.kzgToVersionedHash = net.kzgToVersionedHash

theorem targetHashes_eq (net : Network) (src : Source) (haddr : src.filterAddress = net.toAddress)
    (txs : List Transaction) :
    (net.targetTxHashes txs).flatMap (·.versionedHashes) = src.filteredHashes txs := by
  unfold Network.targetTxHashes Source.filteredHashes
  induction txs with
  | nil => rfl
  | cons tx txs ih =>
    rw [haddr] at ih ⊢
    by_cases hto : tx.to_ = some net.toAddress
    · cases hblobs : tx.blobVersionedHashes with
      | none => simpa [List.filter_cons, hto, hblobs] using ih
      | some hs => simpa [List.filter_cons, hto, hblobs] using ih
    · simpa [List.filter_cons, hto] using ih

theorem Committed.commitmentHashes_eq {net : Network} {src : Source} {b : Block}
    {txs : List Transaction} (h : Committed net src b txs p) :
    p.commitmentHashes = src.commitmentHashes b := by
  unfold CanonicalPayload.commitmentHashes Source.commitmentHashes
  rw [h.commitments, h.versioned, Network.commitments, List.map_map]
  rfl

theorem Committed.targetHashes_filtered {net : Network} {src : Source} {b : Block}
    {txs : List Transaction} (h : Committed net src b txs p) :
    p.targetHashes = src.filteredHashes txs := by
  unfold targetHashes
  rw [h.targets, targetHashes_eq net src h.address]

theorem Committed.nonempty {net : Network} {src : Source} {b : Block} {txs : List Transaction}
    (h : Committed net src b txs p) : ∀ tx ∈ p.targetBlobTxs, tx.versionedHashes ≠ [] := by
  intro t ht hnil
  rw [h.targets] at ht
  obtain ⟨tx, htx, hmap⟩ := List.mem_filterMap.mp ht
  obtain ⟨hs, hblobs, rfl⟩ := Option.map_eq_some_iff.mp hmap
  have hne := h.blobs tx (List.mem_of_mem_filter htx)
  have hempty : hs = [] := hnil
  rw [hblobs, hempty] at hne
  exact hne rfl

/-- The synchronizer retrieves the blobs of an archived block, and the archiver completes the
block, exactly when the block repeats no target hash. -/
theorem blob_retrieval_iff {V : Type} (net : Network) (src : Source) (root : B256) (b : Block)
    (block : RpcBlock) (txs : List Transaction) (p : CanonicalPayload) (blobOf : B256 → HeapBlob)
    (stored : List StoredBlob) (hblock : Committed net src b txs p)
    (hrpc : src.clients.rpcBlock b.executionPayload.blockHash .full = some block)
    (htxs : block.transactions = some txs)
    (hanswers : src.Answers root (src.commitmentHashes b) blobOf)
    (harchived : Archived stored p.commitmentHashes p.targetHashes blobOf) :
    (p.fetchTargetBlobs (archivedBlobs stored) =
        .ok (p.expected blobOf : List (TargetTx V Bytes)) ∧
      ∀ disk, ∃ added, src.processPayloadBlobs disk root b = .ok added) ↔
    ∀ vh ∈ p.targetHashes, p.commitmentHashes.count vh = 1 := by
  have hsub : p.targetHashes.Sublist p.commitmentHashes := by
    rw [hblock.commitmentHashes_eq, hblock.targetHashes_filtered, ← hblock.hashes]
    exact Source.filteredHashes_sublist txs
  constructor
  · rintro ⟨hfetch, -⟩ vh hvh
    by_contra hcount
    rcases fetchTargetBlobs_stops harchived hsub hvh hcount with ⟨m, hm⟩ | ⟨m, hm⟩
    · rw [hm] at hfetch
      cases hfetch
    · rw [hm] at hfetch
      cases hfetch
  · intro hcount
    refine ⟨fetchTargetBlobs_ok harchived hblock.nonempty hsub hcount, ?_⟩
    rw [hblock.commitmentHashes_eq, hblock.targetHashes_filtered] at hcount
    intro disk
    exact ⟨_, Source.processPayloadBlobs_complete hrpc htxs hblock.hashes hanswers hcount disk⟩

section Samples

def zeroBlob : HeapBlob := List.replicate 131072 0

def sampleNetwork : Network := ⟨⟨fun _ => none, fun _ _ => none⟩, id, [7]⟩

/-- A beacon node with the transactions `txs` in every block. -/
def sampleSource (txs : List Transaction) (commitments : List B256) : Source where
  clients := ⟨fun _ => none, fun _ _ => some ⟨1, 12, some txs⟩⟩
  beaconBlobs _ hs := some ((commitments.filter (· ∈ hs)).map fun _ => zeroBlob)
  kzgToVersionedHash := id
  filterAddress := [7]

def samplePayload (txs : List Transaction) (commitments : List B256) : CanonicalPayload :=
  ⟨[1], ⟨1, 12, [2]⟩, sampleNetwork.commitments ⟨commitments, .embedded [2], [0], 3⟩,
    sampleNetwork.targetTxHashes txs⟩

/-- One target transaction that carries a blob twice, or carries a blob of a foreign one. -/
def repeatedTxs : List Transaction := [⟨[5], some [7], some [[9], [9]]⟩]

def foreignTxs : List Transaction := [⟨[5], some [8], some [[9]]⟩, ⟨[6], some [7], some [[9]]⟩]

/-- A blob in the block twice stops the loop: an error that is no node error when both are
target blobs, a panic when one is foreign. -/
theorem repeated_blob_stops_sync :
    (Committed sampleNetwork (sampleSource repeatedTxs [[9], [9]])
        ⟨[[9], [9]], .embedded [2], [0], 3⟩ repeatedTxs (samplePayload repeatedTxs [[9], [9]]) ∧
      Archived [⟨0, [9], zeroBlob⟩] [[9], [9]] [[9], [9]] (fun _ => zeroBlob) ∧
      (samplePayload repeatedTxs [[9], [9]]).fetchTargetBlobs
          (archivedBlobs [⟨0, [9], zeroBlob⟩]) =
        (.err (.other "Fetched 2 blobs, but got 1") : Fetch (List (TargetTx Nat Bytes)))) ∧
    Committed sampleNetwork (sampleSource foreignTxs [[9], [9]])
        ⟨[[9], [9]], .embedded [2], [0], 3⟩ foreignTxs (samplePayload foreignTxs [[9], [9]]) ∧
      Archived [⟨0, [9], zeroBlob⟩] [[9], [9]] [[9]] (fun _ => zeroBlob) ∧
      (samplePayload foreignTxs [[9], [9]]).fetchTargetBlobs
          (archivedBlobs [⟨0, [9], zeroBlob⟩]) =
        (.panic "not empty" : Fetch (List (TargetTx Nat Bytes))) := by
  refine ⟨⟨⟨rfl, by decide, rfl, rfl, rfl, rfl⟩, ⟨?_, ?_⟩, rfl⟩,
    ⟨rfl, by decide, rfl, rfl, rfl, rfl⟩, ⟨?_, ?_⟩, rfl⟩ <;>
      simp [Source.entry, List.findIdx_cons]

/-- A foreign blob beside a target blob. -/
def distinctTxs : List Transaction := [⟨[5], some [8], some [[9]]⟩, ⟨[6], some [7], some [[10]]⟩]

theorem blob_retrieval_iff_distinct :
    (samplePayload distinctTxs [[9], [10]]).fetchTargetBlobs
        (archivedBlobs [⟨1, [10], zeroBlob⟩]) =
      .ok ((samplePayload distinctTxs [[9], [10]]).expected (fun _ => zeroBlob) :
        List (TargetTx Nat Bytes)) := by
  have hanswers : (sampleSource distinctTxs [[9], [10]]).Answers [1]
      ((sampleSource distinctTxs [[9], [10]]).commitmentHashes
        ⟨[[9], [10]], .embedded [2], [0], 3⟩) (fun _ => zeroBlob) := fun _ _ _ => rfl
  refine ((blob_retrieval_iff sampleNetwork (sampleSource distinctTxs [[9], [10]]) [1]
    ⟨[[9], [10]], .embedded [2], [0], 3⟩ ⟨1, 12, some distinctTxs⟩ distinctTxs
    (samplePayload distinctTxs [[9], [10]]) (fun _ => zeroBlob) [⟨1, [10], zeroBlob⟩]
    ⟨rfl, by decide, rfl, rfl, rfl, rfl⟩ rfl rfl hanswers ⟨?_, ?_⟩).mpr ?_).1
  · intro s hs
    rw [List.mem_singleton.mp hs]
    rfl
  · intro vh hvh
    exact ⟨_, List.mem_singleton_self _, (List.mem_singleton.mp hvh).symm⟩
  · intro vh hvh
    rw [List.mem_singleton.mp hvh]
    rfl

end Samples

end CanonicalPayload

end DigitalObjects.Synchronizer
