import DigitalObjects.Archiver.Progress
set_option autoImplicit false

/-!
A block is fetched and stored above all others, with failures and crashes anywhere. Once its header
has its name, all blobs of the payload it settles are there.
-/

namespace DigitalObjects.Archiver

open Lib EthClients FileTree Routine

variable {net : Network} {t t' t₀ : Tree} {h k : BlockHeader} {q : Path} {α β : Type} {P : Prop}

/-! ## Fetching -/

/-- The call does not end like a slot below zero. -/
def Calm (o : Fetch α) : Prop := ∀ m, o = .panic m → m ≠ "attempt to subtract with overflow"

theorem Calm.bind {o : Fetch α} {f : α → Fetch β} (ho : Calm o) (hf : ∀ a, o = .ok a → Calm (f a)) : Calm (o >>= f) := by
  cases o with
  | ok a => exact hf a rfl
  | err e => simp [Calm]
  | panic m => exact fun m' hm => by cases hm; exact ho m rfl

theorem calm_ok (a : α) : Calm (.ok a : Fetch α) := by simp [Calm]

theorem calm_err (e : FetchError) : Calm (.err e : Fetch α) := by simp [Calm]

theorem calm_fetchOnceAvailable (what : String) (found : Option α) : Calm (fetchOnceAvailable what found) := by
  cases found with
  | none => exact calm_err _
  | some a => exact calm_ok a

theorem calm_require {p : Prop} [Decidable p] {message : String} (h : message ≠ "attempt to subtract with overflow") :
    Calm (Outcome.require p message) := by
  unfold Outcome.require
  split
  · exact calm_ok _
  · intro m hm
    cases hm
    exact h

theorem calm_mapList {f : α → Fetch β} (h : ∀ a, Calm (f a)) (as : List α) : Calm (Outcome.mapList f as) := by
  induction as with
  | nil => exact calm_ok []
  | cons a as ih =>
    rw [Outcome.mapList]
    exact Calm.bind (h a) fun b _ => Calm.bind ih fun bs _ => calm_ok _

theorem calm_blobIndex (commitments : List B256) (vh : B256) : Calm (Source.blobIndex commitments vh) := by
  unfold Source.blobIndex
  split
  · exact calm_ok _
  · intro m hm
    cases hm
    decide

namespace Source

theorem calm_getBlobs (src : Source) (stored : List StoredBlob) (root : B256) (commitments hashes : List B256) :
    Calm (src.getBlobs stored root commitments hashes) := by
  unfold getBlobs
  dsimp only
  split
  · exact calm_ok _
  · refine Calm.bind (calm_fetchOnceAvailable _ _) fun blobs _ => ?_
    refine Calm.bind (calm_require (by decide)) fun _ _ => ?_
    refine Calm.bind (calm_mapList (fun p => ?_) _) fun _ _ => calm_ok _
    exact Calm.bind (calm_blobIndex _ _) fun _ _ => calm_ok _

theorem calm_processPayloadBlobs (src : Source) (stored : List StoredBlob) (root : B256) (b : Block) :
    Calm (src.processPayloadBlobs stored root b) := by
  unfold processPayloadBlobs
  dsimp only
  split
  · exact calm_ok _
  · refine Calm.bind (calm_fetchOnceAvailable _ _) fun block _ => ?_
    split
    · exact calm_err _
    · split
      · exact calm_ok _
      · refine Calm.bind (calm_getBlobs _ _ _ _ _) fun _ _ => ?_
        exact Calm.bind (calm_require (by decide)) fun _ _ => calm_ok _

end Source

/-- Blobs of hashes that stand in the order of the commitments come in the order asked for. -/
theorem zip_answers {commitments missing : List B256} {blobOf : B256 → HeapBlob} {blobs : List HeapBlob}
    (hsub : missing.Sublist commitments) (hblobs : blobs = (commitments.filter (· ∈ missing)).map blobOf)
    (hlen : blobs.length = missing.length) : missing.zip blobs = missing.map fun vh => (vh, blobOf vh) := by
  have hfilter : missing.filter (· ∈ missing) = missing := List.filter_eq_self.mpr fun vh hvh => by simpa using hvh
  have hsub' : missing.Sublist (commitments.filter (· ∈ missing)) := by
    have hboth := hsub.filter fun v => decide (v ∈ missing)
    rwa [hfilter] at hboth
  have heq : missing = commitments.filter (· ∈ missing) := by
    refine hsub'.eq_of_length ?_
    rw [← hlen, hblobs, List.length_map]
  rw [hblobs, ← heq, List.zip_map_right]
  have hzip : missing.zip missing = missing.map fun vh => (vh, vh) := by
    rw [List.zip_eq_zipWith, List.zipWith_self]
  rw [hzip, List.map_map]
  rfl

/-- The hashes of a payload's filtered transactions stand in the order of the commitments. -/
theorem Network.filteredHashes_sublist {r : B256} {b : Block} {x : RpcBlock} {txs : List Transaction}
    (hb : net.block r = some b) (hx : net.execution b.executionPayload.blockHash = some x)
    (htxs : x.transactions = some txs) :
    (net.filteredHashes txs).Sublist (b.blobKzgCommitments.map net.kzgToVersionedHash) := by
  rw [← net.commitments r b x txs hb hx htxs]
  unfold filteredHashes
  exact List.Sublist.flatMap List.filter_sublist _

namespace Replies

variable (replies : Replies net)

theorem filteredHashes_eq (txs : List Transaction) : replies.source.filteredHashes txs = net.filteredHashes txs := rfl

theorem getBlobs_fits {r : B256} {b : Block} (hb : net.block r = some b) {stored result added : List StoredBlob}
    {hashes : List B256} (hsub : hashes.Sublist (b.blobKzgCommitments.map net.kzgToVersionedHash))
    (hok : replies.source.getBlobs stored r (b.blobKzgCommitments.map net.kzgToVersionedHash) hashes = .ok (result, added)) :
    (∀ s ∈ added, s.Fits net r) ∧
      ∀ vh ∈ hashes, (∃ s ∈ stored, s.versionedHash = vh) ∨ ∃ s ∈ added, s.versionedHash = vh := by
  have hfound : ∀ vh, (stored.find? fun b => b.versionedHash = vh).isNone = false → ∃ s ∈ stored, s.versionedHash = vh := by
    intro vh hvh
    cases hfind : stored.find? fun b => b.versionedHash = vh with
    | none => simp [hfind] at hvh
    | some s => exact ⟨s, List.mem_of_find?_eq_some hfind, by simpa using List.find?_some hfind⟩
  unfold Source.getBlobs at hok
  dsimp only at hok
  split at hok
  · rename_i hnone
    cases hok
    refine ⟨by simp, fun vh hvh => .inl (hfound vh ?_)⟩
    have hnot := List.filter_eq_nil_iff.mp hnone vh hvh
    simpa using hnot
  · obtain ⟨blobs, hblobs, hok⟩ := Outcome.bind_eq_ok hok
    obtain ⟨hlen, -, hok⟩ := Outcome.bind_eq_ok hok
    obtain ⟨added', hadded, hok⟩ := Outcome.bind_eq_ok hok
    cases hok
    have hanswer : replies.beaconBlobs r (hashes.filter fun vh =>
        (stored.find? fun b => b.versionedHash = vh).isNone) = some blobs := by
      unfold fetchOnceAvailable at hblobs
      split at hblobs
      · rename_i a ha
        cases hblobs
        exact ha
      · cases hblobs
    have hzip := zip_answers (List.filter_sublist.trans hsub)
      (replies.beaconBlobs_eq r b _ blobs hb hanswer) hlen.down
    rw [hzip] at hadded
    have hmem := Outcome.mapList_eq_ok.mp hadded
    rw [List.forall₂_map_left_iff] at hmem
    have hentry : ∀ vh s, (do
        let i ← Source.blobIndex (b.blobKzgCommitments.map net.kzgToVersionedHash) vh
        pure (⟨i, vh, net.blobOf vh⟩ : StoredBlob)) = (.ok s : Fetch StoredBlob) →
        s.versionedHash = vh ∧ s.Fits net r := by
      intro vh s hs
      obtain ⟨i, hi, hs⟩ := Outcome.bind_eq_ok hs
      cases hs
      refine ⟨rfl, b, hb, ?_, rfl⟩
      unfold Source.blobIndex at hi
      split at hi
      · rename_i j hj
        cases hi
        exact (List.findIdx?_eq_some_iff_findIdx_eq.mp hj).2.symm
      · cases hi
    constructor
    · intro s hs
      obtain ⟨vh, -, hvh⟩ := forall₂_mem_right hmem hs
      exact (hentry vh s hvh).2
    · intro vh hvh
      by_cases hstored : (stored.find? fun b => b.versionedHash = vh).isNone = true
      · obtain ⟨s, hs, hvs⟩ := forall₂_mem_right hmem.flip (List.mem_filter.mpr ⟨hvh, hstored⟩)
        exact .inr ⟨s, hs, (hentry vh s hvs).1⟩
      · exact .inl (hfound vh (by simpa using hstored))

/-- What is added belongs to the block, and with what is there it is all that is wanted. -/
theorem processPayloadBlobs_fits {r : B256} {b : Block} (hb : net.block r = some b) {stored added : List StoredBlob}
    (hok : replies.source.processPayloadBlobs stored r b = .ok added) :
    (∀ s ∈ added, s.Fits net r) ∧
      ∀ vh, net.Wanted r vh → (∃ s ∈ stored, s.versionedHash = vh) ∨ ∃ s ∈ added, s.versionedHash = vh := by
  -- what is wanted is among the hashes of the execution block
  have hwanted : ∀ vh, net.Wanted r vh → ∃ x txs, net.execution b.executionPayload.blockHash = some x ∧
      x.transactions = some txs ∧ vh ∈ net.filteredHashes txs := by
    rintro vh ⟨b', x, txs, hb', hx, htxs, hvh⟩
    rw [hb, Option.some.injEq] at hb'
    subst hb'
    exact ⟨x, txs, hx, htxs, hvh⟩
  unfold Source.processPayloadBlobs at hok
  dsimp only at hok
  split at hok
  · rename_i hnone
    cases hok
    refine ⟨by simp, fun vh hvh => ?_⟩
    obtain ⟨x, txs, hx, htxs, hmem⟩ := hwanted vh hvh
    have hin := (net.filteredHashes_sublist hb hx htxs).subset hmem
    have hempty : b.blobKzgCommitments.map net.kzgToVersionedHash = [] := hnone
    rw [hempty] at hin
    cases hin
  · obtain ⟨block, hblock, hok⟩ := Outcome.bind_eq_ok hok
    have hexec : net.execution b.executionPayload.blockHash = some block := by
      unfold fetchOnceAvailable at hblock
      split at hblock
      · rename_i a ha
        cases hblock
        exact replies.rpcBlock_eq _ _ ha
      · cases hblock
    split at hok
    · cases hok
    · rename_i txs htxs
      have hwanted' : ∀ vh, net.Wanted r vh → vh ∈ net.filteredHashes txs := by
        intro vh hvh
        obtain ⟨x, txs', hx, htxs', hmem⟩ := hwanted vh hvh
        rw [hexec, Option.some.injEq] at hx
        subst hx
        rw [htxs, Option.some.injEq] at htxs'
        subst htxs'
        exact hmem
      split at hok
      · rename_i hnone
        cases hok
        refine ⟨by simp, fun vh hvh => ?_⟩
        have hin := hwanted' vh hvh
        rw [← replies.filteredHashes_eq, hnone] at hin
        cases hin
      · obtain ⟨⟨result, added'⟩, hget, hok⟩ := Outcome.bind_eq_ok hok
        obtain ⟨-, -, hok⟩ := Outcome.bind_eq_ok hok
        cases hok
        obtain ⟨hfits, hall⟩ := replies.getBlobs_fits hb (net.filteredHashes_sublist hb hexec htxs) hget
        exact ⟨hfits, fun vh hvh => hall vh (hwanted' vh hvh)⟩

end Replies

/-! ## Processing -/

theorem fetched_spec {A F : Tree → Prop} {o : Fetch α} (ho : Calm o) (hF : ∀ t, A t → F t) :
    Does A (Node.fetched o) (fun a t => o = .ok a ∧ A t) F := by
  cases o with
  | ok a => exact Does.ret fun t ht => ⟨rfl, ht⟩
  | err e => exact Does.throw trivial hF
  | panic m => exact Does.throw (ho m rfl) hF

/-- A blob of the list is a file of the directory. -/
theorem mem_loadBlobsDisk {r : B256} {s : StoredBlob} : s ∈ Store.loadBlobsDisk t r ↔
    t.lookup (.blob s.index s.versionedHash :: Store.rootDir r) = some (.file (.blob s.blob)) := by
  unfold Store.loadBlobsDisk
  rw [List.mem_insertionSort, List.mem_filterMap]
  constructor
  · rintro ⟨name, -, hname⟩
    unfold Store.blobFile at hname
    split at hname
    · split at hname
      · rename_i b hb
        cases hname
        exact hb
      · cases hname
    · cases hname
  · intro hs
    refine ⟨.blob s.index s.versionedHash, mem_children.mpr (by rw [hs]; simp), ?_⟩
    simp [Store.blobFile, hs]

theorem processPayloadBlobs_kept (replies : Replies net) {r : B256} {b : Block} (hb : net.block r = some b) :
    Does (Kept net h t₀) (Node.processPayloadBlobs replies.source r b)
      (fun _ t => Kept net h t₀ t ∧ Stored net t r) (Kept net h t₀) := by
  refine Does.get_bind fun t hk => ?_
  refine Does.bind (fetched_spec (F := Kept net h t₀) (Source.calm_processPayloadBlobs _ _ _ _)
    fun t' ht' => ht' ▸ hk) fun added => ?_
  refine Spec.of_state fun t' ht' => ?_
  obtain ⟨hok, rfl⟩ := ht'
  obtain ⟨hfits, hall⟩ := replies.processPayloadBlobs_fits hb hok
  have hstored : ∀ t, SameMarks t' t →
      (∀ s ∈ added, t.lookup (.blob s.index s.versionedHash :: Store.rootDir r) ≠ none) → Stored net t r := by
    intro t hmarks hadded vh hvh
    rcases hall vh hvh with ⟨s, hs, rfl⟩ | ⟨s, hs, rfl⟩
    · have hfile := mem_loadBlobsDisk.mp hs
      exact ⟨s.index, hmarks.blob r _ _ (by rw [hfile]; simp)⟩
    · exact ⟨s.index, hadded s hs⟩
  by_cases hnone : added = []
  · rw [if_pos hnone]
    refine Does.ret fun t ht => ?_
    subst ht
    exact ⟨hk, hstored t (SameMarks.refl t) (by simp [hnone])⟩
  · rw [if_neg hnone]
    refine (storeBlobsDisk_kept t' (net.valid r b hb).1 hfits).imp (fun t ht => ?_) (fun _ t ht => ?_) fun t ht => hk.trans ht
    · subst ht
      exact hk.refl
    · exact ⟨hk.trans ht.1, hstored t ht.1.marks ht.2⟩

theorem getBeaconBlock_spec (replies : Replies net) (r : B256) :
    Does (Kept net h t₀) (Node.fetched (replies.source.clients.getBeaconBlock r))
      (fun b t => net.block r = some b ∧ Kept net h t₀ t) (Kept net h t₀) := by
  refine (fetched_spec (calm_fetchOnceAvailable _ _) fun _ hk => hk).imp (fun _ h => h) (fun b t ht => ?_) fun _ h => h
  obtain ⟨hb, hk⟩ := ht
  refine ⟨?_, hk⟩
  unfold fetchOnceAvailable at hb
  split at hb
  · rename_i a ha
    cases hb
    exact replies.beaconBlock_eq r _ ha
  · cases hb

/-- A bid settles its parent's payload if it builds on it, and nothing otherwise. -/
theorem processParent_kept (replies : Replies net) {b parent : Block} (hb : net.block h.root = some b)
    (hpayload : ∀ hash, b.executionPayload ≠ .embedded hash) (hparent : net.block h.parentRoot = some parent) :
    Does (Kept net h t₀)
      (if b.buildsOnPayloadOf parent then do
        Node.processPayloadBlobs replies.source h.parentRoot parent
        Routine.ret (BlockAndRoot.mk h.root b)
      else Routine.ret (BlockAndRoot.mk h.root b))
      (fun p t => Kept net h t₀ t ∧ (∀ r, net.Settles h r → Stored net t r) ∧ net.block p.root = some p.block)
      (Kept net h t₀) := by
  by_cases hbuilds : b.buildsOnPayloadOf parent = true
  · rw [if_pos hbuilds]
    refine Does.bind (processPayloadBlobs_kept replies hparent) fun _ => Does.ret fun t ht => ⟨ht.1, ?_, hb⟩
    intro r hr
    cases hr with
    | embedded b' hash hb' hpayload' =>
      rw [hb, Option.some.injEq] at hb'
      subst hb'
      exact absurd hpayload' (hpayload hash)
    | bid => exact ht.2
  · rw [if_neg hbuilds]
    refine Does.ret fun t ht => ⟨ht, ?_, hb⟩
    intro r hr
    cases hr with
    | embedded b' hash hb' hpayload' =>
      rw [hb, Option.some.injEq] at hb'
      subst hb'
      exact absurd hpayload' (hpayload hash)
    | bid b' parent' hb' hparent' hbuilds' =>
      rw [hb, Option.some.injEq] at hb'
      rw [hparent, Option.some.injEq] at hparent'
      subst hb' hparent'
      exact absurd hbuilds' hbuilds

theorem processBeaconBlockBlobs_kept (t₀ : Tree) (replies : Replies net) {prevBlock : Option BlockAndRoot}
    (hprev : ∀ p, prevBlock = some p → net.block p.root = some p.block) :
    Does (Kept net h t₀) (Node.processBeaconBlockBlobs replies.source h prevBlock)
      (fun p t => Kept net h t₀ t ∧ (∀ r, net.Settles h r → Stored net t r) ∧ net.block p.root = some p.block)
      (Kept net h t₀) := by
  refine Does.bind (getBeaconBlock_spec replies h.root) fun b => ?_
  refine Spec.of_state fun t ht => ?_
  obtain ⟨hb, hk⟩ := ht
  split
  · rename_i hash hpayload
    have hstart : Does (fun t' => t' = t) (Node.processPayloadBlobs replies.source h.root b)
        (fun _ t => Kept net h t₀ t ∧ Stored net t h.root) (Kept net h t₀) :=
      (processPayloadBlobs_kept replies hb).imp (fun t' ht' => ht' ▸ hk) (fun _ _ h => h) fun _ h => h
    refine Does.bind hstart fun _ => Does.ret fun t' ht' => ⟨ht'.1, ?_, hb⟩
    intro r hr
    cases hr with
    | embedded => exact ht'.2
    | bid b' parent hb' hparent hbuilds =>
      rw [hb, Option.some.injEq] at hb'
      subst hb'
      simp [Block.buildsOnPayloadOf, hpayload] at hbuilds
  · rename_i hash parentHash hpayload
    have hbid : ∀ hash', b.executionPayload ≠ .embedded hash' := by simp [hpayload]
    have hfetch : ∀ {β : Type} {f : Block → Task β} {Q : β → Tree → Prop},
        (∀ parent, net.block h.parentRoot = some parent → Does (Kept net h t₀) (f parent) Q (Kept net h t₀)) →
        Does (fun t' => t' = t) (Node.fetched (replies.source.clients.getBeaconBlock h.parentRoot) >>= f) Q (Kept net h t₀) := by
      intro β f Q hf
      refine Does.bind ((getBeaconBlock_spec replies h.parentRoot).imp (fun t' ht' => ht' ▸ hk) (fun _ _ h => h)
        fun _ h => h) fun parent => ?_
      refine Spec.of_state fun t' ht' => ?_
      exact (hf parent ht'.1).imp (fun t'' ht'' => ht'' ▸ ht'.2) (fun _ _ h => h) fun _ h => h
    dsimp only
    split
    · rename_i prev
      by_cases hroot : prev.root = h.parentRoot
      · rw [if_pos hroot]
        have hparent : net.block h.parentRoot = some prev.block := by
          rw [← hroot]
          exact hprev prev rfl
        exact (processParent_kept replies hb hbid hparent).imp (fun t' ht' => ht' ▸ hk) (fun _ _ h => h) fun _ h => h
      · rw [if_neg hroot]
        exact hfetch fun parent hparent => processParent_kept replies hb hbid hparent
    · exact hfetch fun parent hparent => processParent_kept replies hb hbid hparent

/-! ## A block above all others -/

/-- Nothing that was complete is lost, and no blob. -/
structure Lasting (net : Network) (t₀ t : Tree) : Prop where
  complete : ∀ k, net.Known k → Complete t₀ k → Complete t k
  blob : ∀ r i vh, t₀.lookup (.blob i vh :: Store.rootDir r) ≠ none → t.lookup (.blob i vh :: Store.rootDir r) ≠ none

theorem Lasting.refl (net : Network) (t : Tree) : Lasting net t t := ⟨fun _ _ h => h, fun _ _ _ h => h⟩

theorem Lasting.trans {t₁ : Tree} (hl : Lasting net t₀ t₁) (hl' : Lasting net t₁ t) : Lasting net t₀ t :=
  ⟨fun k hk hc => hl'.complete k hk (hl.complete k hk hc), fun r i vh hne => hl'.blob r i vh (hl.blob r i vh hne)⟩

theorem SameMarks.lasting (hs : SameMarks t₀ t) : Lasting net t₀ t := ⟨fun _ _ hc => hs.complete.mpr hc, hs.blob⟩

/-- The block may be linked: it is a child of the highest, and all are complete. -/
structure Next (net : Network) (t : Tree) (h : BlockHeader) : Prop where
  known : net.Known h
  above : ∀ k, net.Known k → Linked t k → k.slot < h.slot
  complete : ∀ k, net.Known k → Linked t k → Complete t k
  parent : ∀ k, net.Known k → Linked t k → Highest net t k → h.parentRoot = k.root

theorem SameMarks.highest (hs : SameMarks t₀ t) : Highest net t k ↔ Highest net t₀ k :=
  ⟨fun hh j hj hl => hh j hj (hs.linked.mpr hl), fun hh j hj hl => hh j hj (hs.linked.mp hl)⟩

theorem SameMarks.next (hs : SameMarks t₀ t) (hn : Next net t₀ h) : Next net t h where
  known := hn.known
  above k hk hl := hn.above k hk (hs.linked.mp hl)
  complete k hk hl := hs.complete.mpr (hn.complete k hk (hs.linked.mp hl))
  parent k hk hl hhigh := hn.parent k hk (hs.linked.mp hl) (hs.highest.mp hhigh)

theorem Next.free (hn : Next net t h) (hs : Shape net t) : t.lookup (Store.slotDir h.slot) = none := by
  by_contra hne
  obtain ⟨k, hk, hslot, hl⟩ := hs.slot_linked hn.known.1 hne
  have hlt := hn.above k hk hl
  omega

/-- What holds of the store whatever happens while a block is stored. -/
structure Safe (P : Prop) (net : Network) (t₀ t : Tree) : Prop where
  shape : Shape net t
  stocked : P → Stocked net t
  lasting : Lasting net t₀ t

/-- The block has its link, above all others. -/
structure Begun (P : Prop) (net : Network) (h : BlockHeader) (t₀ t : Tree) : Prop extends Safe P net t₀ t where
  linked : Linked t h
  highest : Highest net t h

theorem Safe.marks (hs : Safe P net t₀ t) (hshape : Shape net t') (hmarks : SameMarks t t') : Safe P net t₀ t' :=
  ⟨hshape, fun hp => hmarks.stocked (hs.stocked hp), hs.lasting.trans hmarks.lasting⟩

theorem Begun.marks (hb : Begun P net h t₀ t) (hshape : Shape net t') (hmarks : SameMarks t t') : Begun P net h t₀ t' :=
  ⟨hb.toSafe.marks hshape hmarks, hmarks.linked.mpr hb.linked, hmarks.highest.mpr hb.highest⟩

/-- The block is linked. No header stands at its root yet. -/
theorem Safe.symlink (hs : Safe P net t₀ t) (hn : Next net t h)
    (hrun : (Op.symlink (Store.rootLink h.root) (Store.slotDir h.slot)).run t = .ok t') : Begun P net h t₀ t' := by
  have hrooted := hs.shape.rooted.run hrun
  obtain ⟨-, -, -, rfl⟩ := create_ok hrun
  have hsame : ∀ name r, AList.lookup (name :: Store.rootDir r)
      (t.insert (Store.slotDir h.slot) (.link (Store.rootLink h.root))) = t.lookup (name :: Store.rootDir r) :=
    fun name r => AList.lookup_insert_ne (Ne.symm (slotDir_ne_file _ _ _))
  have hfresh : t.lookup (.headerJson :: Store.rootDir h.root) = none := by
    cases hheader : t.lookup (.headerJson :: Store.rootDir h.root) with
    | none => rfl
    | some e =>
      obtain ⟨k, hk, hroot, -, hl⟩ := hs.shape.headers h.root e hn.known.isB256 hheader
      obtain rfl := hk.eq_of_root hn.known hroot
      have hlt := hn.above k hk hl
      omega
  refine ⟨⟨hs.shape.symlink hn.known hrooted hn.above hn.complete hn.parent, fun hp k hk hc r hr vh hvh => ?_, ?_⟩,
    AList.lookup_insert t, fun k hk hl => ?_⟩
  · have hheader := hc.header
    rw [hsame] at hheader
    rcases hc.linked.of_symlink hn.known hk with rfl | hl
    · rw [hfresh] at hheader
      cases hheader
    · obtain ⟨i, hi⟩ := hs.stocked hp k hk ⟨hl, hheader⟩ r hr vh hvh
      exact ⟨i, by rw [hsame]; exact hi⟩
  · refine hs.lasting.trans ⟨fun k hk hc => ⟨hc.linked.symlink hn.known hk (Nat.ne_of_lt (hn.above k hk hc.linked)), ?_⟩,
      fun r i vh hne => by rw [hsame]; exact hne⟩
    rw [hsame]
    exact hc.header
  · rcases hl.of_symlink hn.known hk with rfl | hl
    · exact le_refl _
    · exact Nat.le_of_lt (hn.above k hk hl)

/-- The header is renamed: the block is complete, with the blobs it settles. -/
theorem Begun.rename (hb : Begun P net h t₀ t) (hh : net.Known h)
    (htmp : t.lookup (.headerJsonTmp :: Store.rootDir h.root) = some (.file (.header h)))
    (hstored : ∀ r, net.Settles h r → Stored net t r)
    (hrun : (Op.rename (.headerJsonTmp :: Store.rootDir h.root) (.headerJson :: Store.rootDir h.root)).run t = .ok t') :
    Safe P net t₀ t' ∧ Complete t' h ∧ Highest net t' h := by
  have hrooted := hb.shape.rooted.run hrun
  obtain ⟨data, hfile, -, -, rfl⟩ := rename_ok hrun
  rw [htmp, Option.some.injEq, Inode.file.injEq] at hfile
  subst hfile
  obtain ⟨hs₁, hmarks₁⟩ := hb.shape.erase_file (by simp) (by simp) htmp
  have hb₁ := hb.marks hs₁ hmarks₁
  generalize AList.erase _ t = t₁ at hrooted hs₁ hmarks₁ hb₁ ⊢
  have hblob : ∀ r i vh, AList.lookup (.blob i vh :: Store.rootDir r)
      (t₁.insert (.headerJson :: Store.rootDir h.root) (.file (.header h))) = t₁.lookup (.blob i vh :: Store.rootDir r) :=
    fun r i vh => AList.lookup_insert_ne (by simp)
  have hlink : ∀ k, Linked (t₁.insert (.headerJson :: Store.rootDir h.root) (.file (.header h))) k ↔ Linked t₁ k := by
    intro k
    unfold Linked
    rw [AList.lookup_insert_ne (slotDir_ne_file _ _ _)]
  have hheader : ∀ k, net.Known k → k ≠ h → AList.lookup (.headerJson :: Store.rootDir k.root)
      (t₁.insert (.headerJson :: Store.rootDir h.root) (.file (.header h))) =
      t₁.lookup (.headerJson :: Store.rootDir k.root) := by
    intro k hk hne
    exact AList.lookup_insert_ne fun heq => hne (hk.eq_of_root hh (file_inj hk.isB256 hh.isB256 heq))
  have hcomplete : Complete (t₁.insert (.headerJson :: Store.rootDir h.root) (.file (.header h))) h :=
    ⟨(hlink h).mpr hb₁.linked, AList.lookup_insert t₁⟩
  refine ⟨⟨hs₁.header hh hb₁.linked hrooted, fun hp k hk hc r hr vh hvh => ?_, ?_⟩, hcomplete,
    fun k hk hl => hb₁.highest k hk ((hlink k).mp hl)⟩
  · by_cases hkh : k = h
    · subst hkh
      obtain ⟨i, hi⟩ := hmarks₁.stored (hstored r hr) vh hvh
      exact ⟨i, by rw [hblob]; exact hi⟩
    · have hc₁ : Complete t₁ k := ⟨(hlink k).mp hc.linked, by rw [← hheader k hk hkh]; exact hc.header⟩
      obtain ⟨i, hi⟩ := hb₁.stocked hp k hk hc₁ r hr vh hvh
      exact ⟨i, by rw [hblob]; exact hi⟩
  · refine hb₁.lasting.trans ⟨fun k hk hc => ?_, fun r i vh hne => by rw [hblob]; exact hne⟩
    by_cases hkh : k = h
    · subst hkh
      exact hcomplete
    · exact ⟨(hlink k).mpr hc.linked, by rw [hheader k hk hkh]; exact hc.header⟩

theorem Begun.kept (hb : Begun P net h t₀ t) (hk : Kept net h t t') : Begun P net h t₀ t' := hb.marks hk.shape hk.marks

/-- The header under its temporary name. -/
theorem Begun.write (hb : Begun P net h t₀ t) (hh : net.Known h) {data : Content}
    (hrun : (Op.write (.headerJsonTmp :: Store.rootDir h.root) data).run t = .ok t') :
    Begun P net h t₀ t' ∧ t'.lookup (.headerJsonTmp :: Store.rootDir h.root) = some (.file data) := by
  have hrooted := hb.shape.rooted.run hrun
  obtain ⟨-, -, rfl⟩ := write_ok hrun
  have hharmless : Harmless net (.headerJsonTmp :: Store.rootDir h.root) (.file data) :=
    harmless_file hh.isB256 (by simp) fun _ _ hname => by simp at hname
  exact ⟨hb.marks (hb.shape.insert hharmless hrooted) (hharmless.same_marks t), AList.lookup_insert t⟩

/-- A block on top of the highest becomes the highest complete one; where that fails, nothing is lost. -/
theorem processBeaconBlockHeader_spec (replies : Replies net) {prevBlock : Option BlockAndRoot}
    (hprev : ∀ p, prevBlock = some p → net.block p.root = some p.block) (hs : Safe P net t₀ t₀) (hn : Next net t₀ h) :
    Does (fun t => t = t₀) (Node.processBeaconBlockHeader replies.source h prevBlock)
      (fun p t => (Safe P net t₀ t ∧ Complete t h ∧ Highest net t h) ∧ net.block p.root = some p.block)
      (Safe P net t₀) := by
  have hslot : Does (fun t => t = t₀) (Store.createDirAll (Store.slotDir h.slot).tail)
      (fun _ t => Safe P net t₀ t ∧ Next net t h) (Safe P net t₀) := by
    refine (Does.createDirAll (K := fun t => Safe P net t₀ t ∧ Next net t h) (fun t t' q ht hq hrun => ?_)
      fun t q ht hq hnot => ht.1.shape.free_slot hq hnot).imp (fun t ht => ?_) (fun _ _ ht => ht.1) fun _ ht => ht.1
    · obtain ⟨hshape, hmarks⟩ := ht.1.shape.mkdir (harmless_slotDir hn.known hq) hrun
      exact ⟨ht.1.marks hshape hmarks, hmarks.next ht.2⟩
    · subst ht
      exact ⟨hs, hn⟩
  have hlink : Does (fun t => Safe P net t₀ t ∧ Next net t h)
      (Store.call (.symlink (Store.rootLink h.root) (Store.slotDir h.slot))) (fun _ => Begun P net h t₀) (Safe P net t₀) := by
    refine Does.call (fun t t' ht hrun => ht.1.symlink ht.2 hrun) (fun t e ht hrun => ?_) (fun _ ht => ht.1)
      fun _ _ _ _ _ hop => by cases hop
    exact create_refused hrun ⟨by simp [Store.slotDir_eq], ht.2.free ht.1.shape⟩
  have hdir : Does (Begun P net h t₀) (Store.createDirAll (Store.rootDir h.root)) (fun _ => Begun P net h t₀)
      (Safe P net t₀) := by
    refine (Does.createDirAll (K := Begun P net h t₀) (fun t t' q ht hq hrun => ?_)
      fun t q ht hq hnot => ht.shape.free_root hq hnot).imp (fun _ ht => ht) (fun _ _ ht => ht.1) fun _ ht => ht.toSafe
    obtain ⟨hshape, hmarks⟩ := ht.shape.mkdir (fun _ => harmless_rootDir hq) hrun
    exact ht.marks hshape hmarks
  have hwrite : Does (Begun P net h t₀) (Store.call (.write (.headerJsonTmp :: Store.rootDir h.root) (.header h)))
      (fun _ t => Begun P net h t₀ t ∧ t.lookup (.headerJsonTmp :: Store.rootDir h.root) = some (.file (.header h)))
      (Safe P net t₀) := by
    refine Does.call (fun t t' ht hrun => ht.write hn.known hrun) (fun _ _ _ hrun => write_refused hrun)
      (fun _ ht => ht.toSafe) fun t t' p data ht hop hrun => ?_
    cases hop
    exact (ht.write hn.known hrun).1.toSafe
  refine Does.bind hslot fun _ => Does.bind hlink fun _ => Does.bind hdir fun _ => Does.bind hwrite fun _ => ?_
  refine Spec.of_state fun t₁ ht₁ => ?_
  obtain ⟨hb, htmp⟩ := ht₁
  have hblobs : Does (fun t => t = t₁) (Node.processBeaconBlockBlobs replies.source h prevBlock)
      (fun p t => (Kept net h t₁ t ∧ ∀ r, net.Settles h r → Stored net t r) ∧ net.block p.root = some p.block)
      (Safe P net t₀) := by
    refine (processBeaconBlockBlobs_kept t₁ replies hprev).imp (fun t ht => ?_)
      (fun _ _ ht => ⟨⟨ht.1, ht.2.1⟩, ht.2.2⟩) fun t ht => (hb.kept ht).toSafe
    subst ht
    exact ⟨hb.shape, SameMarks.refl t, htmp⟩
  refine Does.bind hblobs fun p => ?_
  refine Does.bind (Q := fun _ t => (Safe P net t₀ t ∧ Complete t h ∧ Highest net t h) ∧ net.block p.root = some p.block)
    (Does.call (fun t t' ht hrun => ?_) (fun _ _ _ hrun => rename_refused hrun) (fun t ht => ?_)
      fun _ _ _ _ _ hop => by cases hop) fun _ => Does.ret fun t ht => ht
  · exact ⟨(hb.kept ht.1.1).rename hn.known ht.1.1.tmp ht.1.2 hrun, ht.2⟩
  · exact (hb.kept ht.1.1).toSafe

end DigitalObjects.Archiver
