import DigitalObjects.Archiver.Recovery
set_option autoImplicit false

/-!
The archiver in progress: a block is linked above all others and completed, and the loop over the
slots keeps the shape of the store in every run, with failures and crashes anywhere.
-/

namespace DigitalObjects.Archiver

open Lib EthClients FileTree Routine

variable {net : Network} {t t' t₀ : Tree} {h k : BlockHeader} {q : Path} {α β : Type} {P : Prop}

/-! ## Directories -/

theorem Does.createDirAll {K : Tree → Prop} {p : Path}
    (hmkdir : ∀ t t' q, K t → q <:+ p → (Op.mkdir q).run t = .ok t' → K t')
    (hfree : ∀ t q, K t → q <:+ p → ¬ t.isDir q → t.lookup q = none) :
    Does K (Store.createDirAll p) (fun _ t => K t ∧ t.isDir p) K := spec_createDirAll ends_plain hmkdir hfree

theorem not_bySlot_of_suffix {r : B256} (hq : q <:+ Store.rootDir r) : ¬ [Name.bySlot] <:+ q :=
  fun hslot => not_byRoot (hslot.trans hq) (rootDir_suffix r)

theorem not_bySlot_of_below {r : B256} (hq : Store.rootDir r <:+ q) : ¬ [Name.bySlot] <:+ q :=
  fun hslot => not_byRoot hslot ((rootDir_suffix r).trans hq)

theorem harmless_slotDir (hh : net.Known h) (hq : q <:+ (Store.slotDir h.slot).tail) (hne : q ≠ []) :
    Harmless net q .dir := by
  have hlen := hq.length_le
  rw [List.length_tail, Store.length_slotDir] at hlen
  refine ⟨fun s heq => ?_, fun r heq => ?_, fun _ => ?_, fun _ _ => rfl, fun r i vh _ heq => ?_⟩
  · rw [heq, Store.length_slotDir] at hlen
    omega
  · rw [heq, List.length_cons, Store.length_rootDir] at hlen
    omega
  · have hslot := hh.1
    rw [Store.slotDir_eq, List.tail_cons] at hq
    rcases List.suffix_cons_iff.mp hq with rfl | hq
    · exact .mid _ _ (by omega) (by omega)
    · rcases List.suffix_cons_iff.mp hq with rfl | hq
      · exact .high _ (by omega)
      · rcases List.suffix_cons_iff.mp hq with rfl | hq
        · exact .base
        · exact absurd (List.suffix_nil.mp hq) hne
  · rw [heq, List.length_cons, Store.length_rootDir] at hlen
    omega

theorem harmless_rootDir {r : B256} (hq : q <:+ Store.rootDir r) : Harmless net q .dir := by
  have hlen := hq.length_le
  rw [Store.length_rootDir] at hlen
  refine ⟨fun s heq => ?_, fun r heq => ?_, fun hslot => absurd hslot (not_bySlot_of_suffix hq), fun _ _ => rfl,
    fun r i vh _ heq => ?_⟩
  · exact not_bySlot_of_suffix hq (heq ▸ slotDir_suffix s)
  · rw [heq, List.length_cons, Store.length_rootDir] at hlen
    omega
  · rw [heq, List.length_cons, Store.length_rootDir] at hlen
    omega

/-- A file at a root other than the header. -/
theorem harmless_file {r : B256} {name : Name} {data : Content} (hr : IsB256 r) (hname : name ≠ .headerJson)
    (hblob : ∀ i vh, name = .blob i vh → Filed net r i vh (.file data)) :
    Harmless net (name :: Store.rootDir r) (.file data) := by
  have hnot : ¬ [Name.bySlot] <:+ name :: Store.rootDir r := not_bySlot_of_below (List.suffix_cons _ _)
  refine ⟨fun s heq => ?_, fun r' heq => ?_, fun hslot => absurd hslot hnot, fun _ hlen => ?_, fun r' i vh hr' heq => ?_⟩
  · exact hnot (heq ▸ slotDir_suffix s)
  · exact hname (List.cons_eq_cons.mp heq).1
  · simp [Store.length_rootDir] at hlen
  · obtain rfl := file_inj hr hr' heq
    exact hblob i vh (List.cons_eq_cons.mp heq).1

theorem Shape.mkdir (hs : Shape net t) (hharmless : q ≠ [] → Harmless net q .dir) (hrun : (Op.mkdir q).run t = .ok t') :
    Shape net t' ∧ SameMarks t t' := by
  have hrooted := hs.rooted.run hrun
  obtain ⟨hne, -, -, rfl⟩ := create_ok hrun
  exact ⟨hs.insert (hharmless hne) hrooted, (hharmless hne).same_marks t⟩

/-- On the way to a root's directory there are only directories. -/
theorem Shape.free_root (hs : Shape net t) {r : B256} (hq : q <:+ Store.rootDir r) (hnot : ¬ t.isDir q) :
    t.lookup q = none := by
  cases hlookup : t.lookup q with
  | none => rfl
  | some e =>
    have hne : q ≠ [] := fun hnil => hnot (.inl hnil)
    have hroot : [Name.byRoot] <:+ q := by
      rcases List.suffix_or_suffix_of_suffix hq (rootDir_suffix r) with hsuf | hsuf
      · rcases List.suffix_cons_iff.mp hsuf with rfl | hnil
        · exact List.suffix_refl _
        · exact absurd (List.suffix_nil.mp hnil) hne
      · exact hsuf
    rw [hs.rootDirs q e hlookup hroot (by rw [← Store.length_rootDir r]; exact hq.length_le)] at hlookup
    exact absurd (.inr hlookup) hnot

theorem Shape.free_slot (hs : Shape net t) {s : Nat} (hq : q <:+ (Store.slotDir s).tail) (hnot : ¬ t.isDir q) :
    t.lookup q = none := by
  by_contra hne
  have hbase : q ≠ [] := fun hnil => hnot (.inl hnil)
  have hslot : [Name.bySlot] <:+ q := by
    rcases List.suffix_or_suffix_of_suffix hq (show [Name.bySlot] <:+ (Store.slotDir s).tail from
      ⟨(Store.slotDir s).tail.take 2, rfl⟩) with hsuf | hsuf
    · rcases List.suffix_cons_iff.mp hsuf with rfl | hnil
      · exact List.suffix_refl _
      · exact absurd (List.suffix_nil.mp hnil) hbase
    · exact hsuf
  have hlen := hq.length_le
  rw [List.length_tail, Store.length_slotDir] at hlen
  exact hnot (.inr (hs.isDir hne hslot (by omega)))

/-! ## Blobs -/

/-- What the processing of `h` keeps while its header waits under the temporary name. -/
structure Kept (net : Network) (h : BlockHeader) (t₀ t : Tree) : Prop where
  shape : Shape net t
  marks : SameMarks t₀ t
  tmp : t.lookup (.headerJsonTmp :: Store.rootDir h.root) = some (.file (.header h))

theorem Kept.refl (hk : Kept net h t₀ t) : Kept net h t t := ⟨hk.shape, SameMarks.refl t, hk.tmp⟩

theorem Kept.trans (hk : Kept net h t₀ t) (hk' : Kept net h t t') : Kept net h t₀ t' :=
  ⟨hk'.shape, hk.marks.trans hk'.marks, hk'.tmp⟩

theorem Kept.mkdir (hk : Kept net h t₀ t) {r : B256} (hq : q <:+ Store.rootDir r)
    (hrun : (Op.mkdir q).run t = .ok t') : Kept net h t₀ t' := by
  obtain ⟨hs, hmarks⟩ := hk.shape.mkdir (fun _ => harmless_rootDir hq) hrun
  refine ⟨hs, hk.marks.trans hmarks, ?_⟩
  obtain ⟨-, -, -, rfl⟩ := create_ok hrun
  rw [AList.lookup_insert_ne]
  · exact hk.tmp
  · rintro rfl
    have hlen := hq.length_le
    rw [List.length_cons, Store.length_rootDir, Store.length_rootDir] at hlen
    omega

/-- A blob under its temporary name. -/
theorem Kept.write (hk : Kept net h t₀ t) {r : B256} (hr : IsB256 r) {i : Nat} {vh : B256} {data : Content}
    (hrun : (Op.write (.blobTmp i vh :: Store.rootDir r) data).run t = .ok t') :
    Kept net h t₀ t' ∧ t'.lookup (.blobTmp i vh :: Store.rootDir r) = some (.file data) := by
  have hrooted := hk.shape.rooted.run hrun
  obtain ⟨-, -, rfl⟩ := write_ok hrun
  have hharmless : Harmless net (.blobTmp i vh :: Store.rootDir r) (.file data) :=
    harmless_file hr (by simp) fun _ _ hname => by simp at hname
  refine ⟨⟨hk.shape.insert hharmless hrooted, hk.marks.trans (hharmless.same_marks t), ?_⟩, AList.lookup_insert t⟩
  rw [AList.lookup_insert_ne (by simp)]
  exact hk.tmp

/-- A file at a root that is no header and no blob may go. -/
theorem Shape.erase_file (hs : Shape net t) {r : B256} {name : Name} (hname : name ≠ .headerJson)
    (hblob : ∀ i vh, name ≠ .blob i vh) {data : Content} (hfile : t.lookup (name :: Store.rootDir r) = some (.file data)) :
    Shape net (t.erase (name :: Store.rootDir r)) ∧ SameMarks t (t.erase (name :: Store.rootDir r)) := by
  have hrooted : Rooted (t.erase (name :: Store.rootDir r)) := hs.rooted.erase (by rw [hfile]; simp)
  have hheader : ∀ r', Name.headerJson :: Store.rootDir r' ≠ name :: Store.rootDir r := by
    intro r' heq
    exact hname (List.cons_eq_cons.mp heq).1.symm
  refine ⟨hs.erase hrooted (fun k _ _ _ _ _ _ => (hheader k.root).symm) fun k _ _ heq =>
    absurd heq.symm (slotDir_ne_file _ _ _), fun s => ?_, fun r' => ?_, fun r' i vh hne => ?_⟩
  · exact AList.lookup_erase_ne (slotDir_ne_file _ _ _)
  · exact AList.lookup_erase_ne (hheader r')
  · rw [AList.lookup_erase_ne]
    · exact hne
    · intro heq
      exact hblob i vh (List.cons_eq_cons.mp heq).1.symm

theorem rename_refused {p : Path} {e : Refusal} (h : (Op.rename q p).run t = .error e) : e ≠ .alreadyExists := by
  simp only [Op.run] at h
  split at h
  · split at h
    · cases h
      simp
    · split at h
      · cases h
      · cases h
        simp
  · cases h
    simp
  · cases h
    simp

theorem write_refused {data : Content} {e : Refusal} (h : (Op.write q data).run t = .error e) : e ≠ .alreadyExists := by
  simp only [Op.run] at h
  split at h
  · cases h
    simp
  · split at h
    · cases h
    · cases h
      simp

theorem Kept.rename (hk : Kept net h t₀ t) {r : B256} (hr : IsB256 r) {i : Nat} {vh : B256} {data : Content}
    (hdata : t.lookup (.blobTmp i vh :: Store.rootDir r) = some (.file data)) (hfiled : Filed net r i vh (.file data))
    (hrun : (Op.rename (.blobTmp i vh :: Store.rootDir r) (.blob i vh :: Store.rootDir r)).run t = .ok t') :
    Kept net h t₀ t' ∧ t'.lookup (.blob i vh :: Store.rootDir r) ≠ none := by
  have hrooted := hk.shape.rooted.run hrun
  obtain ⟨data', hfile, -, -, rfl⟩ := rename_ok hrun
  rw [hdata, Option.some.injEq, Inode.file.injEq] at hfile
  subst hfile
  obtain ⟨hs, hmarks⟩ := hk.shape.erase_file (by simp) (by simp) hdata
  have hharmless : Harmless net (.blob i vh :: Store.rootDir r) (.file data) := by
    refine harmless_file hr (by simp) fun i' vh' hname => ?_
    obtain ⟨rfl, rfl⟩ := Name.blob.inj hname
    exact hfiled
  refine ⟨⟨hs.insert hharmless hrooted, (hk.marks.trans hmarks).trans (hharmless.same_marks _), ?_⟩, by simp⟩
  rw [AList.lookup_insert_ne (by simp), AList.lookup_erase_ne (by simp)]
  exact hk.tmp

/-- A blob of the block at the root. -/
def StoredBlob.Fits (net : Network) (r : B256) (b : StoredBlob) : Prop :=
  Filed net r b.index b.versionedHash (.file (.blob b.blob))

theorem storeBlob_kept (t₀ : Tree) {r : B256} (hr : IsB256 r) {b : StoredBlob} (hb : b.Fits net r) :
    Does (Kept net h t₀) (Store.storeBlob r b)
      (fun _ t => Kept net h t₀ t ∧ t.lookup (.blob b.index b.versionedHash :: Store.rootDir r) ≠ none)
      (Kept net h t₀) := by
  refine Does.bind (Q := fun _ t => Kept net h t₀ t ∧
    t.lookup (.blobTmp b.index b.versionedHash :: Store.rootDir r) = some (.file (.blob b.blob))) ?_ fun _ => ?_
  · refine Does.call (fun t t' hk hrun => hk.write hr hrun) (fun _ _ _ hrun => write_refused hrun) (fun _ hk => hk) ?_
    intro t t' p data hk hop hrun
    cases hop
    exact (hk.write hr hrun).1
  · exact Does.call (fun t t' hk hrun => hk.1.rename hr hk.2 hb hrun) (fun _ _ _ hrun => rename_refused hrun)
      (fun _ hk => hk.1) fun _ _ _ _ _ hop => by cases hop

theorem storeBlobsDisk_kept (t₀ : Tree) {r : B256} (hr : IsB256 r) {blobs : List StoredBlob} (hblobs : ∀ b ∈ blobs, b.Fits net r) :
    Does (Kept net h t₀) (Store.storeBlobsDisk r blobs) (fun _ t => Kept net h t₀ t ∧
      ∀ b ∈ blobs, t.lookup (.blob b.index b.versionedHash :: Store.rootDir r) ≠ none) (Kept net h t₀) := by
  have hdir : Does (Kept net h t₀) (Store.createDirAll (Store.rootDir r)) (fun _ t => Kept net h t₀ t ∧
      t.isDir (Store.rootDir r)) (Kept net h t₀) :=
    Does.createDirAll (fun t t' q hk hq hrun => hk.mkdir hq hrun) fun t q hk hq hnot => hk.shape.free_root hq hnot
  -- what is no longer to come is there
  have hloop : Does (fun t => Kept net h t₀ t ∧ (∀ b ∈ blobs, b.Fits net r) ∧ ∀ b ∈ blobs, b ∈ blobs ∨
        t.lookup (.blob b.index b.versionedHash :: Store.rootDir r) ≠ none)
      (Routine.forList (Store.storeBlob r) blobs)
      (fun _ t => Kept net h t₀ t ∧ (∀ b ∈ ([] : List StoredBlob), b.Fits net r) ∧ ∀ b ∈ blobs, b ∈ ([] : List StoredBlob) ∨
        t.lookup (.blob b.index b.versionedHash :: Store.rootDir r) ≠ none) (Kept net h t₀) := by
    refine Spec.forList_rest (I := fun rest t => Kept net h t₀ t ∧ (∀ b ∈ rest, b.Fits net r) ∧ ∀ b ∈ blobs, b ∈ rest ∨
      t.lookup (.blob b.index b.versionedHash :: Store.rootDir r) ≠ none) fun b rest => ?_
    refine Spec.of_state fun t₁ ht₁ => ?_
    obtain ⟨hk, hfits, hthere⟩ := ht₁
    refine (storeBlob_kept t₁ hr (hfits b (by simp))).imp (fun t ht => ?_) (fun _ t ht => ?_) fun t ht => hk.trans ht
    · subst ht
      exact hk.refl
    · refine ⟨hk.trans ht.1, fun b' hb' => hfits b' (List.mem_cons_of_mem b hb'), fun b' hb' => ?_⟩
      rcases hthere b' hb' with hmem | hne
      · rcases List.mem_cons.mp hmem with rfl | hmem
        · exact .inr ht.2
        · exact .inl hmem
      · exact .inr (ht.1.marks.blob _ _ _ hne)
  refine Does.bind hdir fun _ => hloop.imp (fun t ht => ⟨ht.1, hblobs, fun b hb => .inl hb⟩) (fun _ t ht => ?_) fun _ h => h
  exact ⟨ht.1, fun b hb => (ht.2.2 b hb).resolve_left (by simp)⟩

end DigitalObjects.Archiver
