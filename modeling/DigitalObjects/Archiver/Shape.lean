import DigitalObjects.Archiver.Follow
set_option autoImplicit false

/-!
The shape of the archive: links under `by_slot` to the directories of roots, every one but the
highest with its header, the headers in the order of their slots a chain, and under each root
blobs of its block. Single operations keep it.
-/

namespace DigitalObjects.Archiver

open Lib EthClients FileTree

/-- The block has its link. -/
def Linked (t : Tree) (h : BlockHeader) : Prop := t.lookup (Store.slotDir h.slot) = some (.link (Store.rootLink h.root))

/-- The block is complete: behind its link stands its header. -/
structure Complete (t : Tree) (h : BlockHeader) : Prop where
  linked : Linked t h
  header : t.lookup (.headerJson :: Store.rootDir h.root) = some (.file (.header h))

variable {net : Network} {t t' t₀ : Tree} {h h' : BlockHeader} {q : Path} {e : Inode Name Content}

/-- What stands at and below `by_slot`. -/
inductive SlotEntry (net : Network) : Path → Inode Name Content → Prop
  | base : SlotEntry net [.bySlot] .dir
  | high (n : Nat) (hn : n < 1000) : SlotEntry net [.part (pad3 n), .bySlot] .dir
  | mid (m n : Nat) (hm : m < 1000) (hn : n < 1000) : SlotEntry net [.part (pad3 m), .part (pad3 n), .bySlot] .dir
  | slot (h : BlockHeader) (hknown : net.Known h) :
    SlotEntry net (Store.slotDir h.slot) (.link (Store.rootLink h.root))

/-- A blob file of a block: under the first position of its hash. -/
def Filed (net : Network) (r : B256) (index : Nat) (vh : B256) (e : Inode Name Content) : Prop :=
  ∃ b, net.block r = some b ∧ index = ((b.blobKzgCommitments.map net.kzgToVersionedHash).findIdx fun v => v = vh) ∧
    e = .file (.blob (net.blobOf vh))

structure Shape (net : Network) (t : Tree) : Prop where
  rooted : t.Rooted
  slots : ∀ q e, t.lookup q = some e → [.bySlot] <:+ q → SlotEntry net q e
  rootDirs : ∀ q e, t.lookup q = some e → [.byRoot] <:+ q → q.length ≤ 4 → e = .dir
  headers : ∀ r e, IsB256 r → t.lookup (.headerJson :: Store.rootDir r) = some e →
    ∃ h, net.Known h ∧ h.root = r ∧ e = .file (.header h) ∧ Linked t h
  blobs : ∀ r i vh e, IsB256 r → t.lookup (.blob i vh :: Store.rootDir r) = some e → Filed net r i vh e
  complete_below : ∀ h h', net.Known h → net.Known h' → Linked t h → Linked t h' → h.slot < h'.slot → Complete t h
  chained : ∀ h h', net.Known h → net.Known h' → Linked t h → Linked t h' → h.slot < h'.slot →
    (∀ k, net.Known k → Linked t k → ¬ (h.slot < k.slot ∧ k.slot < h'.slot)) → h'.parentRoot = h.root

/-! ## Blocks and roots -/

theorem Network.Known.isB256 (h : net.Known h') : IsB256 h'.root := by
  obtain ⟨-, b, hb, -⟩ := h
  exact (net.valid h'.root b hb).1

/-- A root tells its header. -/
theorem Network.Known.eq_of_root (hh : net.Known h) (hh' : net.Known h') (hroot : h.root = h'.root) : h = h' := by
  obtain ⟨-, b, hb, hslot, hparent⟩ := hh
  obtain ⟨-, b', hb', hslot', hparent'⟩ := hh'
  rw [hroot, hb'] at hb
  cases hb
  cases h
  cases h'
  simp only at hroot hslot hparent hslot' hparent'
  rw [hroot, ← hslot, ← hparent, hslot', hparent']

/-- A slot tells its linked block. -/
theorem Linked.eq_of_slot (hl : Linked t h) (hl' : Linked t h') (hh : net.Known h) (hh' : net.Known h')
    (hslot : h.slot = h'.slot) : h = h' := by
  unfold Linked at hl hl'
  rw [hslot, hl', Option.some.injEq, Inode.link.injEq] at hl
  exact hh.eq_of_root hh' (Store.rootLink_inj hh.isB256 hh'.isB256 hl.symm)

theorem Shape.empty (net : Network) : Shape net (∅ : Tree) where
  rooted := Rooted.empty
  slots q e h := by simp at h
  rootDirs q e h := by simp at h
  headers r e _ h := by simp at h
  blobs r i vh e _ h := by simp at h
  complete_below h h' _ _ hl := by simp [Linked] at hl
  chained h h' _ _ hl := by simp [Linked] at hl

theorem slotDir_suffix (s : Nat) : [Name.bySlot] <:+ Store.slotDir s := ⟨(Store.slotDir s).take 3, rfl⟩

theorem rootDir_suffix (r : B256) : [Name.byRoot] <:+ Store.rootDir r := ⟨(Store.rootDir r).take 3, rfl⟩

theorem not_byRoot (h : [Name.bySlot] <:+ q) : ¬ [Name.byRoot] <:+ q := by
  intro h'
  rcases List.suffix_or_suffix_of_suffix h h' with hs | hs
  · cases hs.eq_of_length rfl
  · cases hs.eq_of_length rfl

theorem file_byRoot (name : Name) (r : B256) : [Name.byRoot] <:+ name :: Store.rootDir r :=
  (rootDir_suffix r).trans (List.suffix_cons _ _)

theorem slotDir_ne_file (s : Nat) (name : Name) (r : B256) : Store.slotDir s ≠ name :: Store.rootDir r := by
  intro heq
  exact not_byRoot (slotDir_suffix s) (heq ▸ file_byRoot name r)

theorem file_inj {name name' : Name} {r r' : B256} (hr : IsB256 r) (hr' : IsB256 r')
    (h : name :: Store.rootDir r = name' :: Store.rootDir r') : r = r' :=
  Store.rootDir_inj hr hr' (List.cons_eq_cons.mp h).2

/-! ## Operations -/

/-- The links and the headers of the two trees are the same, and no blob goes. -/
structure SameMarks (t t' : Tree) : Prop where
  link : ∀ s, t'.lookup (Store.slotDir s) = t.lookup (Store.slotDir s)
  header : ∀ r, t'.lookup (.headerJson :: Store.rootDir r) = t.lookup (.headerJson :: Store.rootDir r)
  blob : ∀ r i vh, t.lookup (.blob i vh :: Store.rootDir r) ≠ none → t'.lookup (.blob i vh :: Store.rootDir r) ≠ none

theorem SameMarks.refl (t : Tree) : SameMarks t t := ⟨fun _ => rfl, fun _ => rfl, fun _ _ _ h => h⟩

theorem SameMarks.trans {t'' : Tree} (h : SameMarks t t') (h' : SameMarks t' t'') : SameMarks t t'' :=
  ⟨fun s => (h'.link s).trans (h.link s), fun r => (h'.header r).trans (h.header r),
    fun r i vh hne => h'.blob r i vh (h.blob r i vh hne)⟩

theorem SameMarks.linked (hs : SameMarks t t') : Linked t' h ↔ Linked t h := by
  rw [Linked, hs.link, Linked]

theorem SameMarks.complete (hs : SameMarks t t') : Complete t' h ↔ Complete t h := by
  constructor
  · rintro ⟨hlink, hheader⟩
    exact ⟨hs.linked.mp hlink, by rw [← hs.header]; exact hheader⟩
  · rintro ⟨hlink, hheader⟩
    exact ⟨hs.linked.mpr hlink, by rw [hs.header]; exact hheader⟩

/-- An entry that is no link and no header, and no blob under a wrong name. -/
structure Harmless (net : Network) (p : Path) (e : Inode Name Content) : Prop where
  no_slot : ∀ s, p ≠ Store.slotDir s
  no_header : ∀ r, p ≠ .headerJson :: Store.rootDir r
  slot_entry : [.bySlot] <:+ p → SlotEntry net p e
  root_dir : [.byRoot] <:+ p → p.length ≤ 4 → e = .dir
  blob : ∀ r i vh, IsB256 r → p = .blob i vh :: Store.rootDir r → Filed net r i vh e

theorem lookup_insert_ne_none {p : Path} (h : t.lookup p ≠ none) : AList.lookup p (t.insert q e) ≠ none := by
  by_cases hp : p = q
  · subst hp
    simp
  · rw [AList.lookup_insert_ne hp]
    exact h

theorem Harmless.same_marks (h : Harmless net q e) (t : Tree) : SameMarks t (t.insert q e) :=
  ⟨fun s => AList.lookup_insert_ne (Ne.symm (h.no_slot s)), fun r => AList.lookup_insert_ne (Ne.symm (h.no_header r)),
    fun _ _ _ => lookup_insert_ne_none⟩

theorem lookup_insert_cases {p : Path} {e' : Inode Name Content} (h : AList.lookup q (t.insert p e) = some e') :
    q = p ∧ e' = e ∨ t.lookup q = some e' := by
  by_cases hq : q = p
  · subst hq
    rw [AList.lookup_insert, Option.some.injEq] at h
    exact .inl ⟨rfl, h.symm⟩
  · rw [AList.lookup_insert_ne hq] at h
    exact .inr h

theorem Shape.insert (h : Shape net t) (hharmless : Harmless net q e) (hrooted : Rooted (t.insert q e)) :
    Shape net (t.insert q e) := by
  have hmarks := hharmless.same_marks t
  refine ⟨hrooted, fun p e' hp hslot => ?_, fun p e' hp hroot hlen => ?_, fun r e' hr hp => ?_,
    fun r i vh e' hr hp => ?_, fun h₁ h₂ hk₁ hk₂ hl₁ hl₂ hlt => ?_, fun h₁ h₂ hk₁ hk₂ hl₁ hl₂ hlt hnone => ?_⟩
  · rcases lookup_insert_cases hp with ⟨rfl, rfl⟩ | hp
    · exact hharmless.slot_entry hslot
    · exact h.slots p e' hp hslot
  · rcases lookup_insert_cases hp with ⟨rfl, rfl⟩ | hp
    · exact hharmless.root_dir hroot hlen
    · exact h.rootDirs p e' hp hroot hlen
  · rw [hmarks.header r] at hp
    obtain ⟨k, hk, hroot, he, hl⟩ := h.headers r e' hr hp
    exact ⟨k, hk, hroot, he, hmarks.linked.mpr hl⟩
  · rcases lookup_insert_cases hp with ⟨heq, rfl⟩ | hp
    · exact hharmless.blob r i vh hr heq.symm
    · exact h.blobs r i vh e' hr hp
  · rw [hmarks.complete]
    exact h.complete_below h₁ h₂ hk₁ hk₂ (hmarks.linked.mp hl₁) (hmarks.linked.mp hl₂) hlt
  · refine h.chained h₁ h₂ hk₁ hk₂ (hmarks.linked.mp hl₁) (hmarks.linked.mp hl₂) hlt fun k hk hl => ?_
    exact hnone k hk (hmarks.linked.mpr hl)

/-- Nothing stands above the block. -/
def Highest (net : Network) (t : Tree) (h : BlockHeader) : Prop := ∀ k, net.Known k → Linked t k → k.slot ≤ h.slot

theorem Linked.sub (hl : Linked t h) (hsub : t.Sub t') : Linked t' h := hsub _ _ hl

theorem Highest.sub (hh : Highest net t' h) (hsub : t.Sub t') : Highest net t h :=
  fun k hk hl => hh k hk (hl.sub hsub)

/-- An entry may go unless it is the header of a block below another, or the link of one that is
below another or has its header. -/
theorem Shape.erase (h : Shape net t) (hrooted : Rooted (t.erase q))
    (hheader : ∀ k k', net.Known k → net.Known k' → Linked t k → Linked t k' → k.slot < k'.slot →
      q ≠ .headerJson :: Store.rootDir k.root)
    (hlink : ∀ k, net.Known k → Linked t k → q = Store.slotDir k.slot →
      Highest net t k ∧ t.lookup (.headerJson :: Store.rootDir k.root) = none) :
    Shape net (t.erase q) := by
  have hsub : Sub (t.erase q) t := Sub.erase t q
  refine ⟨hrooted, fun p e hp hslot => h.slots p e (hsub p e hp) hslot,
    fun p e hp => h.rootDirs p e (hsub p e hp), fun r e hr hp => ?_,
    fun r i vh e hr hp => h.blobs r i vh e hr (hsub _ e hp), fun k k' hk hk' hl hl' hlt => ?_,
    fun k k' hk hk' hl hl' hlt hnone => ?_⟩
  · obtain ⟨k, hk, hroot, he, hl⟩ := h.headers r e hr (hsub _ e hp)
    refine ⟨k, hk, hroot, he, ?_⟩
    by_cases hq : q = Store.slotDir k.slot
    · obtain ⟨-, hnone⟩ := hlink k hk hl hq
      rw [hroot] at hnone
      rw [hsub _ e hp] at hnone
      cases hnone
    · unfold Linked
      rw [AList.lookup_erase_ne (Ne.symm hq)]
      exact hl
  · have hcomplete := h.complete_below k k' hk hk' (hl.sub hsub) (hl'.sub hsub) hlt
    refine ⟨hl, ?_⟩
    rw [AList.lookup_erase_ne (Ne.symm (hheader k k' hk hk' (hl.sub hsub) (hl'.sub hsub) hlt))]
    exact hcomplete.header
  · refine h.chained k k' hk hk' (hl.sub hsub) (hl'.sub hsub) hlt fun j hj hlj => ?_
    rintro ⟨hkj, hjk'⟩
    by_cases hq : q = Store.slotDir j.slot
    · have hle := (hlink j hj hlj hq).1 k' hk' (hl'.sub hsub)
      omega
    · refine hnone j hj ?_ ⟨hkj, hjk'⟩
      unfold Linked
      rw [AList.lookup_erase_ne (Ne.symm hq)]
      exact hlj

/-- A new link is that of its block alone. -/
theorem Linked.of_symlink (hh : net.Known h') (hk : net.Known h)
    (hl : Linked (t.insert (Store.slotDir h'.slot) (.link (Store.rootLink h'.root))) h) : h = h' ∨ Linked t h := by
  rcases lookup_insert_cases hl with ⟨-, hroot⟩ | hl
  · have heq := Inode.link.inj hroot
    exact .inl (hk.eq_of_root hh (Store.rootLink_inj hk.isB256 hh.isB256 heq))
  · exact .inr hl

/-- Links at other slots stay. -/
theorem Linked.symlink (hh : net.Known h') (hk : net.Known h) (hne : h.slot ≠ h'.slot) (hl : Linked t h) :
    Linked (t.insert (Store.slotDir h'.slot) (.link (Store.rootLink h'.root))) h := by
  unfold Linked
  rw [AList.lookup_insert_ne]
  · exact hl
  · exact fun heq => hne (Store.slotDir_inj hk.1 hh.1 heq)

/-- A new link above all others to a child of the highest block, where every block is complete. -/
theorem Shape.symlink (h : Shape net t) (hh : net.Known h')
    (hrooted : Rooted (t.insert (Store.slotDir h'.slot) (.link (Store.rootLink h'.root))))
    (habove : ∀ k, net.Known k → Linked t k → k.slot < h'.slot)
    (hcomplete : ∀ k, net.Known k → Linked t k → Complete t k)
    (hparent : ∀ k, net.Known k → Linked t k → Highest net t k → h'.parentRoot = k.root) :
    Shape net (t.insert (Store.slotDir h'.slot) (.link (Store.rootLink h'.root))) := by
  have hother : ∀ k, net.Known k →
      Linked (AList.insert (Store.slotDir h'.slot) (.link (Store.rootLink h'.root)) t) k → k ≠ h' → Linked t k := by
    exact fun k hk hl hne => (hl.of_symlink hh hk).resolve_left hne
  have hkeep : ∀ k, net.Known k → Linked t k →
      Linked (AList.insert (Store.slotDir h'.slot) (.link (Store.rootLink h'.root)) t) k :=
    fun k hk hl => hl.symlink hh hk (Nat.ne_of_lt (habove k hk hl))
  refine ⟨hrooted, fun p e hp hslot => ?_, fun p e hp hroot hlen => ?_, fun r e hr hp => ?_,
    fun r i vh e hr hp => ?_, fun k k' hk hk' hl hl' hlt => ?_, fun k k' hk hk' hl hl' hlt hnone => ?_⟩
  · rcases lookup_insert_cases hp with ⟨rfl, rfl⟩ | hp
    · exact .slot h' hh
    · exact h.slots p e hp hslot
  · rcases lookup_insert_cases hp with ⟨rfl, rfl⟩ | hp
    · exact absurd hroot (not_byRoot (slotDir_suffix _))
    · exact h.rootDirs p e hp hroot hlen
  · rw [AList.lookup_insert_ne (Ne.symm (slotDir_ne_file _ _ _))] at hp
    obtain ⟨k, hk, hroot, he, hl⟩ := h.headers r e hr hp
    exact ⟨k, hk, hroot, he, hkeep k hk hl⟩
  · rw [AList.lookup_insert_ne (Ne.symm (slotDir_ne_file _ _ _))] at hp
    exact h.blobs r i vh e hr hp
  · have hold : Linked t k := by
      refine hother k hk hl fun heq => ?_
      by_cases hnew : k' = h'
      · rw [heq, hnew] at hlt
        omega
      · have hbelow := habove k' hk' (hother k' hk' hl' hnew)
        rw [heq] at hlt
        omega
    have hc := hcomplete k hk hold
    refine ⟨hl, ?_⟩
    rw [AList.lookup_insert_ne (Ne.symm (slotDir_ne_file _ _ _))]
    exact hc.header
  · have hold : Linked t k := by
      refine hother k hk hl fun heq => ?_
      by_cases hnew : k' = h'
      · rw [heq, hnew] at hlt
        omega
      · have hbelow := habove k' hk' (hother k' hk' hl' hnew)
        rw [heq] at hlt
        omega
    by_cases hnew : k' = h'
    · subst hnew
      refine hparent k hk hold fun j hj hlj => ?_
      by_contra hnot
      exact hnone j hj (hkeep j hj hlj) ⟨by omega, habove j hj hlj⟩
    · refine h.chained k k' hk hk' hold (hother k' hk' hl' hnew) hlt fun j hj hlj => ?_
      exact hnone j hj (hkeep j hj hlj)

/-- A header appears at the root of a linked block. -/
theorem Shape.header (h : Shape net t) (hh : net.Known h') (hl' : Linked t h')
    (hrooted : Rooted (t.insert (.headerJson :: Store.rootDir h'.root) (.file (.header h')))) :
    Shape net (t.insert (.headerJson :: Store.rootDir h'.root) (.file (.header h'))) := by
  have hlinks : ∀ k, Linked (t.insert (.headerJson :: Store.rootDir h'.root) (.file (.header h'))) k ↔ Linked t k := by
    intro k
    unfold Linked
    rw [AList.lookup_insert_ne (slotDir_ne_file _ _ _)]
  refine ⟨hrooted, fun p e hp hslot => ?_, fun p e hp hroot hlen => ?_, fun r e hr hp => ?_,
    fun r i vh e hr hp => ?_, fun k k' hk hk' hl hl' hlt => ?_, fun k k' hk hk' hl hl' hlt hnone => ?_⟩
  · rcases lookup_insert_cases hp with ⟨rfl, rfl⟩ | hp
    · exact absurd (file_byRoot _ h'.root) (not_byRoot hslot)
    · exact h.slots p e hp hslot
  · rcases lookup_insert_cases hp with ⟨rfl, rfl⟩ | hp
    · simp [Store.length_rootDir] at hlen
    · exact h.rootDirs p e hp hroot hlen
  · rcases lookup_insert_cases hp with ⟨heq, rfl⟩ | hp
    · exact ⟨h', hh, (file_inj hr hh.isB256 heq).symm, rfl, (hlinks h').mpr hl'⟩
    · obtain ⟨k, hk, hroot, he, hl⟩ := h.headers r e hr hp
      exact ⟨k, hk, hroot, he, (hlinks k).mpr hl⟩
  · rw [AList.lookup_insert_ne (by simp)] at hp
    exact h.blobs r i vh e hr hp
  · have hc := h.complete_below k k' hk hk' ((hlinks k).mp hl) ((hlinks k').mp hl') hlt
    refine ⟨hl, ?_⟩
    by_cases heq : k.root = h'.root
    · rw [hk.eq_of_root hh heq, AList.lookup_insert]
    · rw [AList.lookup_insert_ne fun hp => heq (file_inj hk.isB256 hh.isB256 hp)]
      exact hc.header
  · exact h.chained k k' hk hk' ((hlinks k).mp hl) ((hlinks k').mp hl') hlt fun j hj hlj =>
      hnone j hj ((hlinks j).mpr hlj)

/-! ## Blobs -/

/-- The versioned hashes of the filtered blob transactions. -/
def Network.filteredHashes (net : Network) (txs : List Transaction) : List B256 :=
  (txs.filter fun tx => tx.blobVersionedHashes.isSome ∧ tx.to_ = some net.filterAddress).flatMap
    fun tx => tx.blobVersionedHashes.getD []

/-- A filtered blob of the payload that the block at the root committed to. -/
def Network.Wanted (net : Network) (r vh : B256) : Prop :=
  ∃ b x txs, net.block r = some b ∧ net.execution b.executionPayload.blockHash = some x ∧
    x.transactions = some txs ∧ vh ∈ net.filteredHashes txs

/-- The block makes the payload canonical that the block at the root committed to: its own, or that of
its parent. -/
inductive Network.Settles (net : Network) (h : BlockHeader) : B256 → Prop
  | embedded (b : Block) (hash : B256) (hb : net.block h.root = some b) (hpayload : b.executionPayload = .embedded hash) :
    Settles net h h.root
  | bid (b parent : Block) (hb : net.block h.root = some b) (hparent : net.block h.parentRoot = some parent)
    (hbuilds : b.buildsOnPayloadOf parent = true) : Settles net h h.parentRoot

/-- All filtered blobs of the payload are there. -/
def Stored (net : Network) (t : Tree) (r : B256) : Prop :=
  ∀ vh, net.Wanted r vh → ∃ i, t.lookup (.blob i vh :: Store.rootDir r) ≠ none

/-- The complete blocks have the blobs of the payloads they settle. -/
def Stocked (net : Network) (t : Tree) : Prop :=
  ∀ k, net.Known k → Complete t k → ∀ r, net.Settles k r → Stored net t r

theorem SameMarks.stored {r : B256} (hs : SameMarks t t') (hstored : Stored net t r) : Stored net t' r := by
  intro vh hvh
  obtain ⟨i, hi⟩ := hstored vh hvh
  exact ⟨i, hs.blob r i vh hi⟩

theorem SameMarks.stocked (hs : SameMarks t t') (hstocked : Stocked net t) : Stocked net t' :=
  fun k hk hc r hr => hs.stored (hstocked k hk (hs.complete.mp hc) r hr)

/-- The root that a block settles is its own, or that of an earlier block. -/
theorem Network.Settles.before {r : B256} (hr : net.Settles h r) (hh : net.Known h) :
    IsB256 r ∧ (r = h.root ∨ ∀ k, net.Known k → k.root = r → k.slot < h.slot) := by
  obtain ⟨-, b, hb, hslot, hparent⟩ := hh
  have hvalid := net.valid h.root b hb
  cases hr with
  | embedded => exact ⟨hvalid.1, .inl rfl⟩
  | bid b' parent hb' hparent' =>
    rw [hparent] at hvalid
    refine ⟨hvalid.2, .inr fun k hk hroot => ?_⟩
    obtain ⟨-, bk, hbk, hslotk, -⟩ := hk
    rw [hroot] at hbk
    have hlt := net.parent_before h.root b bk hb (by rw [hparent]; exact hbk)
    omega

end DigitalObjects.Archiver
