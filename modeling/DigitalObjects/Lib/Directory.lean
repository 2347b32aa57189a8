import Mathlib.Data.List.AList
import Mathlib.Data.List.Sort
set_option autoImplicit false

/-!
A directory whose files can be renamed and removed while they are open: a name leads to an inode, and
who opens a file writes to the inode.
-/

namespace DigitalObjects.Lib

structure Directory (α β : Type) [DecidableEq α] where
  files : AList fun _ : α => Nat
  inodes : List (List β)
  bound : ∀ {n i}, files.lookup n = some i → i < inodes.length
  injective : ∀ {m n i}, files.lookup m = some i → files.lookup n = some i → m = n

namespace Directory

variable {α β : Type} [DecidableEq α]

theorem lookup_insert (files : AList fun _ : α => Nat) (m n : α) (i : Nat) :
    (files.insert m i).lookup n = if n = m then some i else files.lookup n := by
  by_cases h : n = m
  · subst h
    simp
  · simp [h]

theorem lookup_erase (files : AList fun _ : α => Nat) (m n : α) :
    (files.erase m).lookup n = if n = m then none else files.lookup n := by
  by_cases h : n = m
  · subst h
    simp
  · simp [h]

def empty : Directory α β := ⟨∅, [], by simp, by simp⟩

def read (d : Directory α β) (n : α) : Option (List β) := (d.files.lookup n).bind (d.inodes[·]?)

def contains (d : Directory α β) (n : α) : Bool := (d.files.lookup n).isSome

/-- Open a file to write, without its content. -/
def openTruncate (d : Directory α β) (n : α) : Directory α β × Nat :=
  match d.files.lookup n with
  | some i => (⟨d.files, d.inodes.set i [], fun h => by simpa using d.bound h, d.injective⟩, i)
  | none =>
    (⟨d.files.insert n d.inodes.length, d.inodes ++ [[]], by
        intro m i h
        rw [lookup_insert] at h
        split at h
        · cases h
          simp
        · have hi := d.bound h
          simp
          omega, by
        intro m m' i h h'
        rw [lookup_insert] at h h'
        split at h
        · split at h'
          · simp_all
          · cases h
            have hi := d.bound h'
            omega
        · split at h'
          · cases h'
            have hi := d.bound h
            omega
          · exact d.injective h h'⟩, d.inodes.length)

/-- Write from the start of an open file. -/
def write (d : Directory α β) (i : Nat) (bytes : List β) : Directory α β :=
  ⟨d.files, d.inodes.modify i fun old => bytes ++ old.drop bytes.length,
    fun h => by simpa using d.bound h, d.injective⟩

/-- The new name loses the file that it had. -/
def rename (d : Directory α β) (m n : α) : Option (Directory α β) :=
  match h : d.files.lookup m with
  | some i => some ⟨(d.files.erase m).insert n i, d.inodes, by
      intro k j hj
      rw [lookup_insert, lookup_erase] at hj
      split at hj
      · cases hj
        exact d.bound h
      · split at hj
        · cases hj
        · exact d.bound hj, by
      intro k k' j hj hj'
      rw [lookup_insert, lookup_erase] at hj hj'
      split at hj
      · split at hj'
        · simp_all
        · cases hj
          split at hj'
          · cases hj'
          · rename_i hne
            exact absurd (d.injective hj' h) hne
      · split at hj
        · cases hj
        · rename_i hne
          split at hj'
          · cases hj'
            exact absurd (d.injective hj h) hne
          · split at hj'
            · cases hj'
            · exact d.injective hj hj'⟩
  | none => none

def remove (d : Directory α β) (n : α) : Directory α β :=
  ⟨d.files.erase n, d.inodes, by
    intro m i h
    rw [lookup_erase] at h
    split at h
    · cases h
    · exact d.bound h, by
    intro m m' i h h'
    rw [lookup_erase] at h h'
    split at h
    · cases h
    · split at h'
      · cases h'
      · exact d.injective h h'⟩

/-- A directory that holds the files. -/
def ofFiles (files : List (α × List β)) : Directory α β :=
  files.foldl (fun d file => (d.openTruncate file.1).1.write (d.openTruncate file.1).2 file.2) empty

/-- The files whose names are wanted, in the order of their names. -/
def entries {α : Type} [LinearOrder α] (d : Directory α β) (wanted : α → Bool) : List (α × List β) :=
  ((d.files.keys.filter wanted).insertionSort (· ≤ ·)).filterMap fun n => (d.read n).map (Prod.mk n)

/-! ## What files hold -/

variable {d d' : Directory α β}

theorem contains_iff (n : α) : d.contains n = true ↔ ∃ bytes, d.read n = some bytes := by
  unfold contains read
  cases hn : d.files.lookup n with
  | none => simp
  | some i => simp [d.bound hn]

theorem lookup_openTruncate (n : α) :
    (d.openTruncate n).1.files.lookup n = some (d.openTruncate n).2 := by
  unfold openTruncate
  split
  · assumption
  · simp

theorem read_openTruncate (m n : α) :
    (d.openTruncate m).1.read n = if n = m then some [] else d.read n := by
  unfold openTruncate read
  split
  · rename_i i hi
    by_cases h : n = m
    · subst h
      simp [hi, d.bound hi]
    · rw [if_neg h]
      cases hn : d.files.lookup n with
      | none => rfl
      | some j =>
        have hne : i ≠ j := fun hij => h (d.injective hn (hij ▸ hi))
        simp [List.getElem?_set_ne hne]
  · rename_i hm
    dsimp only
    rw [lookup_insert]
    by_cases h : n = m
    · simp [h]
    · rw [if_neg h, if_neg h]
      cases hn : d.files.lookup n with
      | none => rfl
      | some j => simp [List.getElem?_append_left (d.bound hn)]

theorem lookup_write (i : Nat) (bytes : List β) (n : α) :
    (d.write i bytes).files.lookup n = d.files.lookup n := rfl

theorem read_write {m : α} {i : Nat} {old : List β} (hi : d.files.lookup m = some i)
    (hold : d.read m = some old) (bytes : List β) (n : α) :
    (d.write i bytes).read n = if n = m then some (bytes ++ old.drop bytes.length) else d.read n := by
  unfold write read
  dsimp only
  by_cases h : n = m
  · subst h
    have hget : d.inodes[i]? = some old := by simpa [read, hi] using hold
    simp [hi, hget]
  · rw [if_neg h]
    cases hn : d.files.lookup n with
    | none => rfl
    | some j =>
      have hne : i ≠ j := fun hij => h (d.injective hn (hij ▸ hi))
      simp [hne]

theorem rename_of_contains {m : α} (h : d.contains m = true) (n : α) : ∃ d', d.rename m n = some d' := by
  unfold contains at h
  unfold rename
  split
  · exact ⟨_, rfl⟩
  · rename_i hnone
    simp [hnone] at h

theorem contains_of_rename {m n : α} (h : d.rename m n = some d') : d.contains m = true := by
  unfold rename at h
  unfold contains
  split at h
  · rename_i i hi
    simp [hi]
  · cases h

theorem read_rename {m n : α} (h : d.rename m n = some d') (k : α) :
    d'.read k = if k = n then d.read m else if k = m then none else d.read k := by
  unfold rename at h
  split at h
  · rename_i i hi
    cases h
    unfold read
    dsimp only
    rw [lookup_insert, lookup_erase]
    by_cases hkn : k = n
    · simp [hkn, hi]
    · by_cases hkm : k = m
      · subst hkm
        simp [hkn]
      · simp [hkn, hkm]
  · cases h

theorem read_remove (m n : α) : (d.remove m).read n = if n = m then none else d.read n := by
  unfold remove read
  dsimp only
  rw [lookup_erase]
  by_cases h : n = m
  · simp [h]
  · simp [h]

/-! ## Lists of files -/

theorem mem_keys_iff (n : α) : n ∈ d.files.keys ↔ (d.read n).isSome = true := by
  have hcontains := d.contains_iff n
  rw [← AList.mem_keys, ← AList.lookup_isSome]
  unfold contains at hcontains
  rw [hcontains, Option.isSome_iff_exists]

end Directory

namespace Directory

variable {α β : Type} [LinearOrder α] {d d' : Directory α β}

/-- A list of files tells what the wanted ones hold, and nothing else. -/
theorem entries_congr {wanted : α → Bool} (h : ∀ n, wanted n = true → d.read n = d'.read n) :
    d.entries wanted = d'.entries wanted := by
  have hperm : (d.files.keys.filter wanted).Perm (d'.files.keys.filter wanted) := by
    refine (List.perm_ext_iff_of_nodup (d.files.keys_nodup.filter _) (d'.files.keys_nodup.filter _)).mpr fun n => ?_
    rw [List.mem_filter, List.mem_filter, mem_keys_iff, mem_keys_iff]
    refine and_congr_left fun hwanted => ?_
    rw [h n hwanted]
  have hsorted : (d.files.keys.filter wanted).insertionSort (· ≤ ·) =
      (d'.files.keys.filter wanted).insertionSort (· ≤ ·) :=
    List.Perm.eq_of_sortedLE List.sortedLE_insertionSort List.sortedLE_insertionSort
      ((List.perm_insertionSort _ _).trans (hperm.trans (List.perm_insertionSort _ _).symm))
  unfold entries
  rw [hsorted]
  refine List.filterMap_congr fun n hn => ?_
  have hwanted := (List.mem_filter.mp ((List.mem_insertionSort _).mp hn)).2
  rw [h n hwanted]

/-- Names that are not in the directory are not listed, wanted or not. -/
theorem entries_wanted {wanted wanted' : α → Bool} (h : ∀ n, d.contains n = true → wanted n = wanted' n) :
    d.entries wanted = d.entries wanted' := by
  have hfilter : d.files.keys.filter wanted = d.files.keys.filter wanted' := by
    refine List.filter_congr fun n hn => h n ?_
    rw [contains_iff, ← Option.isSome_iff_exists]
    exact (mem_keys_iff n).mp hn
  unfold entries
  rw [hfilter]

theorem mem_entries {wanted : α → Bool} {n : α} {bytes : List β} :
    (n, bytes) ∈ d.entries wanted ↔ wanted n = true ∧ d.read n = some bytes := by
  unfold entries
  rw [List.mem_filterMap]
  constructor
  · rintro ⟨m, hm, hread⟩
    obtain ⟨bytes', hbytes, heq⟩ := Option.map_eq_some_iff.mp hread
    cases heq
    exact ⟨(List.mem_filter.mp ((List.mem_insertionSort _).mp hm)).2, hbytes⟩
  · rintro ⟨hwanted, hread⟩
    refine ⟨n, (List.mem_insertionSort _).mpr (List.mem_filter.mpr ⟨?_, hwanted⟩), by simp [hread]⟩
    rw [mem_keys_iff, hread]
    rfl

end Directory

end DigitalObjects.Lib
