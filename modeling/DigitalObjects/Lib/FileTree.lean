import DigitalObjects.Lib.Routine
import Mathlib.Data.List.AList
import Mathlib.Data.List.Sort
import Mathlib.Data.Finset.Card
set_option autoImplicit false

/-!
Trees of files: directories, files and links under their paths. A path lists its components
from the innermost outwards, so that its tail is the directory it stands in and its suffixes
are the directories around it. The empty path is the base, which is always there.
-/

namespace DigitalObjects.Lib

inductive Inode (N D : Type) where
  | dir
  | file (data : D)
  /-- The target's components, from the outermost inwards. -/
  | link (target : List N)
deriving DecidableEq, Repr

abbrev FileTree (N D : Type) := AList fun _ : List N => Inode N D

namespace FileTree

variable {N D : Type} [DecidableEq N]

def isDir (t : FileTree N D) (p : List N) : Prop := p = [] ∨ t.lookup p = some .dir

/-- The names in a directory. -/
def children (t : FileTree N D) (p : List N) : List N :=
  t.keys.filterMap fun
    | [] => none
    | n :: q => if q = p then some n else none

/-- Every entry stands in a directory. -/
structure Rooted (t : FileTree N D) : Prop where
  base : t.lookup [] = none
  parent : ∀ n p e, t.lookup (n :: p) = some e → t.isDir p

/-- A part of a tree. -/
def Sub (t t' : FileTree N D) : Prop := ∀ q e, t.lookup q = some e → t'.lookup q = some e

variable {t t' t'' : FileTree N D} {p q : List N} {n : N} {e : Inode N D}

theorem lookup_ne_none : t.lookup p ≠ none ↔ p ∈ t.keys := by
  rw [← AList.mem_keys, ← AList.lookup_isSome, Option.isSome_iff_ne_none]

theorem mem_children : n ∈ t.children p ↔ t.lookup (n :: p) ≠ none := by
  rw [lookup_ne_none, children, List.mem_filterMap]
  constructor
  · intro h
    obtain ⟨q, hq, hn⟩ := h
    cases q with
    | nil => simp at hn
    | cons m q =>
      simp only [Option.ite_none_right_eq_some, Option.some.injEq] at hn
      obtain ⟨rfl, rfl⟩ := hn
      exact hq
  · intro h
    exact ⟨n :: p, h, by simp⟩

/-- The directory of an entry that is alone in it. -/
theorem eq_of_only_child {m : N} (h : (t.children p).length = 1) (hn : t.lookup (n :: p) ≠ none)
    (hm : t.lookup (m :: p) ≠ none) : n = m := by
  obtain ⟨k, hk⟩ := List.length_eq_one_iff.mp h
  have hn' : n = k := by simpa [hk] using mem_children.mpr hn
  have hm' : m = k := by simpa [hk] using mem_children.mpr hm
  rw [hn', hm']

theorem Rooted.above (h : t.Rooted) (hq : t.lookup q ≠ none) (hp : p <:+ q) (hne : p ≠ q) :
    t.isDir p := by
  induction q with
  | nil => exact absurd (List.suffix_nil.mp hp) hne
  | cons n q ih =>
    obtain ⟨e, he⟩ := Option.ne_none_iff_exists'.mp hq
    have hdir := h.parent n q e he
    rcases List.suffix_cons_iff.mp hp with heq | hsub
    · exact absurd heq hne
    · by_cases hpq : p = q
      · rw [hpq]
        exact hdir
      · rcases hdir with rfl | hdir
        · exact absurd (List.suffix_nil.mp hsub) hpq
        · exact ih (by simp [hdir]) hsub hpq

theorem Rooted.above_ne_none (h : t.Rooted) (hq : t.lookup q ≠ none) (hp : p <:+ q) (hbase : p ≠ []) :
    t.lookup p ≠ none := by
  by_cases hpq : p = q
  · rw [hpq]
    exact hq
  · rcases h.above hq hp hpq with rfl | hdir
    · exact absurd rfl hbase
    · simp [hdir]

theorem Rooted.empty : (∅ : FileTree N D).Rooted where
  base := rfl
  parent n p e h := by simp at h

/-! ## Parts -/

theorem Sub.refl (t : FileTree N D) : t.Sub t := fun _ _ h => h

theorem Sub.trans (h : t.Sub t') (h' : t'.Sub t'') : t.Sub t'' := fun q e hq => h' q e (h q e hq)

theorem Sub.erase (t : FileTree N D) (p : List N) : Sub (t.erase p) t := by
  intro q e h
  by_cases hq : q = p
  · rw [hq, AList.lookup_erase] at h
    cases h
  · rwa [AList.lookup_erase_ne hq] at h

theorem Sub.ne_none (h : t.Sub t') (hq : t.lookup q ≠ none) : t'.lookup q ≠ none := by
  obtain ⟨e, he⟩ := Option.ne_none_iff_exists'.mp hq
  simp [h q e he]

theorem keys_length (t : FileTree N D) : t.keys.toFinset.card = t.keys.length :=
  List.toFinset_card_of_nodup t.keys_nodup

/-- A part that misses an entry is smaller. -/
theorem Sub.length_lt (h : t.Sub t') (hq : t.lookup q = none) (hq' : t'.lookup q ≠ none) :
    t.keys.length < t'.keys.length := by
  rw [← keys_length, ← keys_length]
  apply Finset.card_lt_card
  rw [Finset.ssubset_iff_of_subset]
  · exact ⟨q, by simpa using lookup_ne_none.mp hq', by simpa [← lookup_ne_none] using hq⟩
  · intro k hk
    rw [List.mem_toFinset, ← lookup_ne_none] at hk ⊢
    exact h.ne_none hk

/-! ## Climbing -/

/-- Up to `k` directories upwards, as long as each holds a single entry. -/
def climb (t : FileTree N D) : Nat → List N → List N
  | 0, p => p
  | k + 1, p => if (t.children p.tail).length = 1 then t.climb k p.tail else p

theorem climb_suffix (k : Nat) (p : List N) : t.climb k p <:+ p := by
  induction k generalizing p with
  | zero => exact List.suffix_refl p
  | succ k ih =>
    rw [climb]
    split
    · exact (ih p.tail).trans (List.tail_suffix p)
    · exact List.suffix_refl p

/-- What stands at or below the place reached is on the way to where the climb began, or
below it. -/
theorem Rooted.climb (h : t.Rooted) {k : Nat} (hp : t.lookup p ≠ none) (hk : k < p.length)
    (hq : t.lookup q ≠ none) (hbelow : t.climb k p <:+ q) : q <:+ p ∨ p <:+ q := by
  induction k generalizing p with
  | zero => exact .inr hbelow
  | succ k ih =>
    rw [FileTree.climb] at hbelow
    by_cases hone : (t.children p.tail).length = 1
    · rw [if_pos hone] at hbelow
      cases p with
      | nil => simp at hk
      | cons n p =>
        rw [List.tail_cons] at hone hbelow
        have hlen : k < p.length := by simpa using hk
        have hp' : t.lookup p ≠ none := by
          apply h.above_ne_none hp (List.suffix_cons n p)
          intro hnil
          simp [hnil] at hlen
        rcases ih hp' hlen hbelow with hup | hdown
        · exact .inl (hup.trans (List.suffix_cons n p))
        · obtain ⟨front, rfl⟩ := hdown
          rcases List.eq_nil_or_concat front with rfl | ⟨front, m, rfl⟩
          · exact .inl (by simp)
          · have hsuf : m :: p <:+ front.concat m ++ p := ⟨front, by simp⟩
            have hm := h.above_ne_none hq hsuf (by simp)
            rw [eq_of_only_child hone hp hm]
            exact .inr hsuf
    · rw [if_neg hone] at hbelow
      exact .inr hbelow

/-! ## Operations -/

inductive Refusal where
  | notFound
  | alreadyExists
  | isADirectory
  | notADirectory
  | notEmpty
deriving DecidableEq, Repr

inductive Op (N D : Type) where
  | mkdir (p : List N)
  | symlink (target p : List N)
  | write (p : List N) (data : D)
  | rename (p q : List N)
  | remove (p : List N)
deriving DecidableEq, Repr

instance (t : FileTree N D) (p : List N) : Decidable (t.isDir p) :=
  match h : t.lookup p with
  | some .dir => .isTrue (.inr h)
  | some (.file _) => if hp : p = [] then .isTrue (.inl hp) else .isFalse (by simp [isDir, hp, h])
  | some (.link _) => if hp : p = [] then .isTrue (.inl hp) else .isFalse (by simp [isDir, hp, h])
  | none => if hp : p = [] then .isTrue (.inl hp) else .isFalse (by simp [isDir, hp, h])

def readDir (t : FileTree N D) (p : List N) : Except Refusal (List N) :=
  if t.isDir p then .ok (t.children p)
  else if t.lookup p = none then .error .notFound
  else .error .notADirectory

/-- A new entry in a directory that is there. -/
def create (t : FileTree N D) (p : List N) (e : Inode N D) : Except Refusal (FileTree N D) :=
  if p = [] ∨ t.lookup p ≠ none then .error .alreadyExists
  else if t.isDir p.tail then .ok (t.insert p e)
  else .error .notFound

/-- What an operation does, or why it is refused. -/
def Op.run : Op N D → FileTree N D → Except Refusal (FileTree N D)
  | .mkdir p, t => t.create p .dir
  | .symlink target p, t => t.create p (.link target)
  | .write p data, t =>
    if t.isDir p then .error .isADirectory
    else if t.isDir p.tail then .ok (t.insert p (.file data))
    else .error .notFound
  | .rename p q, t =>
    match t.lookup p with
    | some (.file data) =>
      if t.isDir q then .error .isADirectory
      else if t.isDir q.tail then .ok ((t.erase p).insert q (.file data))
      else .error .notFound
    | some _ => .error .isADirectory
    | none => .error .notFound
  | .remove p, t =>
    match t.lookup p with
    | some .dir => if t.children p = [] then .ok (t.erase p) else .error .notEmpty
    | some _ => .ok (t.erase p)
    | none => .error .notFound

/-- What a successful operation finds and leaves. -/
theorem create_ok (h : t.create p e = .ok t') :
    p ≠ [] ∧ t.lookup p = none ∧ t.isDir p.tail ∧ t' = t.insert p e := by
  unfold create at h
  split at h
  · cases h
  · split at h
    · rename_i hnew hdir
      simp only [not_or, not_not] at hnew
      cases h
      exact ⟨hnew.1, hnew.2, hdir, rfl⟩
    · cases h

theorem write_ok {data : D} (h : (Op.write p data).run t = .ok t') :
    ¬ t.isDir p ∧ t.isDir p.tail ∧ t' = t.insert p (.file data) := by
  simp only [Op.run] at h
  split at h
  · cases h
  · split at h
    · rename_i hnew hdir
      cases h
      exact ⟨hnew, hdir, rfl⟩
    · cases h

theorem rename_ok (h : (Op.rename p q).run t = .ok t') : ∃ data, t.lookup p = some (.file data) ∧
    ¬ t.isDir q ∧ t.isDir q.tail ∧ t' = (t.erase p).insert q (.file data) := by
  simp only [Op.run] at h
  split at h
  · rename_i data hp
    split at h
    · cases h
    · split at h
      · rename_i hnew hdir
        cases h
        exact ⟨data, hp, hnew, hdir, rfl⟩
      · cases h
  · cases h
  · cases h

theorem remove_ok (h : (Op.remove p).run t = .ok t') :
    t.lookup p ≠ none ∧ (t.lookup p = some .dir → t.children p = []) ∧ t' = t.erase p := by
  simp only [Op.run] at h
  split at h
  · rename_i hp
    split at h
    · rename_i hnone
      cases h
      exact ⟨by simp [hp], fun _ => hnone, rfl⟩
    · cases h
  · rename_i e hdir hp
    cases h
    refine ⟨by simp [hp], fun hd => ?_, rfl⟩
    exact absurd (Option.some.inj (hp.symm.trans hd)) hdir
  · cases h

theorem isDir_insert (h : t.isDir q) (hpq : q = p → e = .dir) : isDir (t.insert p e) q := by
  rcases h with rfl | h
  · exact .inl rfl
  · by_cases hq : q = p
    · subst hq
      rw [hpq rfl]
      exact .inr (AList.lookup_insert t)
    · exact .inr ((AList.lookup_insert_ne hq).trans h)

theorem isDir_erase (h : t.isDir q) (hpq : q ≠ p) : isDir (t.erase p) q := by
  rcases h with rfl | h
  · exact .inl rfl
  · exact .inr ((AList.lookup_erase_ne hpq).trans h)

theorem Rooted.insert (h : t.Rooted) (hp : p ≠ []) (hdir : t.isDir p.tail)
    (hnew : t.isDir p → e = .dir) : Rooted (t.insert p e) where
  base := (AList.lookup_insert_ne (Ne.symm hp)).trans h.base
  parent n q e' hq := by
    have hq' : t.isDir q := by
      by_cases hpq : n :: q = p
      · rw [← hpq] at hdir
        exact hdir
      · rw [AList.lookup_insert_ne hpq] at hq
        exact h.parent n q e' hq
    exact isDir_insert hq' fun hqp => hnew (hqp ▸ hq')

theorem Rooted.erase (h : t.Rooted) (hp : t.lookup p = some .dir → t.children p = []) :
    Rooted (t.erase p) where
  base := by
    by_cases hbase : [] = p
    · rw [hbase, AList.lookup_erase]
    · rw [AList.lookup_erase_ne hbase, h.base]
  parent n q e' hq := by
    by_cases hpq : n :: q = p
    · rw [hpq, AList.lookup_erase] at hq
      cases hq
    · rw [AList.lookup_erase_ne hpq] at hq
      have hdir := h.parent n q e' hq
      by_cases hqp : q = p
      · rcases hdir with hnil | hdir
        · exact .inl hnil
        · rw [hqp] at hdir hq
          have hmem : n ∈ t.children p := mem_children.mpr (by simp [hq])
          simp [hp hdir] at hmem
      · exact isDir_erase hdir hqp

/-- Every operation keeps the entries in directories. -/
theorem Rooted.run (h : t.Rooted) {op : Op N D} (hop : op.run t = .ok t') : t'.Rooted := by
  cases op with
  | mkdir p =>
    obtain ⟨hp, hnew, hdir, rfl⟩ := create_ok hop
    exact h.insert hp hdir fun _ => rfl
  | symlink target p =>
    obtain ⟨hp, hnew, hdir, rfl⟩ := create_ok hop
    refine h.insert hp hdir fun hd => ?_
    rcases hd with hd | hd
    · exact absurd hd hp
    · simp [hnew] at hd
  | write p data =>
    obtain ⟨hnew, hdir, rfl⟩ := write_ok hop
    exact h.insert (fun hp => hnew (.inl hp)) hdir fun hd => absurd hd hnew
  | rename p q =>
    obtain ⟨data, hp, hnew, hdir, rfl⟩ := rename_ok hop
    have hp' : t.lookup p = some .dir → t.children p = [] := by simp [hp]
    have hqp : q.tail ≠ p := by
      intro hqp
      rw [hqp] at hdir
      rcases hdir with rfl | hdir
      · simp [h.base] at hp
      · simp [hp] at hdir
    refine (h.erase hp').insert (fun hq => hnew (.inl hq)) (isDir_erase hdir hqp) fun hd => ?_
    rcases hd with hd | hd
    · exact absurd (.inl hd) hnew
    · exact absurd (.inr (Sub.erase t p q _ hd)) hnew
  | remove p =>
    obtain ⟨-, hempty, rfl⟩ := remove_ok hop
    exact h.erase hempty

/-! ## Removing a directory with all it holds -/

/-- An order in which the entries at and below a path may go: none before what it holds. -/
structure RemovalOrder (N D : Type) [DecidableEq N] where
  list : FileTree N D → List N → List (List N)
  mem_list : ∀ t p q, q ∈ list t p ↔ t.lookup q ≠ none ∧ p <:+ q
  inner_first : ∀ t p, (list t p).Pairwise fun a b => ¬ a <:+ b

/-- The deepest entries first, and those of one depth as they are arranged. -/
def RemovalOrder.deepest (arrange : List (List N) → List (List N))
    (harrange : ∀ ps, (arrange ps).Perm ps) : RemovalOrder N D where
  list t p := ((arrange t.keys).filter fun q => p <:+ q).insertionSort fun a b => b.length ≤ a.length
  mem_list t p q := by
    rw [List.mem_insertionSort, List.mem_filter, (harrange t.keys).mem_iff, lookup_ne_none,
      decide_eq_true_iff]
  inner_first t p := by
    have hperm := List.perm_insertionSort (fun a b : List N => b.length ≤ a.length)
      ((arrange t.keys).filter fun q => p <:+ q)
    have hnodup : ((arrange t.keys).filter fun q => p <:+ q).Nodup :=
      ((harrange t.keys).nodup_iff.mpr t.keys_nodup).filter _
    have htotal : Std.Total fun a b : List N => b.length ≤ a.length := ⟨fun a b => by omega⟩
    have htrans : IsTrans (List N) fun a b => b.length ≤ a.length := ⟨fun a b c h h' => by omega⟩
    have hsorted := List.pairwise_insertionSort (fun a b : List N => b.length ≤ a.length)
      ((arrange t.keys).filter fun q => p <:+ q)
    refine (hsorted.and (hperm.nodup_iff.mpr hnodup)).imp ?_
    intro a b hab hsuf
    exact hab.2 (hsuf.eq_of_length_le hab.1)

/-! ## Routines -/

/-- A write that stops half way leaves `scrap`. -/
def device (scrap : D) : Device (FileTree N D) (Op N D) where
  done op t := match op.run t with
    | .ok t' => t'
    | .error _ => t
  torn op t := match op with
    | .write p _ => match (Op.write p scrap).run t with
      | .ok t' => t'
      | .error _ => t
    | _ => t

section Routines

variable {ε : Type} (refused : Refusal → ε) (failed : ε)

/-- One operation. A refusal ends the routine, and so does a failure. -/
def call (op : Op N D) : Routine (FileTree N D) (Op N D) ε Unit := do
  let t ← Routine.get
  match op.run t with
  | .ok _ => Routine.perform op failed
  | .error e => .throw (refused e)

/-- `create_dir_all`: the missing directories, from the outermost inwards. -/
def createDirAll : List N → Routine (FileTree N D) (Op N D) ε Unit
  | [] => .ret ()
  | n :: p => do
    createDirAll p
    let t ← Routine.get
    if t.isDir (n :: p) then .ret () else call refused failed (.mkdir (n :: p))

/-- `remove_dir_all`. -/
def removeDirAll (order : RemovalOrder N D) (p : List N) :
    Routine (FileTree N D) (Op N D) ε Unit := do
  let t ← Routine.get
  Routine.forList (fun q => call refused failed (.remove q)) (order.list t p)

variable {refused failed} {scrap : D} {G : FileTree N D → Op N D → Answer → Prop}
  {A : FileTree N D → Prop} {F : Option ε → FileTree N D → Prop}

open Routine

theorem spec_call {op : Op N D} {Q : Unit → FileTree N D → Prop}
    (hdone : ∀ t t', A t → op.run t = .ok t' → G t op .done → Q () t')
    (hrefused : ∀ t e, A t → op.run t = .error e → F (some (refused e)) t)
    (hnot : ∀ t, A t → F (some failed) t ∧ F none t)
    (htorn : ∀ t t' p data, A t → op = .write p data → (Op.write p scrap).run t = .ok t' →
      F (some failed) t' ∧ F none t') :
    Spec (device scrap) G A (call refused failed op) Q F := by
  refine Spec.get_bind fun t ht => ?_
  cases hrun : op.run t with
  | error e =>
    refine Spec.throw fun t' ht' => ?_
    rw [ht']
    exact hrefused t e ht hrun
  | ok t₁ =>
    refine Spec.perform (fun t' ht' hg => ?_) (fun t' ht' => ?_) (fun t' ht' => ?_)
    · subst ht'
      simp only [device, hrun]
      exact hdone t' t₁ ht hrun hg
    · rw [ht']
      exact hnot t ht
    · subst ht'
      cases op with
      | write p data =>
        simp only [device]
        split
        · rename_i t₂ h₂
          exact htorn t' t₂ p data ht rfl h₂
        · exact hnot t' ht
      | mkdir p => exact hnot t' ht
      | symlink target p => exact hnot t' ht
      | rename p q => exact hnot t' ht
      | remove p => exact hnot t' ht

/-- The ends of a routine other than that something was already there. -/
structure Plain (refused : Refusal → ε) (failed : ε) (B : Option ε → Prop) : Prop where
  crashed : B none
  failed : B (some failed)
  refused : ∀ e, e ≠ .alreadyExists → B (some (refused e))

variable {B : Option ε → Prop} {K : FileTree N D → Prop}

theorem create_refused {r : Refusal} (h : t.create p e = .error r)
    (hnew : p ≠ [] ∧ t.lookup p = none) : r ≠ .alreadyExists := by
  unfold create at h
  rw [if_neg (by simp [hnew])] at h
  split at h
  · cases h
  · cases h
    simp

theorem remove_refused {r : Refusal} (h : (Op.remove p).run t = .error r) : r ≠ .alreadyExists := by
  simp only [Op.run] at h
  split at h
  · split at h
    · cases h
    · cases h
      simp
  · cases h
  · cases h
    simp

/-- An invariant that new directories on the way keep, and that leaves no file in it. -/
theorem spec_createDirAll (hB : Plain refused failed B)
    (hmkdir : ∀ t t' q, K t → q <:+ p → (Op.mkdir q).run t = .ok t' → K t')
    (hfree : ∀ t q, K t → q <:+ p → ¬ t.isDir q → t.lookup q = none) :
    Spec (device scrap) G K (createDirAll refused failed p) (fun _ t => K t ∧ t.isDir p)
      (fun e t => B e ∧ K t) := by
  induction p with
  | nil => exact Spec.ret fun t ht => ⟨ht, .inl rfl⟩
  | cons n p ih =>
    have hsuf : ∀ q, q <:+ p → q <:+ n :: p := fun q hq => hq.trans (List.suffix_cons n p)
    have hself : n :: p <:+ n :: p := List.suffix_refl _
    refine Spec.bind (ih (fun t t' q ht hq => hmkdir t t' q ht (hsuf q hq))
      fun t q ht hq => hfree t q ht (hsuf q hq)) fun _ => ?_
    refine Spec.get_bind fun t ht => ?_
    by_cases hdir : t.isDir (n :: p)
    · rw [if_pos hdir]
      exact Spec.ret fun t' ht' => ht' ▸ ⟨ht.1, hdir⟩
    · rw [if_neg hdir]
      refine spec_call ?_ ?_ ?_ ?_
      · intro t₁ t' ht₁ hrun _
        rw [ht₁] at hrun
        refine ⟨hmkdir t t' (n :: p) ht.1 hself hrun, ?_⟩
        obtain ⟨-, -, -, rfl⟩ := create_ok hrun
        exact .inr (AList.lookup_insert t)
      · intro t₁ e ht₁ hrun
        rw [ht₁] at hrun ⊢
        have hnew := hfree t (n :: p) ht.1 hself hdir
        exact ⟨hB.refused e (create_refused hrun ⟨by simp, hnew⟩), ht.1⟩
      · intro t₁ ht₁
        rw [ht₁]
        exact ⟨⟨hB.failed, ht.1⟩, hB.crashed, ht.1⟩
      · intro t₁ t' q data _ hop
        cases hop

/-- Something at or below `p` is gone, and nothing else. -/
structure Pruned (p : List N) (t t₀ : FileTree N D) : Prop where
  sub : t.Sub t₀
  rooted : t.Rooted
  elsewhere : ∀ q, ¬ p <:+ q → t.lookup q = t₀.lookup q

theorem Pruned.remove {t₀ : FileTree N D} (h : Pruned p t t₀) (hq : p <:+ q)
    (hrun : (Op.remove q).run t = .ok t') : Pruned p t' t₀ where
  sub := by
    obtain ⟨-, -, rfl⟩ := remove_ok hrun
    exact (Sub.erase t q).trans h.sub
  rooted := h.rooted.run hrun
  elsewhere q' hq' := by
    obtain ⟨-, -, rfl⟩ := remove_ok hrun
    rw [AList.lookup_erase_ne, h.elsewhere q' hq']
    intro heq
    exact hq' (heq ▸ hq)

/-- An invariant that the single removals keep. What still stands comes later in the order. -/
theorem spec_removeDirAll {order : RemovalOrder N D} {t₀ : FileTree N D} {R : List N → List N → Prop}
    (hB : Plain refused failed B) (hroot : t₀.Rooted) (hK : K t₀) (hR : (order.list t₀ p).Pairwise R)
    (hremove : ∀ t t' q, K t → Pruned p t t₀ → p <:+ q → (Op.remove q).run t = .ok t' →
      G t (.remove q) .done → (∀ q', p <:+ q' → t.lookup q' ≠ none → q' ≠ q → R q q') → K t') :
    Spec (device scrap) G (fun t => t = t₀) (removeDirAll refused failed order p)
      (fun _ t => K t ∧ Pruned p t t₀ ∧ ∀ q, p <:+ q → t.lookup q = none)
      (fun e t => B e ∧ K t ∧ Pruned p t t₀) := by
  refine Spec.get_bind fun t ht => ?_
  subst ht
  have hloop : Spec (device scrap) G
      (fun t' => (K t' ∧ Pruned p t' t) ∧ ((∀ q ∈ order.list t p, p <:+ q) ∧ (order.list t p).Pairwise R) ∧
        ∀ q, p <:+ q → t'.lookup q ≠ none → q ∈ order.list t p)
      (forList (fun q => call refused failed (.remove q)) (order.list t p))
      (fun _ t' => (K t' ∧ Pruned p t' t) ∧ ((∀ q ∈ ([] : List (List N)), p <:+ q) ∧ ([] : List (List N)).Pairwise R) ∧
        ∀ q, p <:+ q → t'.lookup q ≠ none → q ∈ ([] : List (List N)))
      (fun e t' => B e ∧ K t' ∧ Pruned p t' t) :=
    Spec.forList_rest (I := fun rest t' => (K t' ∧ Pruned p t' t) ∧ ((∀ q ∈ rest, p <:+ q) ∧ rest.Pairwise R) ∧
      ∀ q, p <:+ q → t'.lookup q ≠ none → q ∈ rest) ?_
  · refine hloop.imp ?_ ?_ fun _ _ h => h
    · intro t' ht'
      subst ht'
      refine ⟨⟨hK, Sub.refl _, hroot, fun _ _ => rfl⟩, ⟨fun q hq => ((order.mem_list _ p q).mp hq).2, hR⟩, ?_⟩
      exact fun q hq hne => (order.mem_list _ p q).mpr ⟨hne, hq⟩
    · intro _ t' h
      refine ⟨h.1.1, h.1.2, fun q hq => ?_⟩
      by_contra hne
      exact absurd (h.2.2 q hq hne) (by simp)
  · intro q rest
    refine spec_call ?_ ?_ ?_ ?_
    · intro t₁ t₂ h hrun hg
      have hq := h.2.1.1 q (by simp)
      have hlater : ∀ q', p <:+ q' → t₁.lookup q' ≠ none → q' ≠ q → R q q' := by
        intro q' hq' hne hqq
        exact (List.pairwise_cons.mp h.2.1.2).1 q' (List.mem_of_ne_of_mem hqq (h.2.2 q' hq' hne))
      refine ⟨⟨hremove t₁ t₂ q h.1.1 h.1.2 hq hrun hg hlater, h.1.2.remove hq hrun⟩,
        ⟨fun q' hq' => h.2.1.1 q' (List.mem_cons_of_mem q hq'), h.2.1.2.of_cons⟩, fun q' hq' hne => ?_⟩
      obtain ⟨-, -, rfl⟩ := remove_ok hrun
      have hqq : q' ≠ q := by
        intro heq
        rw [heq, AList.lookup_erase] at hne
        exact hne rfl
      rw [AList.lookup_erase_ne hqq] at hne
      exact List.mem_of_ne_of_mem hqq (h.2.2 q' hq' hne)
    · intro t₁ e h hrun
      exact ⟨hB.refused e (remove_refused hrun), h.1⟩
    · intro t₁ h
      exact ⟨⟨hB.failed, h.1⟩, hB.crashed, h.1⟩
    · intro t₁ t₂ p' data _ hop
      cases hop

end Routines

end FileTree

end DigitalObjects.Lib
