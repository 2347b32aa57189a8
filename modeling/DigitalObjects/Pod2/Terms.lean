import DigitalObjects.Pod2.Values
import Mathlib.Data.Finset.Sort
import Mathlib.Data.Multiset.Sort
import Mathlib.Data.Nat.Pairing
set_option autoImplicit false

namespace DigitalObjects.Pod2

/-- A term model of pod2 values: binary trees over numbers. Every assumption
that `Values` makes is met by it. -/
inductive Term where
  | atom : Nat → Term
  | pair : Term → Term → Term
  deriving DecidableEq, Repr

namespace Term

def size : Term → Nat
  | .atom _ => 1
  | .pair a b => 1 + a.size + b.size

def code : Term → Nat
  | .atom n => 2 * n
  | .pair a b => 2 * Nat.pair a.code b.code + 1

theorem code_injective : Function.Injective code := by
  intro s t h
  induction s generalizing t with
  | atom n =>
    cases t with
    | atom m => simp only [code] at h; congr; omega
    | pair a b => simp only [code] at h; omega
  | pair a b iha ihb =>
    cases t with
    | atom m => simp only [code] at h; omega
    | pair c d =>
      have hp : Nat.pair a.code b.code = Nat.pair c.code d.code := by
        simp only [code] at h; omega
      rw [Nat.pair_eq_pair] at hp
      rw [iha hp.1, ihb hp.2]

-- Only used to lay the entries of a container out in one fixed order.
instance : LinearOrder Term := LinearOrder.lift' code code_injective

def list : List Term → Term
  | [] => .atom 0
  | a :: l => .pair a (list l)

theorem list_injective : Function.Injective list := by
  intro s t h
  induction s generalizing t with
  | nil => cases t <;> simp_all [list]
  | cons a s ih =>
    cases t with
    | nil => simp [list] at h
    | cons b t =>
      simp only [list, Term.pair.injEq] at h
      rw [h.1, ih h.2]

def hash (a b : Term) : Term := .pair (.atom 0) (.pair a b)

def ofInt : Int → Term
  | .ofNat n => .pair (.atom 1) (.pair (.atom 0) (.atom n))
  | .negSucc n => .pair (.atom 1) (.pair (.atom 1) (.atom n))

def ofStr (s : String) : Term := .pair (.atom 2) (list (s.toList.map fun c => .atom c.toNat))

def ofRaw (limbs : List Nat) : Term := .pair (.atom 4) (list (limbs.map .atom))

def entry (e : Term × Term) : Term := .pair e.1 e.2

/-- A container is its entries in order, as the leaves of a Merkle tree. -/
def ofEntries (es : Multiset (Term × Term)) : Term := .pair (.atom 3) (list (es.map entry).sort)

def inOrder (s : Finset Term) : List Term := s.sort

theorem inOrder_nodup (s : Finset Term) : (inOrder s).Nodup := s.sort_nodup (· ≤ ·)

theorem mem_inOrder (s : Finset Term) (v : Term) : v ∈ inOrder s ↔ v ∈ s := s.mem_sort (· ≤ ·)

def ofDict (d : Dictionary Term) : Term := ofEntries (d.entries.map fun e => (ofStr e.1, e.2))

def ofSet (s : Finset Term) : Term := ofEntries (s.val.map fun v => (v, v))

def ofArray (a : Array Term) : Term := ofEntries (a.entries.map fun e => (ofInt e.1, e.2))

theorem ofInt_injective : Function.Injective ofInt := by
  intro a b h
  cases a <;> cases b <;> simp_all [ofInt]

theorem ofStr_injective : Function.Injective ofStr := by
  intro a b h
  simp only [ofStr, Term.pair.injEq, true_and] at h
  have hl := list_injective h
  have hc : Function.Injective fun c : Char => Term.atom c.toNat := by
    intro c d hcd
    simp only [Term.atom.injEq] at hcd
    exact Char.toNat_inj.mp hcd
  exact String.toList_inj.mp (List.map_injective_iff.mpr hc hl)

theorem ofEntries_injective : Function.Injective ofEntries := by
  intro a b h
  simp only [ofEntries, Term.pair.injEq, true_and] at h
  have hs := congrArg (fun l : List Term => (l : Multiset Term)) (list_injective h)
  simp only [Multiset.sort_eq] at hs
  refine Multiset.map_injective ?_ hs
  intro x y hxy
  simp only [entry, Term.pair.injEq] at hxy
  exact Prod.ext hxy.1 hxy.2

theorem ofDict_injective : Function.Injective ofDict := by
  intro a b h
  apply Finmap.ext
  refine Multiset.map_injective ?_ (ofEntries_injective h)
  rintro ⟨k, v⟩ ⟨k', v'⟩ hkv
  simp only [Prod.mk.injEq] at hkv
  obtain ⟨hk, rfl⟩ := hkv
  rw [ofStr_injective hk]

theorem ofArray_injective : Function.Injective ofArray := by
  intro a b h
  apply Finmap.ext
  refine Multiset.map_injective ?_ (ofEntries_injective h)
  rintro ⟨k, v⟩ ⟨k', v'⟩ hkv
  simp only [Prod.mk.injEq] at hkv
  obtain ⟨hk, rfl⟩ := hkv
  rw [Int.ofNat_inj.mp (ofInt_injective hk)]

theorem ofSet_injective : Function.Injective ofSet := by
  intro a b h
  apply Finset.val_injective
  refine Multiset.map_injective ?_ (ofEntries_injective h)
  intro x y hxy
  exact (Prod.mk.inj hxy).1

instance : Values Term where
  decEq := inferInstance
  ofInt := ofInt
  ofStr := ofStr
  ofRaw := ofRaw
  hash := hash
  ofDict := ofDict
  ofSet := ofSet
  ofArray := ofArray
  rank := size
  ofInt_injective := ofInt_injective
  ofStr_injective := ofStr_injective
  hash_injective := by intro a b c d h; simpa [hash] using h
  ofDict_injective := ofDict_injective
  ofSet_injective := ofSet_injective
  ofArray_injective := ofArray_injective
  ofSet_empty := rfl
  ofArray_empty := rfl
  hash_ne_ofDict := by intro a b d h; simp [hash, ofDict, ofEntries] at h
  rank_left := by intro a b; simp [hash, size]; omega
  rank_right := by intro a b; simp [hash, size]; omega

end Term

end DigitalObjects.Pod2
