import Mathlib.Data.Finmap
import Mathlib.Data.Finset.Basic
import Mathlib.Logic.Function.Basic
set_option autoImplicit false

namespace DigitalObjects.Pod2

/-- A pod2 dictionary: string keys with one value each. -/
abbrev Dictionary (V : Type) := Finmap (fun _ : String => V)

/-- A pod2 array: a possibly sparse map from indices to values. -/
abbrev Array (V : Type) := Finmap (fun _ : Nat => V)

/-- The part of pod2 the network is built on. Values are compared by their raw
form, so a container is known by its commitment. Hashing and the three kinds of
commitment are injective, and a hash value is larger than its two arguments and
is no container: this is the reading of Poseidon as a free constructor. -/
class Values (V : Type) where
  decEq : DecidableEq V
  ofInt : Int → V
  ofStr : String → V
  /-- A raw value, given by its field limbs. -/
  ofRaw : List Nat → V
  hash : V → V → V
  ofDict : Dictionary V → V
  ofSet : Finset V → V
  ofArray : Array V → V
  rank : V → Nat
  ofInt_injective : Function.Injective ofInt
  ofStr_injective : Function.Injective ofStr
  hash_injective : ∀ {a b c d : V}, hash a b = hash c d → a = c ∧ b = d
  ofDict_injective : Function.Injective ofDict
  ofSet_injective : Function.Injective ofSet
  ofArray_injective : Function.Injective ofArray
  /-- All empty containers share one root, `EMPTY_HASH`. -/
  ofSet_empty : ofSet ∅ = ofDict ∅
  ofArray_empty : ofArray ∅ = ofDict ∅
  hash_ne_ofDict : ∀ (a b : V) (d : Dictionary V), hash a b ≠ ofDict d
  rank_left : ∀ a b : V, rank a < rank (hash a b)
  rank_right : ∀ a b : V, rank b < rank (hash a b)

attribute [reducible, instance] Values.decEq

export Values (ofInt ofStr ofRaw hash ofDict ofSet ofArray rank)

section Maps

variable {κ W : Type} [DecidableEq κ]

/-- One lookup rule for dictionaries and arrays alike. -/
theorem lookup_insert_ite (m : Finmap (fun _ : κ => W)) (s k : κ) (v : W) :
    (m.insert s v).lookup k = if k = s then some v else m.lookup k := by
  by_cases h : k = s
  · subst h
    rw [Finmap.lookup_insert, if_pos rfl]
  · rw [Finmap.lookup_insert_of_ne _ h, if_neg h]

theorem lookup_erase_ite (m : Finmap (fun _ : κ => W)) (s k : κ) :
    (m.erase s).lookup k = if k = s then none else m.lookup k := by
  by_cases h : k = s
  · subst h
    rw [Finmap.lookup_erase, if_pos rfl]
  · rw [Finmap.lookup_erase_ne h, if_neg h]

end Maps

variable {V : Type} [Values V]

/-- The literal `{}`, which is also `EMPTY_VALUE`. -/
def empty : V := ofDict ∅

@[simp] theorem ofDict_inj {a b : Dictionary V} : ofDict a = ofDict b ↔ a = b :=
  Values.ofDict_injective.eq_iff

@[simp] theorem ofSet_inj {a b : Finset V} : ofSet a = ofSet b ↔ a = b :=
  Values.ofSet_injective.eq_iff

@[simp] theorem ofArray_inj {a b : Array V} : ofArray a = ofArray b ↔ a = b :=
  Values.ofArray_injective.eq_iff

@[simp] theorem ofStr_inj {a b : String} : (ofStr a : V) = ofStr b ↔ a = b :=
  Values.ofStr_injective.eq_iff

@[simp] theorem ofInt_inj {a b : Int} : (ofInt a : V) = ofInt b ↔ a = b :=
  Values.ofInt_injective.eq_iff

@[simp] theorem hash_inj {a b c d : V} : hash a b = hash c d ↔ a = c ∧ b = d :=
  ⟨Values.hash_injective, fun h => by rw [h.1, h.2]⟩

@[simp] theorem hash_ne_empty (a b : V) : hash a b ≠ empty := Values.hash_ne_ofDict a b ∅

@[simp] theorem ofSet_eq_empty {s : Finset V} : ofSet s = empty ↔ s = ∅ := by
  rw [empty, ← Values.ofSet_empty, ofSet_inj]

/-! Statements of the native predicates. A statement about a container holds of a
value when the value is the commitment of some container that has the property. -/

def DictContains (d k v : V) : Prop :=
  ∃ (m : Dictionary V) (s : String), d = ofDict m ∧ k = ofStr s ∧ m.lookup s = some v

def DictInsert (old k v new : V) : Prop :=
  ∃ (m : Dictionary V) (s : String),
    old = ofDict m ∧ k = ofStr s ∧ s ∉ m ∧ new = ofDict (m.insert s v)

def DictUpdate (old k v new : V) : Prop :=
  ∃ (m : Dictionary V) (s : String),
    old = ofDict m ∧ k = ofStr s ∧ s ∈ m ∧ new = ofDict (m.insert s v)

def DictDelete (old k new : V) : Prop :=
  ∃ (m : Dictionary V) (s : String),
    old = ofDict m ∧ k = ofStr s ∧ s ∈ m ∧ new = ofDict (m.erase s)

def SetContains (s v : V) : Prop := ∃ m : Finset V, s = ofSet m ∧ v ∈ m

def SetInsert (old v new : V) : Prop :=
  ∃ m : Finset V, old = ofSet m ∧ v ∉ m ∧ new = ofSet (insert v m)

def ArrayContains (a i v : V) : Prop :=
  ∃ (m : Array V) (n : Nat), a = ofArray m ∧ i = ofInt n ∧ m.lookup n = some v

def Hash (a b c : V) : Prop := c = hash a b

/-- An anchored key `d.s`: the entry `v` that `d` has at the name `s`. -/
abbrev Entry (d : V) (s : String) (v : V) : Prop := DictContains d (ofStr s) v

@[simp] theorem dictContains_ofDict {m : Dictionary V} {s : String} {v : V} :
    DictContains (ofDict m) (ofStr s) v ↔ m.lookup s = some v := by
  constructor
  · rintro ⟨m', s', hm, hs, h⟩
    simp only [ofDict_inj, ofStr_inj] at hm hs
    subst hm hs
    exact h
  · intro h
    exact ⟨m, s, rfl, rfl, h⟩

@[simp] theorem dictInsert_ofDict {m : Dictionary V} {s : String} {v new : V} :
    DictInsert (ofDict m) (ofStr s) v new ↔ s ∉ m ∧ new = ofDict (m.insert s v) := by
  constructor
  · rintro ⟨m', s', hm, hs, h⟩
    simp only [ofDict_inj, ofStr_inj] at hm hs
    subst hm hs
    exact h
  · intro h
    exact ⟨m, s, rfl, rfl, h⟩

@[simp] theorem dictUpdate_ofDict {m : Dictionary V} {s : String} {v new : V} :
    DictUpdate (ofDict m) (ofStr s) v new ↔ s ∈ m ∧ new = ofDict (m.insert s v) := by
  constructor
  · rintro ⟨m', s', hm, hs, h⟩
    simp only [ofDict_inj, ofStr_inj] at hm hs
    subst hm hs
    exact h
  · intro h
    exact ⟨m, s, rfl, rfl, h⟩

@[simp] theorem dictDelete_ofDict {m : Dictionary V} {s : String} {new : V} :
    DictDelete (ofDict m) (ofStr s) new ↔ s ∈ m ∧ new = ofDict (m.erase s) := by
  constructor
  · rintro ⟨m', s', hm, hs, h⟩
    simp only [ofDict_inj, ofStr_inj] at hm hs
    subst hm hs
    exact h
  · intro h
    exact ⟨m, s, rfl, rfl, h⟩

@[simp] theorem setContains_ofSet {m : Finset V} {v : V} : SetContains (ofSet m) v ↔ v ∈ m := by
  constructor
  · rintro ⟨m', hm, h⟩
    simp only [ofSet_inj] at hm
    subst hm
    exact h
  · intro h
    exact ⟨m, rfl, h⟩

@[simp] theorem setInsert_ofSet {m : Finset V} {v new : V} :
    SetInsert (ofSet m) v new ↔ v ∉ m ∧ new = ofSet (insert v m) := by
  constructor
  · rintro ⟨m', hm, h⟩
    simp only [ofSet_inj] at hm
    subst hm
    exact h
  · intro h
    exact ⟨m, rfl, h⟩

@[simp] theorem arrayContains_ofArray {m : Array V} {n : Nat} {v : V} :
    ArrayContains (ofArray m) (ofInt n) v ↔ m.lookup n = some v := by
  constructor
  · rintro ⟨m', n', hm, hn, h⟩
    simp only [ofArray_inj, ofInt_inj, Int.ofNat_inj] at hm hn
    subst hm hn
    exact h
  · intro h
    exact ⟨m, n, rfl, rfl, h⟩

theorem Entry.unique {d : V} {s : String} {v w : V} (hv : Entry d s v) (hw : Entry d s w) :
    v = w := by
  obtain ⟨m, s', rfl, hs, h⟩ := hv
  simp only [ofStr_inj] at hs
  subst hs
  rw [Entry, dictContains_ofDict, h, Option.some.injEq] at hw
  exact hw

theorem Entry.ne_empty {d : V} {s : String} {v : V} (h : Entry d s v) : d ≠ empty := by
  rintro rfl
  rw [empty, Entry, dictContains_ofDict, Finmap.lookup_empty] at h
  contradiction

end DigitalObjects.Pod2
