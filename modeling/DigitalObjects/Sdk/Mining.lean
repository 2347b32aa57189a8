import DigitalObjects.IntroPods.LtEqU256
import DigitalObjects.Pod2.Values
import DigitalObjects.Lib.Outcome
set_option autoImplicit false

/-!
Mining on the host: the comparisons that decide when grinding stops and whether the proof of
`LtEqU256Pod` is attempted, over the machine words that hold field elements. A word need not be
the canonical one of its element.
-/

namespace DigitalObjects.Sdk

open Lib IntroPods Pod2

/-- The machine words of a `RawValue`, least significant first. -/
abbrev RawValue := Fin 4 → UInt64

/-- The field elements that the words stand for. -/
def RawValue.elements (a : RawValue) : ValueTarget := fun i => ((a i).toNat : F)

/-! ## The comparisons -/

/-- The loop of `u256_gt` over the limbs from the top. -/
def u256GtLoop (a b : RawValue) : List (Fin 4) → Bool
  | [] => false
  | i :: is => if a i ≠ b i then b i < a i else u256GtLoop a b is

def u256Gt (a b : RawValue) : Bool := u256GtLoop a b (List.finRange 4).reverse

/-- The loop of the pre-check. -/
def preCheckLoop (lhs rhs : RawValue) : List (Fin 4) → Except String Unit
  | [] => .ok ()
  | i :: is =>
    if rhs i < lhs i then .error "lhs > rhs in LtEqU256"
    else if lhs i < rhs i then .ok ()
    else preCheckLoop lhs rhs is

/-- What `LtEqU256Pod::new` checks before it proves. -/
def preCheck (lhs rhs : RawValue) : Except String Unit := preCheckLoop lhs rhs (List.finRange 4).reverse

/-- The cast of the integer to a word is the one of `as u64`. -/
def topLimbU256 (n : Int64) : RawValue := fun i => if i = 3 then n.toUInt64 else 0

/-! ## Grinding -/

section Grind

variable {V : Type} (commitment : Dictionary V → RawValue) (iter : Dictionary V → List (String × V))
  (rand : Nat → V)

/-- `Dictionary::new` of the collected pairs. -/
def dictionaryNew (kvs : List (String × V)) : Dictionary V := kvs.foldr (fun kv d => d.insert kv.1 kv.2) ∅

/-- The loop of `pow_obj_grind`; nothing while it has not come to its end. -/
def grindLoop (keyName : String) (target : RawValue) :
    Nat → Dictionary V → V → Nat → Nat → Option (Outcome String V)
  | 0, _, _, _, _ => none
  | fuel + 1, obj, v, drawn, i =>
    if u256Gt (commitment obj) target then
      let v := rand drawn
      if keyName ∈ obj then
        let obj := obj.insert keyName v
        -- the copy after 256 iterations lets old tree nodes go
        if i + 1 ≥ 256 then grindLoop keyName target fuel (dictionaryNew (iter obj)) v (drawn + 1) 0
        else grindLoop keyName target fuel obj v (drawn + 1) (i + 1)
      else some (.panic "called unwrap on an error")
    else some (.ok v)

def powObjGrind (mock : Bool) (fuel : Nat) (obj : Dictionary V) (keyName : String)
    (target : RawValue) : Option (Outcome String V) :=
  match obj.lookup keyName with
  | none => some (.err ("pow_obj_grind: object has no field " ++ keyName))
  | some v => if mock then some (.ok v) else grindLoop commitment iter rand keyName target fuel obj v 0 0

end Grind

/-- The iteration lists every entry once. -/
def Lists {V : Type} (iter : Dictionary V → List (String × V)) : Prop :=
  ∀ d, ((iter d).map Prod.fst).Nodup ∧ ∀ k v, (k, v) ∈ iter d ↔ d.lookup k = some v

/-! ## What the comparisons say of the words -/

/-- The words as the digits of a number. -/
def RawValue.number (a : RawValue) : Nat :=
  (a 0).toNat + 2 ^ 64 * ((a 1).toNat + 2 ^ 64 * ((a 2).toNat + 2 ^ 64 * (a 3).toNat))

/-- The number once every word is reduced. -/
def RawValue.reduced (a : RawValue) : Nat :=
  (a 0).toNat % goldilocks + 2 ^ 64 * ((a 1).toNat % goldilocks +
    2 ^ 64 * ((a 2).toNat % goldilocks + 2 ^ 64 * ((a 3).toNat % goldilocks)))

theorem finRange_four : List.finRange 4 = [0, 1, 2, 3] := by decide

theorem elements_u256 (a : RawValue) : u256 a.elements = a.reduced := by
  simp [u256, RawValue.elements, RawValue.reduced, finRange_four, Nat.ofDigits_cons,
    ZMod.val_natCast]

theorem satisfiable_iff (lhs rhs : RawValue) :
    Satisfiable lhs.elements rhs.elements ↔ lhs.reduced ≤ rhs.reduced := by
  rw [(circuit_decides _ _).1, elements_u256, elements_u256]

theorem u256Gt_iff (a b : RawValue) : u256Gt a b = true ↔ b.number < a.number := by
  have hlt : ∀ i, (a i).toNat < 2 ^ 64 ∧ (b i).toNat < 2 ^ 64 :=
    fun i => ⟨(a i).toNat_lt, (b i).toNat_lt⟩
  have h0 := hlt 0
  have h1 := hlt 1
  have h2 := hlt 2
  have h3 := hlt 3
  simp only [u256Gt, finRange_four, List.reverse_cons, List.reverse_nil, List.nil_append,
    List.cons_append, u256GtLoop, RawValue.number, ne_eq, ← UInt64.toNat_inj]
  split_ifs
  · simp only [false_iff]
    omega
  all_goals
    simp only [decide_eq_true_iff, UInt64.lt_iff_toNat_lt]
    omega

theorem preCheck_iff (lhs rhs : RawValue) : preCheck lhs rhs = .ok () ↔ lhs.number ≤ rhs.number := by
  have hlt : ∀ i, (lhs i).toNat < 2 ^ 64 ∧ (rhs i).toNat < 2 ^ 64 :=
    fun i => ⟨(lhs i).toNat_lt, (rhs i).toNat_lt⟩
  have h0 := hlt 0
  have h1 := hlt 1
  have h2 := hlt 2
  have h3 := hlt 3
  simp only [preCheck, finRange_four, List.reverse_cons, List.reverse_nil, List.nil_append,
    List.cons_append, preCheckLoop, RawValue.number, UInt64.lt_iff_toNat_lt]
  split_ifs <;> simp only [true_iff, false_iff] <;> omega

/-! ## Grinding -/

theorem lookup_dictionaryNew {V : Type} {kvs : List (String × V)} (h : (kvs.map Prod.fst).Nodup)
    (k : String) (v : V) : (dictionaryNew kvs).lookup k = some v ↔ (k, v) ∈ kvs := by
  induction kvs with
  | nil => simp [dictionaryNew]
  | cons kv kvs ih =>
    rw [List.map_cons, List.nodup_cons] at h
    have hrest := ih h.2
    simp only [dictionaryNew, List.foldr_cons, lookup_insert_ite, List.mem_cons] at hrest ⊢
    by_cases hk : k = kv.1
    · subst hk
      have hnot : (kv.1, v) ∉ kvs := fun hmem => h.1 (List.mem_map.mpr ⟨_, hmem, rfl⟩)
      simp [hnot, Prod.ext_iff, eq_comm]
    · simp [hk, hrest, Prod.ext_iff]

/-- The copy has the entries of what it is a copy of. -/
theorem dictionaryNew_iter {V : Type} {iter : Dictionary V → List (String × V)} (h : Lists iter)
    (d : Dictionary V) : dictionaryNew (iter d) = d := by
  apply Finmap.ext_lookup
  intro k
  ext v
  rw [lookup_dictionaryNew (h d).1, (h d).2]

/-- However often the loop mutates and copies, it is at the object with one field replaced. -/
theorem grindLoop_spec {V : Type} {commitment : Dictionary V → RawValue}
    {iter : Dictionary V → List (String × V)} {rand : Nat → V} (hiter : Lists iter)
    {keyName : String} {target : RawValue} {obj : Dictionary V} {fuel drawn i : Nat} {v w : V}
    (h : grindLoop commitment iter rand keyName target fuel (obj.insert keyName v) v drawn i =
      some (.ok w)) : u256Gt (commitment (obj.insert keyName w)) target = false := by
  induction fuel generalizing v drawn i with
  | zero => cases h
  | succ fuel ih =>
    simp only [grindLoop] at h
    split at h
    · split at h
      · rw [Finmap.insert_insert, dictionaryNew_iter hiter] at h
        split at h
        · exact ih h
        · exact ih h
      · cases h
    · rename_i hle
      cases h
      simpa using hle

theorem powObjGrind_spec {V : Type} {commitment : Dictionary V → RawValue}
    {iter : Dictionary V → List (String × V)} {rand : Nat → V} (hiter : Lists iter)
    {keyName : String} {target : RawValue} {obj : Dictionary V} {fuel : Nat} {w : V}
    (h : powObjGrind commitment iter rand false fuel obj keyName target = some (.ok w)) :
    u256Gt (commitment (obj.insert keyName w)) target = false := by
  unfold powObjGrind at h
  split at h
  · cases h
  · rename_i v hv
    have hself : obj.insert keyName v = obj := by
      apply Finmap.ext_lookup
      intro k
      rw [lookup_insert_ite]
      split
      · rename_i hk
        rw [hk, hv]
      · rfl
    rw [if_neg Bool.false_ne_true, ← hself] at h
    exact grindLoop_spec hiter h

/-- Every word is the canonical one of its element. -/
def RawValue.Canonical (a : RawValue) : Prop := ∀ i, (a i).toNat < goldilocks

instance (a : RawValue) : Decidable a.Canonical := inferInstanceAs (Decidable (∀ i, (a i).toNat < goldilocks))

/-- What grinding returns meets the target in the circuit, whatever the hash. -/
def GrindSound (target : RawValue) : Prop :=
  ∀ (V : Type) (commitment : Dictionary V → RawValue) (iter : Dictionary V → List (String × V))
    (rand : Nat → V) (fuel : Nat) (obj : Dictionary V) (keyName : String) (v : V), Lists iter →
    powObjGrind commitment iter rand false fuel obj keyName target = some (.ok v) →
    Satisfiable (commitment (obj.insert keyName v)).elements target.elements

theorem reduced_le_number (a : RawValue) : a.reduced ≤ a.number := by
  have hmod : ∀ i, (a i).toNat % goldilocks ≤ (a i).toNat := fun i => Nat.mod_le _ _
  have h0 := hmod 0
  have h1 := hmod 1
  have h2 := hmod 2
  have h3 := hmod 3
  unfold RawValue.reduced RawValue.number
  omega

theorem RawValue.Canonical.reduced_eq {a : RawValue} (h : a.Canonical) : a.reduced = a.number := by
  unfold RawValue.reduced RawValue.number
  rw [Nat.mod_eq_of_lt (h 0), Nat.mod_eq_of_lt (h 1), Nat.mod_eq_of_lt (h 2), Nat.mod_eq_of_lt (h 3)]

/-- Below a target with a larger word than its element has, yet above the element: the words
above it are the target's. -/
def between (target : RawValue) (k : Fin 4) : RawValue := fun i =>
  if i < k then 0 else if i = k then 18446744069414584320 else target i

theorem between_number {target : RawValue} {k : Fin 4} (hk : goldilocks ≤ (target k).toNat) :
    (between target k).number ≤ target.number ∧ target.reduced < (between target k).reduced := by
  have hlt : ∀ i, (target i).toNat < 2 ^ 64 := fun i => (target i).toNat_lt
  have h0 := hlt 0
  have h1 := hlt 1
  have h2 := hlt 2
  have h3 := hlt 3
  unfold RawValue.number RawValue.reduced goldilocks at *
  fin_cases k <;> simp [between] at hk ⊢ <;> omega

theorem grindSound_iff (target : RawValue) : GrindSound target ↔ target.Canonical := by
  constructor
  · intro h k
    by_contra hk
    obtain ⟨hle, hlt⟩ := between_number (k := k) (not_lt.mp hk)
    have hiter : Lists fun d : Dictionary Unit => d.keys.toList.map fun s => (s, ()) := by
      intro d
      refine ⟨?_, fun s v => ?_⟩
      · rw [List.map_map]
        exact (List.map_id' (d.keys.toList)).symm ▸ d.keys.nodup_toList
      · cases v
        have hunit : (∃ u, d.lookup s = some u) ↔ d.lookup s = some () :=
          ⟨fun ⟨u, hu⟩ => hu, fun hu => ⟨(), hu⟩⟩
        simp [Finmap.mem_keys, Finmap.mem_iff, hunit]
    have hgt : u256Gt (between target k) target = false := by
      rw [← Bool.not_eq_true, u256Gt_iff]
      omega
    have hsat := h Unit (fun _ => between target k) _ (fun _ => ()) 1
      ((∅ : Dictionary Unit).insert "key" ()) "key" () hiter (by simp [powObjGrind, grindLoop, hgt])
    rw [satisfiable_iff] at hsat
    omega
  · intro h V commitment iter rand fuel obj keyName v hiter hgrind
    have hgt := powObjGrind_spec hiter hgrind
    rw [← Bool.not_eq_true, u256Gt_iff, not_lt] at hgt
    rw [satisfiable_iff, h.reduced_eq]
    exact (reduced_le_number _).trans hgt

/-! ## The pre-check -/

/-- The reduced words up to the limb `k`. -/
def RawValue.reducedUpTo (a : RawValue) (k : Fin 4) : Nat :=
  ((List.finRange 4).map fun i => if i ≤ k then 2 ^ (64 * i.val) * ((a i).toNat % goldilocks) else 0).sum

/-- Where the words first differ from the top, both are canonical or neither is; or else the
reduced words from there on compare as these words do. -/
def WordsDecide (lhs rhs : RawValue) : Prop :=
  ∀ k, lhs k ≠ rhs k → (∀ j, k < j → lhs j = rhs j) →
    ((lhs k).toNat < goldilocks ↔ (rhs k).toNat < goldilocks) ∨
      (lhs k < rhs k ↔ lhs.reducedUpTo k ≤ rhs.reducedUpTo k)

/-- The highest limb at which two values differ. -/
theorem top_difference {lhs rhs : RawValue} (h : lhs ≠ rhs) :
    ∃ k, lhs k ≠ rhs k ∧ ∀ j, k < j → lhs j = rhs j := by
  obtain ⟨i, hi⟩ := Function.ne_iff.mp h
  obtain ⟨k, hk⟩ := (Finset.univ.filter fun j => lhs j ≠ rhs j).exists_maximal ⟨i, by simp [hi]⟩
  refine ⟨k, by simpa using hk.1, fun j hj => ?_⟩
  by_contra hne
  exact absurd (hk.2 (by simp [hne]) hj.le) (not_le.mpr hj)

/-- What the two sides of the comparison come down to at that limb. -/
theorem compare_at {lhs rhs : RawValue} {k : Fin 4} (hk : lhs k ≠ rhs k)
    (habove : ∀ j, k < j → lhs j = rhs j) :
    (lhs.number ≤ rhs.number ↔ lhs k < rhs k) ∧
      (lhs.reduced ≤ rhs.reduced ↔ lhs.reducedUpTo k ≤ rhs.reducedUpTo k) ∧
      (((lhs k).toNat < goldilocks ↔ (rhs k).toNat < goldilocks) →
        (lhs.reduced ≤ rhs.reduced ↔ lhs k < rhs k)) := by
  have hword : ∀ i, ((lhs i).toNat < 2 ^ 64 ∧ (rhs i).toNat < 2 ^ 64) ∧
      ((lhs i).toNat % goldilocks < goldilocks ∧ (rhs i).toNat % goldilocks < goldilocks) :=
    fun i => ⟨⟨(lhs i).toNat_lt, (rhs i).toNat_lt⟩, Nat.mod_lt _ (by decide), Nat.mod_lt _ (by decide)⟩
  have hreduce : ∀ x, x < 2 ^ 64 → (x < goldilocks ∧ x % goldilocks = x) ∨
      (goldilocks ≤ x ∧ x % goldilocks + goldilocks = x) := by
    intro x hx
    unfold goldilocks
    omega
  have hl := hreduce _ (hword k).1.1
  have hr := hreduce _ (hword k).1.2
  have h0 := hword 0
  have h1 := hword 1
  have h2 := hword 2
  have h3 := hword 3
  have habove' : ∀ j, k < j → (lhs j).toNat = (rhs j).toNat := fun j hj => by rw [habove j hj]
  rw [ne_eq, ← UInt64.toNat_inj] at hk
  rw [UInt64.lt_iff_toNat_lt]
  unfold RawValue.number RawValue.reduced RawValue.reducedUpTo
  simp only [finRange_four, List.map_cons, List.map_nil, List.sum_cons, List.sum_nil]
  have hp : goldilocks = 18446744069414584321 := rfl
  generalize goldilocks = p at *
  fin_cases k
  · have e1 := habove' 1 (by decide)
    have e2 := habove' 2 (by decide)
    have e3 := habove' 3 (by decide)
    simp only [e1, e2, e3] at *
    simp at hk hl hr ⊢
    omega
  · have e2 := habove' 2 (by decide)
    have e3 := habove' 3 (by decide)
    simp only [e2, e3] at *
    simp at hk hl hr ⊢
    omega
  · have e3 := habove' 3 (by decide)
    simp only [e3] at *
    simp at hk hl hr ⊢
    omega
  · simp at hk hl hr ⊢
    omega

theorem preCheck_agrees_iff (lhs rhs : RawValue) :
    (preCheck lhs rhs = .ok () ↔ Satisfiable lhs.elements rhs.elements) ↔ WordsDecide lhs rhs := by
  rw [preCheck_iff, satisfiable_iff]
  by_cases heq : lhs = rhs
  · subst heq
    simp [WordsDecide]
  · obtain ⟨k, hk, habove⟩ := top_difference heq
    obtain ⟨hnumber, hreduced, hboth⟩ := compare_at hk habove
    constructor
    · intro h k' hk' habove'
      have hkk : k' = k := by
        rcases lt_trichotomy k k' with hlt | rfl | hlt
        · exact absurd (habove k' hlt) hk'
        · rfl
        · exact absurd (habove' k hlt) hk
      subst hkk
      exact .inr (by rw [← hnumber, ← hreduced, h])
    · intro h
      rcases h k hk habove with hsame | hdecide
      · rw [hnumber, hboth hsame]
      · rw [hnumber, hreduced, hdecide]

theorem topLimbU256_canonical (n : Int64) :
    (topLimbU256 n).Canonical ↔ 0 ≤ n.toInt ∨ n.toInt ≤ -4294967296 := by
  have hcond := BitVec.toInt_eq_toNat_cond n.toBitVec
  rw [Int64.toInt_toBitVec, Int64.toNat_toBitVec] at hcond
  have hlt := n.toUInt64.toNat_lt
  have hall : (topLimbU256 n).Canonical ↔ n.toUInt64.toNat < goldilocks := by
    constructor
    · exact fun h => by simpa [topLimbU256] using h 3
    · intro h i
      unfold topLimbU256
      split
      · exact h
      · simp [goldilocks]
  rw [hall, goldilocks]
  split at hcond <;> omega

/-- Grinding and the pre-check agree with the circuit exactly as far as the words they compare
are those of canonical elements. -/
theorem host_checks_agree (target : RawValue) (n : Int64) (lhs rhs : RawValue) :
    (GrindSound target ↔ target.Canonical) ∧
    (GrindSound (topLimbU256 n) ↔ 0 ≤ n.toInt ∨ n.toInt ≤ -4294967296) ∧
    ((preCheck lhs rhs = .ok () ↔ Satisfiable lhs.elements rhs.elements) ↔ WordsDecide lhs rhs) := by
  refine ⟨grindSound_iff target, ?_, preCheck_agrees_iff lhs rhs⟩
  rw [grindSound_iff, topLimbU256_canonical]

/-- The target of a negative limb: its word is larger than every element, and the host accepts
an object that the circuit does not. -/
theorem topLimbU256_negative :
    powObjGrind (fun _ : Dictionary Unit => topLimbU256 4294967296) (fun _ => []) (fun _ => ()) false 1
      ((∅ : Dictionary Unit).insert "key" ()) "key" (topLimbU256 (-1)) = some (.ok ()) ∧
    ¬ GrindSound (topLimbU256 (-1)) ∧
    preCheck (topLimbU256 4294967296) (topLimbU256 (-1)) = .ok () ∧
    ¬ Satisfiable (topLimbU256 4294967296).elements (topLimbU256 (-1)).elements := by
  refine ⟨?_, ?_, ?_, ?_⟩
  · have hgt : u256Gt (topLimbU256 4294967296) (topLimbU256 (-1)) = false := by decide
    simp [powObjGrind, grindLoop, hgt]
  · rw [grindSound_iff]
    decide
  · rw [preCheck_iff]
    decide
  · rw [satisfiable_iff]
    decide

end DigitalObjects.Sdk
