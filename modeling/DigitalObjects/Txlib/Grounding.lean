import DigitalObjects.Txlib.Finalize
set_option autoImplicit false

/-!
What `InputsGrounded` says: its inputs are entries of the created array. Any finite set of
entries has a derivation, and the builder finds one for any list of distinct inputs.
-/

namespace DigitalObjects.Txlib

open Pod2 Lib

variable {V : Type} [Values V]

/-! ## The predicate -/

/-- Two elements are peeled at a time; what is left has one or none. -/
theorem InputsGrounded.of_entries {created : V} (inputs : Finset V)
    (h : ∀ x ∈ inputs, ∃ i, ArrayContains created i x) : InputsGrounded created (ofSet inputs) := by
  induction hcard : inputs.card using Nat.strong_induction_on generalizing inputs with
  | _ n ih =>
    rcases inputs.eq_empty_or_nonempty with rfl | ⟨x, hx⟩
    · exact .none ofSet_empty_eq
    · obtain ⟨i, hi⟩ := h x hx
      rcases (inputs.erase x).eq_empty_or_nonempty with hone | ⟨y, hy⟩
      · have hset : inputs = {x} := by
          rw [← Finset.insert_erase hx, hone]
          rfl
        exact .single x i hi (setInsert_empty.mpr (by rw [hset]))
      · obtain ⟨j, hj⟩ := h y (Finset.mem_of_mem_erase hy)
        have hcardx := Finset.card_erase_lt_of_mem hx
        have hcardy := Finset.card_erase_lt_of_mem hy
        have hrest : InputsGrounded created (ofSet ((inputs.erase x).erase y)) := by
          refine ih _ (by omega) _ (fun z hz => ?_) rfl
          exact h z (Finset.mem_of_mem_erase (Finset.mem_of_mem_erase hz))
        refine .recursive y x (ofSet (inputs.erase x)) _ j i hj ?_ hi ?_ hrest
        · simp [Finset.insert_erase hy]
        · simp [Finset.insert_erase hx]

theorem inputsGrounded_iff {inputs : Finset V} {created : Pod2.Array V} :
    InputsGrounded (ofArray created) (ofSet inputs) ↔
      inputs = ∅ ∨ ∀ x ∈ inputs, ∃ i, created.lookup i = some x := by
  constructor
  · intro h
    obtain ⟨s, hs, hmem⟩ := h.grounds
    rw [ofSet_inj] at hs
    refine .inr fun x hx => ?_
    obtain ⟨i, m, n, hm, -, hn⟩ := hmem x (hs ▸ hx)
    rw [ofArray_inj] at hm
    exact ⟨n, hm ▸ hn⟩
  · intro h
    have hall : ∀ x ∈ inputs, ∃ i, created.lookup i = some x := by
      rcases h with rfl | h
      · simp
      · exact h
    refine .of_entries inputs fun x hx => ?_
    obtain ⟨n, hn⟩ := hall x hx
    exact ⟨ofInt n, arrayContains_ofArray.mpr hn⟩

/-! ## The builder -/

/-- The witness has a Merkle proof of the object, and it opens the created root. -/
def GroundingWitness.Proves (grounding : GroundingWitness V) (obj : Dictionary V) : Prop :=
  ∃ index proof, grounding.createdProofs.lookup (ofDict obj) = some (index, proof) ∧
    grounding.stateHeader.createdRoot = ofArray proof ∧ proof.lookup index = some (ofDict obj)

theorem proveObjInCreated_ok {grounding : GroundingWitness V} {obj : Dictionary V}
    (h : grounding.Proves obj) :
    ∃ st, proveObjInCreated grounding.stateHeader.createdRoot grounding obj = .ok st := by
  obtain ⟨index, proof, hlookup, hroot, hentry⟩ := h
  simp only [proveObjInCreated, hlookup]
  rw [Outcome.require_pos hroot, Outcome.ok_bind]
  rw [Outcome.require_pos (arrayContains_ofArray.mpr hentry), Outcome.ok_bind]
  exact ⟨_, rfl⟩

theorem extendSet_ok {set : Finset V} {obj : Dictionary V} (h : ofDict obj ∉ set) :
    ∃ s, extendSet set obj = .ok s ∧ s.1 = insert (ofDict obj) set := by
  unfold extendSet
  rw [Outcome.require_pos h, Outcome.ok_bind]
  exact ⟨_, rfl, rfl⟩

/-- The loop comes to its end on an even number of new inputs. -/
theorem peelInputs_ok {grounding : GroundingWitness V} {inputs : List (Dictionary V)}
    {st : GroundedInputs grounding.stateHeader.createdRoot} (heven : inputs.length % 2 = 0)
    (hnodup : inputs.Nodup) (hfresh : ∀ obj ∈ inputs, ofDict obj ∉ st.inputsSet)
    (hproofs : ∀ obj ∈ inputs, grounding.Proves obj) :
    ∃ r, peelInputs grounding.stateHeader.createdRoot grounding inputs st = .ok r := by
  induction inputs, st using peelInputs.induct with
  | case1 st => exact ⟨st, rfl⟩
  | case2 => simp at heven
  | case3 first second rest st ih =>
    rw [List.nodup_cons, List.nodup_cons] at hnodup
    obtain ⟨hfirst, hsecond, hrest⟩ := hnodup
    simp only [List.mem_cons, not_or] at hfirst
    obtain ⟨mid, hmid, hmids⟩ := extendSet_ok (hfresh first (by simp))
    have hsecondfresh : ofDict second ∉ mid.1 := by
      rw [hmids, Finset.mem_insert, ofDict_inj, not_or]
      exact ⟨fun h => hfirst.1 h.symm, hfresh second (by simp)⟩
    obtain ⟨next, hnext, hnexts⟩ := extendSet_ok hsecondfresh
    obtain ⟨stFirst, hstFirst⟩ := proveObjInCreated_ok (hproofs first (by simp))
    obtain ⟨stSecond, hstSecond⟩ := proveObjInCreated_ok (hproofs second (by simp))
    simp only [peelInputs, hmid, hnext, hstFirst, hstSecond, Outcome.ok_bind]
    refine ih mid next stFirst stSecond ?_ hrest ?_ ?_
    · simp only [List.length_cons] at heven
      omega
    · intro obj hobj
      simp only [hnexts, hmids, Finset.mem_insert, ofDict_inj, not_or]
      refine ⟨?_, ?_, hfresh obj (by simp [hobj])⟩
      · exact fun h => hsecond (h ▸ hobj)
      · exact fun h => hfirst.2 (h ▸ hobj)
    · exact fun obj hobj => hproofs obj (by simp [hobj])

theorem buildInputsGrounded_ok {inputs : List (Dictionary V)} {grounding : GroundingWitness V}
    (hnodup : inputs.Nodup) (hproofs : ∀ obj ∈ inputs, grounding.Proves obj) :
    ∃ r, buildInputsGrounded inputs grounding = .ok r := by
  unfold buildInputsGrounded
  cases inputs with
  | nil => exact ⟨_, rfl⟩
  | cons obj rest =>
    rw [List.nodup_cons] at hnodup
    obtain ⟨hobj, hrest⟩ := hnodup
    obtain ⟨set, hset, hsets⟩ := extendSet_ok (Finset.notMem_empty (ofDict obj))
    obtain ⟨stObj, hstObj⟩ := proveObjInCreated_ok (hproofs obj (by simp))
    by_cases hodd : (obj :: rest).length % 2 = 1
    · simp only [if_pos hodd, hset, hstObj, Outcome.ok_bind]
      refine peelInputs_ok ?_ hrest ?_ fun o ho => hproofs o (by simp [ho])
      · rw [List.length_cons] at hodd
        omega
      · intro o ho
        simp only [hsets, Finset.mem_insert, ofDict_inj, Finset.notMem_empty, or_false]
        exact fun h => hobj (h ▸ ho)
    · simp only [if_neg hodd]
      cases rest with
      | nil => simp at hodd
      | cons second rest =>
        rw [List.nodup_cons] at hrest
        obtain ⟨hsecond, hrest⟩ := hrest
        simp only [List.mem_cons, not_or] at hobj
        have hfresh : ofDict second ∉ set.1 := by
          simp only [hsets, Finset.mem_insert, ofDict_inj, Finset.notMem_empty, or_false]
          exact fun h => hobj.1 h.symm
        obtain ⟨pair, hpair, hpairs⟩ := extendSet_ok hfresh
        obtain ⟨stSecond, hstSecond⟩ := proveObjInCreated_ok (hproofs second (by simp))
        simp only [hset, hpair, hstObj, hstSecond, Outcome.ok_bind]
        refine peelInputs_ok ?_ hrest ?_ fun o ho => hproofs o (by simp [ho])
        · simp only [List.length_cons] at hodd
          omega
        · intro o ho
          simp only [hpairs, hsets, Finset.mem_insert, ofDict_inj, Finset.notMem_empty, or_false,
            not_or]
          exact ⟨fun h => hsecond (h ▸ ho), fun h => hobj.2 (h ▸ ho)⟩

/-- `InputsGrounded` is membership in the created array, and the builder has a derivation
for every list of distinct inputs that the witness proves. -/
theorem inputsGrounded_exact :
    (∀ (inputs : Finset V) (created : Pod2.Array V),
      InputsGrounded (ofArray created) (ofSet inputs) ↔
        inputs = ∅ ∨ ∀ x ∈ inputs, ∃ i, created.lookup i = some x) ∧
    ∀ (inputs : List (Dictionary V)) (grounding : GroundingWitness V), inputs.Nodup →
      (∀ obj ∈ inputs, grounding.Proves obj) →
      ∃ r : GroundedInputs grounding.stateHeader.createdRoot,
        buildInputsGrounded inputs grounding = .ok r ∧
        r.inputsSet = (inputs.map ofDict).toFinset ∧
        InputsGrounded grounding.stateHeader.createdRoot (ofSet (inputs.map ofDict).toFinset) := by
  refine ⟨fun inputs created => inputsGrounded_iff, fun inputs grounding hnodup hproofs => ?_⟩
  obtain ⟨r, hr⟩ := buildInputsGrounded_ok hnodup hproofs
  have hset := buildInputsGrounded_eq hr
  exact ⟨r, hr, hset, hset ▸ r.holds⟩

/-- Three objects, told apart by a number. -/
def numbered (n : Nat) : Dictionary V := (∅ : Dictionary V).insert "number" (ofInt n)

theorem numbered_inj {m n : Nat} : (numbered m : Dictionary V) = numbered n ↔ m = n := by
  constructor
  · intro h
    have hlookup := congrArg (Finmap.lookup "number") h
    have hint : (m : Int) = n := by simpa [numbered] using hlookup
    omega
  · intro h
    rw [h]

def numberedArray : Pod2.Array V :=
  (((∅ : Pod2.Array V).insert 0 (ofDict (numbered 0))).insert 1 (ofDict (numbered 1))).insert 2
    (ofDict (numbered 2))

def numberedGrounding : GroundingWitness V where
  stateHeader := ⟨0, 0, empty, ofArray numberedArray, empty, empty⟩
  createdProofs := (((∅ : Finmap fun _ : V => Nat × Pod2.Array V).insert (ofDict (numbered 0))
    (0, numberedArray)).insert (ofDict (numbered 1)) (1, numberedArray)).insert
    (ofDict (numbered 2)) (2, numberedArray)

theorem inputsGrounded_exact_three :
    ∃ r : GroundedInputs (numberedGrounding (V := Term)).stateHeader.createdRoot,
      buildInputsGrounded [numbered 0, numbered 1, numbered 2] numberedGrounding = .ok r ∧
      r.inputsSet = ([numbered 0, numbered 1, numbered 2].map ofDict).toFinset := by
  have h := inputsGrounded_exact.2 [numbered 0, numbered 1, numbered 2]
    (numberedGrounding (V := Term)) (by simp [numbered_inj]) ?_
  · obtain ⟨r, hr, hset, -⟩ := h
    exact ⟨r, hr, hset⟩
  · simp only [List.mem_cons, List.not_mem_nil, or_false, forall_eq_or_imp, forall_eq]
    refine ⟨⟨0, numberedArray, ?_, rfl, ?_⟩, ⟨1, numberedArray, ?_, rfl, ?_⟩,
      ⟨2, numberedArray, ?_, rfl, ?_⟩⟩ <;>
    simp [numberedGrounding, numberedArray, numbered_inj]

end DigitalObjects.Txlib
