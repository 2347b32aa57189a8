import DigitalObjects.Lib.Gadgets
set_option autoImplicit false

/-!
The circuit of `LtEqU256Pod`: four field elements as the 64-bit limbs of a number, split into
32-bit limbs, and a comparison of these from the top.
-/

namespace DigitalObjects.IntroPods

open Lib

/-- The order of the Goldilocks field. -/
def goldilocks : Nat := 18446744069414584321

instance : NeZero goldilocks := ⟨by decide⟩

instance neZero_four : NeZero 4 := ⟨by decide⟩

abbrev F := ZMod goldilocks

/-- The elements of a `RawValue`, least significant first. -/
abbrev ValueTarget := Fin 4 → F

/-! ## The circuit -/

/-- The wires that `assert_lt_eq` carries from limb to limb. -/
structure LimbDiff where
  diff : F
  diffFound : Bool

def limbStep (st : LimbDiff) (limbs : F × F) : LimbDiff :=
  let limbsEq := decide (limbs.1 = limbs.2)
  let limbsNeq := !limbsEq
  let diffNotFound := !st.diffFound
  let isFirstNeq := limbsNeq && diffNotFound
  let limbsDiff := limbs.2 - limbs.1
  ⟨if isFirstNeq then limbsDiff else st.diff, st.diffFound || isFirstNeq⟩

/-- The highest limb pair that is not equal. -/
def limbDiff (lhs rhs : List F) : LimbDiff := (lhs.zip rhs).reverse.foldl limbStep ⟨0, false⟩

/-- The constraint of `assert_lt_eq`: the difference fits within 32 bits. -/
def AssertLtEq (lhs rhs : List F) : Prop := RangeCheck (limbDiff lhs rhs).diff 32

/-- The two 32-bit limbs of the largest field element. -/
def fieldMax : List F :=
  [((goldilocks - 1) &&& 0xffffffff : Nat), ((goldilocks - 1) >>> 32 : Nat)]

def limbPair (bits : List Bool) : List F := [leSum (bits.take 32), leSum (bits.drop 32)]

/-- The constraints of `value_to_32b_limbs` on the bits of the four elements. -/
def ValueTo32bLimbs (v : ValueTarget) (bits : Fin 4 → List Bool) : Prop :=
  ∀ i, SplitLe (v i) 64 (bits i) ∧ AssertLtEq (limbPair (bits i)) fieldMax

/-- Its result. -/
def limbs (bits : Fin 4 → List Bool) : List F := (List.finRange 4).flatMap fun i => limbPair (bits i)

/-- The comparison part of `LtEqU256PodTarget::add_targets`. -/
structure Satisfied (lhs rhs : ValueTarget) (lhsBits rhsBits : Fin 4 → List Bool) : Prop where
  lhs_limbs : ValueTo32bLimbs lhs lhsBits
  rhs_limbs : ValueTo32bLimbs rhs rhsBits
  assert_lt_eq : AssertLtEq (limbs lhsBits) (limbs rhsBits)

/-- The remaining wires can be filled in. -/
def Satisfiable (lhs rhs : ValueTarget) : Prop := ∃ lhsBits rhsBits, Satisfied lhs rhs lhsBits rhsBits

/-- The number whose limbs the canonical representatives are. -/
def u256 (v : ValueTarget) : Nat := Nat.ofDigits (2 ^ 64) ((List.finRange 4).map fun i => (v i).val)

/-! ## The comparison -/

theorem limbDiff_cons (x y : F) (lhs rhs : List F) :
    limbDiff (x :: lhs) (y :: rhs) = limbStep (limbDiff lhs rhs) (x, y) := by
  simp [limbDiff, List.foldl_append]

theorem castF_inj {x y : Nat} (hx : x < 2 ^ 32) (hy : y < 2 ^ 32) : (x : F) = (y : F) ↔ x = y := by
  rw [ZMod.natCast_eq_natCast_iff', goldilocks, Nat.mod_eq_of_lt (by omega),
    Nat.mod_eq_of_lt (by omega)]

/-- The wires after any number of limbs, by induction from the top. -/
theorem limbDiff_spec {lhs rhs : List Nat} (hlen : lhs.length = rhs.length)
    (hl : ∀ d ∈ lhs, d < 2 ^ 32) (hr : ∀ d ∈ rhs, d < 2 ^ 32) :
    ((limbDiff (lhs.map (↑)) (rhs.map (↑))).diffFound = true ↔ lhs ≠ rhs) ∧
      (AssertLtEq (lhs.map (↑)) (rhs.map (↑)) ↔
        Nat.ofDigits (2 ^ 32) lhs ≤ Nat.ofDigits (2 ^ 32) rhs) := by
  induction lhs generalizing rhs with
  | nil =>
    cases rhs with
    | nil => simp [limbDiff, AssertLtEq, RangeCheck]; exact ⟨0, by omega, by simp⟩
    | cons y rhs => simp at hlen
  | cons x lhs ih =>
    cases rhs with
    | nil => simp at hlen
    | cons y rhs =>
      have hx := hl x (by simp)
      have hy := hr y (by simp)
      have hl' : ∀ d ∈ lhs, d < 2 ^ 32 := fun d hd => hl d (by simp [hd])
      have hr' : ∀ d ∈ rhs, d < 2 ^ 32 := fun d hd => hr d (by simp [hd])
      have hlen' : lhs.length = rhs.length := by simpa using hlen
      obtain ⟨hfound, hle⟩ := ih hlen' hl' hr'
      rw [ofDigits_cons_le_iff hx hy]
      simp only [List.map_cons, AssertLtEq, limbDiff_cons, limbStep] at hle ⊢
      by_cases heq : lhs = rhs
      · -- nothing above differs, so this pair decides
        subst heq
        have hnot : (limbDiff (lhs.map ((↑) : Nat → F)) (lhs.map (↑))).diffFound = false := by
          simpa using hfound
        by_cases hxy : x = y
        · subst hxy
          simpa [hnot] using hle
        · have hne : (x : F) ≠ (y : F) := fun h => hxy ((castF_inj hx hy).mp h)
          have hsub := rangeCheck_sub (p := goldilocks) (n := 32) (by decide) hx hy
          simp [hnot, hne, hxy, hsub]
      · have hyes : (limbDiff (lhs.map ((↑) : Nat → F)) (rhs.map (↑))).diffFound = true :=
          hfound.mpr heq
        have hne : Nat.ofDigits (2 ^ 32) lhs ≠ Nat.ofDigits (2 ^ 32) rhs :=
          fun h => heq (ofDigits_inj hlen' hl' hr' h)
        simp only [hyes, Bool.not_true, Bool.and_false, Bool.or_false, if_neg Bool.false_ne_true, hle]
        constructor
        · simp [heq]
        · omega

theorem assertLtEq_iff {lhs rhs : List Nat} (hlen : lhs.length = rhs.length)
    (hl : ∀ d ∈ lhs, d < 2 ^ 32) (hr : ∀ d ∈ rhs, d < 2 ^ 32) :
    AssertLtEq (lhs.map (↑)) (rhs.map (↑)) ↔
      Nat.ofDigits (2 ^ 32) lhs ≤ Nat.ofDigits (2 ^ 32) rhs :=
  (limbDiff_spec hlen hl hr).2

/-! ## The limbs -/

/-- The two halves of 64 bits. -/
def halves (k : Nat) : List Nat := [k % 2 ^ 32, k / 2 ^ 32]

theorem halves_lt {k : Nat} (h : k < 2 ^ 64) : ∀ d ∈ halves k, d < 2 ^ 32 := by
  intro d hd
  simp only [halves, List.mem_cons, List.not_mem_nil, or_false] at hd
  omega

theorem ofDigits_halves (k : Nat) : Nat.ofDigits (2 ^ 32) (halves k) = k := by
  simp only [halves, Nat.ofDigits_cons, Nat.ofDigits_nil]
  omega

theorem assertLtEq_halves {k m : Nat} (hk : k < 2 ^ 64) (hm : m < 2 ^ 64) :
    AssertLtEq ((halves k).map (↑)) ((halves m).map (↑)) ↔ k ≤ m := by
  rw [assertLtEq_iff (by simp [halves]) (halves_lt hk) (halves_lt hm), ofDigits_halves,
    ofDigits_halves]

theorem limbPair_eq {bits : List Bool} (h : bits.length = 64) :
    limbPair bits = (halves (natOfBits bits)).map (↑) := by
  have hsplit := natOfBits_take_drop bits (n := 32) (by omega)
  have hlow := natOfBits_lt (bits.take 32)
  rw [List.length_take, h, Nat.min_eq_left (by omega)] at hlow
  have hlow' : natOfBits bits % 2 ^ 32 = natOfBits (bits.take 32) := by omega
  have hhigh' : natOfBits bits / 2 ^ 32 = natOfBits (bits.drop 32) := by omega
  simp only [limbPair, leSum, halves, List.map_cons, List.map_nil, hlow', hhigh']

theorem fieldMax_eq : fieldMax = (halves (goldilocks - 1)).map (↑) := by decide

/-- Bits of a field element are canonical exactly when they pass the check. -/
theorem canonical_iff {bits : List Bool} (h : bits.length = 64) :
    AssertLtEq (limbPair bits) fieldMax ↔ natOfBits bits < goldilocks := by
  have hlt := natOfBits_lt bits
  rw [h] at hlt
  have hmax : goldilocks - 1 < 2 ^ 64 := by decide
  have hpos : 0 < goldilocks := by decide
  rw [limbPair_eq h, fieldMax_eq, assertLtEq_halves hlt hmax]
  omega

/-- The bits of an element are those of its canonical representative. -/
theorem ValueTo32bLimbs.natOfBits_eq {v : ValueTarget} {bits : Fin 4 → List Bool}
    (h : ValueTo32bLimbs v bits) (i : Fin 4) : natOfBits (bits i) = (v i).val := by
  obtain ⟨⟨hlen, hsum⟩, hcanonical⟩ := h i
  rw [← hsum, ZMod.val_natCast, Nat.mod_eq_of_lt ((canonical_iff hlen).mp hcanonical)]

def canonicalBits (v : ValueTarget) (i : Fin 4) : List Bool := bitsOfNat 64 (v i).val

theorem val_lt (x : F) : x.val < 2 ^ 64 := by
  have h := ZMod.val_lt x
  have hp : goldilocks < 2 ^ 64 := by decide
  omega

theorem canonicalBits_satisfy (v : ValueTarget) : ValueTo32bLimbs v (canonicalBits v) := by
  intro i
  have hlen : (canonicalBits v i).length = 64 := bitsOfNat_length 64 _
  have hnat : natOfBits (canonicalBits v i) = (v i).val := by
    rw [canonicalBits, natOfBits_bitsOfNat, Nat.mod_eq_of_lt (val_lt (v i))]
  refine ⟨⟨hlen, ?_⟩, ?_⟩
  · rw [hnat, ZMod.natCast_zmod_val]
  · rw [canonical_iff hlen, hnat]
    exact ZMod.val_lt (v i)

/-- The 32-bit limbs of the number. -/
def canonicalLimbs (v : ValueTarget) : List Nat := (List.finRange 4).flatMap fun i => halves (v i).val

theorem ValueTo32bLimbs.limbs_eq {v : ValueTarget} {bits : Fin 4 → List Bool}
    (h : ValueTo32bLimbs v bits) : limbs bits = (canonicalLimbs v).map (↑) := by
  simp only [limbs, canonicalLimbs, List.map_flatMap]
  apply List.flatMap_congr
  intro i _
  rw [limbPair_eq (h i).1.1, h.natOfBits_eq i]

theorem canonicalLimbs_lt (v : ValueTarget) : ∀ d ∈ canonicalLimbs v, d < 2 ^ 32 := by
  intro d hd
  obtain ⟨i, -, hi⟩ := List.mem_flatMap.mp hd
  exact halves_lt (val_lt (v i)) d hi

theorem ofDigits_flatMap_halves (ks : List Nat) :
    Nat.ofDigits (2 ^ 32) (ks.flatMap halves) = Nat.ofDigits (2 ^ 64) ks := by
  induction ks with
  | nil => rfl
  | cons k ks ih =>
    have hpow : (2 ^ 32) ^ (halves k).length = 2 ^ 64 := by norm_num [halves]
    rw [List.flatMap_cons, Nat.ofDigits_append, ih, ofDigits_halves, Nat.ofDigits_cons, hpow]

theorem ofDigits_canonicalLimbs (v : ValueTarget) :
    Nat.ofDigits (2 ^ 32) (canonicalLimbs v) = u256 v := by
  have h := ofDigits_flatMap_halves ((List.finRange 4).map fun i => (v i).val)
  rw [List.flatMap_map] at h
  unfold canonicalLimbs u256
  exact h

/-- The constraints are satisfiable exactly when the number on the left is at most the one on
the right, and they leave no choice for the limbs. -/
theorem circuit_decides (lhs rhs : ValueTarget) :
    (Satisfiable lhs rhs ↔ u256 lhs ≤ u256 rhs) ∧
      ∀ v : ValueTarget, ∃! ls : List F, ∃ bits, ValueTo32bLimbs v bits ∧ limbs bits = ls := by
  have hcompare : AssertLtEq ((canonicalLimbs lhs).map (↑)) ((canonicalLimbs rhs).map (↑)) ↔
      u256 lhs ≤ u256 rhs := by
    rw [assertLtEq_iff (by simp [canonicalLimbs, halves]) (canonicalLimbs_lt lhs)
      (canonicalLimbs_lt rhs), ofDigits_canonicalLimbs, ofDigits_canonicalLimbs]
  refine ⟨⟨fun h => ?_, fun h => ?_⟩, fun v => ?_⟩
  · obtain ⟨lhsBits, rhsBits, hlhs, hrhs, hle⟩ := h
    rw [hlhs.limbs_eq, hrhs.limbs_eq] at hle
    exact hcompare.mp hle
  · have hlhs := canonicalBits_satisfy lhs
    have hrhs := canonicalBits_satisfy rhs
    refine ⟨_, _, hlhs, hrhs, ?_⟩
    rw [hlhs.limbs_eq, hrhs.limbs_eq]
    exact hcompare.mpr h
  · have hv := canonicalBits_satisfy v
    refine ⟨_, ⟨_, hv, hv.limbs_eq⟩, fun ls h => ?_⟩
    obtain ⟨bits, hbits, rfl⟩ := h
    exact hbits.limbs_eq

end DigitalObjects.IntroPods
