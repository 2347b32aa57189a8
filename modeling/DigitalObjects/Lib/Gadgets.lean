import Mathlib.Data.ZMod.Basic
import Mathlib.Data.Nat.Digits.Defs
import Mathlib.Data.Nat.Digits.Lemmas
set_option autoImplicit false

/-!
Numbers in little-endian digits over a field of residues, and the constraints a circuit
builder puts on them.
-/

namespace DigitalObjects.Lib

/-! ## Digits -/

/-- Digits are compared from the most significant one. -/
theorem ofDigits_cons_le_iff {b x y : Nat} {l r : List Nat} (hx : x < b) (hy : y < b) :
    Nat.ofDigits b (x :: l) ≤ Nat.ofDigits b (y :: r) ↔
      Nat.ofDigits b l < Nat.ofDigits b r ∨ Nat.ofDigits b l = Nat.ofDigits b r ∧ x ≤ y := by
  rw [Nat.ofDigits_cons, Nat.ofDigits_cons]
  generalize Nat.ofDigits b l = m
  generalize Nat.ofDigits b r = n
  rcases lt_trichotomy m n with h | rfl | h
  · have hmul : b * (m + 1) ≤ b * n := Nat.mul_le_mul_left b h
    rw [Nat.mul_add, Nat.mul_one] at hmul
    simp only [h, true_or, iff_true]
    omega
  · simp
  · have hmul : b * (n + 1) ≤ b * m := Nat.mul_le_mul_left b h
    rw [Nat.mul_add, Nat.mul_one] at hmul
    have hnot : ¬ (m < n ∨ m = n ∧ x ≤ y) := by omega
    simp only [hnot, iff_false]
    omega

theorem ofDigits_inj {b : Nat} {l r : List Nat} (hlen : l.length = r.length)
    (hl : ∀ d ∈ l, d < b) (hr : ∀ d ∈ r, d < b) (h : Nat.ofDigits b l = Nat.ofDigits b r) : l = r := by
  induction l generalizing r with
  | nil => exact (List.length_eq_zero_iff.mp hlen.symm).symm
  | cons x l ih =>
    cases r with
    | nil => simp at hlen
    | cons y r =>
      have hx := hl x (by simp)
      have hy := hr y (by simp)
      have hle := (ofDigits_cons_le_iff hx hy).mp h.le
      have hge := (ofDigits_cons_le_iff hy hx).mp h.ge
      have heq : Nat.ofDigits b l = Nat.ofDigits b r := by omega
      have hxy : x = y := by omega
      rw [hxy, ih (by simpa using hlen) (fun d hd => hl d (by simp [hd]))
        (fun d hd => hr d (by simp [hd])) heq]

/-- The number that bits spell. -/
def natOfBits (bits : List Bool) : Nat := Nat.ofDigits 2 (bits.map Bool.toNat)

theorem natOfBits_lt (bits : List Bool) : natOfBits bits < 2 ^ bits.length := by
  have h := Nat.ofDigits_lt_base_pow_length (b := 2) (l := bits.map Bool.toNat) (by omega) ?_
  · rwa [List.length_map] at h
  · intro d hd
    obtain ⟨b, -, rfl⟩ := List.mem_map.mp hd
    exact Bool.toNat_lt b

theorem natOfBits_take_drop (bits : List Bool) {n : Nat} (hn : n ≤ bits.length) :
    natOfBits bits = natOfBits (bits.take n) + 2 ^ n * natOfBits (bits.drop n) := by
  conv_lhs => rw [← List.take_append_drop n bits]
  rw [natOfBits, List.map_append, Nat.ofDigits_append, List.length_map, List.length_take,
    Nat.min_eq_left hn]
  rfl

/-- The low `n` bits of a number. -/
def bitsOfNat (n k : Nat) : List Bool := (List.range n).map fun i => k.testBit i

theorem bitsOfNat_length (n k : Nat) : (bitsOfNat n k).length = n := by simp [bitsOfNat]

theorem natOfBits_bitsOfNat (n k : Nat) : natOfBits (bitsOfNat n k) = k % 2 ^ n := by
  induction n generalizing k with
  | zero => simp [bitsOfNat, natOfBits, Nat.mod_one]
  | succ n ih =>
    have hcons : bitsOfNat (n + 1) k = k.testBit 0 :: bitsOfNat n (k / 2) := by
      simp only [bitsOfNat, List.range_succ_eq_map, List.map_cons, List.map_map]
      congr 1
      apply List.map_congr_left
      intro i _
      simp [Nat.testBit_succ]
    have hrest := ih (k / 2)
    rw [natOfBits] at hrest ⊢
    rw [hcons, List.map_cons, Nat.ofDigits_cons, hrest, Nat.pow_succ', Nat.mod_mul]
    have hbit : (k.testBit 0).toNat = k % 2 := by
      rcases Nat.mod_two_eq_zero_or_one k with h | h <;> simp [Nat.testBit_zero, h]
    rw [hbit]

/-! ## Constraints -/

variable {p : Nat}

/-- `split_le`: `n` boolean wires whose weighted sum is `t`. -/
def SplitLe (t : ZMod p) (n : Nat) (bits : List Bool) : Prop :=
  bits.length = n ∧ (natOfBits bits : ZMod p) = t

def leSum (bits : List Bool) : ZMod p := natOfBits bits

/-- `range_check`: there is a representative below `2 ^ n`. -/
def RangeCheck (x : ZMod p) (n : Nat) : Prop :=
  ∃ k : Nat, k < 2 ^ n ∧ (k : ZMod p) = x

theorem rangeCheck_iff [NeZero p] {x : ZMod p} {n : Nat} (hn : 2 ^ n ≤ p) : RangeCheck x n ↔ x.val < 2 ^ n := by
  constructor
  · intro h
    obtain ⟨k, hk, rfl⟩ := h
    rw [ZMod.val_natCast, Nat.mod_eq_of_lt (by omega)]
    exact hk
  · intro h
    exact ⟨x.val, h, ZMod.natCast_zmod_val x⟩

/-- A difference of small numbers is small when it does not wrap around. -/
theorem rangeCheck_sub {n x y : Nat} (hn : 2 ^ n + 2 ^ n ≤ p) (hx : x < 2 ^ n) (hy : y < 2 ^ n) :
    RangeCheck ((y : ZMod p) - (x : ZMod p)) n ↔ x ≤ y := by
  constructor
  · intro h
    obtain ⟨k, hk, heq⟩ := h
    have hsum : ((k + x : Nat) : ZMod p) = (y : Nat) := by
      rw [Nat.cast_add, heq]
      ring
    rw [ZMod.natCast_eq_natCast_iff'] at hsum
    rw [Nat.mod_eq_of_lt (by omega), Nat.mod_eq_of_lt (by omega)] at hsum
    omega
  · intro h
    exact ⟨y - x, by omega, by rw [Nat.cast_sub h]⟩

end DigitalObjects.Lib
