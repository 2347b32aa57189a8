import DigitalObjects.Lib.Outcome
import Mathlib.Data.List.Infix
import Mathlib.Data.Vector.Basic
import Mathlib.Data.Nat.Digits.Defs
set_option autoImplicit false

/-! Byte formats: readers that leave the rest of their input, and fixed-width integers. -/

namespace DigitalObjects.Lib

/-! ## Readers -/

/-- A reader takes a value from the front of its input and returns the rest. -/
abbrev Reader (β ε α : Type) := List β → Outcome ε (α × List β)

/-- The reader accepts what the writer writes and nothing else. -/
structure Exact {β ε α : Type} (read : Reader β ε α) (write : α → List β) (P : α → Prop) : Prop where
  read_write : ∀ a, P a → ∀ rest, read (write a ++ rest) = .ok (a, rest)
  write_read : ∀ bytes a rest, read bytes = .ok (a, rest) → P a ∧ bytes = write a ++ rest

namespace Exact

variable {β ε α : Type} {read : Reader β ε α} {write : α → List β} {P : α → Prop}

theorem injective (h : Exact read write P) {a b : α} (ha : P a) (hb : P b)
    (heq : write a = write b) : a = b := by
  have hra := h.read_write a ha []
  have hrb := h.read_write b hb []
  rw [heq, hrb] at hra
  simpa using hra.symm

/-- No proper prefix of an encoding is accepted, whatever it is read as. -/
theorem prefix_not_ok (h : Exact read write P) {a : α} (ha : P a) {front : List β}
    (hfront : front <+: write a) (hne : front ≠ write a) (r : α × List β) : read front ≠ .ok r := by
  obtain ⟨b, rest⟩ := r
  intro hread
  obtain ⟨hb, hfb⟩ := h.write_read front b rest hread
  obtain ⟨tail, htail⟩ := hfront
  have hsplit : write a ++ [] = write b ++ (rest ++ tail) := by
    rw [List.append_nil, ← htail, hfb, List.append_assoc]
  have hwhole := h.read_write a ha []
  rw [hsplit, h.read_write b hb] at hwhole
  simp only [Outcome.ok.injEq, Prod.mk.injEq, List.append_eq_nil_iff] at hwhole
  rw [hwhole.2.2, List.append_nil] at htail
  exact hne htail

end Exact

/-- `Read::read_exact`. -/
def readExact {β ε : Type} (short : ε) (n : Nat) : Reader β ε (List β) := fun bytes =>
  if n ≤ bytes.length then .ok (bytes.take n, bytes.drop n) else .err short

theorem readExact_exact {β ε : Type} (short : ε) (n : Nat) :
    Exact (readExact (β := β) short n) id fun bytes => bytes.length = n := by
  constructor
  · intro a ha rest
    simp [readExact, ← ha]
  · intro bytes a rest h
    unfold readExact at h
    split at h
    case isTrue hn =>
      cases h
      simp [hn]
    case isFalse => cases h

theorem readExact_noPanic {β ε : Type} (short : ε) (n : Nat) (bytes : List β) :
    (readExact short n bytes).NoPanic := by
  unfold readExact
  split <;> simp

/-- Read `n` values one after the other. -/
def readVector {β ε α : Type} (read : Reader β ε α) : (n : Nat) → Reader β ε (List.Vector α n)
  | 0, bytes => .ok (.nil, bytes)
  | n + 1, bytes => do
    let (a, bytes) ← read bytes
    let (as, bytes) ← readVector read n bytes
    .ok (a ::ᵥ as, bytes)

section Vector

variable {β ε α : Type} {read : Reader β ε α} {write : α → List β} {P : α → Prop}

theorem readVector_exact (h : Exact read write P) (n : Nat) :
    Exact (readVector read n) (fun v => v.toList.flatMap write) fun v => ∀ a ∈ v.toList, P a := by
  induction n with
  | zero =>
    constructor
    · intro v _ rest
      rw [v.eq_nil]
      rfl
    · intro bytes v rest hread
      cases hread
      simp
  | succ n ih =>
    constructor
    · intro v hv rest
      obtain ⟨a, as, rfl⟩ := v.exists_eq_cons
      simp only [List.Vector.toList_cons, List.mem_cons, forall_eq_or_imp] at hv
      simp [readVector, h.read_write a hv.1, ih.read_write as hv.2]
    · intro bytes v rest hread
      obtain ⟨⟨a, bytes₁⟩, ha, hread⟩ := Outcome.bind_eq_ok hread
      obtain ⟨⟨as, bytes₂⟩, has, hread⟩ := Outcome.bind_eq_ok hread
      cases hread
      obtain ⟨hPa, rfl⟩ := h.write_read _ _ _ ha
      obtain ⟨hP, rfl⟩ := ih.write_read _ _ _ has
      simp only [List.Vector.toList_cons, List.mem_cons, forall_eq_or_imp, List.flatMap_cons,
        List.append_assoc, and_true]
      exact ⟨hPa, hP⟩

theorem readVector_noPanic (h : ∀ bytes, (read bytes).NoPanic) (n : Nat) (bytes : List β) :
    (readVector read n bytes).NoPanic := by
  induction n generalizing bytes with
  | zero => simp [readVector]
  | succ n ih =>
    refine (h bytes).bind fun r _ => ?_
    exact (ih r.2).bind fun _ _ => Outcome.noPanic_ok _

/-- A counted list. -/
def readList (read : Reader β ε α) (n : Nat) : Reader β ε (List α) := fun bytes => do
  let (v, bytes) ← readVector read n bytes
  .ok (v.toList, bytes)

theorem readList_exact (h : Exact read write P) (n : Nat) :
    Exact (readList read n) (·.flatMap write) fun as => as.length = n ∧ ∀ a ∈ as, P a := by
  constructor
  · rintro as ⟨rfl, has⟩ rest
    have hread := (readVector_exact h as.length).read_write ⟨as, rfl⟩ has rest
    simp only [List.Vector.toList] at hread
    simp [readList, hread, List.Vector.toList]
  · intro bytes as rest hread
    obtain ⟨⟨v, bytes₁⟩, hv, hread⟩ := Outcome.bind_eq_ok hread
    cases hread
    obtain ⟨hP, heq⟩ := (readVector_exact h n).write_read _ _ _ hv
    exact ⟨⟨v.toList_length, hP⟩, heq⟩

theorem readList_noPanic (h : ∀ bytes, (read bytes).NoPanic) (n : Nat) (bytes : List β) :
    (readList read n bytes).NoPanic :=
  (readVector_noPanic h n bytes).bind fun _ _ => Outcome.noPanic_ok _

end Vector

/-! ## Chunks -/

/-- `chunks(size)`: the last one may be shorter. -/
def chunks {β : Type} (size : Nat) (bytes : List β) : List (List β) :=
  (List.range ((bytes.length + (size - 1)) / size)).map fun i => (bytes.drop (size * i)).take size

/-- `as_chunks`: without the rest that fills no chunk. -/
def asChunks {β : Type} (size : Nat) (bytes : List β) : List (List β) :=
  (List.range (bytes.length / size)).map fun i => (bytes.drop (size * i)).take size

section Chunks

variable {β : Type} {size : Nat}

theorem chunks_flatten (h : 0 < size) (bytes : List β) : (chunks size bytes).flatten = bytes := by
  have hprefix : ∀ n, ((List.range n).map fun i => (bytes.drop (size * i)).take size).flatten = bytes.take (size * n) := by
    intro n
    induction n with
    | zero => simp
    | succ n ih =>
      rw [List.range_succ, List.map_append, List.flatten_append, ih, Nat.mul_succ, List.take_add]
      simp
  have hall : bytes.length ≤ size * ((bytes.length + (size - 1)) / size) := by
    have hdiv := Nat.div_add_mod (bytes.length + (size - 1)) size
    have hmod := Nat.mod_lt (bytes.length + (size - 1)) h
    omega
  rw [chunks, hprefix, List.take_of_length_le hall]

theorem length_of_mem_chunks {bytes part : List β} (hpart : part ∈ chunks size bytes) : part.length ≤ size := by
  obtain ⟨i, -, rfl⟩ := List.mem_map.mp hpart
  exact List.length_take_le _ _

theorem asChunks_append {part : List β} (hpart : part.length = size) (h : 0 < size) (rest : List β) :
    asChunks size (part ++ rest) = part :: asChunks size rest := by
  have hcount : (part ++ rest).length / size = rest.length / size + 1 := by
    rw [List.length_append, hpart, Nat.add_comm, Nat.add_div_right _ h]
  rw [asChunks, hcount, List.range_succ_eq_map, List.map_cons, List.map_map, asChunks]
  congr 1
  · rw [Nat.mul_zero, List.drop_zero, List.take_left' hpart]
  · refine List.map_congr_left fun i _ => ?_
    have hdrop : size * (i + 1) = part.length + size * i := by
      rw [hpart, Nat.mul_succ, Nat.add_comm]
    rw [Function.comp_apply, hdrop, ← List.drop_drop, List.drop_left]

/-- Chunks that fill the input are the same either way. -/
theorem chunks_of_dvd {bytes : List β} (h : 0 < size) (hdvd : bytes.length % size = 0) :
    chunks size bytes = asChunks size bytes := by
  have hcount : (bytes.length + (size - 1)) / size = bytes.length / size := by
    obtain ⟨k, hk⟩ := Nat.dvd_of_mod_eq_zero hdvd
    rw [hk, Nat.mul_div_cancel_left k h, Nat.mul_add_div h, Nat.div_eq_of_lt (by omega), Nat.add_zero]
  rw [chunks, hcount, asChunks]

theorem asChunks_flatten {parts : List (List β)} (h : 0 < size) (hparts : ∀ p ∈ parts, p.length = size) :
    asChunks size parts.flatten = parts := by
  induction parts with
  | nil =>
    rw [List.flatten_nil, asChunks, List.length_nil, Nat.zero_div]
    rfl
  | cons part parts ih =>
    have hpart := hparts part (by simp)
    rw [List.flatten_cons, asChunks_append hpart h, ih fun p hp => hparts p (by simp [hp])]

end Chunks

/-! ## Fixed-width integers -/

/-- The digits of a number below the `k`-th, each at its place. -/
theorem sum_digits (b x k : Nat) : ((List.range k).map fun j => x / b ^ j % b * b ^ j).sum = x % b ^ k := by
  induction k with
  | zero => simp [Nat.mod_one]
  | succ k ih =>
    rw [List.range_succ, List.map_append, List.sum_append, ih, List.map_singleton, List.sum_singleton,
      Nat.mod_pow_succ, Nat.mul_comm (b ^ k)]

/-- `to_le_bytes` for an integer of `width` bytes. -/
def toLe : Nat → Nat → List UInt8
  | 0, _ => []
  | width + 1, n => UInt8.ofNat (n % 256) :: toLe width (n / 256)

/-- `from_le_bytes`. -/
def fromLe (bytes : List UInt8) : Nat := Nat.ofDigits 256 (bytes.map UInt8.toNat)

@[simp] theorem length_toLe (width n : Nat) : (toLe width n).length = width := by
  induction width generalizing n with
  | zero => rfl
  | succ width ih => simp [toLe, ih]

@[simp] theorem fromLe_nil : fromLe [] = 0 := rfl

theorem fromLe_cons (b : UInt8) (bytes : List UInt8) :
    fromLe (b :: bytes) = b.toNat + 256 * fromLe bytes := by
  simp [fromLe, Nat.ofDigits_cons]

theorem fromLe_toLe {width n : Nat} (h : n < 256 ^ width) : fromLe (toLe width n) = n := by
  induction width generalizing n with
  | zero =>
    have hn : n = 0 := by simpa using h
    simp [toLe, hn]
  | succ width ih =>
    have hdiv : n / 256 < 256 ^ width := by
      rw [Nat.pow_succ] at h
      omega
    have hbyte : (UInt8.ofNat (n % 256)).toNat = n % 256 := by simp
    rw [toLe, fromLe_cons, ih hdiv, hbyte]
    omega

theorem fromLe_lt (bytes : List UInt8) : fromLe bytes < 256 ^ bytes.length := by
  induction bytes with
  | nil => simp
  | cons b bytes ih =>
    have hb : b.toNat < 256 := b.toNat_lt
    rw [fromLe_cons, List.length_cons, Nat.pow_succ]
    omega

theorem toLe_fromLe (bytes : List UInt8) : toLe bytes.length (fromLe bytes) = bytes := by
  induction bytes with
  | nil => rfl
  | cons b bytes ih =>
    have hb : b.toNat < 256 := b.toNat_lt
    have hmod : (b.toNat + 256 * fromLe bytes) % 256 = b.toNat := by omega
    have hdiv : (b.toNat + 256 * fromLe bytes) / 256 = fromLe bytes := by omega
    rw [List.length_cons, fromLe_cons, toLe, hmod, hdiv, ih]
    simp

/-- `to_be_bytes` and `from_be_bytes`. -/
def toBe (width n : Nat) : List UInt8 := (toLe width n).reverse

def fromBe (bytes : List UInt8) : Nat := fromLe bytes.reverse

@[simp] theorem length_toBe (width n : Nat) : (toBe width n).length = width := by
  simp [toBe]

theorem fromBe_toBe {width n : Nat} (h : n < 256 ^ width) : fromBe (toBe width n) = n := by
  rw [fromBe, toBe, List.reverse_reverse, fromLe_toLe h]

end DigitalObjects.Lib
