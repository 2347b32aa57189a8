import DigitalObjects.Archiver.Store
set_option autoImplicit false

/-!
The paths of slots and roots: no two slots below a billion and no two roots share one, and the
names of slots sort as the slots do.
-/

namespace DigitalObjects.Archiver

open Lib EthClients FileTree

/-! ## Digits -/

theorem digitChar_lt {a b : Nat} (ha : a < 10) (hb : b < 10) :
    Nat.digitChar a < Nat.digitChar b ↔ a < b := by
  have hall : ∀ a < 10, ∀ b < 10, Nat.digitChar a < Nat.digitChar b ↔ a < b := by decide
  exact hall a ha b hb

theorem digitChar_inj {a b : Nat} (ha : a < 16) (hb : b < 16) (h : Nat.digitChar a = Nat.digitChar b) : a = b := by
  have hall : ∀ a < 16, ∀ b < 16, Nat.digitChar a = Nat.digitChar b → a = b := by decide
  exact hall a ha b hb h

theorem pad3_eq {n : Nat} (h : n < 1000) :
    pad3 n = [Nat.digitChar (n / 100), Nat.digitChar (n / 10 % 10), Nat.digitChar (n % 10)] := by
  have hzero : Nat.digitChar 0 = '0' := rfl
  by_cases h1 : n < 10
  · have hdiv : n / 100 = 0 := by omega
    have hmid : n / 10 % 10 = 0 := by omega
    have hlow : n % 10 = n := by omega
    rw [pad3, Nat.toDigits_of_lt_base h1, hdiv, hmid, hlow, hzero]
    rfl
  · have hrest : Nat.toDigits 10 n = Nat.toDigits 10 (n / 10) ++ [Nat.digitChar (n % 10)] :=
      Nat.toDigits_of_base_le (by decide) (by omega)
    by_cases h2 : n < 100
    · have hdiv : n / 100 = 0 := by omega
      have hmid : n / 10 % 10 = n / 10 := by omega
      rw [pad3, hrest, Nat.toDigits_of_lt_base (show n / 10 < 10 by omega), hdiv, hmid, hzero]
      rfl
    · have htop : Nat.toDigits 10 (n / 10) = Nat.toDigits 10 (n / 10 / 10) ++ [Nat.digitChar (n / 10 % 10)] :=
        Nat.toDigits_of_base_le (by decide) (by omega)
      have hdiv : n / 10 / 10 = n / 100 := by omega
      rw [pad3, hrest, htop, hdiv, Nat.toDigits_of_lt_base (show n / 100 < 10 by omega)]
      rfl

/-- The three digits of numbers below a thousand sort as the numbers do. -/
theorem pad3_lt {m n : Nat} (hm : m < 1000) (hn : n < 1000) (h : m < n) : pad3 m < pad3 n := by
  rw [pad3_eq hm, pad3_eq hn]
  have hhigh := @digitChar_lt (m / 100) (n / 100) (by omega) (by omega)
  have hmid := @digitChar_lt (m / 10 % 10) (n / 10 % 10) (by omega) (by omega)
  have hlow := @digitChar_lt (m % 10) (n % 10) (by omega) (by omega)
  rw [List.cons_lt_cons_iff, List.cons_lt_cons_iff, List.cons_lt_cons_iff, hhigh, hmid, hlow]
  by_cases h1 : m / 100 < n / 100
  · exact .inl h1
  · have heq : m / 100 = n / 100 := by omega
    refine .inr ⟨by rw [heq], ?_⟩
    by_cases h2 : m / 10 % 10 < n / 10 % 10
    · exact .inl h2
    · have heq' : m / 10 % 10 = n / 10 % 10 := by omega
      exact .inr ⟨by rw [heq'], .inl (by omega)⟩

theorem pad3_le {m n : Nat} (hm : m < 1000) (hn : n < 1000) (h : pad3 m ≤ pad3 n) : m ≤ n := by
  by_contra hnot
  have hlt := pad3_lt hn hm (by omega)
  exact absurd h (not_le.mpr hlt)

theorem pad3_inj {m n : Nat} (hm : m < 1000) (hn : n < 1000) (h : pad3 m = pad3 n) : m = n := by
  have hle := pad3_le hm hn (le_of_eq h)
  have hge := pad3_le hn hm (le_of_eq h.symm)
  omega

/-! ## Roots -/

/-- 32 bytes. -/
def IsB256 (r : B256) : Prop := r.length = 32 ∧ ∀ b ∈ r, b < 256

theorem hexBytes_inj {r r' : List Nat} (hr : ∀ b ∈ r, b < 256) (hr' : ∀ b ∈ r', b < 256)
    (h : r.flatMap hexByte = r'.flatMap hexByte) : r = r' := by
  induction r generalizing r' with
  | nil =>
    cases r' with
    | nil => rfl
    | cons b r' => simp [hexByte] at h
  | cons a r ih =>
    cases r' with
    | nil => simp [hexByte] at h
    | cons b r' =>
      simp only [List.flatMap_cons, hexByte, List.cons_append, List.nil_append, List.cons.injEq] at h
      obtain ⟨hhigh, hlow, hrest⟩ := h
      have ha := hr a (by simp)
      have hb := hr' b (by simp)
      have hdiv := digitChar_inj (show a / 16 < 16 by omega) (show b / 16 < 16 by omega) hhigh
      have hmod := digitChar_inj (show a % 16 < 16 by omega) (show b % 16 < 16 by omega) hlow
      have hab : a = b := by omega
      rw [hab, ih (fun c hc => hr c (List.mem_cons_of_mem a hc)) (fun c hc => hr' c (List.mem_cons_of_mem b hc)) hrest]

namespace Store

theorem rootDir_inj {r r' : B256} (hr : IsB256 r) (hr' : IsB256 r') (h : rootDir r = rootDir r') : r = r' := by
  simp only [rootDir, rootDirFrom, List.cons.injEq, Name.part.injEq, and_true] at h
  obtain ⟨hlow, hmid, hhigh⟩ := h
  have hsplit : ∀ s : List Char, s = s.take 5 ++ ((s.drop 5).take 3 ++ s.drop 8) := by
    intro s
    have hrest : s.drop 8 = (s.drop 5).drop 3 := by rw [List.drop_drop]
    rw [hrest, List.take_append_drop, List.take_append_drop]
  have htext : rootText r = rootText r' := by
    rw [hsplit (rootText r), hsplit (rootText r'), hhigh, hmid, hlow]
  simp only [rootText, List.cons.injEq, true_and] at htext
  exact hexBytes_inj hr.2 hr'.2 htext

theorem rootLink_eq (r : B256) : (rootLink r).drop 3 = (rootDir r).reverse := rfl

theorem rootLink_inj {r r' : B256} (hr : IsB256 r) (hr' : IsB256 r') (h : rootLink r = rootLink r') : r = r' := by
  refine rootDir_inj hr hr' (List.reverse_injective ?_)
  rw [← rootLink_eq, ← rootLink_eq, h]

/-! ## Slots -/

/-- The three parts of a slot. -/
theorem slotDir_eq (s : Nat) : slotDir s =
    [.part (pad3 (s % 1000)), .part (pad3 (s / 1000 % 1000)), .part (pad3 (s / 1000000)), .bySlot] := by
  have hmid : (s - s / 1000000 * 1000000) / 1000 = s / 1000 % 1000 := by omega
  have hlow : s - s / 1000000 * 1000000 - s / 1000 % 1000 * 1000 = s % 1000 := by omega
  simp only [slotDir, slotDirFrom, hmid, hlow]

theorem slotDir_inj {s s' : Nat} (hs : s < 1000000000) (hs' : s' < 1000000000) (h : slotDir s = slotDir s') : s = s' := by
  simp only [slotDir_eq, List.cons.injEq, Name.part.injEq, and_true] at h
  have hlow := pad3_inj (by omega) (by omega) h.1
  have hmid := pad3_inj (by omega) (by omega) h.2.1
  have hhigh := pad3_inj (by omega) (by omega) h.2.2
  omega

/-- A link leads from the slot's directory to the root's. -/
theorem resolve_rootLink (s : Nat) (r : B256) : resolve (slotDir s).tail (rootLink r) = rootDir r := rfl

theorem length_slotDir (s : Nat) : (slotDir s).length = 4 := rfl

theorem length_rootDir (r : B256) : (rootDir r).length = 4 := rfl

end Store

end DigitalObjects.Archiver
