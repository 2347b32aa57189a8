import Mathlib.Data.List.Forall2
import Mathlib.Data.List.Count
import Mathlib.Data.List.Nodup
import Mathlib.Data.List.Perm.Subperm
set_option autoImplicit false

/-! Lists that are related position by position, and parts of lists. -/

namespace DigitalObjects.Lib

variable {α β : Type} {R : α → β → Prop}

theorem forall₂_filter {p : α → Bool} {q : β → Bool} {as : List α} {bs : List β}
    (h : List.Forall₂ R as bs) (hpq : ∀ a b, R a b → p a = q b) :
    List.Forall₂ R (as.filter p) (bs.filter q) := by
  induction h with
  | nil => exact .nil
  | @cons a b as bs hab _ ih =>
    have hb := hpq a b hab
    by_cases hp : p a = true
    · rw [List.filter_cons_of_pos hp, List.filter_cons_of_pos (hb ▸ hp)]
      exact .cons hab ih
    · rw [List.filter_cons_of_neg hp, List.filter_cons_of_neg (hb ▸ hp)]
      exact ih

theorem forall₂_last {as : List α} {bs : List β} {a : α} {b : β}
    (h : List.Forall₂ R (as ++ [a]) (bs ++ [b])) : R a b := by
  have hrev := List.forall₂_reverse_iff.mpr h
  simp only [List.reverse_append, List.reverse_singleton, List.singleton_append,
    List.forall₂_cons] at hrev
  exact hrev.1

theorem map_eq_of_forall₂ {γ : Type} {f : α → γ} {g : β → γ} {as : List α} {bs : List β}
    (h : List.Forall₂ R as bs) (hfg : ∀ a b, R a b → f a = g b) : as.map f = bs.map g := by
  induction h with
  | nil => rfl
  | cons hab _ ih => rw [List.map_cons, List.map_cons, hfg _ _ hab, ih]

theorem forall₂_mem_right {as : List α} {bs : List β} (h : List.Forall₂ R as bs) {b : β}
    (hb : b ∈ bs) : ∃ a ∈ as, R a b := by
  induction h with
  | nil => cases hb
  | @cons a b' as bs hab _ ih =>
    rcases List.mem_cons.mp hb with rfl | hb
    · exact ⟨a, List.mem_cons_self, hab⟩
    · obtain ⟨a', ha', hR⟩ := ih hb
      exact ⟨a', List.mem_cons_of_mem a ha', hR⟩

theorem filter_nodup_of_count [BEq α] [LawfulBEq α] {t l : List α} (h : ∀ a ∈ t, l.count a = 1) :
    (l.filter (· ∈ t)).Nodup := by
  rw [List.nodup_iff_count_le_one]
  intro a
  by_cases ha : a ∈ t
  · have hone := h a ha
    rw [List.count_filter (by simpa using ha)]
    omega
  · rw [List.count_eq_zero_of_not_mem (by simp [ha])]
    omega

/-- A sublist whose elements are not repeated is picked out by membership. -/
theorem eq_filter_of_count [BEq α] [LawfulBEq α] {t l : List α} (hsub : t.Sublist l)
    (h : ∀ a ∈ t, l.count a = 1) : t = l.filter (· ∈ t) := by
  have hfilter : t.Sublist (l.filter (· ∈ t)) := by
    have hself := hsub.filter (· ∈ t)
    rwa [List.filter_eq_self.mpr (by simp)] at hself
  have hle : (l.filter (· ∈ t)).length ≤ t.length := by
    refine (List.subperm_of_subset (filter_nodup_of_count h) ?_).length_le
    intro a ha
    simpa using (List.mem_filter.mp ha).2
  exact hfilter.eq_of_length_le hle

/-- A list zipped with its own image: one result for each element. -/
theorem forall₂_zip_map {α β γ : Type} {R : α → γ → Prop} {f : α → β} {g : α × β → γ} {as : List α}
    (h : ∀ a ∈ as, R a (g (a, f a))) : List.Forall₂ R as ((as.zip (as.map f)).map g) := by
  induction as with
  | nil => exact .nil
  | cons a as ih =>
    simp only [List.map_cons, List.zip_cons_cons]
    exact .cons (h a (by simp)) (ih fun b hb => h b (List.mem_cons_of_mem a hb))

theorem except_bind_eq_ok {ε α β : Type} {x : Except ε α} {f : α → Except ε β} {b : β} :
    x >>= f = .ok b ↔ ∃ a, x = .ok a ∧ f a = .ok b := by
  constructor
  · intro h
    cases x with
    | error e => cases h
    | ok a => exact ⟨a, rfl, h⟩
  · rintro ⟨a, rfl, h⟩
    exact h

theorem forall₂_mapM {ε α β : Type} {f : α → Except ε β} {as : List α} {bs : List β}
    (h : as.mapM f = .ok bs) : List.Forall₂ (fun a b => f a = .ok b) as bs := by
  induction as generalizing bs with
  | nil =>
    cases h
    exact .nil
  | cons a as ih =>
    rw [List.mapM_cons] at h
    obtain ⟨b, hb, h⟩ := except_bind_eq_ok.mp h
    obtain ⟨rest, hrest, h⟩ := except_bind_eq_ok.mp h
    cases h
    exact .cons hb (ih hrest)

theorem mapM_length {ε α β : Type} {f : α → Except ε β} {as : List α} {bs : List β}
    (h : as.mapM f = .ok bs) : bs.length = as.length := (forall₂_mapM h).length_eq.symm

theorem forall₂_getElem? {as : List α} {bs : List β} (h : List.Forall₂ R as bs) {i : Nat} {a : α}
    (ha : as[i]? = some a) : ∃ b, bs[i]? = some b ∧ R a b := by
  induction h generalizing i with
  | nil => cases ha
  | @cons a' b as bs hab _ ih =>
    cases i with
    | zero =>
      cases ha
      exact ⟨b, rfl, hab⟩
    | succ i => exact ih ha

/-- A position in a concatenation of pieces of one length. -/
theorem getElem?_flatMap_range {f : Nat → List α} {m c i j : Nat} (hlen : ∀ i < m, (f i).length = c)
    (hi : i < m) (hj : j < c) : ((List.range m).flatMap f)[c * i + j]? = (f i)[j]? := by
  induction m with
  | zero => omega
  | succ m ih =>
    have heach : ∀ i ∈ List.range m, (f i).length = c := by
      intro i hi
      have hm := List.mem_range.mp hi
      exact hlen i (by omega)
    have hfront : ((List.range m).flatMap f).length = c * m := by
      rw [List.length_flatMap, List.map_congr_left heach]
      simp [Nat.mul_comm]
    rw [List.range_succ, List.flatMap_append, List.flatMap_singleton]
    by_cases him : i = m
    · subst him
      rw [List.getElem?_append_right (by omega), hfront, Nat.add_sub_cancel_left]
    · have hbound : c * i + j < c * m := by
        have hmul : c * (i + 1) ≤ c * m := Nat.mul_le_mul_left c (by omega)
        rw [Nat.mul_add, Nat.mul_one] at hmul
        omega
      rw [List.getElem?_append_left (by omega)]
      exact ih (fun i h => hlen i (by omega)) (by omega)

/-! ## One element replaced -/

theorem mem_set_iff {α : Type} {l : List α} {i : Nat} {a : α} (h : l[i]? = some a) (b c : α) :
    c ∈ l.set i b ↔ c = b ∨ c ∈ l.eraseIdx i := by
  induction l generalizing i with
  | nil => simp at h
  | cons x l ih =>
    cases i with
    | zero => simp
    | succ i =>
      have hset := ih (i := i) (by simpa using h)
      simp [hset, or_left_comm]

theorem mem_iff_eraseIdx {α : Type} {l : List α} {i : Nat} {a : α} (h : l[i]? = some a) (c : α) :
    c ∈ l ↔ c = a ∨ c ∈ l.eraseIdx i := by
  have hself : l.set i a = l := by
    obtain ⟨hi, hget⟩ := List.getElem?_eq_some_iff.mp h
    rw [← hget, List.set_getElem_self]
  rw [← mem_set_iff h a c, hself]

theorem pairwise_set {α : Type} {R : α → α → Prop} (hsymm : ∀ a b, R a b → R b a) {l : List α} {i : Nat}
    {a b : α} (hi : l[i]? = some a) (h : l.Pairwise R) (hb : ∀ c ∈ l.eraseIdx i, R b c) :
    (l.set i b).Pairwise R := by
  induction l generalizing i with
  | nil => simp at hi
  | cons x l ih =>
    obtain ⟨hx, hl⟩ := List.pairwise_cons.mp h
    cases i with
    | zero => exact List.pairwise_cons.mpr ⟨hb, hl⟩
    | succ i =>
      have hi' : l[i]? = some a := by simpa using hi
      refine List.pairwise_cons.mpr ⟨fun c hc => ?_, ih hi' hl fun c hc => hb c (List.mem_cons_of_mem _ hc)⟩
      rcases (mem_set_iff hi' b c).mp hc with rfl | hin
      · exact hsymm _ _ (hb x (by simp))
      · exact hx c (List.mem_of_mem_eraseIdx hin)

theorem pairwise_eraseIdx {α : Type} {R : α → α → Prop} (hsymm : ∀ a b, R a b → R b a) {l : List α} {i : Nat}
    {a : α} (hi : l[i]? = some a) (h : l.Pairwise R) : ∀ c ∈ l.eraseIdx i, R a c := by
  induction l generalizing i with
  | nil => simp at hi
  | cons x l ih =>
    obtain ⟨hx, hl⟩ := List.pairwise_cons.mp h
    cases i with
    | zero =>
      cases hi
      exact hx
    | succ i =>
      have hi' : l[i]? = some a := by simpa using hi
      intro c hc
      rcases List.mem_cons.mp hc with rfl | hin
      · exact hsymm _ _ (hx a (List.mem_of_getElem? hi'))
      · exact ih hi' hl c hin

end DigitalObjects.Lib
