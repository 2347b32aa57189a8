import Mathlib.Logic.Function.Basic
import Mathlib.Data.List.Forall2
set_option autoImplicit false

/-! Partial assignments of values to variables, grown by demands on single variables. -/

namespace DigitalObjects.Lib

variable {W V : Type} [DecidableEq W] [DecidableEq V]

/-- Demand a value of a variable: a free one is set, a set one must have it already. -/
def assign (σ : W → Option V) (w : W) (v : V) : Option (W → Option V) :=
  match σ w with
  | none => some (Function.update σ w (some v))
  | some u => if u = v then some σ else none

def assignAll (σ : W → Option V) : List (W × V) → Option (W → Option V)
  | [] => some σ
  | c :: cs => (assign σ c.1 c.2).bind fun σ => assignAll σ cs

/-- The total assignment has every value of the partial one. -/
def Extends (τ : W → V) (σ : W → Option V) : Prop := ∀ w v, σ w = some v → τ w = v

theorem Extends.of_assign {τ : W → V} {σ σ' : W → Option V} {w : W} {v : V}
    (h : assign σ w v = some σ') (hτ : Extends τ σ') : Extends τ σ ∧ τ w = v := by
  unfold assign at h
  cases hw : σ w with
  | none =>
    simp only [hw, Option.some.injEq] at h
    subst h
    constructor
    · intro x u hx
      have hne : x ≠ w := by
        intro heq
        rw [heq, hw] at hx
        cases hx
      exact hτ x u (by rw [Function.update_of_ne hne, hx])
    · exact hτ w v (by simp)
  | some u =>
    simp only [hw] at h
    by_cases huv : u = v
    · simp only [huv, if_true, Option.some.injEq] at h
      subst h huv
      exact ⟨hτ, hτ w u hw⟩
    · simp [huv] at h

/-- Whatever extends the result meets every demand. -/
theorem Extends.of_assignAll {τ : W → V} {σ σ' : W → Option V} {cs : List (W × V)}
    (h : assignAll σ cs = some σ') (hτ : Extends τ σ') :
    Extends τ σ ∧ ∀ c ∈ cs, τ c.1 = c.2 := by
  induction cs generalizing σ with
  | nil =>
    cases h
    simp [hτ]
  | cons c cs ih =>
    obtain ⟨σ₁, hassign, h⟩ := Option.bind_eq_some_iff.mp h
    obtain ⟨hτ₁, hcs⟩ := ih h
    obtain ⟨hτσ, hc⟩ := hτ₁.of_assign hassign
    refine ⟨hτσ, ?_⟩
    intro d hd
    rcases List.mem_cons.mp hd with rfl | hd
    · exact hc
    · exact hcs d hd

theorem Extends.assign {τ : W → V} {σ : W → Option V} (hτ : Extends τ σ) (w : W) :
    ∃ σ', assign σ w (τ w) = some σ' ∧ Extends τ σ' := by
  unfold Lib.assign
  cases hw : σ w with
  | none =>
    refine ⟨_, rfl, ?_⟩
    intro x u hx
    by_cases hxw : x = w
    · subst hxw
      simpa using hx
    · rw [Function.update_of_ne hxw] at hx
      exact hτ x u hx
  | some u =>
    have huv : u = τ w := (hτ w u hw).symm
    exact ⟨σ, by simp [huv], hτ⟩

/-- Demands that one assignment meets can all be met in turn. -/
theorem Extends.assignAll {τ : W → V} {σ : W → Option V} (hτ : Extends τ σ) {cs : List (W × V)}
    (hcs : ∀ c ∈ cs, τ c.1 = c.2) : ∃ σ', assignAll σ cs = some σ' ∧ Extends τ σ' := by
  induction cs generalizing σ with
  | nil => exact ⟨σ, rfl, hτ⟩
  | cons c cs ih =>
    have hc := hcs c List.mem_cons_self
    obtain ⟨σ₁, hassign, hτ₁⟩ := hτ.assign c.1
    rw [hc] at hassign
    obtain ⟨σ', hrest, hτ'⟩ := ih hτ₁ (fun d hd => hcs d (List.mem_cons_of_mem c hd))
    exact ⟨σ', by simp [Lib.assignAll, hassign, hrest], hτ'⟩

/-- The demands of two lists, position by position. -/
def demandZip {α β : Type} (f : α → β → Option (List (W × V))) :
    List α → List β → Option (List (W × V))
  | [], [] => some []
  | a :: as, b :: bs => (f a b).bind fun ds => (demandZip f as bs).map fun rest => ds ++ rest
  | _, _ => none

/-- The demands can be made and are met. -/
def Met (τ : W → V) (ds : Option (List (W × V))) : Prop :=
  ∃ l, ds = some l ∧ ∀ d ∈ l, τ d.1 = d.2

omit [DecidableEq W] [DecidableEq V] in
theorem met_demandZip {α β : Type} {f : α → β → Option (List (W × V))} {τ : W → V}
    {as : List α} {bs : List β} :
    Met τ (demandZip f as bs) ↔ List.Forall₂ (fun a b => Met τ (f a b)) as bs := by
  induction as generalizing bs with
  | nil => cases bs <;> simp [demandZip, Met]
  | cons a as ih =>
    cases bs with
    | nil => simp [demandZip, Met]
    | cons b bs =>
      rw [List.forall₂_cons, ← ih]
      constructor
      · rintro ⟨ds, hds, hall⟩
        obtain ⟨ds₁, h₁, hds⟩ := Option.bind_eq_some_iff.mp hds
        obtain ⟨ds₂, h₂, rfl⟩ := Option.map_eq_some_iff.mp hds
        exact ⟨⟨ds₁, h₁, fun d hd => hall d (List.mem_append_left ds₂ hd)⟩,
          ⟨ds₂, h₂, fun d hd => hall d (List.mem_append_right ds₁ hd)⟩⟩
      · rintro ⟨⟨ds₁, h₁, hall₁⟩, ⟨ds₂, h₂, hall₂⟩⟩
        refine ⟨ds₁ ++ ds₂, by simp [demandZip, h₁, h₂], ?_⟩
        intro d hd
        rcases List.mem_append.mp hd with hd | hd
        · exact hall₁ d hd
        · exact hall₂ d hd

end DigitalObjects.Lib
