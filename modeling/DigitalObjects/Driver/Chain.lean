import DigitalObjects.Txlib.Finalized
set_option autoImplicit false

/-!
The chain as the driver sees it: committed blocks with the payloads they carry, each
applied or rejected by the checks of the synchronizer. Nothing is ever removed.
-/

namespace DigitalObjects.Driver

open Txlib

variable {H : Type} [DecidableEq H]

/-- A proved transaction as the synchronizer decodes it. `proof` tells apart the bytes
of two proofs of one statement. -/
structure Payload (H : Type) where
  txFinal : H
  groundingBlock : Int
  created : List H
  nullifiers : List H
  proof : Nat
deriving DecidableEq, Repr

inductive Rejection where
  | rootNotFound
  | tooOld
  | createdCollision
  | nullifierCollision
deriving DecidableEq, Repr

structure Entry (H : Type) where
  block : Int
  payload : Payload H
  error : Option Rejection
deriving DecidableEq, Repr

/-- The head block and all entries, the latest first. -/
structure Chain (H : Type) where
  head : Int
  entries : List (Entry H)

namespace Chain

def genesis : Chain H := ⟨0, []⟩

def applied (c : Chain H) : List (Payload H) :=
  (c.entries.filter fun e => e.error = none).map Entry.payload

def created (c : Chain H) : List H := c.applied.flatMap Payload.created

def nullifiers (c : Chain H) : List H := c.applied.flatMap Payload.nullifiers

/-- A list that repeats an entry or meets one already on the chain. -/
def Collides (new old : List H) : Prop := ¬ new.Nodup ∨ ∃ x ∈ new, x ∈ old

instance (new old : List H) : Decidable (Collides new old) :=
  inferInstanceAs (Decidable (_ ∨ _))

/-- The checks of `apply_payload`, in their order. Only roots of earlier blocks are known. -/
def rejection (c : Chain H) (block : Int) (p : Payload H) : Option Rejection :=
  if c.head < p.groundingBlock then some .rootNotFound
  else if groundingAgedOut block p.groundingBlock then some .tooOld
  else if Collides p.created c.created then some .createdCollision
  else if Collides p.nullifiers c.nullifiers then some .nullifierCollision
  else none

def apply (c : Chain H) (block : Int) (p : Payload H) : Chain H :=
  { c with entries := ⟨block, p, c.rejection block p⟩ :: c.entries }

def applyAll (c : Chain H) (block : Int) (ps : List (Payload H)) : Chain H :=
  ps.foldl (fun c p => c.apply block p) c

/-- Commit a block with its payloads. -/
def commit (c : Chain H) (block : Int) (ps : List (Payload H)) : Chain H :=
  { c.applyAll block ps with head := block }

/-- `tx_status_by_tx_final`: the entry that applied it, or else the latest rejected one. -/
def status (c : Chain H) (txFinal : H) : Option (Entry H) :=
  let es := c.entries.filter fun e => e.payload.txFinal = txFinal
  (es.find? fun e => e.error = none).or es.head?

def Applied (c : Chain H) (p : Payload H) : Prop := p ∈ c.applied

instance (c : Chain H) (p : Payload H) : Decidable (c.Applied p) :=
  inferInstanceAs (Decidable (_ ∈ _))

omit [DecidableEq H] in
theorem mem_applied {c : Chain H} {p : Payload H} :
    c.Applied p ↔ ∃ e ∈ c.entries, e.payload = p ∧ e.error = none := by
  simp only [Applied, applied, List.mem_map, List.mem_filter, decide_eq_true_eq]
  constructor
  · rintro ⟨e, ⟨he, herr⟩, hp⟩
    exact ⟨e, he, hp, herr⟩
  · rintro ⟨e, he, hp, herr⟩
    exact ⟨e, ⟨he, herr⟩, hp⟩

theorem status_mem {c : Chain H} {t : H} {e : Entry H} (h : c.status t = some e) :
    e ∈ c.entries ∧ e.payload.txFinal = t := by
  have hmem : e ∈ c.entries.filter fun e => e.payload.txFinal = t := by
    unfold status at h
    rcases Option.or_eq_some_iff.mp h with hf | ⟨-, hh⟩
    · exact List.mem_of_find?_eq_some hf
    · exact List.mem_of_mem_head? hh
  simpa using hmem

theorem status_none {c : Chain H} {t : H} (h : c.status t = none) :
    ∀ e ∈ c.entries, e.payload.txFinal ≠ t := by
  unfold status at h
  have hnil := List.head?_eq_none_iff.mp (Option.or_eq_none_iff.mp h).2
  intro e he ht
  have hmem : e ∈ c.entries.filter fun e => e.payload.txFinal = t := by simp [he, ht]
  rw [hnil] at hmem
  cases hmem

/-- A rejected status means that nothing with this `tx_final` was applied. -/
theorem status_rejected {c : Chain H} {t : H} {e : Entry H} (h : c.status t = some e)
    (herr : e.error ≠ none) : ∀ f ∈ c.entries, f.payload.txFinal = t → f.error ≠ none := by
  unfold status at h
  rcases Option.or_eq_some_iff.mp h with hf | ⟨hf, -⟩
  · have hfound := List.find?_some hf
    simp only [decide_eq_true_eq] at hfound
    exact absurd hfound herr
  · intro f hmem ht hnone
    have hnot := List.find?_eq_none.mp hf f (by simp [hmem, ht])
    simp [hnone] at hnot

theorem groundingAgedOut_mono {b b' g : Int} (hb : b ≤ b') (h : groundingAgedOut b g = true) :
    groundingAgedOut b' g = true := by
  simp only [groundingAgedOut, decide_eq_true_eq] at h ⊢
  omega

omit [DecidableEq H] in
theorem Collides.mono {new old old' : List H} (h : Collides new old) (hsub : old ⊆ old') :
    Collides new old' := by
  rcases h with h | ⟨x, hx, hold⟩
  · exact .inl h
  · exact .inr ⟨x, hx, hsub hold⟩

/-- A reason against the payload, from block `top` on, that no later block takes back. -/
def Barred (c : Chain H) (top : Int) (p : Payload H) : Prop :=
  groundingAgedOut top p.groundingBlock = true ∨ Collides p.created c.created ∨
    Collides p.nullifiers c.nullifiers

/-- Not applied, and never to be. -/
structure Doomed (c : Chain H) (p : Payload H) : Prop where
  unapplied : ¬ c.Applied p
  barred : c.Barred c.head p

theorem rejection_of_barred {c : Chain H} {p : Payload H} {block : Int} (h : c.Barred block p) :
    c.rejection block p ≠ none := by
  unfold rejection
  by_cases h₁ : c.head < p.groundingBlock
  · simp [h₁]
  · by_cases h₂ : groundingAgedOut block p.groundingBlock = true
    · simp [h₁, h₂]
    · rcases h with h | h | h
      · exact absurd h h₂
      · simp [h₁, h₂, h]
      · by_cases h₃ : Collides p.created c.created
        · simp [h₁, h₂, h₃]
        · simp [h₁, h₂, h₃, h]

/-- Every rejection but one for an unknown root is a lasting one. -/
theorem barred_of_rejection {c : Chain H} {p : Payload H} {block : Int} {r : Rejection}
    (h : c.rejection block p = some r) (hr : r ≠ .rootNotFound) : c.Barred block p := by
  unfold rejection at h
  by_cases h₁ : c.head < p.groundingBlock
  · simp only [if_pos h₁, Option.some.injEq] at h
    exact absurd h.symm hr
  · by_cases h₂ : groundingAgedOut block p.groundingBlock = true
    · exact .inl h₂
    · by_cases h₃ : Collides p.created c.created
      · exact .inr (.inl h₃)
      · by_cases h₄ : Collides p.nullifiers c.nullifiers
        · exact .inr (.inr h₄)
        · simp [h₁, h₂, h₃, h₄] at h

theorem young_of_rejection {c : Chain H} {p : Payload H} {block : Int}
    (h : c.rejection block p = none) : groundingAgedOut block p.groundingBlock = false := by
  by_cases h₂ : groundingAgedOut block p.groundingBlock = true
  · exact absurd h (rejection_of_barred (.inl h₂))
  · simpa using h₂

theorem rejection_rootNotFound {c : Chain H} {p : Payload H} {block : Int}
    (h : c.rejection block p = some .rootNotFound) : c.head < p.groundingBlock := by
  unfold rejection at h
  by_cases h₁ : c.head < p.groundingBlock
  · exact h₁
  · rw [if_neg h₁] at h
    split at h
    · cases h
    · split at h
      · cases h
      · split at h <;> cases h

theorem applied_apply (c : Chain H) (block : Int) (p : Payload H) :
    (c.apply block p).applied =
      if c.rejection block p = none then p :: c.applied else c.applied := by
  by_cases h : c.rejection block p = none <;> simp [applied, apply, h]

theorem created_apply (c : Chain H) (block : Int) (p : Payload H) :
    c.created ⊆ (c.apply block p).created := by
  unfold created
  rw [applied_apply]
  by_cases h : c.rejection block p = none <;> simp [h]

theorem nullifiers_apply (c : Chain H) (block : Int) (p : Payload H) :
    c.nullifiers ⊆ (c.apply block p).nullifiers := by
  unfold nullifiers
  rw [applied_apply]
  by_cases h : c.rejection block p = none <;> simp [h]

theorem Barred.apply {c : Chain H} {top block : Int} {p q : Payload H} (h : c.Barred top p) :
    (c.apply block q).Barred top p := by
  rcases h with h | h | h
  · exact .inl h
  · exact .inr (.inl (h.mono (created_apply c block q)))
  · exact .inr (.inr (h.mono (nullifiers_apply c block q)))

omit [DecidableEq H] in
theorem Barred.mono {c : Chain H} {top top' : Int} {p : Payload H} (h : c.Barred top p)
    (ht : top ≤ top') : c.Barred top' p := by
  rcases h with h | h
  · exact .inl (groundingAgedOut_mono ht h)
  · exact .inr h

/-- Entries up to block `top` were judged by the rules. -/
structure Valid (c : Chain H) (top : Int) : Prop where
  le_top : ∀ e ∈ c.entries, e.block ≤ top
  young : ∀ e ∈ c.entries, e.error = none →
    groundingAgedOut e.block e.payload.groundingBlock = false
  lasting : ∀ e ∈ c.entries, ∀ r, e.error = some r → r ≠ .rootNotFound → c.Barred top e.payload

omit [DecidableEq H] in
theorem Valid.mono {c : Chain H} {top top' : Int} (h : c.Valid top) (ht : top ≤ top') :
    c.Valid top' := by
  refine ⟨fun e he => ?_, h.young, fun e he r hr hne => (h.lasting e he r hr hne).mono ht⟩
  have hle := h.le_top e he
  omega

theorem Valid.apply {c : Chain H} {block : Int} (h : c.Valid block) (p : Payload H) :
    (c.apply block p).Valid block := by
  refine ⟨?_, ?_, ?_⟩
  · intro e he
    rcases List.mem_cons.mp he with rfl | he
    · exact le_refl block
    · exact h.le_top e he
  · intro e he herr
    rcases List.mem_cons.mp he with rfl | he
    · exact young_of_rejection herr
    · exact h.young e he herr
  · intro e he r hr hne
    rcases List.mem_cons.mp he with rfl | he
    · exact (barred_of_rejection hr hne).apply
    · exact (h.lasting e he r hr hne).apply

theorem Doomed.apply {c : Chain H} {p q : Payload H} {block : Int} (h : c.Doomed p)
    (hblock : c.head ≤ block) : (c.apply block q).Doomed p := by
  refine ⟨fun hp => ?_, h.barred.apply⟩
  unfold Applied at hp
  rw [applied_apply] at hp
  by_cases hq : c.rejection block q = none
  · rw [if_pos hq] at hp
    rcases List.mem_cons.mp hp with rfl | hp
    · exact rejection_of_barred (h.barred.mono hblock) hq
    · exact h.unapplied hp
  · rw [if_neg hq] at hp
    exact h.unapplied hp

theorem applyAll_head (c : Chain H) (block : Int) (ps : List (Payload H)) :
    (c.applyAll block ps).head = c.head := by
  induction ps generalizing c with
  | nil => rfl
  | cons p ps ih => exact ih (c.apply block p)

theorem Valid.applyAll {c : Chain H} {block : Int} (h : c.Valid block) (ps : List (Payload H)) :
    (c.applyAll block ps).Valid block := by
  induction ps generalizing c with
  | nil => exact h
  | cons p ps ih => exact ih (h.apply p)

theorem Doomed.applyAll {c : Chain H} {p : Payload H} {block : Int} (h : c.Doomed p)
    (hblock : c.head ≤ block) (qs : List (Payload H)) : (c.applyAll block qs).Doomed p := by
  induction qs generalizing c with
  | nil => exact h
  | cons q qs ih => exact ih (h.apply hblock) hblock

theorem Valid.commit {c : Chain H} {block : Int} (h : c.Valid c.head) (hblock : c.head ≤ block)
    (ps : List (Payload H)) : (c.commit block ps).Valid block := by
  have hall := (h.mono hblock).applyAll ps
  exact ⟨hall.le_top, hall.young, hall.lasting⟩

/-- A doomed payload stays out of the chain. -/
theorem Doomed.commit {c : Chain H} {p : Payload H} {block : Int} (h : c.Doomed p)
    (hblock : c.head ≤ block) (qs : List (Payload H)) : (c.commit block qs).Doomed p := by
  have hall := h.applyAll hblock qs
  have hbar := hall.barred
  rw [applyAll_head] at hbar
  exact ⟨hall.unapplied, hbar.mono hblock⟩

theorem mem_applyAll {c : Chain H} {block : Int} {ps : List (Payload H)} {e : Entry H}
    (h : e ∈ (c.applyAll block ps).entries) : e ∈ c.entries ∨ e.block = block ∧ e.payload ∈ ps ∧
      (e.error = some .rootNotFound → c.head < e.payload.groundingBlock) := by
  induction ps generalizing c with
  | nil => exact .inl h
  | cons p ps ih =>
    rcases ih h with h | ⟨hb, hp, hroot⟩
    · rcases List.mem_cons.mp h with rfl | h
      · exact .inr ⟨rfl, List.mem_cons_self, rejection_rootNotFound⟩
      · exact .inl h
    · exact .inr ⟨hb, List.mem_cons_of_mem p hp, hroot⟩

theorem entries_applyAll {c : Chain H} {e : Entry H} (h : e ∈ c.entries) (block : Int)
    (ps : List (Payload H)) : e ∈ (c.applyAll block ps).entries := by
  induction ps generalizing c with
  | nil => exact h
  | cons p ps ih => exact ih (List.mem_cons_of_mem _ h)

end Chain

end DigitalObjects.Driver
