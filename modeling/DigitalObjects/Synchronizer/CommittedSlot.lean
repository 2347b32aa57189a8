import DigitalObjects.Synchronizer.Finality
import DigitalObjects.Synchronizer.SinglePayload
set_option autoImplicit false

/-!
What one commit adds to the log of a node, said once: the row of its slot, the state that it is derived to,
and a status for every payload that was tried.
-/

namespace DigitalObjects.Synchronizer

open Pod2 Txlib

variable {V : Type} [Values V]

/-! ## The order of the statuses -/

section Order

omit [Values V]

variable {a b c q : TxStatusRow V} {rs : List (TxStatusRow V)}

/-- What is not before `b` is before no more than `b` is. -/
theorem TxStatusRow.before_of_not_before (h : a.before c = true) (hnot : a.before b = false) : b.before c = true := by
  unfold before at *
  cases ha : a.error.isSome <;> cases hb : b.error.isSome <;> cases hc : c.error.isSome <;>
    simp only [ha, hb, hc] at h hnot ⊢ <;> grind

theorem TxStatusRow.before_irrefl (a : TxStatusRow V) : a.before a = false := by
  simp [before]

theorem TxStatusRow.before_asymm (h : a.before b = true) : b.before a = false := by
  cases hback : b.before a with
  | false => rfl
  | true =>
    have hself := before_of_not_before (b := a) h (before_irrefl a)
    have hloop := before_of_not_before (a := b) (b := b) hback (before_irrefl b)
    unfold before at *
    cases ha : a.error.isSome <;> cases hb : b.error.isSome <;> simp only [ha, hb] at h hloop <;> grind

/-- No row comes before the one that is picked. -/
theorem TxStatusRow.first_least (h : first rs = some q) : ∀ r ∈ rs, r.before q = false := by
  induction rs generalizing q with
  | nil => simp
  | cons a rs ih =>
    intro r hr
    cases hrest : first rs with
    | none =>
      simp only [first, hrest, Option.some.injEq] at h
      subst h
      rw [first_eq_none.mp hrest] at hr
      rw [List.mem_singleton.mp hr]
      exact before_irrefl a
    | some p =>
      have hleast := ih hrest
      simp only [first, hrest] at h
      by_cases hbefore : p.before a = true
      · simp only [if_pos hbefore, Option.some.injEq] at h
        subst h
        rcases List.mem_cons.mp hr with rfl | hr
        · exact before_asymm hbefore
        · exact hleast r hr
      · simp only [if_neg hbefore, Option.some.injEq] at h
        subst h
        rcases List.mem_cons.mp hr with rfl | hr
        · exact before_irrefl r
        · cases hra : r.before a with
          | false => rfl
          | true => exact absurd (before_of_not_before hra (hleast r hr)) hbefore

/-- The pick of a part that it belongs to. -/
theorem TxStatusRow.first_filter {p : TxStatusRow V → Bool} (h : first rs = some q) (hq : p q = true) :
    first (rs.filter p) = some q := by
  induction rs generalizing q with
  | nil => simp [first] at h
  | cons a rs ih =>
    cases hrest : first rs with
    | none =>
      simp only [first, hrest, Option.some.injEq] at h
      subst h
      rw [first_eq_none.mp hrest]
      simp [hq, first]
    | some r =>
      simp only [first, hrest] at h
      by_cases hbefore : r.before a = true
      · simp only [if_pos hbefore, Option.some.injEq] at h
        subst h
        have hpick := ih hrest hq
        by_cases ha : p a = true
        · rw [List.filter_cons_of_pos ha, first, hpick]
          simp [hbefore]
        · rw [List.filter_cons_of_neg ha]
          exact hpick
      · simp only [if_neg hbefore, Option.some.injEq] at h
        subst h
        rw [List.filter_cons_of_pos hq, first]
        cases hpick : first (rs.filter p) with
        | none => rfl
        | some x =>
          have hx : x ∈ rs := (List.mem_filter.mp (first_mem hpick)).1
          have hnot : x.before a = false := by
            cases hxa : x.before a with
            | false => rfl
            | true => exact absurd (before_of_not_before hxa (first_least hrest x hx)) hbefore
          simp [hnot]

end Order

/-! ## Statuses and attempts -/

/-- Each attempt has a status, and each status with a `tx_final` an attempt. -/
structure Reported (as : List (Attempt V)) (ss : List (BlobStatus V)) : Prop where
  answered : ∀ s ∈ ss, Answers as s
  reported : ∀ a ∈ as, ∃ s ∈ ss, s.txFinal = some a.payload.txFinal ∧ s.error = a.rejection

omit [Values V] in
theorem Outcomes.reported {blobs : List (Option (Nat × Payload V))} {ss ss' : List (BlobStatus V)}
    {as : List (Attempt V)} (h : Outcomes blobs ss as ss') (hal : List.Forall₂ Aligned blobs ss) : Reported as ss' := by
  induction h with
  | nil => exact ⟨by simp, by simp⟩
  | dropped s h ih =>
    cases hal with
    | cons hs hal =>
      obtain ⟨hanswered, hreported⟩ := ih hal
      constructor
      · intro s' hs' t ht
        rcases List.mem_cons.mp hs' with rfl | hs'
        · rw [show s'.txFinal = none from hs] at ht
          cases ht
        · exact hanswered s' hs' t ht
      · intro a ha
        obtain ⟨s', hs', hrest⟩ := hreported a ha
        exact ⟨s', List.mem_cons_of_mem s hs', hrest⟩
  | tried i s a h ih =>
    cases hal with
    | cons hs hal =>
      obtain ⟨hanswered, hreported⟩ := ih hal
      obtain rfl : s = ⟨some a.payload.txFinal, none⟩ := hs
      have herror : (a.rejection <|> none) = a.rejection := by cases a.rejection <;> rfl
      rw [herror]
      constructor
      · intro s' hs' t ht
        rcases List.mem_cons.mp hs' with rfl | hs'
        · exact ⟨a, List.mem_cons_self, Option.some.inj ht, rfl⟩
        · exact (hanswered s' hs').mono (List.subset_cons_self a _) t ht
      · intro a' ha'
        rcases List.mem_cons.mp ha' with rfl | ha'
        · exact ⟨_, List.mem_cons_self, rfl, rfl⟩
        · obtain ⟨s', hs', hrest⟩ := hreported a' ha'
          exact ⟨s', List.mem_cons_of_mem _ hs', hrest⟩

omit [Values V] in
theorem TxOutcomes.reported {txs : List (TargetTx V (Payload V))} {as : List (Attempt V)} {sts : List (TxStatus V)}
    (h : TxOutcomes txs as sts) (hal : ∀ t ∈ txs, List.Forall₂ Aligned t.blobs t.status.blobs) :
    Reported as (sts.flatMap TxStatus.blobs) := by
  induction h with
  | nil => exact ⟨by simp, by simp⟩
  | @cons t txs as bs ss sts hblobs hrest ih =>
    obtain ⟨hanswered, hreported⟩ := hblobs.reported (hal t List.mem_cons_self)
    obtain ⟨hanswered', hreported'⟩ := ih fun t' ht' => hal t' (List.mem_cons_of_mem t ht')
    rw [List.flatMap_cons]
    constructor
    · intro s hs
      rcases List.mem_append.mp hs with hs | hs
      · exact (hanswered s hs).mono (List.subset_append_left as bs)
      · exact (hanswered' s hs).mono (List.subset_append_right as bs)
    · intro a ha
      rcases List.mem_append.mp ha with ha | ha
      · obtain ⟨s, hs, hspec⟩ := hreported a ha
        exact ⟨s, List.mem_append_left _ hs, hspec⟩
      · obtain ⟨s, hs, hspec⟩ := hreported' a ha
        exact ⟨s, List.mem_append_right _ hs, hspec⟩

omit [Values V] in
/-- The rows of a reported slot are those of its attempts. -/
theorem Reported.rows {as : List (Attempt V)} {sts : List (TxStatus V)} (h : Reported as (sts.flatMap TxStatus.blobs))
    (slot : Nat) :
    (∀ r ∈ statusRows slot sts, r.slot = slot ∧ ∀ t, r.txFinal = some t →
      ∃ a ∈ as, a.payload.txFinal = t ∧ (r.error = none ↔ a.rejection = none)) ∧
    ∀ a ∈ as, ∃ r ∈ statusRows slot sts, r.txFinal = some a.payload.txFinal ∧ (r.error = none ↔ a.rejection = none) := by
  constructor
  · intro r hr
    obtain ⟨st, hst, hr⟩ := List.mem_flatMap.mp hr
    obtain ⟨⟨s, i⟩, hs, rfl⟩ := List.mem_map.mp hr
    refine ⟨rfl, fun t ht => ?_⟩
    obtain ⟨a, ha, hfinal, herror⟩ :=
      h.answered s (List.mem_flatMap.mpr ⟨st, hst, List.fst_mem_of_mem_zipIdx hs⟩) t ht
    exact ⟨a, ha, hfinal, by rw [herror, Option.map_eq_none_iff]⟩
  · intro a ha
    obtain ⟨s, hs, hfinal, herror⟩ := h.reported a ha
    obtain ⟨st, hst, hs⟩ := List.mem_flatMap.mp hs
    obtain ⟨i, hi⟩ := List.getElem?_of_mem hs
    have hpair : (s, i) ∈ st.blobs.zipIdx := by
      rw [List.mem_zipIdx_iff_getElem?]
      exact hi
    refine ⟨_, List.mem_flatMap.mpr ⟨st, hst, List.mem_map.mpr ⟨(s, i), hpair, rfl⟩⟩, hfinal, ?_⟩
    rw [← herror, Option.map_eq_none_iff]

/-! ## One commit -/

/-- The target transactions of a slot, with their payloads. -/
def slotTxs (parser : BlobParser V) (slot : Slot) : List (TargetTx V (Payload V)) :=
  parseBlobs parser (fetchTargetBlobs slot.targetBlobTxs)

/-- A slot with an execution block is derived and committed. -/
structure Node.Committed (parser : BlobParser V) (n n' : Node V) (number : Nat) (slot : Slot) (as : List (Attempt V))
    (block : ExecutionBlock) (w w' : WorkingState V) (state : DonState V) (history : Pod2.Array V) : Prop where
  start : startWorking n.containers n.stateLog.donStateAtHead n.window = .ok w
  calls : applyPayloads (n.stateLog.createdIndices (candidatesOf (slotTxs parser slot))) block.number w
    (payloadsOf (slotTxs parser slot)) = .ok (w', as)
  finish : finishState n.stateLog.donStateAtHead block w' = .ok (state, history)
  slots : n'.stateLog.slots = ⟨number, some state⟩ :: n.stateLog.slots
  statuses : ∃ sts, TxOutcomes (slotTxs parser slot) as sts ∧
    n'.stateLog.txStatuses = statusRows number sts ++ n.stateLog.txStatuses

/-- All that a commit can be. -/
theorem Node.commitSlotAt_cases {parser : BlobParser V} {n n' : Node V} {number : Nat} {slot : Slot} {l : List V}
    {as : List (Attempt V)} (hn : n.stateLog.Tally l) (h : n.commitSlotAt parser number slot = .ok (n', as)) :
    (slot.payload = none ∧ as = [] ∧ n'.stateLog.slots = ⟨number, none⟩ :: n.stateLog.slots ∧
      n'.stateLog.txStatuses = n.stateLog.txStatuses) ∨
    ∃ block, slot.payload = some block ∧
      ∃ w w' state history, Node.Committed parser n n' number slot as block w w' state history := by
  unfold commitSlotAt at h
  obtain ⟨⟨p, db, attempts⟩, hderive, h⟩ := bind_eq_ok h
  obtain ⟨log, hcommit, h⟩ := bind_eq_ok h
  cases h
  obtain ⟨hslots, -, hstatuses⟩ := commitSlot_spec hcommit
  have hnumber : p.slot = number := deriveFromContext_slot hderive
  rw [hnumber] at hslots hstatuses
  cases hpayload : slot.payload with
  | none =>
    left
    unfold deriveFromContext at hderive
    simp only [fetchSlotContext, hpayload] at hderive
    cases hderive
    exact ⟨rfl, rfl, hslots, hstatuses⟩
  | some block =>
    right
    have hcontext : (fetchSlotContext slot : SlotContext V) = ⟨some block, fetchTargetBlobs slot.targetBlobTxs⟩ := by
      simp [fetchSlotContext, hpayload]
    rw [hcontext, deriveFromContext_window] at hderive
    obtain ⟨⟨derived, sts, db', attempts'⟩, hslot, hderive⟩ := bind_eq_ok hderive
    cases hderive
    unfold deriveSlot deriveSlotState at hslot
    obtain ⟨w, hstart, hslot⟩ := bind_eq_ok hslot
    obtain ⟨⟨w', sts', as'⟩, happly, hslot⟩ := bind_eq_ok hslot
    obtain ⟨⟨state, history⟩, hfinish, hslot⟩ := bind_eq_ok hslot
    cases hslot
    obtain ⟨w₂, as₂, hcalls, -, -⟩ := applyPayloads_total block.number (hn.index.prefetched _)
      (startWorking_tally hn hstart) created_subset_candidatesOf
    obtain ⟨sts₂, htxs, hout⟩ := applyTxs_outcomes
      (parseBlobs_lined parser (fetchTargetBlobs_lined slot.targetBlobTxs)) hcalls
    cases happly.symm.trans htxs
    exact ⟨block, rfl, w, w', state, history, hstart, hcalls, hfinish, hslots, _, hout, hstatuses⟩

/-- The row of a committed slot: a state of its execution block, if it has one. -/
theorem Node.commitSlotAt_row {parser : BlobParser V} {n n' : Node V} {number : Nat} {slot : Slot} {l : List V}
    {as : List (Attempt V)} (hn : n.stateLog.Tally l) (h : n.commitSlotAt parser number slot = .ok (n', as)) :
    ∃ state : Option (DonState V), n'.stateLog.slots = ⟨number, state⟩ :: n.stateLog.slots ∧
      state.map (fun s => s.metadata.block) = slot.payload := by
  rcases Node.commitSlotAt_cases hn h with ⟨hpayload, -, hslots, -⟩ | ⟨block, hpayload, w, w', state, history, hcommitted⟩
  · exact ⟨none, hslots, hpayload.symm⟩
  · refine ⟨some state, hcommitted.slots, ?_⟩
    rw [hpayload, Option.map_some, (finishState_history hcommitted.finish).2.2.1]

end DigitalObjects.Synchronizer
