import DigitalObjects.Driver.Pipeline
set_option autoImplicit false

/-! Terminal records against the chain, over every interleaving. -/

namespace DigitalObjects.Driver

open Txlib Chain

variable {H : Type} [DecidableEq H]

/-- What is known of a record and the payload stored for it. -/
structure Kept (c : Chain H) (relayer : List (Payload H)) (submit : Option (SubmitStep H))
    (r : TransactionRecord) (p : Payload H) : Prop where
  grounding : r.groundingBlock = p.groundingBlock
  handed : r.isOpen = true → p ∈ relayer → r.needsTxStatus = true
  sending : r.isOpen = true → submit = some (.attempted p) → r.needsTxStatus = true
  rooted : ∀ e ∈ c.entries, e.payload = p → e.error ≠ some .rootNotFound
  expired : r.state = .expired → c.Doomed p

/-- What is known of a status that a settlement read after the head `h`. -/
def Answered (c : Chain H) (h : Int) (t : H) : Option (Entry H) → Prop
  | none => ∀ e ∈ c.entries, e.payload.txFinal = t → h < e.block
  | some e => e ∈ c.entries ∧ e.payload.txFinal = t ∧
    ∀ r, e.error = some r → r ≠ .rootNotFound → c.Doomed e.payload

structure Settlement.Sound (c : Chain H) (x : Settlement H) : Prop where
  unread : x.head = none → ∀ t, x.statuses t = none
  head_le : ∀ h, x.head = some h → h ≤ c.head
  answered : ∀ h, x.head = some h → ∀ t a, x.statuses t = some a → Answered c h t a

structure Inv (s : State H) : Prop where
  valid : s.chain.Valid s.chain.head
  published : ∀ e ∈ s.chain.entries, e.payload ∈ s.relayer
  proved : ∀ p ∈ s.proved, p.groundingBlock ≤ s.chain.head
  stored : ∀ t p, s.payloads t = some p → p.txFinal = t ∧ p.groundingBlock ≤ s.chain.head
  recording : ∀ p, s.recording = some p → s.payloads p.txFinal = some p ∧ s.records p.txFinal = none
  taken : ∀ t p, s.submits t = some (.loaded p) ∨ s.submits t = some (.attempted p) → p.txFinal = t
  kept : ∀ t r p, s.records t = some r → s.payloads t = some p →
    Kept s.chain s.relayer (s.submits t) r p
  landed : ∀ t r, s.records t = some r → r.state = .landed →
    ∃ e ∈ s.chain.entries, e.payload.txFinal = t ∧ e.error = none
  settling : ∀ i x, s.settlements i = some x → x.Sound s.chain

omit [DecidableEq H] in
theorem Inv.init : Inv (State.init : State H) := by
  constructor <;> simp [State.init, Chain.genesis]
  constructor <;> simp

theorem Inv.setSubmit {s : State H} {t : H} {st : Option (SubmitStep H)} (h : Inv s)
    (htaken : ∀ p, st = some (.loaded p) ∨ st = some (.attempted p) → p.txFinal = t)
    (hsend : ∀ p r, st = some (.attempted p) → s.records t = some r → s.payloads t = some p →
      r.isOpen = true → r.needsTxStatus = true) : Inv (s.setSubmit t st) := by
  refine { h with taken := ?_, kept := ?_ }
  · intro t' p hp
    by_cases ht : t' = t
    · subst ht
      simp only [State.setSubmit, Function.update_self] at hp
      exact htaken p hp
    · simp only [State.setSubmit, Function.update_of_ne ht] at hp
      exact h.taken t' p hp
  · intro t' r p hr hp
    have hk := h.kept t' r p hr hp
    by_cases ht : t' = t
    · subst ht
      simp only [State.setSubmit, Function.update_self]
      exact { hk with sending := fun hopen hst => hsend p r hst hr hp hopen }
    · simp only [State.setSubmit, Function.update_of_ne ht]
      exact hk

theorem Inv.dropSubmit {s : State H} (h : Inv s) (t : H) : Inv (s.setSubmit t none) :=
  h.setSubmit (by simp) (by simp)

omit [DecidableEq H] in
theorem Inv.setSettlement {s : State H} {i : Nat} {x : Option (Settlement H)} (h : Inv s)
    (hx : ∀ y, x = some y → y.Sound s.chain) : Inv (s.setSettlement i x) := by
  refine { h with settling := ?_ }
  intro j y hy
  by_cases hj : j = i
  · subst hj
    simp only [State.setSettlement, Function.update_self] at hy
    exact hx y hy
  · simp only [State.setSettlement, Function.update_of_ne hj] at hy
    exact h.settling j y hy

theorem Inv.setRecord {s : State H} {t : H} {r : TransactionRecord} (h : Inv s)
    (hrecording : ∀ p, s.recording = some p → p.txFinal ≠ t)
    (hkept : ∀ p, s.payloads t = some p → Kept s.chain s.relayer (s.submits t) r p)
    (hlanded : r.state = .landed → ∃ e ∈ s.chain.entries, e.payload.txFinal = t ∧ e.error = none) :
    Inv (s.setRecord t r) := by
  refine { h with recording := ?_, kept := ?_, landed := ?_ }
  · intro p hp
    have hrec := h.recording p hp
    simp only [State.setRecord, Function.update_of_ne (hrecording p hp)]
    exact hrec
  · intro t' r' p hr hp
    by_cases ht : t' = t
    · subst ht
      simp only [State.setRecord, Function.update_self, Option.some.injEq] at hr
      subst hr
      exact hkept p hp
    · simp only [State.setRecord, Function.update_of_ne ht] at hr
      exact h.kept t' r' p hr hp
  · intro t' r' hr hst
    by_cases ht : t' = t
    · subst ht
      simp only [State.setRecord, Function.update_self, Option.some.injEq] at hr
      subst hr
      exact hlanded hst
    · simp only [State.setRecord, Function.update_of_ne ht] at hr
      exact h.landed t' r' hr hst

theorem Inv.removeTransaction {s : State H} {t : H} (h : Inv s)
    (hrecording : ∀ p, s.recording = some p → p.txFinal ≠ t) : Inv (s.removeTransaction t) := by
  have hkeep : ∀ {t' : H} {r : TransactionRecord}, (s.removeTransaction t).records t' = some r →
      t' ≠ t ∧ s.records t' = some r := by
    intro t' r hr
    by_cases ht : t' = t
    · subst ht
      simp [State.removeTransaction] at hr
    · simp only [State.removeTransaction, Function.update_of_ne ht] at hr
      exact ⟨ht, hr⟩
  have hpay : ∀ {t' : H} {p : Payload H}, (s.removeTransaction t).payloads t' = some p →
      s.payloads t' = some p := by
    intro t' p hp
    by_cases ht : t' = t
    · subst ht
      simp [State.removeTransaction] at hp
    · simpa only [State.removeTransaction, Function.update_of_ne ht] using hp
  refine { h with stored := ?_, recording := ?_, kept := ?_, landed := ?_ }
  · intro t' p hp
    exact h.stored t' p (hpay hp)
  · intro p hp
    have hne := hrecording p hp
    have hrec := h.recording p hp
    simp only [State.removeTransaction, Function.update_of_ne hne]
    exact hrec
  · intro t' r p hr hp
    exact h.kept t' r p (hkeep hr).2 (hpay hp)
  · intro t' r hr hst
    exact h.landed t' r (hkeep hr).2 hst

/-! ## The chain grows -/

theorem Answered.commit {c : Chain H} {h n : Int} {t : H} {a : Option (Entry H)}
    (ha : Answered c h t a) (hle : h ≤ c.head) (hn : c.head < n) (ps : List (Payload H)) :
    Answered (c.commit n ps) h t a := by
  cases a with
  | none =>
    intro e he ht
    rcases mem_applyAll he with he | ⟨hb, -, -⟩
    · exact ha e he ht
    · omega
  | some e =>
    obtain ⟨he, ht, hdoom⟩ := ha
    refine ⟨entries_applyAll he n ps, ht, fun r hr hne => ?_⟩
    exact (hdoom r hr hne).commit (by omega) ps

theorem Settlement.Sound.commit {c : Chain H} {x : Settlement H} (hx : x.Sound c) {n : Int}
    (hn : c.head < n) (ps : List (Payload H)) : x.Sound (c.commit n ps) := by
  refine ⟨hx.unread, fun h hh => ?_, fun h hh t a ha => ?_⟩
  · have hle := hx.head_le h hh
    have hhead : (c.commit n ps).head = n := rfl
    omega
  · exact (hx.answered h hh t a ha).commit (hx.head_le h hh) hn ps

theorem Inv.block {s : State H} {n : Int} {ps : List (Payload H)} (h : Inv s)
    (hn : s.chain.head < n) (hps : ∀ p ∈ ps, p ∈ s.relayer) :
    Inv { s with chain := s.chain.commit n ps } := by
  have hhead : (s.chain.commit n ps).head = n := rfl
  refine ⟨h.valid.commit (by omega) ps, ?_, ?_, ?_, h.recording, h.taken, ?_, ?_, ?_⟩
  · intro e he
    rcases mem_applyAll he with he | ⟨-, hp, -⟩
    · exact h.published e he
    · exact hps _ hp
  · intro p hp
    have hle := h.proved p hp
    simp only [hhead]
    omega
  · intro t p hp
    obtain ⟨ht, hle⟩ := h.stored t p hp
    refine ⟨ht, ?_⟩
    simp only [hhead]
    omega
  · intro t r p hr hp
    have hk := h.kept t r p hr hp
    refine ⟨hk.grounding, hk.handed, hk.sending, ?_, fun hst => (hk.expired hst).commit (by omega) ps⟩
    intro e he hep herr
    rcases mem_applyAll he with he | ⟨-, -, hroot⟩
    · exact hk.rooted e he hep herr
    · -- The stored payload is grounded at a committed block.
      have hlt := hroot herr
      rw [hep] at hlt
      have hle := (h.stored t p hp).2
      omega
  · intro t r hr hst
    obtain ⟨e, he, ht, herr⟩ := h.landed t r hr hst
    exact ⟨e, entries_applyAll he n ps, ht, herr⟩
  · intro i x hx
    exact (h.settling i x hx).commit hn ps

/-! ## The driver's steps -/

omit [DecidableEq H] in
theorem Inv.prove {s s' : State H} {p : Payload H} (h : Inv s) (hs : s.prove p = some s') :
    Inv s' := by
  unfold State.prove at hs
  split at hs
  · rename_i hle
    cases hs
    refine { h with proved := ?_ }
    intro q hq
    rcases List.mem_cons.mp hq with rfl | hq
    · exact hle
    · exact h.proved q hq
  · cases hs

theorem Inv.recordPayload {s s' : State H} {p : Payload H} (h : Inv s)
    (hs : s.recordPayload p = some s') : Inv s' := by
  unfold State.recordPayload at hs
  split at hs
  · rename_i hguard
    obtain ⟨hrec, hproved, hnone⟩ := hguard
    cases hs
    refine { h with proved := ?_, stored := ?_, recording := ?_, kept := ?_ }
    · intro q hq
      exact h.proved q (List.mem_of_mem_erase hq)
    · intro t q hq
      by_cases ht : t = p.txFinal
      · subst ht
        simp only [Function.update_self, Option.some.injEq] at hq
        subst hq
        exact ⟨rfl, h.proved _ hproved⟩
      · simp only [Function.update_of_ne ht] at hq
        exact h.stored t q hq
    · intro q hq
      cases hq
      exact ⟨Function.update_self _ _ _, hnone⟩
    · intro t r q hr hq
      by_cases ht : t = p.txFinal
      · subst ht
        rw [hnone] at hr
        cases hr
      · simp only [Function.update_of_ne ht] at hq
        exact h.kept t r q hr hq
  · cases hs

omit [DecidableEq H] in
theorem Inv.unlock {s : State H} (h : Inv s) : Inv { s with recording := none } :=
  { h with recording := by simp }

theorem Inv.recordCommit {s s' : State H} (h : Inv s)
    (hfresh : ∀ p ∈ s.recording, p ∉ s.relayer ∧ s.submits p.txFinal ≠ some (.attempted p))
    (hs : s.recordCommit = some s') : Inv s' := by
  unfold State.recordCommit at hs
  cases hrec : s.recording with
  | none => simp [hrec] at hs
  | some p =>
    simp only [hrec, Option.some.injEq] at hs
    subst hs
    obtain ⟨hrelayer, hsubmit⟩ := hfresh p hrec
    obtain ⟨hpay, hnone⟩ := h.recording p hrec
    have hset : Inv ({ s with recording := none }.setRecord p.txFinal
        (.recorded p.groundingBlock)) := by
      refine h.unlock.setRecord (by simp) (fun q hq => ?_) (by simp [TransactionRecord.recorded])
      simp only [hpay, Option.some.injEq] at hq
      subst hq
      refine ⟨rfl, fun _ hin => absurd hin hrelayer, fun _ hst => absurd hst hsubmit, ?_, ?_⟩
      · intro e he hep
        rw [← hep] at hrelayer
        exact absurd (h.published e he) hrelayer
      · simp [TransactionRecord.recorded]
    exact hset

theorem Inv.recordRollback {s s' : State H} (h : Inv s) (hs : s.recordRollback = some s') :
    Inv s' := by
  unfold State.recordRollback at hs
  cases hrec : s.recording with
  | none => simp [hrec] at hs
  | some p =>
    simp only [hrec, Option.some.injEq] at hs
    subst hs
    have hremove : Inv ({ s with recording := none }.removeTransaction p.txFinal) :=
      h.unlock.removeTransaction (by simp)
    exact hremove

theorem Inv.submitStart {s s' : State H} {t : H} (h : Inv s) (hs : s.submitStart t = some s') :
    Inv s' := by
  unfold State.submitStart at hs
  split at hs
  · split at hs
    · cases hs
      exact h.setSubmit (by simp) (by simp)
    · cases hs
  · cases hs

theorem Inv.submitHead {s s' : State H} {t : H} (h : Inv s) (hs : s.submitHead t = some s') :
    Inv s' := by
  unfold State.submitHead at hs
  split at hs
  · split at hs
    · cases hs
      exact h.dropSubmit t
    · cases hs
      exact h.setSubmit (by simp) (by simp)
  · cases hs

theorem Inv.submitPayload {s s' : State H} {t : H} (h : Inv s)
    (hs : s.submitPayload t = some s') : Inv s' := by
  unfold State.submitPayload at hs
  split at hs
  · cases hs
    refine h.setSubmit (fun p hp => ?_) (fun p r hp => ?_)
    · cases hpay : s.payloads t with
      | none => simp [hpay] at hp
      | some q =>
        simp only [hpay, Option.map_some, Option.some.injEq, SubmitStep.loaded.injEq, reduceCtorEq,
          or_false] at hp
        subst hp
        exact (h.stored t q hpay).1
    · cases hpay : s.payloads t <;> simp [hpay] at hp
  · cases hs

/-- The record that `submit` marks needs a status from then on. -/
theorem needsTxStatus_attempted {r : TransactionRecord} (h : r.isOpen = true)
    (ha : r.submitAttempted = true) : r.needsTxStatus = true := by
  simp [TransactionRecord.needsTxStatus, h, ha]

theorem Inv.submitMark {s s' : State H} {t : H} (h : Inv s) (hs : s.submitMark t = some s') :
    Inv s' := by
  unfold State.submitMark at hs
  split at hs
  · rename_i p hrec hsub
    split at hs
    · cases hs
      exact h.dropSubmit t
    · rename_i r hr
      split at hs
      · rename_i hstate
        cases hs
        have hset : Inv (s.setRecord t { r with submitAttempted := true }) := by
          refine h.setRecord (by simp [hrec]) (fun q hq => ?_) (by simp [hstate])
          have hk := h.kept t r q hr hq
          exact ⟨hk.grounding, fun ho _ => needsTxStatus_attempted ho rfl,
            fun ho _ => needsTxStatus_attempted ho rfl, hk.rooted, hk.expired⟩
        refine hset.setSubmit (fun q hq => ?_) (fun q r' hq hr' hpay hopen => ?_)
        · simp only [reduceCtorEq, Option.some.injEq, SubmitStep.attempted.injEq, false_or] at hq
          subst hq
          exact h.taken t p (.inl hsub)
        · simp only [State.setRecord, Function.update_self, Option.some.injEq] at hr'
          subst hr'
          exact needsTxStatus_attempted hopen rfl
      · cases hs
        exact h.dropSubmit t
  · cases hs

omit [DecidableEq H] in
/-- Handing over the payload of a marked submission. -/
theorem Inv.hand {s : State H} {t : H} {p : Payload H} (h : Inv s)
    (hsub : s.submits t = some (.attempted p)) : Inv { s with relayer := p :: s.relayer } := by
  have htx := h.taken t p (.inr hsub)
  refine { h with published := fun e he => List.mem_cons_of_mem _ (h.published e he), kept := ?_ }
  intro t' r q hr hq
  have hk := h.kept t' r q hr hq
  refine { hk with handed := ?_ }
  intro hopen hin
  rcases List.mem_cons.mp hin with rfl | hin
  · have ht : t' = t := (h.stored t' q hq).1.symm.trans htx
    subst ht
    exact hk.sending hopen hsub
  · exact hk.handed hopen hin

theorem Inv.submitSend {s s' : State H} {t : H} {result : RelayerResult} (h : Inv s)
    (hs : s.submitSend t result = some s') : Inv s' := by
  unfold State.submitSend at hs
  split at hs
  · rename_i p hsub
    cases result with
    | accepted =>
      cases hs
      exact (h.hand hsub).setSubmit (by simp) (by simp)
    | responseLost =>
      cases hs
      exact (h.hand hsub).dropSubmit t
    | unavailable =>
      cases hs
      exact h.dropSubmit t
  · cases hs

theorem Inv.submitFinish {s s' : State H} {t : H} (h : Inv s) (hs : s.submitFinish t = some s') :
    Inv s' := by
  unfold State.submitFinish at hs
  split at hs
  · rename_i hrec hsub
    split at hs
    · cases hs
      exact h.dropSubmit t
    · rename_i r hr
      split at hs
      · cases hs
        have hneeds : TransactionRecord.needsTxStatus { r with state := .submitted } = true := by
          simp [TransactionRecord.needsTxStatus, TransactionRecord.isOpen,
            TransactionState.isTerminal]
        have hset : Inv (s.setRecord t { r with state := .submitted }) := by
          refine h.setRecord (by simp [hrec]) (fun q hq => ?_) (by simp)
          have hk := h.kept t r q hr hq
          exact ⟨hk.grounding, fun _ _ => hneeds, fun _ _ => hneeds, hk.rooted, by simp⟩
        exact hset.dropSubmit t
      · cases hs
        exact h.dropSubmit t
  · cases hs

theorem Inv.delete {s s' : State H} {t : H} (h : Inv s) (hs : s.delete t = some s') : Inv s' := by
  unfold State.delete at hs
  split at hs
  · rename_i hrec hr
    split at hs
    · cases hs
      exact h.removeTransaction (by simp [hrec])
    · cases hs
  · cases hs

theorem Inv.prune {s s' : State H} {t : H} (h : Inv s) (hs : s.prune t = some s') : Inv s' := by
  unfold State.prune at hs
  split at hs
  · rename_i hrec hr
    split at hs
    · cases hs
      exact h.removeTransaction (by simp [hrec])
    · cases hs
  · cases hs

omit [DecidableEq H] in
theorem Inv.crash {s s' : State H} (h : Inv s) (hs : s.crash = some s') : Inv s' := by
  cases hs
  refine { h with
    proved := by simp
    recording := by simp
    taken := by simp
    kept := ?_
    settling := by simp }
  intro t r p hr hp
  exact { h.kept t r p hr hp with sending := by simp }

theorem Inv.others {s s' : State H} {p : Payload H} (h : Inv s) (hs : s.others p = some s') :
    Inv s' := by
  unfold State.others at hs
  split at hs
  · cases hs
  · rename_i hforeign
    cases hs
    refine { h with published := fun e he => List.mem_cons_of_mem _ (h.published e he), kept := ?_ }
    intro t r q hr hq
    have hk := h.kept t r q hr hq
    refine { hk with handed := ?_ }
    intro hopen hin
    rcases List.mem_cons.mp hin with rfl | hin
    · rw [← (h.stored t q hq).1] at hq
      exact absurd hq hforeign
    · exact hk.handed hopen hin

omit [DecidableEq H] in
theorem Settlement.start_sound (c : Chain H) : (Settlement.start : Settlement H).Sound c := by
  constructor <;> simp [Settlement.start]

omit [DecidableEq H] in
theorem Inv.settleStart {s s' : State H} {i : Nat} (h : Inv s) (hs : s.settleStart i = some s') :
    Inv s' := by
  unfold State.settleStart at hs
  split at hs
  · cases hs
    refine h.setSettlement (fun y hy => ?_)
    cases hy
    exact Settlement.start_sound s.chain
  · cases hs

theorem Inv.settleLoad {s s' : State H} {i : Nat} {t : H} (h : Inv s)
    (hs : s.settleLoad i t = some s') : Inv s' := by
  unfold State.settleLoad at hs
  split at hs
  · rename_i x r hx hr
    split at hs
    · cases hs
      refine h.setSettlement (fun y hy => ?_)
      cases hy
      have hsound := h.settling i x hx
      exact ⟨hsound.unread, hsound.head_le, hsound.answered⟩
    · cases hs
  · cases hs

omit [DecidableEq H] in
theorem Inv.settleHead {s s' : State H} {i : Nat} (h : Inv s) (hs : s.settleHead i = some s') :
    Inv s' := by
  unfold State.settleHead at hs
  split at hs
  · rename_i x hx
    split at hs
    · rename_i hnone
      cases hs
      refine h.setSettlement (fun y hy => ?_)
      cases hy
      -- No status is read before the head.
      have hunread := (h.settling i x hx).unread hnone
      refine ⟨by simp, by simp, fun g _ t a ha => ?_⟩
      rw [hunread t] at ha
      cases ha
    · cases hs
  · cases hs

theorem Inv.answered_status {s : State H} (h : Inv s) (g : Int) (t : H) :
    Answered s.chain g t (s.chain.status t) := by
  cases hst : s.chain.status t with
  | none =>
    intro e he ht
    exact absurd ht (status_none hst e he)
  | some e =>
    obtain ⟨he, ht⟩ := status_mem hst
    refine ⟨he, ht, fun r hr hne => ⟨fun happ => ?_, h.valid.lasting e he r hr hne⟩⟩
    obtain ⟨f, hf, hp, herr⟩ := mem_applied.mp happ
    have hrej := status_rejected hst (by simp [hr]) f hf (by rw [hp, ht])
    exact hrej herr

theorem Inv.settleStatus {s s' : State H} {i : Nat} {t : H} (h : Inv s)
    (hs : s.settleStatus i t = some s') : Inv s' := by
  unfold State.settleStatus at hs
  split at hs
  · rename_i x hx
    split at hs
    · rename_i hguard
      cases hs
      have hsound := h.settling i x hx
      refine h.setSettlement (fun y hy => ?_)
      cases hy
      refine ⟨fun hnone => absurd hnone hguard.1, hsound.head_le, fun g hg t' a ha => ?_⟩
      by_cases ht : t' = t
      · subst ht
        simp only [Function.update_self, Option.some.injEq] at ha
        subst ha
        exact h.answered_status g t'
      · simp only [Function.update_of_ne ht] at ha
        exact hsound.answered g hg t' a ha
    · cases hs
  · cases hs

omit [DecidableEq H] in
theorem Inv.settleEnd {s s' : State H} {i : Nat} (h : Inv s) (hs : s.settleEnd i = some s') :
    Inv s' := by
  cases hs
  exact h.setSettlement (by simp)

/-! ## The decision of a settlement -/

omit [DecidableEq H] in
/-- A payload that can only come after the block at which its grounding aged out. -/
theorem Inv.doomed_of_aged {s : State H} {g : Int} {p : Payload H} (h : Inv s)
    (hle : g ≤ s.chain.head) (haged : groundingAgedOut g p.groundingBlock = true)
    (hlater : ∀ e ∈ s.chain.entries, e.payload = p → g < e.block) : s.chain.Doomed p := by
  refine ⟨fun happ => ?_, .inl (groundingAgedOut_mono hle haged)⟩
  obtain ⟨e, he, hp, herr⟩ := mem_applied.mp happ
  have hyoung := h.valid.young e he herr
  rw [hp] at hyoung
  have hlt := hlater e he hp
  have hold := groundingAgedOut_mono (by omega : g ≤ e.block) haged
  rw [hyoung] at hold
  cases hold

omit [DecidableEq H] in
theorem settleRecord_cases (head : Int) (status : Option (Entry H)) (r : TransactionRecord) :
    settleRecord head status r = r ∨
    (∃ e, status = some e ∧ e.error = none ∧
      settleRecord head status r = { r with state := .landed }) ∨
    (∃ e error, status = some e ∧ e.error = some error ∧ settleRecord head status r =
      { r with state := .expired, reason := some (.rejected e.block error) }) ∨
    (status = none ∧ groundingAgedOut head r.groundingBlock = true ∧ settleRecord head status r =
      { r with state := .expired, reason := some (.agedOut r.groundingBlock head) }) := by
  unfold settleRecord
  cases status with
  | none =>
    by_cases haged : groundingAgedOut head r.groundingBlock = true
    · simp [haged]
    · simp [haged]
  | some e =>
    cases herr : e.error with
    | none => simp [herr]
    | some error => simp [herr]

omit [DecidableEq H] in
/-- A record that leaves the open states keeps what is known of it. -/
theorem Kept.close {c : Chain H} {relayer : List (Payload H)} {submit : Option (SubmitStep H)}
    {r r' : TransactionRecord} {p : Payload H} (h : Kept c relayer submit r p)
    (hg : r'.groundingBlock = r.groundingBlock) (hclosed : r'.isOpen = false)
    (hexp : r'.state = .expired → c.Doomed p) : Kept c relayer submit r' p :=
  ⟨hg.trans h.grounding, by simp [hclosed], by simp [hclosed], h.rooted, hexp⟩

theorem Inv.settleApply {s s' : State H} {i : Nat} {t : H} (h : Inv s)
    (hown : ∀ x ∈ s.settlements i, ∀ a ∈ x.statuses t, ∀ e ∈ a, e.error ≠ none →
      ∀ p ∈ s.payloads t, e.payload = p)
    (hs : s.settleApply i t = some s') : Inv s' := by
  unfold State.settleApply at hs
  split at hs
  · rename_i x r hrec hx hr
    split at hs
    · cases hs
    · rename_i g hg
      split at hs
      · rename_i hguard
        split at hs
        · cases hs
          exact h
        · rename_i hread
          cases hs
          have hsound := h.settling i x hx
          have hfree : ∀ p, s.recording = some p → p.txFinal ≠ t := by simp [hrec]
          rcases settleRecord_cases g (x.statuses t).join r with
            heq | ⟨e, hst, herr, heq⟩ | ⟨e, error, hst, herr, heq⟩ | ⟨hst, haged, heq⟩
          · rw [heq]
            exact h.setRecord hfree (fun p hp => h.kept t r p hr hp) (h.landed t r hr)
          · rw [heq]
            obtain ⟨he, ht, -⟩ := hsound.answered g hg t _ (Option.join_eq_some_iff.mp hst)
            refine h.setRecord hfree (fun p hp => ?_) (fun _ => ⟨e, he, ht, herr⟩)
            exact (h.kept t r p hr hp).close rfl rfl (by simp)
          · rw [heq]
            have hst' := Option.join_eq_some_iff.mp hst
            obtain ⟨he, ht, hdoom⟩ := hsound.answered g hg t _ hst'
            refine h.setRecord hfree (fun p hp => ?_) (by simp)
            have hk := h.kept t r p hr hp
            have hep := hown x hx _ hst' e rfl (by simp [herr]) p hp
            have hroot := hk.rooted e he hep
            refine hk.close rfl rfl (fun _ => ?_)
            rw [← hep]
            exact hdoom error herr (by simpa [herr] using hroot)
          · rw [heq]
            refine h.setRecord hfree (fun p hp => ?_) (by simp)
            have hk := h.kept t r p hr hp
            rw [hk.grounding] at haged
            refine hk.close rfl rfl (fun _ => ?_)
            refine h.doomed_of_aged (hsound.head_le g hg) haged (fun f hf hfp => ?_)
            -- Either the status was read, or the payload was never handed over.
            cases hq : x.statuses t with
            | some a =>
              rw [hq, Option.join_some] at hst
              subst hst
              exact hsound.answered g hg t none hq f hf (by rw [hfp, (h.stored t p hp).1])
            | none =>
              have hin := h.published f hf
              rw [hfp] at hin
              exact absurd ⟨hk.handed hguard.2 hin, hq⟩ hread
      · cases hs
  · cases hs

/-! ## Whole runs -/

/-- The steps that keep terminal records right: `record` commits a payload that was never
handed over nor is about to be, and a rejected status expires the record of its own payload. -/
def Clean (s : State H) : Action H → Prop
  | .recordCommit => ∀ p ∈ s.recording, p ∉ s.relayer ∧ s.submits p.txFinal ≠ some (.attempted p)
  | .settleApply i t => ∀ x ∈ s.settlements i, ∀ a ∈ x.statuses t, ∀ e ∈ a, e.error ≠ none →
    ∀ p ∈ s.payloads t, e.payload = p
  | _ => True

instance (s : State H) : (a : Action H) → Decidable (Clean s a)
  | .recordCommit => inferInstanceAs (Decidable (∀ p ∈ s.recording, _))
  | .settleApply i t => inferInstanceAs (Decidable (∀ x ∈ s.settlements i,
      ∀ a ∈ x.statuses t, ∀ e ∈ a, e.error ≠ none → ∀ p ∈ s.payloads t, e.payload = p))
  | .prove _ | .recordPayload _ | .recordRollback | .submitStart _ | .submitHead _
  | .submitPayload _ | .submitMark _ | .submitSend _ _ | .submitFinish _ | .delete _
  | .settleStart _ | .settleLoad _ _ | .settleHead _ | .settleStatus _ _ | .settleEnd _
  | .prune _ | .crash | .others _ | .block _ _ => .isTrue trivial

def CleanRun (s : State H) : List (Action H) → Prop
  | [] => True
  | a :: as => Clean s a ∧ ∀ s' ∈ s.step a, CleanRun s' as

instance decidableCleanRun : (as : List (Action H)) → (s : State H) → Decidable (CleanRun s as)
  | [], _ => .isTrue trivial
  | a :: as, s =>
    have : ∀ s', Decidable (CleanRun s' as) := decidableCleanRun as
    inferInstanceAs (Decidable (Clean s a ∧ ∀ s' ∈ s.step a, CleanRun s' as))

theorem Inv.step {s s' : State H} {a : Action H} (h : Inv s) (hclean : Clean s a)
    (hs : s.step a = some s') : Inv s' := by
  cases a with
  | prove p => exact h.prove hs
  | recordPayload p => exact h.recordPayload hs
  | recordCommit => exact h.recordCommit hclean hs
  | recordRollback => exact h.recordRollback hs
  | submitStart t => exact h.submitStart hs
  | submitHead t => exact h.submitHead hs
  | submitPayload t => exact h.submitPayload hs
  | submitMark t => exact h.submitMark hs
  | submitSend t result => exact h.submitSend hs
  | submitFinish t => exact h.submitFinish hs
  | delete t => exact h.delete hs
  | settleStart i => exact h.settleStart hs
  | settleLoad i t => exact h.settleLoad hs
  | settleHead i => exact h.settleHead hs
  | settleStatus i t => exact h.settleStatus hs
  | settleApply i t => exact h.settleApply hclean hs
  | settleEnd i => exact h.settleEnd hs
  | prune t => exact h.prune hs
  | crash => exact h.crash hs
  | others p => exact h.others hs
  | block n ps =>
    simp only [State.step, State.block] at hs
    split at hs
    · rename_i hguard
      cases hs
      exact h.block hguard.1 hguard.2
    · cases hs

theorem Inv.run {s s' : State H} {as : List (Action H)} (h : Inv s) (hclean : CleanRun s as)
    (hrun : s.run as = some s') : Inv s' := by
  induction as generalizing s with
  | nil =>
    cases hrun
    exact h
  | cons a as ih =>
    obtain ⟨s₁, hs, hrun⟩ := Option.bind_eq_some_iff.mp hrun
    exact ih (h.step hclean.1 hs) (hclean.2 s₁ hs) hrun

/-- Only a block changes the chain. -/
theorem chain_step {s s' : State H} {a : Action H} (hs : s.step a = some s') :
    s'.chain = s.chain ∨ ∃ n ps, s.chain.head < n ∧ s'.chain = s.chain.commit n ps := by
  cases a with
  | block n ps =>
    simp only [State.step, State.block] at hs
    split at hs
    · rename_i hguard
      cases hs
      exact .inr ⟨n, ps, hguard.1, rfl⟩
    · cases hs
  | settleEnd i =>
    cases hs
    exact .inl rfl
  | crash =>
    cases hs
    exact .inl rfl
  | _ =>
    left
    simp only [State.step, State.prove, State.recordPayload, State.recordCommit,
      State.recordRollback, State.submitStart, State.submitHead, State.submitPayload,
      State.submitMark, State.submitSend, State.submitFinish, State.delete, State.settleStart,
      State.settleLoad, State.settleHead, State.settleStatus, State.settleApply, State.prune,
      State.others] at hs
    repeat' split at hs
    all_goals cases hs
    all_goals rfl

theorem doomed_run {s s' : State H} {p : Payload H} {as : List (Action H)}
    (h : s.chain.Doomed p) (hrun : s.run as = some s') : s'.chain.Doomed p := by
  induction as generalizing s with
  | nil =>
    cases hrun
    exact h
  | cons a as ih =>
    obtain ⟨s₁, hs, hrun⟩ := Option.bind_eq_some_iff.mp hrun
    refine ih ?_ hrun
    rcases chain_step hs with heq | ⟨n, ps, hn, heq⟩
    · rw [heq]
      exact h
    · rw [heq]
      exact h.commit (by omega) ps

/-- After any clean run, landed records are on the chain, and the payload of an expired
record is not and never will be, whatever happens next. -/
theorem State.terminal_records_agree (as : List (Action H)) (s : State H)
    (hclean : CleanRun State.init as) (hrun : State.init.run as = some s) :
    (∀ t r, s.records t = some r → r.state = .landed →
      ∃ e ∈ s.chain.entries, e.payload.txFinal = t ∧ e.error = none) ∧
    (∀ t r p, s.records t = some r → r.state = .expired → s.payloads t = some p →
      ∀ bs s', s.run bs = some s' → ¬ s'.chain.Applied p) := by
  have h : Inv s := Inv.init.run hclean hrun
  refine ⟨h.landed, ?_⟩
  intro t r p hr hst hp bs s' hlater
  have hdoom := (h.kept t r p hr hp).expired hst
  exact (doomed_run hdoom hlater).unapplied

/-- One transaction proved at two grounding blocks. The rejection of the first proof, which
aged out, expires the record of the second. -/
def reproved : Payload Nat × Payload Nat :=
  (⟨7, 0, [1], [], 0⟩, ⟨7, 60000, [1], [], 1⟩)

def submitted (p : Payload Nat) : List (Action Nat) :=
  [.prove p, .recordPayload p, .recordCommit, .submitStart p.txFinal, .submitHead p.txFinal,
   .submitPayload p.txFinal, .submitMark p.txFinal, .submitSend p.txFinal .accepted,
   .submitFinish p.txFinal]

def settled (i t : Nat) : List (Action Nat) :=
  [.settleStart i, .settleLoad i t, .settleHead i, .settleStatus i t, .settleApply i t,
   .settleEnd i]

def staleRejection : List (Action Nat) :=
  submitted reproved.1 ++ .block 60000 [] :: settled 0 7 ++ .prune 7 :: submitted reproved.2 ++
    .block 60001 [reproved.1] :: settled 1 7

/-- An expired record whose stored payload a later block applies. -/
theorem State.stale_rejection_expires_live_payload : ∃ s s' : State Nat,
    State.init.run staleRejection = some s ∧
    s.records 7 = some ⟨.expired, 60000, true, some (.rejected 60001 .tooOld)⟩ ∧
    s.payloads 7 = some reproved.2 ∧ s.run [.block 60002 [reproved.2]] = some s' ∧
    s'.chain.Applied reproved.2 := by
  refine ⟨_, _, rfl, ?_, ?_, rfl, ?_⟩ <;> decide

def cleanRejection : List (Action Nat) :=
  submitted reproved.1 ++ .block 60001 [reproved.1] :: settled 0 7

theorem State.terminal_records_agree_own_rejection : ∃ s : State Nat,
    State.init.run cleanRejection = some s ∧
    s.records 7 = some ⟨.expired, 0, true, some (.rejected 60001 .tooOld)⟩ ∧
    ∀ bs s', s.run bs = some s' → ¬ s'.chain.Applied reproved.1 := by
  refine ⟨_, rfl, by decide, ?_⟩
  exact (State.terminal_records_agree cleanRejection _ (by decide) rfl).2 7 _ _ rfl rfl rfl

end DigitalObjects.Driver
