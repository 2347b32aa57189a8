import DigitalObjects.Synchronizer.CreatedIndex
set_option autoImplicit false

/-!
The derivation of one slot, for payloads of any content. A payload is applied as a whole or
not at all, none of them stops the derivation, and the derived state is that of the accepted
payloads alone, however they are spread over transactions.
-/

namespace DigitalObjects.Synchronizer

open Pod2 Txlib

variable {V : Type} [Values V]

/-! ## One payload -/

/-- What `apply_payload` demands of a payload, read off the containers. -/
structure Acceptable (w : WorkingState V) (p : Payload V) (blockNumber : Nat) : Prop where
  grounded : ∃ block, w.recentStateRoots.lookup p.stateRoot = some block ∧
    groundingAgedOut blockNumber block = false
  created_nodup : p.created.Nodup
  fresh : ∀ x ∈ p.created, ∀ i, w.created.lookup i ≠ some x
  nullifiers_nodup : p.nullifiers.Nodup
  unspent : ∀ n ∈ p.nullifiers, n ∉ w.nullifiers

/-- The working state after an accepted payload. -/
structure Applied (w : WorkingState V) (p : Payload V) (w' : WorkingState V) : Prop where
  created : ∃ l, Represents w.created l ∧ Represents w'.created (l ++ p.created)
  createdCount : w'.createdCount = w.createdCount + p.created.length
  createdAdded : ∀ x i, (x, i) ∈ w'.createdAdded ↔ (x, i) ∈ w.createdAdded ∨
    (w.createdCount ≤ i ∧ p.created[i - w.createdCount]? = some x)
  nullifiers : w'.nullifiers = w.nullifiers ∪ p.nullifiers.toFinset
  nullifierCount : w'.nullifierCount = w.nullifierCount + p.nullifiers.length
  nextStateHistory : w'.nextStateHistory = w.nextStateHistory
  recentStateRoots : w'.recentStateRoots = w.recentStateRoots

theorem applyPayload_rejected {w w' : WorkingState V} {p : Payload V} {prior : List (V × Nat)}
    {blockNumber : Nat} {reason : String}
    (h : applyPayload w p prior blockNumber = .ok (some reason, w')) : w' = w := by
  unfold applyPayload at h
  split at h
  · cases h
    rfl
  split at h
  · cases h
    rfl
  split at h
  · cases h
    rfl
  split at h
  · cases h
    rfl
  obtain ⟨w₁, -, h⟩ := bind_eq_ok h
  obtain ⟨w₂, -, h⟩ := bind_eq_ok h
  cases h

omit [Values V] in
/-- An index past the committed list is past the list of the slot, or among its additions. -/
theorem mem_added_append {base l objs : List V} (hbase : base <+: l) (x : V) (i : Nat) :
    base.length ≤ i ∧ (l ++ objs)[i]? = some x ↔
      (base.length ≤ i ∧ l[i]? = some x) ∨ (l.length ≤ i ∧ objs[i - l.length]? = some x) := by
  have hlen := hbase.length_le
  by_cases hi : i < l.length
  · rw [List.getElem?_append_left hi]
    simp [Nat.not_le_of_lt hi]
  · have hle : l.length ≤ i := Nat.le_of_not_lt hi
    rw [List.getElem?_append_right hle, List.getElem?_eq_none hle]
    simp [hle, Nat.le_trans hlen hle]

/-- The one specification of `apply_payload`, when the creation check is exact. -/
theorem applyPayload_exact {w : WorkingState V} {base l : List V} {prior : List (V × Nat)}
    {p : Payload V} (blockNumber : Nat) (hw : w.Tally base l)
    (hprior : ∀ x ∈ p.created, (alreadyCreated w prior x = true ↔ x ∈ l)) :
    ∃ rejection w', applyPayload w p prior blockNumber = .ok (rejection, w') ∧
      (rejection = none ↔ Acceptable w p blockNumber) ∧
      (rejection = none → Applied w p w' ∧ w'.Tally base (l ++ p.created)) ∧
      (rejection ≠ none → w' = w) := by
  have hmem : ∀ x, (∀ i, w.created.lookup i ≠ some x) ↔ x ∉ l := by
    intro x
    rw [List.mem_iff_getElem?]
    simp [hw.represents _]
  -- A failed check and the condition that it breaks.
  have hreject : (Acceptable w p blockNumber → False) →
      (∃ reason, applyPayload w p prior blockNumber = .ok (some reason, w)) →
      ∃ rejection w', applyPayload w p prior blockNumber = .ok (rejection, w') ∧
        (rejection = none ↔ Acceptable w p blockNumber) ∧
        (rejection = none → Applied w p w' ∧ w'.Tally base (l ++ p.created)) ∧
        (rejection ≠ none → w' = w) := by
    rintro hnot ⟨reason, heq⟩
    refine ⟨some reason, w, heq, ?_, ?_, fun _ => rfl⟩
    · simp only [reduceCtorEq, false_iff]
      exact hnot
    · intro h
      cases h
  cases hroot : w.recentStateRoots.lookup p.stateRoot with
  | none =>
    refine hreject ?_ (by simp only [applyPayload, hroot]; exact ⟨_, rfl⟩)
    rintro ⟨⟨block, hblock, -⟩, -, -, -, -⟩
    rw [hroot] at hblock
    cases hblock
  | some block =>
    by_cases hage : groundingAgedOut blockNumber block = true
    · refine hreject ?_ (by simp only [applyPayload, hroot, hage, if_true]; exact ⟨_, rfl⟩)
      rintro ⟨⟨block', hblock, hyoung⟩, -, -, -, -⟩
      rw [hroot] at hblock
      cases hblock
      rw [hage] at hyoung
      cases hyoung
    have hyoung : groundingAgedOut blockNumber block = false := by simpa using hage
    cases hcc : createdCollision w prior p with
    | some reason =>
      refine hreject ?_ ⟨reason, by simp [applyPayload, hroot, hyoung, hcc]⟩
      rintro ⟨-, hnodup, hfresh, -, -⟩
      have hnone : createdCollision w prior p = none := by
        refine firstCollision_eq_none.mpr ⟨hnodup, by simp, fun x hx => ?_⟩
        have hout := (hmem x).mp (hfresh x hx)
        rw [← hprior x hx] at hout
        simpa using hout
      rw [hcc] at hnone
      cases hnone
    | none =>
      obtain ⟨hcnd, -, hcabs⟩ := firstCollision_eq_none.mp hcc
      have hfresh : ∀ x ∈ p.created, x ∉ l := by
        intro x hx hxl
        have hyes := (hprior x hx).mpr hxl
        rw [hcabs x hx] at hyes
        cases hyes
      cases hnc : nullifierCollision w p with
      | some reason =>
        refine hreject ?_ ⟨reason, by simp [applyPayload, hroot, hyoung, hcc, hnc]⟩
        rintro ⟨-, -, -, hnodup, hunspent⟩
        have hnone : nullifierCollision w p = none :=
          firstCollision_eq_none.mpr ⟨hnodup, by simp, fun x hx => by simpa using hunspent x hx⟩
        rw [hnc] at hnone
        cases hnone
      | none =>
        obtain ⟨hnnd, -, hnabs⟩ := firstCollision_eq_none.mp hnc
        have hunspent : ∀ n ∈ p.nullifiers, n ∉ w.nullifiers := by
          intro n hn
          simpa using hnabs n hn
        obtain ⟨w₁, h₁, hrep, hcount, hadded, hnull₁, hroots₁, hhist₁, hncount₁⟩ :=
          appendCreated_spec p.created hw.represents hw.count hw.extends_base hw.added
        obtain ⟨w₂, h₂, hnull₂, hcre₂, hcnt₂, hadd₂, hroots₂, hhist₂, hncount₂⟩ :=
          insertNullifiers_spec (w := w₁) hnnd (by rw [hnull₁]; exact hunspent)
        have hok : applyPayload w p prior blockNumber = .ok (none, w₂) := by
          simp [applyPayload, hroot, hyoung, hcc, hnc, h₁, h₂, bind, Except.bind]
        have hnodup : (l ++ p.created).Nodup :=
          List.nodup_append.mpr ⟨hw.nodup, hcnd, fun x hx y hy hxy => hfresh y hy (hxy ▸ hx)⟩
        refine ⟨none, w₂, hok, ?_, fun _ => ⟨⟨⟨l, hw.represents, ?_⟩, ?_, ?_, ?_, ?_, ?_, ?_⟩, ?_⟩, ?_⟩
        · simp only [true_iff]
          exact ⟨⟨block, hroot, hyoung⟩, hcnd, fun x hx => (hmem x).mpr (hfresh x hx), hnnd, hunspent⟩
        · rw [hcre₂]
          exact hrep
        · rw [hcnt₂, hcount, hw.count, List.length_append]
        · intro x i
          rw [hadd₂, hadded, mem_added_append hw.extends_base, hw.added, hw.count]
        · rw [hnull₂, hnull₁]
        · rw [hncount₂, hncount₁]
        · rw [hhist₂, hhist₁]
        · rw [hroots₂, hroots₁]
        · refine ⟨by rw [hcre₂]; exact hrep, by rw [hcnt₂]; exact hcount, hnodup, ?_, ?_⟩
          · exact hw.extends_base.trans (List.prefix_append _ _)
          · rw [hadd₂]
            exact hadded
        · intro h
          exact absurd rfl h

/-- Where two lists of positions answer the creation check alike, so does `apply_payload`. -/
theorem firstCollision_congr {d c : String} {present present' : V → Bool} {seen vs : List V}
    (h : ∀ v ∈ vs, present v = present' v) :
    firstCollision d c present seen vs = firstCollision d c present' seen vs := by
  induction vs generalizing seen with
  | nil => rfl
  | cons v vs ih =>
    simp only [firstCollision, h v List.mem_cons_self]
    rw [ih fun u hu => h u (List.mem_cons_of_mem v hu)]

theorem applyPayload_congr {w : WorkingState V} {p : Payload V} {prior prior' : List (V × Nat)}
    (blockNumber : Nat) (h : ∀ x ∈ p.created, alreadyCreated w prior x = alreadyCreated w prior' x) :
    applyPayload w p prior blockNumber = applyPayload w p prior' blockNumber := by
  have hcollision : createdCollision w prior p = createdCollision w prior' p := firstCollision_congr h
  unfold applyPayload
  rw [hcollision]

/-! ## The payloads of a slot -/

/-- The calls of `apply_payload` for a list of payloads, without transactions and statuses. -/
def applyPayloads (priorIndices : List (V × Nat)) (blockNumber : Nat) :
    WorkingState V → List (Payload V) → Except Fault (WorkingState V × List (Attempt V))
  | w, [] => .ok (w, [])
  | w, p :: ps => do
    let (rejection, w₁) ← applyPayload w p priorIndices blockNumber
    let (w', attempts) ← applyPayloads priorIndices blockNumber w₁ ps
    .ok (w', ⟨w, p, rejection⟩ :: attempts)

/-- The payloads that were applied. -/
def accepted (as : List (Attempt V)) : List (Payload V) :=
  (as.filter fun a => a.rejection = none).map Attempt.payload

/-- The positions answer the creation check for the candidates exactly, in every working state
over the committed list. -/
def Prefetched (prior : List (V × Nat)) (base candidates : List V) : Prop :=
  ∀ (w : WorkingState V) (l : List V), w.Tally base l → ∀ x ∈ candidates,
    (alreadyCreated w prior x = true ↔ x ∈ l)

theorem StateLogDb.Indexes.prefetched {log : StateLogDb V} {base : List V} (h : log.Indexes base)
    (candidates : List V) : Prefetched (log.createdIndices candidates) base candidates :=
  fun _ _ hw _ hx => alreadyCreated_iff hw h hx

variable {prior prior' : List (V × Nat)} {base candidates candidates' l : List V} {blockNumber : Nat}
  {w w' : WorkingState V} {ps : List (Payload V)} {as : List (Attempt V)}

/-- No payload stops the derivation; what it leaves depends on the payloads only. -/
theorem applyPayloads_total (blockNumber : Nat) (hprior : Prefetched prior base candidates)
    (hw : w.Tally base l)
    (hps : ∀ p ∈ ps, p.created ⊆ candidates) :
    ∃ w' as, applyPayloads prior blockNumber w ps = .ok (w', as) ∧ as.map Attempt.payload = ps ∧
      w'.Tally base (l ++ createdBy as) := by
  induction ps generalizing w l with
  | nil => exact ⟨w, [], rfl, rfl, by simpa [createdBy] using hw⟩
  | cons p ps ih =>
    have hp : p.created ⊆ candidates := hps p List.mem_cons_self
    obtain ⟨rejection, w₁, hstep, -, happly, hkeep⟩ :=
      applyPayload_exact blockNumber hw fun x hx => hprior w l hw x (hp hx)
    have hw₁ : w₁.Tally base (l ++ Attempt.created ⟨w, p, rejection⟩) := by
      cases rejection with
      | none => simpa [Attempt.created] using (happly rfl).2
      | some reason => simpa [Attempt.created, hkeep (by simp)] using hw
    obtain ⟨w', as, hrest, hmap, hw'⟩ := ih hw₁ fun q hq => hps q (List.mem_cons_of_mem p hq)
    refine ⟨w', ⟨w, p, rejection⟩ :: as, ?_, by simp [hmap], ?_⟩
    · simp only [applyPayloads, hstep, hrest, bind, Except.bind]
    · simpa [createdBy, List.append_assoc] using hw'

/-- A second prefetch that covers the payloads changes no answer. -/
theorem applyPayloads_prefetch (hprior : Prefetched prior base candidates)
    (hprior' : Prefetched prior' base candidates') (hw : w.Tally base l)
    (hps : ∀ p ∈ ps, p.created ⊆ candidates) (hps' : ∀ p ∈ ps, p.created ⊆ candidates') :
    applyPayloads prior' blockNumber w ps = applyPayloads prior blockNumber w ps := by
  induction ps generalizing w l with
  | nil => rfl
  | cons p ps ih =>
    have hp : p.created ⊆ candidates := hps p List.mem_cons_self
    have hp' : p.created ⊆ candidates' := hps' p List.mem_cons_self
    have hsame : applyPayload w p prior' blockNumber = applyPayload w p prior blockNumber := by
      refine applyPayload_congr blockNumber fun x hx => ?_
      have h := hprior w l hw x (hp hx)
      have h' := hprior' w l hw x (hp' hx)
      rw [Bool.eq_iff_iff, h, h']
    obtain ⟨rejection, w₁, hstep, -, happly, hkeep⟩ :=
      applyPayload_exact blockNumber hw fun x hx => hprior w l hw x (hp hx)
    have hrest : applyPayloads prior' blockNumber w₁ ps = applyPayloads prior blockNumber w₁ ps := by
      have hq := fun q hq => hps q (List.mem_cons_of_mem p hq)
      have hq' := fun q hq => hps' q (List.mem_cons_of_mem p hq)
      cases rejection with
      | none => exact ih (happly rfl).2 hq hq'
      | some reason => exact hkeep (by simp) ▸ ih hw hq hq'
    simp only [applyPayloads, hsame, hstep, hrest, bind, Except.bind]

/-- The rejected payloads leave no trace. -/
theorem applyPayloads_accepted (h : applyPayloads prior blockNumber w ps = .ok (w', as)) :
    applyPayloads prior blockNumber w (accepted as) =
      .ok (w', as.filter fun a => a.rejection = none) := by
  induction ps generalizing w as with
  | nil =>
    cases h
    rfl
  | cons p ps ih =>
    rw [applyPayloads] at h
    obtain ⟨⟨rejection, w₁⟩, hstep, h⟩ := bind_eq_ok h
    obtain ⟨⟨w₂, bs⟩, hrest, h⟩ := bind_eq_ok h
    cases h
    have htail := ih hrest
    cases rejection with
    | some reason =>
      rw [applyPayload_rejected hstep] at htail
      exact htail
    | none =>
      have hcons : accepted (⟨w, p, none⟩ :: bs) = p :: accepted bs := rfl
      rw [hcons, applyPayloads, hstep]
      simp only [bind, Except.bind, htail]
      rfl

theorem applyPayloads_append_inv {qs : List (Payload V)}
    (h : applyPayloads prior blockNumber w (ps ++ qs) = .ok (w', as)) :
    ∃ w₁ as₁ as₂, applyPayloads prior blockNumber w ps = .ok (w₁, as₁) ∧
      applyPayloads prior blockNumber w₁ qs = .ok (w', as₂) ∧ as = as₁ ++ as₂ := by
  induction ps generalizing w as with
  | nil => exact ⟨w, [], as, rfl, h, rfl⟩
  | cons p ps ih =>
    rw [List.cons_append, applyPayloads] at h
    obtain ⟨⟨rejection, w₂⟩, hstep, h⟩ := bind_eq_ok h
    obtain ⟨⟨w₃, cs⟩, hrest, h⟩ := bind_eq_ok h
    cases h
    obtain ⟨w₁, as₁, as₂, h₁, h₂, rfl⟩ := ih hrest
    refine ⟨w₁, _ :: as₁, as₂, ?_, h₂, rfl⟩
    rw [applyPayloads, hstep]
    simp only [bind, Except.bind, h₁]

/-! ## Transactions and statuses -/

/-- The statuses of a transaction's blobs after the calls for it: one a blob, in blob order,
with the reason of a rejection. -/
inductive Outcomes : List (Option (Nat × Payload V)) → List (BlobStatus V) → List (Attempt V) →
    List (BlobStatus V) → Prop
  | nil : Outcomes [] [] [] []
  | dropped {blobs ss as ss'} (s : BlobStatus V) (h : Outcomes blobs ss as ss') :
    Outcomes (none :: blobs) (s :: ss) as (s :: ss')
  | tried {blobs ss as ss'} (i : Nat) (s : BlobStatus V) (a : Attempt V) (h : Outcomes blobs ss as ss') :
    Outcomes (some (i, a.payload) :: blobs) (s :: ss) (a :: as)
      ({ s with error := a.rejection <|> s.error } :: ss')

theorem applyTxBlobs_outcomes {blobs : List (Option (Nat × Payload V))} {statuses : List (BlobStatus V)}
    (hlen : blobs.length = statuses.length)
    (h : applyPayloads prior blockNumber w (parsedPayloads blobs) = .ok (w', as)) :
    ∃ ss, applyTxBlobs prior blockNumber w blobs statuses = .ok (w', ss, as) ∧
      Outcomes blobs statuses as ss := by
  induction blobs generalizing statuses w as with
  | nil =>
    cases h
    have hnil : statuses = [] := List.length_eq_zero_iff.mp hlen.symm
    subst hnil
    exact ⟨[], rfl, .nil⟩
  | cons b blobs ih =>
    cases statuses with
    | nil => simp at hlen
    | cons s statuses =>
      have hlen' : blobs.length = statuses.length := by simpa using hlen
      cases b with
      | none =>
        obtain ⟨ss, hss, hout⟩ := ih hlen' h
        refine ⟨s :: ss, ?_, .dropped s hout⟩
        simp only [applyTxBlobs, hss, bind, Except.bind]
      | some ip =>
        obtain ⟨i, p⟩ := ip
        have hparsed : parsedPayloads (some (i, p) :: blobs) = p :: parsedPayloads blobs := rfl
        rw [hparsed, applyPayloads] at h
        obtain ⟨⟨rejection, w₁⟩, hstep, h⟩ := bind_eq_ok h
        obtain ⟨⟨w₂, bs⟩, hrest, h⟩ := bind_eq_ok h
        cases h
        obtain ⟨ss, hss, hout⟩ := ih hlen' hrest
        refine ⟨_, ?_, .tried i s ⟨w, p, rejection⟩ hout⟩
        simp only [applyTxBlobs, hstep, hss, bind, Except.bind]
        cases rejection <;> rfl

/-- The payloads of a slot in the order in which they are tried. -/
def payloadsOf (txs : List (TargetTx V (Payload V))) : List (Payload V) :=
  txs.flatMap fun t => parsedPayloads t.blobs

/-- The statuses of the transactions after the calls for all of them. -/
inductive TxOutcomes : List (TargetTx V (Payload V)) → List (Attempt V) → List (TxStatus V) → Prop
  | nil : TxOutcomes [] [] []
  | cons {t txs as bs ss sts} (h : Outcomes t.blobs t.status.blobs as ss) (hrest : TxOutcomes txs bs sts) :
    TxOutcomes (t :: txs) (as ++ bs) ({ t.status with blobs := ss } :: sts)

theorem applyTxs_outcomes {txs : List (TargetTx V (Payload V))}
    (hlen : ∀ t ∈ txs, t.blobs.length = t.status.blobs.length)
    (h : applyPayloads prior blockNumber w (payloadsOf txs) = .ok (w', as)) :
    ∃ sts, applyTxs prior blockNumber w txs = .ok (w', sts, as) ∧ TxOutcomes txs as sts := by
  induction txs generalizing w as with
  | nil =>
    cases h
    exact ⟨[], rfl, .nil⟩
  | cons t txs ih =>
    obtain ⟨w₁, as₁, as₂, h₁, h₂, rfl⟩ := applyPayloads_append_inv h
    obtain ⟨ss, hss, hout⟩ := applyTxBlobs_outcomes (hlen t List.mem_cons_self) h₁
    obtain ⟨sts, hsts, hrest⟩ := ih (fun t' ht' => hlen t' (List.mem_cons_of_mem t ht')) h₂
    refine ⟨_, ?_, .cons hout hrest⟩
    simp only [applyTxs, hss, hsts, bind, Except.bind]

/-! ## Reachable nodes -/

/-- What the log says of the created list at its head, whatever the payloads were. -/
structure StateLogDb.Tally (log : StateLogDb V) (l : List V) : Prop where
  index : log.Indexes l
  nodup : l.Nodup
  head : match log.donStateAtHead with
    | none => l = []
    | some s => (∃ a, Represents a l ∧ s.roots.created = ofArray a) ∧ s.metadata.createdCount = l.length

theorem startWorking_tally {n : Node V} {roots : List (V × Int)} (hn : n.stateLog.Tally l)
    (h : startWorking n.containers n.stateLog.donStateAtHead roots = .ok w) : w.Tally l l := by
  unfold startWorking at h
  obtain ⟨created, hcre, h⟩ := bind_eq_ok h
  obtain ⟨nullifiers, -, h⟩ := bind_eq_ok h
  obtain ⟨history, -, h⟩ := bind_eq_ok h
  obtain rfl := Except.ok.inj h
  have hcroot := ContainerDb.openArray_root hcre
  have hhead := hn.head
  have hbase : Represents created l ∧
      (n.stateLog.donStateAtHead.elim 0 fun s => s.metadata.createdCount) = l.length := by
    cases hs : n.stateLog.donStateAtHead with
    | none =>
      rw [hs] at hhead hcroot
      subst hhead
      have hc : created = ∅ := by
        rw [← ofArray_inj, hcroot, Values.ofArray_empty]
        rfl
      exact ⟨hc ▸ Represents.nil, rfl⟩
    | some s =>
      rw [hs] at hhead hcroot
      obtain ⟨⟨a, ha, hra⟩, hcount⟩ := hhead
      have hc : created = a := by rw [← ofArray_inj, hcroot]; exact hra
      exact ⟨hc ▸ ha, hcount⟩
  refine ⟨hbase.1, hbase.2, hn.nodup, List.prefix_refl l, fun x i => ?_⟩
  constructor
  · intro hmem
    cases hmem
  · rintro ⟨hi, hx⟩
    rw [List.getElem?_eq_none hi] at hx
    cases hx

/-- The positions of the blobs and of their statuses go together. -/
def Lined (txs : List (TargetTx V (Payload V))) : Prop :=
  ∀ t ∈ txs, t.blobs.length = t.status.blobs.length

omit [Values V] in
theorem parseTxBlobs_length (parser : BlobParser V) {blobs : List (Option (Nat × Bytes))}
    {statuses : List (BlobStatus V)} (hlen : blobs.length = statuses.length) :
    (parseTxBlobs parser blobs statuses).1.length = blobs.length ∧
      (parseTxBlobs parser blobs statuses).2.length = blobs.length := by
  induction blobs generalizing statuses with
  | nil =>
    have hnil : statuses = [] := List.length_eq_zero_iff.mp hlen.symm
    subst hnil
    exact ⟨rfl, rfl⟩
  | cons b blobs ih =>
    cases statuses with
    | nil => simp at hlen
    | cons s statuses =>
      have htail := @ih statuses (by simpa using hlen)
      cases b with
      | none => simp [parseTxBlobs, htail]
      | some ib =>
        obtain ⟨i, bytes⟩ := ib
        cases hb : parser bytes with
        | error err => simp [parseTxBlobs, hb, htail]
        | ok o => cases o <;> simp [parseTxBlobs, hb, htail]

omit [Values V] in
theorem parseBlobs_lined (parser : BlobParser V) {txs : List (TargetTx V Bytes)}
    (hlen : ∀ t ∈ txs, t.blobs.length = t.status.blobs.length) : Lined (parseBlobs parser txs) := by
  intro t ht
  obtain ⟨t₀, ht₀, rfl⟩ := List.mem_map.mp ht
  obtain ⟨h₁, h₂⟩ := parseTxBlobs_length parser (hlen t₀ ht₀)
  exact h₁.trans h₂.symm

omit [Values V] in
theorem fetchTargetBlobs_lined (txs : List TargetBlobTx) :
    ∀ t ∈ (fetchTargetBlobs txs : List (TargetTx V Bytes)), t.blobs.length = t.status.blobs.length := by
  intro t ht
  obtain ⟨tx, -, rfl⟩ := List.mem_map.mp ht
  simp

/-- The commitments that `derive_slot` prefetches. -/
def candidatesOf (txs : List (TargetTx V (Payload V))) : List V :=
  txs.flatMap fun t => t.blobs.flatMap fun b => b.elim [] fun (_, p) => p.created

omit [Values V] in
theorem created_subset_candidatesOf {txs : List (TargetTx V (Payload V))} :
    ∀ p ∈ payloadsOf txs, p.created ⊆ candidatesOf txs := by
  intro p hp x hx
  obtain ⟨t, ht, hp⟩ := List.mem_flatMap.mp hp
  obtain ⟨b, hb, hpb⟩ := List.mem_flatMap.mp hp
  refine List.mem_flatMap.mpr ⟨t, ht, List.mem_flatMap.mpr ⟨b, hb, ?_⟩⟩
  cases b with
  | none => cases hpb
  | some ip =>
    obtain rfl := List.mem_singleton.mp hpb
    exact hx

theorem Node.commitSlotAt_tally {parser : BlobParser V} {n n' : Node V} {number : Nat} {slot : Slot}
    (hn : n.stateLog.Tally l) (h : n.commitSlotAt parser number slot = .ok (n', as)) :
    n'.stateLog.Tally (l ++ createdBy as) := by
  unfold commitSlotAt at h
  obtain ⟨⟨processed, db, attempts⟩, hderive, h⟩ := bind_eq_ok h
  obtain ⟨log, hcommit, h⟩ := bind_eq_ok h
  cases h
  obtain ⟨hslots, hindex, -⟩ := commitSlot_spec hcommit
  unfold deriveFromContext at hderive
  cases hpay : slot.payload with
  | none =>
    simp only [fetchSlotContext, hpay] at hderive
    cases hderive
    have hhead : log.donStateAtHead = n.stateLog.donStateAtHead := by
      rw [StateLogDb.donStateAtHead, hslots]
      rfl
    refine ⟨fun x i => ?_, by simpa [createdBy] using hn.nodup, ?_⟩
    · have hold := hn.index x i
      simpa [hindex, createdBy] using hold
    · simpa [hhead, createdBy] using hn.head
  | some block =>
    simp only [fetchSlotContext, hpay] at hderive
    obtain ⟨⟨derived, statuses, db', attempts'⟩, hslot, hderive⟩ := bind_eq_ok hderive
    cases hderive
    unfold deriveSlot deriveSlotState at hslot
    obtain ⟨w, hstart, hslot⟩ := bind_eq_ok hslot
    obtain ⟨⟨w', statuses', attempts''⟩, happly, hslot⟩ := bind_eq_ok hslot
    obtain ⟨⟨state, history⟩, hfinish, hslot⟩ := bind_eq_ok hslot
    cases hslot
    have hw := startWorking_tally hn hstart
    obtain ⟨w₂, as₂, happly₂, -, hw₂⟩ := applyPayloads_total block.number
      (hn.index.prefetched _) hw created_subset_candidatesOf
    obtain ⟨sts, happly₃, -⟩ := applyTxs_outcomes
      (parseBlobs_lined parser (fetchTargetBlobs_lined slot.targetBlobTxs)) happly₂
    have heq := happly.symm.trans happly₃
    cases heq
    obtain ⟨hcreated, -, hcount, -⟩ := finishState_spec hfinish
    have hhead : log.donStateAtHead = some state := by
      rw [StateLogDb.donStateAtHead, hslots]
      rfl
    refine ⟨StateLogDb.Indexes.commit hn.index hw₂ rfl hcommit, hw₂.nodup, ?_⟩
    rw [hhead]
    exact ⟨⟨w'.created, hw₂.represents, hcreated⟩, hcount.trans hw₂.count⟩

theorem Node.commitAll_tally {parser : BlobParser V} {h : List (Nat × Slot)} {n n' : Node V}
    (hn : n.stateLog.Tally l) (hrun : n.commitAll parser h = .ok (n', as)) :
    n'.stateLog.Tally (l ++ createdBy as) := by
  induction h generalizing n as l with
  | nil =>
    cases hrun
    simpa [createdBy] using hn
  | cons e h ih =>
    obtain ⟨number, slot⟩ := e
    rw [commitAll] at hrun
    obtain ⟨⟨n₁, as₁⟩, hstep, hrun⟩ := bind_eq_ok hrun
    obtain ⟨⟨n₂, as₂⟩, hrest, hrun⟩ := bind_eq_ok hrun
    cases hrun
    have htail := ih (commitSlotAt_tally hn hstep) hrest
    simpa [createdBy, List.append_assoc] using htail

theorem Node.genesis_tally : (Node.genesis : Node V).stateLog.Tally [] :=
  ⟨by simp [StateLogDb.Indexes, Node.genesis], List.nodup_nil, rfl⟩

theorem Node.Tracks.tally {parser : BlobParser V} {initStartSlot : Nat} {n : Node V}
    {h : List (Nat × Slot)} (ht : n.Tracks parser initStartSlot h) : ∃ l, n.stateLog.Tally l := by
  obtain ⟨⟨start, as, hrun, hlog⟩, -, -⟩ := ht
  have htally := commitAll_tally genesis_tally hrun
  rw [hlog] at htally
  exact ⟨_, htally⟩

/-! ## Containers of every committed state -/

/-- The store grows. -/
def ContainerDb.Within (db db' : ContainerDb V) : Prop := db.arrays ⊆ db'.arrays ∧ db.sets ⊆ db'.sets

theorem ContainerDb.Within.openArray {db db' : ContainerDb V} (h : db.Within db') {root : V}
    {a : Pod2.Array V} (ha : db.openArray root = .ok a) : db'.openArray root = .ok a := by
  have hroot := openArray_root ha
  subst hroot
  by_cases he : a = ∅
  · rw [he]
    exact openArray_empty db'
  · refine openArray_mem (h.1 ?_)
    unfold ContainerDb.openArray at ha
    rw [if_neg (by rw [Pod2.empty, ← Values.ofArray_empty, ofArray_inj]; exact he)] at ha
    cases hf : db.arrays.find? fun b => ofArray b = (ofArray a : V) with
    | none =>
      rw [hf] at ha
      cases ha
    | some b =>
      rw [hf] at ha
      cases ha
      exact List.mem_of_find?_eq_some hf

theorem ContainerDb.Within.openSet {db db' : ContainerDb V} (h : db.Within db') {root : V}
    {m : Finset V} (hm : db.openSet root = .ok m) : db'.openSet root = .ok m := by
  have hroot := openSet_root hm
  subst hroot
  by_cases he : m = ∅
  · rw [he]
    exact openSet_empty db'
  · refine openSet_mem (h.2 ?_)
    unfold ContainerDb.openSet at hm
    rw [if_neg (by rw [ofSet_eq_empty]; exact he)] at hm
    cases hf : db.sets.find? fun b => ofSet b = (ofSet m : V) with
    | none =>
      rw [hf] at hm
      cases hm
    | some b =>
      rw [hf] at hm
      cases hm
      exact List.mem_of_find?_eq_some hf

theorem DonState.Backed.mono {s : DonState V} {db db' : ContainerDb V} (h : s.Backed db)
    (hdb : db.Within db') : s.Backed db' := by
  obtain ⟨⟨a, ha⟩, ⟨ns, hns, hcount⟩, ⟨b, hl, hb, hrep, hlen⟩⟩ := h
  exact ⟨⟨a, hdb.openArray ha⟩, ⟨ns, hdb.openSet hns, hcount⟩, ⟨b, hl, hdb.openArray hb, hrep, hlen⟩⟩

/-- Every state of the log can be opened, also one that a rollback makes the head. -/
def Node.Stocked (n : Node V) : Prop :=
  ∀ row ∈ n.stateLog.slots, ∀ s, row.state = some s → s.Backed n.containers

theorem Node.Stocked.backed {n : Node V} (h : n.Stocked) : n.Backed := by
  intro s hs
  obtain ⟨row, hrow, hstate⟩ := List.exists_of_findSome?_eq_some hs
  exact h row hrow s hstate

theorem Node.commitSlotAt_within {parser : BlobParser V} {n n' : Node V} {number : Nat} {slot : Slot}
    (h : n.commitSlotAt parser number slot = .ok (n', as)) : n.containers.Within n'.containers := by
  unfold commitSlotAt at h
  obtain ⟨⟨processed, db, attempts⟩, hderive, h⟩ := bind_eq_ok h
  obtain ⟨log, -, h⟩ := bind_eq_ok h
  cases h
  unfold deriveFromContext at hderive
  cases hpay : slot.payload with
  | none =>
    simp only [fetchSlotContext, hpay] at hderive
    cases hderive
    exact ⟨List.Subset.refl _, List.Subset.refl _⟩
  | some block =>
    simp only [fetchSlotContext, hpay] at hderive
    obtain ⟨⟨derived, statuses, db', attempts'⟩, hslot, hderive⟩ := bind_eq_ok hderive
    cases hderive
    unfold deriveSlot deriveSlotState at hslot
    obtain ⟨w, -, hslot⟩ := bind_eq_ok hslot
    obtain ⟨⟨w', statuses', attempts''⟩, -, hslot⟩ := bind_eq_ok hslot
    obtain ⟨⟨state, history⟩, -, hslot⟩ := bind_eq_ok hslot
    cases hslot
    constructor
    · intro a ha
      simp [ha]
    · intro m hm
      simp [hm]

theorem Node.Stocked.commit {parser : BlobParser V} {n n' : Node V} {number : Nat} {slot : Slot}
    (hn : n.Stocked) (hstep : n.commitSlotAt parser number slot = .ok (n', as)) : n'.Stocked := by
  have hwithin := commitSlotAt_within hstep
  have hhead := commitSlotAt_backed hn.backed hstep
  have hslots : ∃ row, n'.stateLog.slots = row :: n.stateLog.slots := by
    unfold commitSlotAt at hstep
    obtain ⟨⟨processed, db, attempts⟩, -, hstep⟩ := bind_eq_ok hstep
    obtain ⟨log, hcommit, hstep⟩ := bind_eq_ok hstep
    cases hstep
    exact ⟨_, (commitSlot_spec hcommit).1⟩
  obtain ⟨new, hnew⟩ := hslots
  intro row hrow s hs
  rw [hnew] at hrow
  rcases List.mem_cons.mp hrow with rfl | hrow
  · refine hhead s ?_
    rw [StateLogDb.donStateAtHead, hnew, List.findSome?_cons, hs]
  · exact (hn row hrow s hs).mono hwithin

theorem Node.Stocked.apply {parser : BlobParser V} {initStartSlot : Nat} {n : Node V}
    (hn : n.Stocked) (op : NodeOp V) : (n.apply parser initStartSlot op).Stocked := by
  cases op with
  | commit gap slot =>
    cases hstep : n.commitSlotAt parser (n.nextSlot initStartSlot + gap) slot with
    | error e =>
      simp only [Node.apply, hstep]
      exact hn
    | ok r =>
      simp only [Node.apply, hstep]
      exact hn.commit hstep
  | rollback keepSlot =>
    intro row hrow s hs
    exact hn row (List.mem_filter.mp hrow).1 s hs
  | orphan extra =>
    intro row hrow s hs
    exact (hn row hrow s hs).mono ⟨List.subset_append_right _ _, List.subset_append_right _ _⟩

theorem Node.Stocked.applyAll (parser : BlobParser V) (initStartSlot : Nat) {n : Node V}
    (hn : n.Stocked) (ops : List (NodeOp V)) : (n.applyAll parser initStartSlot ops).Stocked := by
  induction ops generalizing n with
  | nil => exact hn
  | cons op ops ih => exact ih (hn.apply op)

theorem Node.genesis_stocked : (Node.genesis : Node V).Stocked := by
  intro row hrow
  cases hrow

theorem Node.Backed.startWorking {n : Node V} (hn : n.Backed) (roots : List (V × Int)) :
    ∃ w, startWorking n.containers n.stateLog.donStateAtHead roots = .ok w := by
  unfold Synchronizer.startWorking
  cases hs : n.stateLog.donStateAtHead with
  | none => simp [StateRoots.empty, ContainerDb.openArray, ContainerDb.openSet, bind, Except.bind]
  | some s =>
    obtain ⟨⟨a, ha⟩, ⟨ns, hns, -⟩, ⟨b, -, hb, -, -⟩⟩ := hn s hs
    simp [ha, hns, hb, bind, Except.bind]

/-- The root of a derived state has a free place in the history. -/
theorem finishState_total {start : Option (DonState V)} (block : ExecutionBlock) {hl : List V}
    (hrep : Represents w.nextStateHistory hl)
    (hlen : (start.elim 0 fun s => s.metadata.stateRootCount) = hl.length) :
    ∃ r, finishState start block w = .ok r := by
  have hfree : (w.nextStateHistory.lookup (start.elim 0 fun s => s.metadata.stateRootCount)).isSome = false := by
    rw [hrep, hlen, List.getElem?_eq_none (Nat.le_refl _)]
    rfl
  unfold finishState
  simp only [hfree]
  exact ⟨_, rfl⟩

/-- The derivation of a slot from a node runs to its end, through the calls for its payloads. -/
theorem Node.deriveSlotState_total {n : Node V} (hn : n.Stocked) (htally : n.stateLog.Tally l)
    (roots : List (V × Int)) (block : ExecutionBlock) {txs : List (TargetTx V (Payload V))}
    (hlen : Lined txs) (hcover : ∀ p ∈ payloadsOf txs, p.created ⊆ candidates) :
    ∃ w w' as state history sts,
      startWorking n.containers n.stateLog.donStateAtHead roots = .ok w ∧ w.Tally l l ∧
      applyPayloads (n.stateLog.createdIndices candidates) block.number w (payloadsOf txs) =
        .ok (w', as) ∧
      as.map Attempt.payload = payloadsOf txs ∧ TxOutcomes txs as sts ∧
      finishState n.stateLog.donStateAtHead block w' = .ok (state, history) ∧
      deriveSlotState n.containers n.stateLog.donStateAtHead roots block txs
        (n.stateLog.createdIndices candidates) =
          .ok (⟨state, w'.createdAdded⟩, sts,
            ⟨w'.created :: history :: n.containers.arrays, w'.nullifiers :: n.containers.sets⟩, as) := by
  obtain ⟨w, hstart⟩ := hn.backed.startWorking roots
  have hw := startWorking_tally htally hstart
  obtain ⟨w', as, happly, hmap, -⟩ :=
    applyPayloads_total block.number (htally.index.prefetched candidates) hw hcover
  obtain ⟨sts, htxs, hout⟩ := applyTxs_outcomes hlen happly
  obtain ⟨-, hl, hrep, hcount⟩ := startWorking_backed hn.backed hstart
  obtain ⟨⟨state, history⟩, hfinish⟩ := finishState_total block
    (by rw [(applyTxs_keeps htxs).history]; exact hrep) hcount
  refine ⟨w, w', as, state, history, sts, hstart, hw, happly, hmap, hout, hfinish, ?_⟩
  unfold deriveSlotState
  simp only [hstart, htxs, hfinish, bind, Except.bind]

/-! ## Exactness -/

/-- The working states inside `derive_slot_state`: those that calls of `apply_payload` lead to,
for payloads whose commitments were prefetched. -/
inductive Node.Deriving (n : Node V) (roots : List (V × Int)) (blockNumber : Nat)
    (candidates : List V) : WorkingState V → Prop
  | start {u} (h : startWorking n.containers n.stateLog.donStateAtHead roots = .ok u) :
    Node.Deriving n roots blockNumber candidates u
  | step {u u' p rejection} (hu : Node.Deriving n roots blockNumber candidates u)
    (hp : p.created ⊆ candidates)
    (h : applyPayload u p (n.stateLog.createdIndices candidates) blockNumber = .ok (rejection, u')) :
    Node.Deriving n roots blockNumber candidates u'

theorem Node.Deriving.tally {n : Node V} {roots : List (V × Int)}
    (h : n.Deriving roots blockNumber candidates w) (hn : n.stateLog.Tally base) :
    ∃ l, w.Tally base l := by
  induction h with
  | start hstart => exact ⟨base, startWorking_tally hn hstart⟩
  | @step w w' p rejection _ hp hstep ih =>
    obtain ⟨l, hw⟩ := ih
    obtain ⟨rejection', w₁, hstep', -, happly, hkeep⟩ := applyPayload_exact blockNumber hw
      fun x hx => hn.index.prefetched candidates w l hw x (hp hx)
    cases hstep.symm.trans hstep'
    cases rejection with
    | none => exact ⟨_, (happly rfl).2⟩
    | some reason => exact ⟨l, hkeep (by simp) ▸ hw⟩

/-- `apply_payload` is exact and atomic in every derivation from the node, and a derived slot
is that of its accepted payloads, however they are spread over transactions. -/
structure Node.AppliesExactly (n : Node V) : Prop where
  exact : ∀ roots blockNumber candidates w, n.Deriving roots blockNumber candidates w →
    ∀ p : Payload V, p.created ⊆ candidates → ∃ rejection w',
      applyPayload w p (n.stateLog.createdIndices candidates) blockNumber = .ok (rejection, w') ∧
      (rejection = none ↔ Acceptable w p blockNumber) ∧
      (rejection = none → Applied w p w') ∧ (rejection ≠ none → w' = w)
  derives : ∀ roots block candidates txs, Lined txs → (∀ p ∈ payloadsOf txs, p.created ⊆ candidates) →
    ∃ derived sts db as, deriveSlotState n.containers n.stateLog.donStateAtHead roots block txs
        (n.stateLog.createdIndices candidates) = .ok (derived, sts, db, as) ∧
      as.map Attempt.payload = payloadsOf txs ∧
      ∀ candidates' txs', Lined txs' → (∀ p ∈ payloadsOf txs', p.created ⊆ candidates') →
        payloadsOf txs' = accepted as ∨ payloadsOf txs' = payloadsOf txs →
        ∃ sts' db' as', deriveSlotState n.containers n.stateLog.donStateAtHead roots block txs'
          (n.stateLog.createdIndices candidates') = .ok (derived, sts', db', as')

/-- The second derivation, over the accepted payloads or over the same ones. -/
theorem Node.deriveSlotState_regroup {n : Node V} (htally : n.stateLog.Tally l)
    {roots : List (V × Int)} {block : ExecutionBlock} {txs' : List (TargetTx V (Payload V))}
    {state : DonState V} {history : Pod2.Array V}
    (hstart : startWorking n.containers n.stateLog.donStateAtHead roots = .ok w)
    (happly : applyPayloads (n.stateLog.createdIndices candidates) block.number w ps = .ok (w', as))
    (hfinish : finishState n.stateLog.donStateAtHead block w' = .ok (state, history))
    (hps : ∀ p ∈ ps, p.created ⊆ candidates) (hlen : Lined txs')
    (hcover : ∀ p ∈ payloadsOf txs', p.created ⊆ candidates')
    (hsame : payloadsOf txs' = accepted as ∨ payloadsOf txs' = ps) :
    ∃ sts' db' as', deriveSlotState n.containers n.stateLog.donStateAtHead roots block txs'
      (n.stateLog.createdIndices candidates') = .ok (⟨state, w'.createdAdded⟩, sts', db', as') := by
  have hw := startWorking_tally htally hstart
  have hsub : ∀ p ∈ payloadsOf txs', p ∈ ps := by
    obtain ⟨w₂, as₂, happly₂, hmap, -⟩ :=
      applyPayloads_total block.number (htally.index.prefetched candidates) hw hps
    cases happly.symm.trans happly₂
    intro p hp
    rcases hsame with h | h
    · rw [h] at hp
      obtain ⟨a, ha, rfl⟩ := List.mem_map.mp hp
      rw [← hmap]
      exact List.mem_map_of_mem (List.mem_filter.mp ha).1
    · exact h ▸ hp
  have hagain : ∃ bs, applyPayloads (n.stateLog.createdIndices candidates) block.number w
      (payloadsOf txs') = .ok (w', bs) := by
    rcases hsame with h | h
    · rw [h]
      exact ⟨_, applyPayloads_accepted happly⟩
    · rw [h]
      exact ⟨_, happly⟩
  obtain ⟨bs, hagain⟩ := hagain
  rw [← applyPayloads_prefetch (htally.index.prefetched candidates)
    (htally.index.prefetched candidates') hw (fun p hp => hps p (hsub p hp)) hcover] at hagain
  obtain ⟨sts, htxs, -⟩ := applyTxs_outcomes hlen hagain
  refine ⟨sts, ⟨w'.created :: history :: n.containers.arrays, w'.nullifiers :: n.containers.sets⟩, bs, ?_⟩
  unfold deriveSlotState
  simp only [hstart, htxs, hfinish, bind, Except.bind]

/-- At every node that commits and rollbacks lead to, whatever its parser lets through. -/
theorem Node.applies_exactly (parser : BlobParser V) (initStartSlot : Nat) (ops : List (NodeOp V)) :
    (Node.genesis.applyAll parser initStartSlot ops).AppliesExactly := by
  obtain ⟨h, htracks⟩ := (Node.Tracks.genesis parser initStartSlot).applyAll ops
  obtain ⟨l, htally⟩ := htracks.tally
  have hstocked := Node.genesis_stocked.applyAll parser initStartSlot ops
  generalize (Node.genesis : Node V).applyAll parser initStartSlot ops = n at htally hstocked
  refine ⟨?_, ?_⟩
  · intro roots blockNumber candidates w hw p hp
    obtain ⟨l', hw'⟩ := hw.tally htally
    obtain ⟨rejection, w', hstep, hiff, happly, hkeep⟩ := applyPayload_exact blockNumber hw'
      fun x hx => htally.index.prefetched candidates w l' hw' x (hp hx)
    exact ⟨rejection, w', hstep, hiff, fun hnone => (happly hnone).1, hkeep⟩
  · intro roots block candidates txs hlen hcover
    obtain ⟨w, w', as, state, history, sts, hstart, -, happly, hmap, -, hfinish, hderive⟩ :=
      deriveSlotState_total hstocked htally roots block hlen hcover
    exact ⟨_, _, _, _, hderive, hmap, fun candidates' txs' hlen' hcover' hsame =>
      deriveSlotState_regroup htally hstart happly hfinish hcover hlen' hcover' hsame⟩

end DigitalObjects.Synchronizer
