import DigitalObjects.Synchronizer.Rollback
set_option autoImplicit false

/-!
The created index, the created array and the slot's own additions are three records of one
list. They agree after commits and rollbacks in any order, and the status table has one
applied row for each transaction that creates or nullifies something.
-/

namespace DigitalObjects.Synchronizer

open Pod2 Lib Txlib

variable {V : Type} [Values V]

/-- The invariant holds along every list of commits, and every call is sound. -/
theorem Node.commitAll_spec {G : Guard V} {parser : BlobParser V} (hparser : parser.Sound G)
    {h : List (Nat × Slot)} {n n' : Node V} {as : List (Attempt V)} {l : List V} {ns : Finset V}
    (hn : n.Inv l ns) (hrun : n.commitAll parser h = .ok (n', as)) :
    n'.Inv (l ++ createdBy as) (ns ∪ (nullifiersBy as).toFinset) ∧ Attempts G l ns as := by
  induction h generalizing n as l ns with
  | nil =>
    cases hrun
    refine ⟨?_, trivial⟩
    simpa [createdBy, nullifiersBy] using hn
  | cons e h ih =>
    obtain ⟨number, slot⟩ := e
    rw [commitAll] at hrun
    obtain ⟨⟨n₁, as₁⟩, hstep, hrun⟩ := bind_eq_ok hrun
    obtain ⟨⟨n₂, as₂⟩, hrest, hrun⟩ := bind_eq_ok hrun
    cases hrun
    obtain ⟨hinv, hatt⟩ := commitSlotAt_spec hparser hn hstep
    obtain ⟨hinv', hatt'⟩ := ih hinv hrest
    refine ⟨?_, hatt.append hatt'⟩
    simpa [createdBy, nullifiersBy, List.append_assoc, Finset.union_assoc] using hinv'

/-! ## The creation check -/

theorem applyTxBlobs_before {G : Guard V} {log : StateLogDb V} {base candidates : List V}
    {blockNumber : Nat} (hlog : log.Inv base) {blobs : List (Option (Nat × Payload V))}
    {statuses : List (BlobStatus V)} {l : List V} {w : WorkingState V}
    {r : WorkingState V × List (BlobStatus V) × List (Attempt V)}
    (hp : ∀ p ∈ parsedPayloads blobs, p.Verified G ∧ p.created ⊆ candidates)
    (hw : w.Inv base l) (hg : w.Grounds log)
    (h : applyTxBlobs (log.createdIndices candidates) blockNumber w blobs statuses = .ok r) :
    ∀ a ∈ r.2.2, ∃ l', a.before.Inv base l' := by
  induction blobs generalizing statuses l w r with
  | nil =>
    cases statuses <;>
      · cases h
        simp
  | cons b blobs ih =>
    cases statuses with
    | nil =>
      cases b <;>
        · cases h
          simp
    | cons s statuses =>
      cases b with
      | none =>
        rw [applyTxBlobs] at h
        obtain ⟨⟨w', ss, as⟩, hrest, h⟩ := bind_eq_ok h
        cases h
        have htail := ih hp hw hg hrest
        exact htail
      | some ip =>
        obtain ⟨i, p⟩ := ip
        rw [applyTxBlobs] at h
        obtain ⟨⟨rejection, w₁⟩, hstep, h⟩ := bind_eq_ok h
        obtain ⟨⟨w', ss, as⟩, hrest, h⟩ := bind_eq_ok h
        cases h
        have hpp := hp p (by simp [parsedPayloads])
        obtain ⟨-, hinv, -, hgr⟩ := applyPayload_spec hw hg hlog hpp.1 hpp.2 hstep
        have htail := ih (fun q hq => hp q (by
          simp only [parsedPayloads, List.flatMap_cons, List.mem_append] at hq ⊢
          exact .inr hq)) hinv hgr hrest
        intro a ha
        rcases List.mem_cons.mp ha with rfl | ha
        · exact ⟨l, hw⟩
        · exact htail a ha

theorem applyTxs_before {G : Guard V} {log : StateLogDb V} {base candidates : List V}
    {blockNumber : Nat} (hlog : log.Inv base) {txs : List (TargetTx V (Payload V))} {l : List V}
    {w : WorkingState V} {r : WorkingState V × List (TxStatus V) × List (Attempt V)}
    (hp : ∀ t ∈ txs, ∀ p ∈ parsedPayloads t.blobs, p.Verified G ∧ p.created ⊆ candidates)
    (hw : w.Inv base l) (hg : w.Grounds log)
    (h : applyTxs (log.createdIndices candidates) blockNumber w txs = .ok r) :
    ∀ a ∈ r.2.2, ∃ l', a.before.Inv base l' := by
  induction txs generalizing l w r with
  | nil =>
    cases h
    simp
  | cons t txs ih =>
    rw [applyTxs] at h
    obtain ⟨⟨w₁, ss, as⟩, hstep, h⟩ := bind_eq_ok h
    obtain ⟨⟨w₂, sts, bs⟩, hrest, h⟩ := bind_eq_ok h
    cases h
    have hfirst := applyTxBlobs_spec hlog (hp t List.mem_cons_self) hw hg hstep
    have hbefore := applyTxBlobs_before hlog (hp t List.mem_cons_self) hw hg hstep
    have htail := ih (fun t' ht' => hp t' (List.mem_cons_of_mem t ht')) hfirst.inv hfirst.grounds
      hrest
    intro a ha
    rcases List.mem_append.mp ha with ha | ha
    · exact hbefore a ha
    · exact htail a ha

/-- The payloads of a derivation are verified, and their commitments are prefetched. -/
theorem parseBlobs_verified {G : Guard V} {parser : BlobParser V} (hparser : parser.Sound G)
    (txs : List (TargetTx V Bytes)) :
    ∀ t ∈ parseBlobs parser txs, ∀ p ∈ parsedPayloads t.blobs, p.Verified G ∧
      p.created ⊆ (parseBlobs parser txs).flatMap fun t =>
        t.blobs.flatMap fun b => b.elim [] fun (_, p) => p.created := by
  intro t ht p hp
  constructor
  · obtain ⟨t₀, -, rfl⟩ := List.mem_map.mp ht
    exact parseTxBlobs_verified hparser p hp
  · intro x hx
    obtain ⟨b, hb, hpb⟩ := List.mem_flatMap.mp hp
    refine List.mem_flatMap.mpr ⟨t, ht, List.mem_flatMap.mpr ⟨b, hb, ?_⟩⟩
    cases b with
    | none => cases hpb
    | some ip =>
      obtain rfl := List.mem_singleton.mp hpb
      exact hx

/-- The check against an index that holds further rows, each under a key of its own. -/
theorem alreadyCreated_stale {w : WorkingState V} {log : StateLogDb V} {base l candidates : List V}
    {rows : List (CreatedRow V)} {x : V} (hw : w.Inv base l) (hlog : log.Inv base)
    (hsub : log.createdIndex ⊆ rows) (hkeys : (rows.map CreatedRow.commitment).Nodup)
    (hx : x ∈ candidates) :
    alreadyCreated w (StateLogDb.createdIndices { log with createdIndex := rows } candidates) x =
      true ↔ x ∈ l := by
  refine alreadyCreated_prior hw.tally ?_
  intro i hi
  obtain ⟨r, hr, hrx, hri⟩ := (hlog.index x i).mpr hi
  obtain ⟨q, hq, hqx, hl⟩ := StateLogDb.lookup_createdIndices hx
    (show r ∈ ({ log with createdIndex := rows } : StateLogDb V).createdIndex from hsub hr) hrx
  have hqr : q = r := List.inj_on_of_nodup_map hkeys hq (hsub hr) (hqx.trans hrx.symm)
  refine ⟨q.arrayIndex, hl, ?_⟩
  rw [hqr, hri]
  exact hi

/-! ## The primary key of the index -/

/-- The created-index rows that committing a derived slot adds. -/
def ProcessedSlot.createdRows (p : ProcessedSlot V) : List (CreatedRow V) :=
  p.derived.elim [] fun d => d.createdAdded.map fun (c, i) => ⟨c, i, p.slot⟩

/-- Positions in the order of the list, so that no commitment is added twice. -/
theorem WorkingState.Tally.added_nodup {w : WorkingState V} {base l : List V} (hw : w.Tally base l)
    (ho : w.Ordered) : (w.createdAdded.map Prod.fst).Nodup := by
  have hpairs : w.createdAdded.Pairwise fun a b => a.2 > b.2 := List.pairwise_map.mp ho.pairwise
  refine List.pairwise_map.mpr (hpairs.imp_of_mem ?_)
  rintro ⟨x, i⟩ ⟨y, j⟩ hx hy hgt hxy
  obtain rfl : x = y := hxy
  have hi := ((hw.added x i).mp hx).2
  have hj := ((hw.added x j).mp hy).2
  obtain ⟨hi', hxi⟩ := List.getElem?_eq_some_iff.mp hi
  obtain ⟨hj', hxj⟩ := List.getElem?_eq_some_iff.mp hj
  have hij : i = j := (hw.nodup.getElem_inj_iff).mp (hxi.trans hxj.symm)
  simp only at hgt
  omega

/-- No commitment of a slot repeats another row of the index. -/
theorem WorkingState.Tally.key_nodup {w : WorkingState V} {l l' : List V} {log : StateLogDb V}
    (hw : w.Tally l l') (ho : w.Ordered) (hlog : log.Indexes l)
    (hkeys : (log.createdIndex.map CreatedRow.commitment).Nodup) (slot : Nat) :
    ((w.createdAdded.map (fun (c, i) => (⟨c, i, slot⟩ : CreatedRow V)) ++ log.createdIndex).map
      CreatedRow.commitment).Nodup := by
  have hfst : (w.createdAdded.map fun (c, i) => (⟨c, i, slot⟩ : CreatedRow V)).map CreatedRow.commitment =
      w.createdAdded.map Prod.fst := by
    rw [List.map_map]
    rfl
  rw [List.map_append, hfst, List.nodup_append]
  refine ⟨hw.added_nodup ho, hkeys, ?_⟩
  intro x hx y hy hxy
  obtain ⟨⟨c, i⟩, hmem, rfl⟩ := List.mem_map.mp hx
  obtain ⟨r, hr, rfl⟩ := List.mem_map.mp hy
  simp only at hxy
  obtain ⟨hle, hi⟩ := (hw.added c i).mp hmem
  have hj := (hlog r.commitment r.arrayIndex).mp ⟨r, hr, rfl, rfl⟩
  obtain ⟨hjlt, -⟩ := List.getElem?_eq_some_iff.mp hj
  rw [← getElem?_of_initial hw.extends_base hjlt, ← hxy] at hj
  obtain ⟨hi', hci⟩ := List.getElem?_eq_some_iff.mp hi
  obtain ⟨hj', hcj⟩ := List.getElem?_eq_some_iff.mp hj
  have hij : i = r.arrayIndex := (hw.nodup.getElem_inj_iff).mp (hci.trans hcj.symm)
  omega

/-- What a derivation from the committed head knows of its working states. -/
structure Derives (n : Node V) (l : List V) (p : ProcessedSlot V) (as : List (Attempt V)) : Prop where
  calls : ∀ a ∈ as, ∃ l', a.before.Inv l l'
  rows : (p.createdRows = []) ∨ ∃ (w : WorkingState V) (l' : List V), w.Inv l l' ∧ w.Ordered ∧
    p.createdRows = w.createdAdded.map fun (c, i) => ⟨c, i, p.slot⟩

theorem deriveFromContext_derives {G : Guard V} {parser : BlobParser V} (hparser : parser.Sound G)
    {n : Node V} {l : List V} {ns : Finset V} {number : Nat} {ctx : SlotContext V}
    {p : ProcessedSlot V} {db : ContainerDb V} {as : List (Attempt V)} (hn : n.Inv l ns)
    (h : deriveFromContext parser n number ctx = .ok (p, db, as)) : Derives n l p as := by
  unfold deriveFromContext at h
  cases hpay : ctx.payload with
  | none =>
    simp only [hpay] at h
    cases h
    exact ⟨by simp, .inl rfl⟩
  | some block =>
    simp only [hpay] at h
    obtain ⟨⟨derived, statuses, db', attempts'⟩, hslot, h⟩ := bind_eq_ok h
    cases h
    unfold deriveSlot deriveSlotState at hslot
    obtain ⟨w, hstart, hslot⟩ := bind_eq_ok hslot
    obtain ⟨⟨w', statuses', attempts''⟩, happly, hslot⟩ := bind_eq_ok hslot
    obtain ⟨⟨state, history⟩, hfinish, hslot⟩ := bind_eq_ok hslot
    cases hslot
    obtain ⟨hw, -, hg⟩ := startWorking_spec hn hstart
    have hverified := parseBlobs_verified hparser ctx.targetTxs
    have hadv := applyTxs_spec hn.log hverified hw hg happly
    have hempty : w.createdAdded = [] := by
      unfold startWorking at hstart
      obtain ⟨created, -, hstart⟩ := bind_eq_ok hstart
      obtain ⟨nullifiers, -, hstart⟩ := bind_eq_ok hstart
      obtain ⟨history, -, hstart⟩ := bind_eq_ok hstart
      obtain rfl := Except.ok.inj hstart
      rfl
    have hordered : w.Ordered := ⟨by simp [hempty], by simp [hempty]⟩
    refine ⟨applyTxs_before hn.log hverified hw hg happly, .inr ⟨w', _, hadv.inv, ?_, rfl⟩⟩
    exact (applyTxs_keeps happly).ordered hordered

theorem Derives.key_nodup {n : Node V} {l : List V} {p : ProcessedSlot V} {as : List (Attempt V)}
    (hd : Derives n l p as) (hlog : n.stateLog.Inv l)
    (hkeys : (n.stateLog.createdIndex.map CreatedRow.commitment).Nodup) :
    ((p.createdRows ++ n.stateLog.createdIndex).map CreatedRow.commitment).Nodup := by
  rcases hd.rows with hnil | ⟨w, l', hw, ho, hrows⟩
  · rw [hnil]
    exact hkeys
  · rw [hrows]
    exact hw.tally.key_nodup ho hlog.index hkeys p.slot

theorem commitSlot_key {log log' : StateLogDb V} {p : ProcessedSlot V}
    (h : commitSlot log p = .ok log') : (log'.createdIndex.map CreatedRow.commitment).Nodup := by
  have hindex := (commitSlot_spec h).2.1
  unfold commitSlot at h
  dsimp only at h
  split at h
  · cases h
  split at h
  · cases h
  · rename_i hnodup
    rw [hindex]
    exact not_not.mp hnodup

/-! ## Applied transactions -/

def BlobStatus.applied (t : V) (s : BlobStatus V) : Bool := s.txFinal = some t ∧ s.error = none

def TxStatusRow.applied (t : V) (r : TxStatusRow V) : Bool := r.txFinal = some t ∧ r.error = none

def Attempt.applied (t : V) (a : Attempt V) : Bool := a.payload.txFinal = t ∧ a.rejection = none

/-- Each applied status is one accepted call. -/
theorem applyTxBlobs_applied (t : V) {priorIndices : List (V × Nat)} {blockNumber : Nat}
    {blobs : List (Option (Nat × Payload V))} {statuses : List (BlobStatus V)}
    {w : WorkingState V} {r : WorkingState V × List (BlobStatus V) × List (Attempt V)}
    (hal : List.Forall₂ Aligned blobs statuses)
    (h : applyTxBlobs priorIndices blockNumber w blobs statuses = .ok r) :
    r.2.1.countP (BlobStatus.applied t) = r.2.2.countP (Attempt.applied t) := by
  induction hal generalizing w r with
  | nil =>
    cases h
    rfl
  | @cons b s blobs statuses hbs _ ih =>
    cases b with
    | none =>
      rw [applyTxBlobs] at h
      obtain ⟨⟨w', ss, as⟩, hrest, h⟩ := bind_eq_ok h
      cases h
      have htail := ih hrest
      have hs : s.txFinal = none := hbs
      simp only [List.countP_cons, BlobStatus.applied, hs] at htail ⊢
      simpa using htail
    | some ip =>
      obtain ⟨i, p⟩ := ip
      rw [applyTxBlobs] at h
      obtain ⟨⟨rejection, w₁⟩, hstep, h⟩ := bind_eq_ok h
      obtain ⟨⟨w', ss, as⟩, hrest, h⟩ := bind_eq_ok h
      cases h
      have htail := ih hrest
      rw [show s = ⟨some p.txFinal, none⟩ from hbs]
      simp only [List.countP_cons] at htail ⊢
      rw [htail]
      cases rejection with
      | none => simp [BlobStatus.applied, Attempt.applied]
      | some error => simp [BlobStatus.applied, Attempt.applied]

theorem applyTxs_applied (t : V) {priorIndices : List (V × Nat)} {blockNumber : Nat}
    {txs : List (TargetTx V (Payload V))} {w : WorkingState V}
    {r : WorkingState V × List (TxStatus V) × List (Attempt V)}
    (hal : ∀ t ∈ txs, List.Forall₂ Aligned t.blobs t.status.blobs)
    (h : applyTxs priorIndices blockNumber w txs = .ok r) :
    (r.2.1.flatMap TxStatus.blobs).countP (BlobStatus.applied t) =
      r.2.2.countP (Attempt.applied t) := by
  induction txs generalizing w r with
  | nil =>
    cases h
    rfl
  | cons tx txs ih =>
    rw [applyTxs] at h
    obtain ⟨⟨w₁, ss, as⟩, hstep, h⟩ := bind_eq_ok h
    obtain ⟨⟨w₂, sts, bs⟩, hrest, h⟩ := bind_eq_ok h
    cases h
    have hfirst := applyTxBlobs_applied t (hal tx List.mem_cons_self) hstep
    have htail := ih (fun t' ht' => hal t' (List.mem_cons_of_mem tx ht')) hrest
    simp only [List.flatMap_cons, List.countP_append] at hfirst htail ⊢
    rw [hfirst, htail]

theorem statusRows_applied (t : V) (slot : Nat) (statuses : List (TxStatus V)) :
    (statusRows slot statuses).countP (TxStatusRow.applied t) =
      (statuses.flatMap TxStatus.blobs).countP (BlobStatus.applied t) := by
  induction statuses with
  | nil => rfl
  | cons st statuses ih =>
    have hrow : (st.blobs.zipIdx.map fun e =>
        (⟨slot, st.txHash, e.2, e.1.txFinal, e.1.error.map capError⟩ : TxStatusRow V)).countP
          (TxStatusRow.applied t) = st.blobs.countP (BlobStatus.applied t) := by
      rw [List.countP_map]
      conv_rhs => rw [← List.zipIdx_map_fst 0 st.blobs, List.countP_map]
      refine List.countP_congr fun e _ => ?_
      simp [TxStatusRow.applied, BlobStatus.applied]
    rw [List.flatMap_cons, List.countP_append, ← ih, ← hrow]
    simp [statusRows, List.countP_append]

/-- What a commit adds to the applied rows. -/
theorem Node.commitSlotAt_applied (t : V) {parser : BlobParser V} {n n' : Node V} {number : Nat}
    {slot : Slot} {as : List (Attempt V)} (h : n.commitSlotAt parser number slot = .ok (n', as)) :
    n'.stateLog.txStatuses.countP (TxStatusRow.applied t) =
      n.stateLog.txStatuses.countP (TxStatusRow.applied t) + as.countP (Attempt.applied t) := by
  unfold commitSlotAt at h
  obtain ⟨⟨processed, db, attempts⟩, hderive, h⟩ := bind_eq_ok h
  obtain ⟨log, hcommit, h⟩ := bind_eq_ok h
  cases h
  obtain ⟨-, -, hrows⟩ := commitSlot_spec hcommit
  rw [hrows, List.countP_append, statusRows_applied, Nat.add_comm, Nat.add_left_cancel_iff]
  unfold deriveFromContext at hderive
  cases hpay : slot.payload with
  | none =>
    simp only [fetchSlotContext, hpay] at hderive
    cases hderive
    rfl
  | some block =>
    simp only [fetchSlotContext, hpay] at hderive
    obtain ⟨⟨derived, statuses, db', attempts'⟩, hslot, hderive⟩ := bind_eq_ok hderive
    cases hderive
    unfold deriveSlot deriveSlotState at hslot
    obtain ⟨w, hstart, hslot⟩ := bind_eq_ok hslot
    obtain ⟨⟨w', statuses', attempts''⟩, happly, hslot⟩ := bind_eq_ok hslot
    obtain ⟨⟨state, history⟩, hfinish, hslot⟩ := bind_eq_ok hslot
    cases hslot
    exact applyTxs_applied t (fetchTargetBlobs_aligned parser slot.targetBlobTxs) happly

theorem Node.commitAll_applied (t : V) {parser : BlobParser V} {h : List (Nat × Slot)}
    {n n' : Node V} {as : List (Attempt V)} (hrun : n.commitAll parser h = .ok (n', as)) :
    n'.stateLog.txStatuses.countP (TxStatusRow.applied t) =
      n.stateLog.txStatuses.countP (TxStatusRow.applied t) + as.countP (Attempt.applied t) := by
  induction h generalizing n as with
  | nil =>
    cases hrun
    rfl
  | cons e h ih =>
    obtain ⟨number, slot⟩ := e
    rw [commitAll] at hrun
    obtain ⟨⟨n₁, as₁⟩, hstep, hrun⟩ := bind_eq_ok hrun
    obtain ⟨⟨n₂, as₂⟩, hrest, hrun⟩ := bind_eq_ok hrun
    cases hrun
    have hfirst := commitSlotAt_applied t hstep
    have htail := ih hrest
    rw [htail, hfirst, List.countP_append]
    omega

/-- A transaction that creates or nullifies something is applied once: the second call
meets what the first one put in the containers. -/
theorem Attempts.applied_once {G : Guard V} {p : Payload V} (hp : p.Verified G)
    (hne : p.created ≠ [] ∨ p.nullifiers ≠ []) {l : List V} {ns : Finset V}
    {as : List (Attempt V)} (h : Attempts G l ns as) :
    as.countP (Attempt.applied p.txFinal) ≤ 1 := by
  induction as generalizing l ns with
  | nil => simp
  | cons a as ih =>
    by_cases ha : Attempt.applied p.txFinal a = true
    · have hzero : as.countP (Attempt.applied p.txFinal) = 0 := by
        rw [List.countP_eq_zero]
        intro b hb hbt
        simp only [Attempt.applied, Bool.decide_and, Bool.and_eq_true, decide_eq_true_eq] at ha hbt
        obtain ⟨l', ns', hsb, hl', hn', -, -⟩ := h.2.mem_sound hb
        obtain ⟨hac, han⟩ := h.1.verified.sets_eq hp ha.1
        obtain ⟨hbc, hbn⟩ := hsb.verified.sets_eq hp hbt.1
        rcases hne with hne | hne
        · obtain ⟨x, hx⟩ := List.exists_mem_of_ne_nil _ hne
          refine hsb.fresh hbt.2 x ((hbc x).mpr hx) (hl' ?_)
          simp [Attempt.created, ha.2, (hac x).mpr hx]
        · obtain ⟨x, hx⟩ := List.exists_mem_of_ne_nil _ hne
          refine hsb.unspent hbt.2 x ((hbn x).mpr hx) (hn' ?_)
          simp [Attempt.nullifiers, ha.2, (han x).mpr hx]
      simp [ha, hzero]
    · have htail := ih h.2
      simpa [List.countP_cons, ha] using htail

/-- The status query reports an applied row exactly when the table has one. -/
theorem StateLogDb.txStatusByTxFinal_applied (log : StateLogDb V) (t : V) :
    (∃ r, log.txStatusByTxFinal t = some r ∧ r.error = none) ↔
      ∃ r ∈ log.txStatuses, r.txFinal = some t ∧ r.error = none := by
  constructor
  · rintro ⟨r, hr, herr⟩
    have hmem := TxStatusRow.first_mem hr
    rw [List.mem_filter] at hmem
    exact ⟨r, hmem.1, by simpa using hmem.2, herr⟩
  · rintro ⟨r, hr, ht, herr⟩
    have hmem : r ∈ log.txStatuses.filter fun r => r.txFinal = some t := by
      simp [hr, ht]
    cases hf : log.txStatusByTxFinal t with
    | none =>
      rw [txStatusByTxFinal, TxStatusRow.first_eq_none] at hf
      rw [hf] at hmem
      cases hmem
    | some q =>
      refine ⟨q, rfl, ?_⟩
      by_contra hq
      exact TxStatusRow.first_error hf hq r hmem herr

/-! ## The index at every node -/

theorem Node.commitAll_key {parser : BlobParser V} {h : List (Nat × Slot)} {n n' : Node V}
    {as : List (Attempt V)} (hn : (n.stateLog.createdIndex.map CreatedRow.commitment).Nodup)
    (hrun : n.commitAll parser h = .ok (n', as)) :
    (n'.stateLog.createdIndex.map CreatedRow.commitment).Nodup := by
  induction h generalizing n as with
  | nil =>
    cases hrun
    exact hn
  | cons e h ih =>
    obtain ⟨number, slot⟩ := e
    rw [commitAll] at hrun
    obtain ⟨⟨n₁, as₁⟩, hstep, hrun⟩ := bind_eq_ok hrun
    obtain ⟨⟨n₂, as₂⟩, hrest, hrun⟩ := bind_eq_ok hrun
    cases hrun
    refine ih ?_ hrest
    unfold commitSlotAt at hstep
    obtain ⟨⟨processed, db, attempts⟩, -, hstep⟩ := bind_eq_ok hstep
    obtain ⟨log, hcommit, hstep⟩ := bind_eq_ok hstep
    cases hstep
    exact commitSlot_key hcommit

/-- What the head of a node says about its containers; nothing is there before the first
slot with an execution block. -/
def Node.createdCount (n : Node V) : Nat :=
  n.stateLog.donStateAtHead.elim 0 fun s => s.metadata.createdCount

def Node.nullifierCount (n : Node V) : Nat :=
  n.stateLog.donStateAtHead.elim 0 fun s => s.metadata.nullifierCount

def Node.stateRootCount (n : Node V) : Nat :=
  n.stateLog.donStateAtHead.elim 0 fun s => s.metadata.stateRootCount

/-- The index is exact and replays are blocked, at a node whose head commits to the
containers `created`, `nullifiers` and `history`. -/
structure Node.IndexExact (G : Guard V) (parser : BlobParser V) (n : Node V)
    (created : Pod2.Array V) (nullifiers : Finset V) (history : Pod2.Array V) : Prop where
  commits : n.Commits created nullifiers
  commits_history :
    (n.stateLog.donStateAtHead.elim StateRoots.empty DonState.roots).nextStateHistory =
      ofArray history
  index : ∀ c i, (∃ r ∈ n.stateLog.createdIndex, r.commitment = c ∧ r.arrayIndex = i) ↔
    created.lookup i = some c
  distinct : ∀ i j c, created.lookup i = some c → created.lookup j = some c → i = j
  positions : ∀ i, (created.lookup i).isSome ↔ i < n.createdCount
  nullifier_count : n.nullifierCount = nullifiers.card
  history_positions : ∀ i, (history.lookup i).isSome ↔ i < n.stateRootCount
  commit_key : ∀ number ctx p db as, deriveFromContext parser n number ctx = .ok (p, db, as) →
    ((p.createdRows ++ n.stateLog.createdIndex).map CreatedRow.commitment).Nodup
  already_created : ∀ number ctx p db as, deriveFromContext parser n number ctx = .ok (p, db, as) →
    ∀ a ∈ as, ∀ rows : List (CreatedRow V), n.stateLog.createdIndex ⊆ rows →
      (rows.map CreatedRow.commitment).Nodup → ∀ candidates, ∀ x ∈ candidates,
        (alreadyCreated a.before
            (StateLogDb.createdIndices { n.stateLog with createdIndex := rows } candidates) x = true ↔
          ∃ i, a.before.created.lookup i = some x)
  applied_once : ∀ p : Payload V, p.Verified G → p.created ≠ [] ∨ p.nullifiers ≠ [] →
    n.stateLog.txStatuses.countP (TxStatusRow.applied p.txFinal) ≤ 1
  applied_reported : ∀ t, (∃ r, n.stateLog.txStatusByTxFinal t = some r ∧ r.error = none) ↔
    ∃ r ∈ n.stateLog.txStatuses, TxStatusRow.applied t r = true

omit [Values V] in
theorem Represents.isSome_iff {a : Pod2.Array V} {l : List V} (h : Represents a l) (i : Nat) :
    (a.lookup i).isSome ↔ i < l.length := by
  rw [h i]
  simp

theorem Node.Inv.createdCount_eq {n : Node V} {l : List V} {ns : Finset V} (h : n.Inv l ns) :
    n.createdCount = l.length := by
  have hhead := h.head
  unfold createdCount
  cases hs : n.stateLog.donStateAtHead with
  | none =>
    rw [hs] at hhead
    simp [hhead.1]
  | some s =>
    rw [hs] at hhead
    exact hhead.2.2

/-- The history and the counts that a backed head commits to. -/
theorem Node.Backed.counts {n : Node V} {l : List V} {ns : Finset V} (hb : n.Backed)
    (hn : n.Inv l ns) :
    n.nullifierCount = ns.card ∧ ∃ history hs,
      (n.stateLog.donStateAtHead.elim StateRoots.empty DonState.roots).nextStateHistory =
        ofArray history ∧ Represents history hs ∧ n.stateRootCount = hs.length := by
  have hhead := hn.head
  unfold nullifierCount stateRootCount
  cases hs : n.stateLog.donStateAtHead with
  | none =>
    rw [hs] at hhead
    refine ⟨by simp [hhead.2], ∅, [], ?_, Represents.nil, rfl⟩
    exact Values.ofArray_empty.symm
  | some s =>
    rw [hs] at hhead
    obtain ⟨-, ⟨ms, hopen, hcount⟩, ⟨a, hl, ha, hrep, hlen⟩⟩ := hb s hs
    have hms : ms = ns := by
      rw [← ofSet_inj, ContainerDb.openSet_root hopen]
      exact hhead.2.1
    refine ⟨by rw [← hms]; exact hcount, a, hl, ?_, hrep, hlen⟩
    exact (ContainerDb.openArray_root ha).symm

/-- After any commits and rollbacks the index is exact and replays are blocked. -/
theorem Node.created_index_exact {G : Guard V} {parser : BlobParser V} {initStartSlot : Nat}
    (hparser : parser.Sound G) (ops : List (NodeOp V)) :
    ∃ created nullifiers history,
      (Node.genesis.applyAll parser initStartSlot ops).IndexExact G parser created nullifiers
        history := by
  obtain ⟨h, ⟨base, as, hrun, hlog⟩, -, -⟩ :=
    (Node.Tracks.genesis parser initStartSlot).applyAll ops
  generalize (Node.genesis : Node V).applyAll parser initStartSlot ops = n at hlog
  obtain ⟨hinv, hatt⟩ := commitAll_spec hparser Node.Inv.genesis hrun
  have hbacked := commitAll_backed genesis_backed hrun
  have hkeys := commitAll_key (by simp [Node.genesis]) hrun
  simp only [List.nil_append, Finset.empty_union] at hinv
  obtain ⟨created, hrep, hcommits⟩ := hinv.commits
  obtain ⟨hnulls, history, hs, hroot, hhist, hcount⟩ := hbacked.counts hinv
  -- The derivations from the node are those from the run that its log comes from.
  have hderives : ∀ {number ctx p db as'},
      deriveFromContext parser n number ctx = .ok (p, db, as') → Derives base (createdBy as) p as' := by
    intro number ctx p db as' hd
    obtain ⟨db₀, hd₀⟩ := deriveFromContext_same hlog hbacked hd
    exact deriveFromContext_derives hparser hinv hd₀
  refine ⟨created, (nullifiersBy as).toFinset, history, ?_⟩
  refine ⟨?_, ?_, ?_, ?_, ?_, ?_, ?_, ?_, ?_, ?_, ?_⟩
  · unfold Commits at hcommits ⊢
    rw [← hlog]
    exact hcommits
  · rw [← hlog]
    exact hroot
  · intro c i
    rw [← hlog, hrep i]
    exact hinv.log.index c i
  · intro i j c hi hj
    rw [hrep] at hi hj
    obtain ⟨hi', hci⟩ := List.getElem?_eq_some_iff.mp hi
    obtain ⟨hj', hcj⟩ := List.getElem?_eq_some_iff.mp hj
    exact (hinv.nodup.getElem_inj_iff).mp (hci.trans hcj.symm)
  · intro i
    rw [hrep.isSome_iff, ← hinv.createdCount_eq, createdCount, createdCount, hlog]
  · rw [← hnulls, nullifierCount, nullifierCount, hlog]
  · intro i
    rw [hhist.isSome_iff, ← hcount, stateRootCount, stateRootCount, hlog]
  · intro number ctx p db as' hd
    have hkey := (hderives hd).key_nodup hinv.log hkeys
    rw [hlog] at hkey
    exact hkey
  · intro number ctx p db as' hd a ha rows hsub hnodup candidates x hx
    obtain ⟨l', hw⟩ := (hderives hd).calls a ha
    rw [← hlog] at hsub ⊢
    rw [alreadyCreated_stale hw hinv.log hsub hnodup hx, List.mem_iff_getElem?]
    simp only [hw.represents _]
  · intro p hp hne
    rw [← hlog, commitAll_applied p.txFinal hrun]
    have honce := hatt.applied_once hp hne
    simpa [Node.genesis] using honce
  · intro t
    rw [StateLogDb.txStatusByTxFinal_applied]
    simp [TxStatusRow.applied]

/-- Two slots, the second of which applies a payload, and a rollback of the second. -/
theorem Node.created_index_exact_rollback :
    ∃ created nullifiers history,
      (Node.genesis.applyAll (sampleParser (staleMine : Payload Term) freshMine) 1
        [.commit 0 (sampleSlot 0), .commit 0 (sampleSlot 1), .rollback 1,
          .commit 3 (sampleSlot 1)]).IndexExact (fun _ _ _ _ _ => True)
        (sampleParser staleMine freshMine) created nullifiers history :=
  Node.created_index_exact mineParser_sound _

end DigitalObjects.Synchronizer
