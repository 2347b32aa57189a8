import DigitalObjects.Synchronizer.Uniqueness
set_option autoImplicit false

/-!
When a rejection is final. Collisions only grow along a chain, and a verified payload's
`tx_final` fixes the sets of states and nullifiers it carries; the grounding root and
the order and repetition of the lists are not fixed by it.
-/

namespace DigitalObjects.Synchronizer

open Pod2 Lib Txlib

variable {V : Type} [Values V]

/-- Some state the payload creates is already in the created array the call saw, or some
nullifier it emits is already in the nullifier set. -/
def Attempt.Collides (a : Attempt V) : Prop :=
  (∃ x ∈ a.payload.created, ∃ i, a.before.created.lookup i = some x) ∨
  ∃ n ∈ a.payload.nullifiers, n ∈ a.before.nullifiers

/-- The public dictionary of a transaction commits to its two sets. -/
theorem Payload.Verified.sets_eq {G : Guard V} {p q : Payload V} (hp : p.Verified G)
    (hq : q.Verified G) (h : p.txFinal = q.txFinal) :
    (∀ x, x ∈ p.created ↔ x ∈ q.created) ∧ ∀ n, n ∈ p.nullifiers ↔ n ∈ q.nullifiers := by
  obtain ⟨_, _, hpc, -⟩ := hp.certified
  obtain ⟨_, _, hqc, -⟩ := hq.certified
  rw [hpc.txFinal_eq, hqc.txFinal_eq, ofDict_inj] at h
  have hcreated := congrArg (fun d => d.lookup "created") h
  have hnullifiers := congrArg (fun d => d.lookup "nullifiers") h
  simp only [lookup_scopeDict, String.reduceEq, if_true, if_false, Option.some.injEq,
    ofSet_inj] at hcreated hnullifiers
  refine ⟨fun x => ?_, fun n => ?_⟩
  · rw [← List.mem_toFinset, hcreated, List.mem_toFinset]
  · rw [← List.mem_toFinset, hnullifiers, List.mem_toFinset]

theorem Attempts.mem_sound {G : Guard V} {l : List V} {ns : Finset V} {as : List (Attempt V)}
    (h : Attempts G l ns as) {a : Attempt V} (ha : a ∈ as) :
    ∃ l' ns', a.Sound G l' ns' ∧ l ⊆ l' ∧ ns ⊆ ns' ∧
      l' ⊆ l ++ createdBy as ∧ ns' ⊆ ns ∪ (nullifiersBy as).toFinset := by
  induction as generalizing l ns with
  | nil => cases ha
  | cons b as ih =>
    rcases List.mem_cons.mp ha with rfl | ha
    · exact ⟨l, ns, h.1, List.Subset.refl l, Finset.Subset.refl ns,
        List.subset_append_left _ _, Finset.subset_union_left⟩
    · obtain ⟨l', ns', hsound, hl, hn, hl', hn'⟩ := ih h.2 ha
      refine ⟨l', ns', hsound, ?_, ?_, ?_, ?_⟩
      · exact fun x hx => hl (List.mem_append_left _ hx)
      · exact fun n hmem => hn (Finset.mem_union_left _ hmem)
      · simpa [createdBy, List.append_assoc] using hl'
      · simpa [nullifiersBy, Finset.union_assoc] using hn'

/-- After a call that collided, every later call for the same `tx_final` is rejected. -/
theorem Attempts.rejected_after_collision {G : Guard V} {l : List V} {ns : Finset V}
    {as bs : List (Attempt V)} (has : Attempts G l ns as)
    (hbs : Attempts G (l ++ createdBy as) (ns ∪ (nullifiersBy as).toFinset) bs)
    {a b : Attempt V} (ha : a ∈ as) (hb : b ∈ bs) (hfinal : b.payload.txFinal = a.payload.txFinal)
    (hcol : a.Collides) : b.rejection ≠ none := by
  intro hb'
  obtain ⟨la, na, hsa, -, -, hla, hna⟩ := has.mem_sound ha
  obtain ⟨lb, nb, hsb, hlb, hnb, -, -⟩ := hbs.mem_sound hb
  obtain ⟨hcreated, hnullifiers⟩ := hsb.verified.sets_eq hsa.verified hfinal
  rcases hcol with ⟨x, hx, i, hi⟩ | ⟨n, hn, hmem⟩
  · rw [hsa.created_eq i] at hi
    exact hsb.fresh hb' x ((hcreated x).mpr hx) (hlb (hla (List.mem_of_getElem? hi)))
  · rw [hsa.nullifiers_eq] at hmem
    exact hsb.unspent hb' n ((hnullifiers n).mpr hn) (hnb (hna hmem))

/-! The status table. Rows are only added, and a row with a `tx_final` records the answer
of a call for it. -/

/-- How a parsed blob and its status go together before the slot is derived. -/
def Aligned (b : Option (Nat × Payload V)) (s : BlobStatus V) : Prop :=
  match b with
  | none => s.txFinal = none
  | some (_, p) => s = ⟨some p.txFinal, none⟩

omit [Values V] in
theorem parseTxBlobs_aligned (parser : BlobParser V) (blobs : List (Except String (Nat × Bytes)))
    (statuses : List (BlobStatus V))
    (hs : List.Forall₂ (fun b s => s.txFinal = none ∧ (b.toOption.isSome = true → s.error = none))
      blobs statuses) :
    List.Forall₂ Aligned (parseTxBlobs parser (blobs.map Except.toOption) statuses).1
      (parseTxBlobs parser (blobs.map Except.toOption) statuses).2 := by
  induction hs with
  | nil => exact .nil
  | @cons b s blobs statuses hbs _ ih =>
    cases b with
    | error err => exact .cons hbs.1 ih
    | ok ib =>
      obtain ⟨i, bytes⟩ := ib
      simp only [List.map_cons, Except.toOption, parseTxBlobs] at ih ⊢
      cases parser bytes with
      | error err => exact .cons hbs.1 ih
      | ok o =>
        cases o with
        | none => exact .cons hbs.1 ih
        | some p =>
          refine .cons ?_ ih
          have herr := hbs.2 rfl
          simp [Aligned, herr]

omit [Values V] in
theorem fetchTargetBlobs_aligned (parser : BlobParser V) (txs : List TargetBlobTx) :
    ∀ t ∈ parseBlobs parser (fetchTargetBlobs txs), List.Forall₂ Aligned t.blobs t.status.blobs := by
  intro t ht
  obtain ⟨t₀, ht₀, rfl⟩ := List.mem_map.mp ht
  obtain ⟨tx, -, rfl⟩ := List.mem_map.mp ht₀
  apply parseTxBlobs_aligned
  rw [List.forall₂_map_right_iff, List.forall₂_same]
  intro b _
  cases b with
  | error err => simp [Except.toOption]
  | ok ib => simp

/-- A status with a `tx_final` is the answer of one of the calls. -/
def Answers (as : List (Attempt V)) (s : BlobStatus V) : Prop :=
  ∀ t, s.txFinal = some t → ∃ a ∈ as, a.payload.txFinal = t ∧ a.rejection = s.error

omit [Values V] in
theorem Answers.mono {as bs : List (Attempt V)} {s : BlobStatus V} (h : Answers as s)
    (hsub : as ⊆ bs) : Answers bs s := by
  intro t ht
  obtain ⟨a, ha, heq⟩ := h t ht
  exact ⟨a, hsub ha, heq⟩

theorem applyTxBlobs_answers {priorIndices : List (V × Nat)} {blockNumber : Nat}
    {blobs : List (Option (Nat × Payload V))} {statuses : List (BlobStatus V)}
    {w : WorkingState V} {r : WorkingState V × List (BlobStatus V) × List (Attempt V)}
    (hal : List.Forall₂ Aligned blobs statuses)
    (h : applyTxBlobs priorIndices blockNumber w blobs statuses = .ok r) :
    ∀ s ∈ r.2.1, Answers r.2.2 s := by
  induction hal generalizing w r with
  | nil =>
    cases h
    simp
  | @cons b s blobs statuses hbs _ ih =>
    cases b with
    | none =>
      rw [applyTxBlobs] at h
      obtain ⟨⟨w', ss, as⟩, hrest, h⟩ := bind_eq_ok h
      cases h
      have htail := ih hrest
      simp only [List.mem_cons, forall_eq_or_imp]
      refine ⟨?_, htail⟩
      intro t ht
      rw [show s.txFinal = none from hbs] at ht
      cases ht
    | some ip =>
      obtain ⟨i, p⟩ := ip
      rw [applyTxBlobs] at h
      obtain ⟨⟨rejection, w₁⟩, hstep, h⟩ := bind_eq_ok h
      obtain ⟨⟨w', ss, as⟩, hrest, h⟩ := bind_eq_ok h
      cases h
      have htail := ih hrest
      rw [show s = ⟨some p.txFinal, none⟩ from hbs]
      simp only [List.mem_cons, forall_eq_or_imp]
      refine ⟨?_, fun q hq => (htail q hq).mono (List.subset_cons_self _ _)⟩
      intro t ht
      refine ⟨_, List.mem_cons_self, ?_⟩
      cases rejection with
      | none => exact ⟨Option.some.inj ht, rfl⟩
      | some error => exact ⟨Option.some.inj ht, rfl⟩

theorem applyTxs_answers {priorIndices : List (V × Nat)} {blockNumber : Nat}
    {txs : List (TargetTx V (Payload V))} {w : WorkingState V}
    {r : WorkingState V × List (TxStatus V) × List (Attempt V)}
    (hal : ∀ t ∈ txs, List.Forall₂ Aligned t.blobs t.status.blobs)
    (h : applyTxs priorIndices blockNumber w txs = .ok r) :
    ∀ st ∈ r.2.1, ∀ s ∈ st.blobs, Answers r.2.2 s := by
  induction txs generalizing w r with
  | nil =>
    cases h
    simp
  | cons t txs ih =>
    rw [applyTxs] at h
    obtain ⟨⟨w₁, ss, as⟩, hstep, h⟩ := bind_eq_ok h
    obtain ⟨⟨w₂, sts, bs⟩, hrest, h⟩ := bind_eq_ok h
    cases h
    have hfirst := applyTxBlobs_answers (hal t List.mem_cons_self) hstep
    have htail := ih (fun t' ht' => hal t' (List.mem_cons_of_mem t ht')) hrest
    simp only [List.mem_cons, forall_eq_or_imp]
    exact ⟨fun s hs => (hfirst s hs).mono (List.subset_append_left _ _),
      fun st hst s hs => (htail st hst s hs).mono (List.subset_append_right _ _)⟩

/-- What a step of the node adds to the status table. -/
structure Logged (n n' : Node V) (as : List (Attempt V)) (rows : List (TxStatusRow V)) : Prop where
  rows_eq : n'.stateLog.txStatuses = rows ++ n.stateLog.txStatuses
  answered : ∀ r ∈ rows, ∀ t, r.txFinal = some t →
    ∃ a ∈ as, a.payload.txFinal = t ∧ (r.error = none ↔ a.rejection = none)

omit [Values V] in
theorem statusRows_answered {slot : Nat} {statuses : List (TxStatus V)} {as : List (Attempt V)}
    (h : ∀ st ∈ statuses, ∀ s ∈ st.blobs, Answers as s) :
    ∀ r ∈ statusRows slot statuses, ∀ t, r.txFinal = some t →
      ∃ a ∈ as, a.payload.txFinal = t ∧ (r.error = none ↔ a.rejection = none) := by
  intro r hr t ht
  obtain ⟨st, hst, hr⟩ := List.mem_flatMap.mp hr
  obtain ⟨⟨s, i⟩, hs, rfl⟩ := List.mem_map.mp hr
  obtain ⟨a, ha, hfinal, herr⟩ := h st hst s (List.fst_mem_of_mem_zipIdx hs) t ht
  refine ⟨a, ha, hfinal, ?_⟩
  rw [herr, Option.map_eq_none_iff]

theorem Node.processSlot_logged {parser : BlobParser V} {initStartSlot : Nat} {n n' : Node V}
    {slot : Slot} {as : List (Attempt V)}
    (h : n.processSlot parser initStartSlot slot = .ok (n', as)) :
    ∃ rows, Logged n n' as rows := by
  unfold processSlot at h
  obtain ⟨⟨processed, db, attempts⟩, hderive, h⟩ := bind_eq_ok h
  obtain ⟨log, hcommit, h⟩ := bind_eq_ok h
  cases h
  obtain ⟨-, -, hrows⟩ := commitSlot_spec hcommit
  refine ⟨_, hrows, ?_⟩
  apply statusRows_answered
  unfold deriveFromContext at hderive
  cases hpay : slot.payload with
  | none =>
    simp only [fetchSlotContext, hpay] at hderive
    cases hderive
    simp
  | some block =>
    simp only [fetchSlotContext, hpay] at hderive
    obtain ⟨⟨derived, statuses, db', attempts'⟩, hslot, hderive⟩ := bind_eq_ok hderive
    cases hderive
    unfold deriveSlot deriveSlotState at hslot
    obtain ⟨w, hstart, hslot⟩ := bind_eq_ok hslot
    obtain ⟨⟨w', statuses', attempts''⟩, happly, hslot⟩ := bind_eq_ok hslot
    obtain ⟨⟨state, history⟩, hfinish, hslot⟩ := bind_eq_ok hslot
    cases hslot
    exact applyTxs_answers (fetchTargetBlobs_aligned parser slot.targetBlobTxs) happly

theorem Node.run_logged {parser : BlobParser V} {initStartSlot : Nat} {slots : List Slot}
    {n n' : Node V} {as : List (Attempt V)} (h : n.run parser initStartSlot slots = .ok (n', as)) :
    ∃ rows, Logged n n' as rows := by
  induction slots generalizing n as with
  | nil =>
    cases h
    exact ⟨[], rfl, by simp⟩
  | cons slot slots ih =>
    rw [run] at h
    obtain ⟨⟨n₁, as₁⟩, hstep, h⟩ := bind_eq_ok h
    obtain ⟨⟨n₂, as₂⟩, hrest, h⟩ := bind_eq_ok h
    cases h
    obtain ⟨rows₁, heq₁, hans₁⟩ := processSlot_logged hstep
    obtain ⟨rows₂, heq₂, hans₂⟩ := ih hrest
    refine ⟨rows₂ ++ rows₁, by rw [heq₂, heq₁, List.append_assoc], ?_⟩
    intro r hr t ht
    rcases List.mem_append.mp hr with hr | hr
    · obtain ⟨a, ha, hspec⟩ := hans₂ r hr t ht
      exact ⟨a, List.mem_append_right _ ha, hspec⟩
    · obtain ⟨a, ha, hspec⟩ := hans₁ r hr t ht
      exact ⟨a, List.mem_append_left _ ha, hspec⟩

/-- A rejection whose payload collides with the state the call saw is final: no extension
of the chain applies a payload with that `tx_final`, and a status that reports an error
never turns into an applied one. -/
theorem Node.colliding_rejection_final {G : Guard V} {parser : BlobParser V} {initStartSlot : Nat}
    {slots more : List Slot} {n n' : Node V} {as bs : List (Attempt V)} {t : V}
    (hparser : parser.Sound G)
    (hrun : Node.genesis.run parser initStartSlot slots = .ok (n, as))
    (hmore : n.run parser initStartSlot more = .ok (n', bs))
    (hcollide : ∀ a ∈ as, a.payload.txFinal = t → a.rejection ≠ none → a.Collides) :
    (∀ a ∈ as, a.payload.txFinal = t → a.rejection ≠ none →
      ∀ b ∈ bs, b.payload.txFinal = t → b.rejection ≠ none) ∧
    ∀ r, n.stateLog.txStatusByTxFinal t = some r → r.error ≠ none →
      ∀ r', n'.stateLog.txStatusByTxFinal t = some r' → r'.error ≠ none := by
  obtain ⟨hinv, has⟩ := Node.run_spec hparser Node.Inv.genesis hrun
  obtain ⟨-, hbs⟩ := Node.run_spec hparser hinv hmore
  have hfinal : ∀ a ∈ as, a.payload.txFinal = t → a.rejection ≠ none →
      ∀ b ∈ bs, b.payload.txFinal = t → b.rejection ≠ none := fun a ha hat har b hb hbt =>
    has.rejected_after_collision hbs ha hb (hbt.trans hat.symm) (hcollide a ha hat har)
  refine ⟨hfinal, ?_⟩
  intro r hr herr r' hr' hnone
  obtain ⟨rows, heq, hans⟩ := Node.run_logged hrun
  obtain ⟨rows', heq', hans'⟩ := Node.run_logged hmore
  -- The error on record is the answer of some call of the first run.
  have hmem := TxStatusRow.first_mem hr
  rw [List.mem_filter, heq, List.mem_append] at hmem
  obtain ⟨hmem | hmem, hrt⟩ := hmem
  · simp only [decide_eq_true_eq] at hrt
    obtain ⟨a, ha, hat, haerr⟩ := hans r hmem t hrt
    -- An applied row would be new, for the old rows are no better than the error.
    have hmem' := TxStatusRow.first_mem hr'
    rw [List.mem_filter, heq', List.mem_append] at hmem'
    obtain ⟨hmem' | hmem', hrt'⟩ := hmem'
    · simp only [decide_eq_true_eq] at hrt'
      obtain ⟨b, hb, hbt, hberr⟩ := hans' r' hmem' t hrt'
      exact hfinal a ha hat (fun h => herr (haerr.mpr h)) b hb hbt (hberr.mp hnone)
    · exact TxStatusRow.first_error hr herr r' (List.mem_filter.mpr ⟨hmem', hrt'⟩) hnone
  · cases hmem

/-- A second slot that carries the same mining payload twice: the second copy collides. -/
theorem sample_repeat :
    ∃ (n : Node V) (a : Attempt V), (sampleNode []).processSlot (sampleParser staleMine freshMine) 1
        ⟨some (sampleBlock 1), [⟨1, [.ok (0, [1]), .ok (1, [1])]⟩]⟩ =
          .ok (n, [⟨sampleWorking, freshMine, none⟩, a]) ∧
      a.payload = freshMine ∧ a.before = sampleApplied (stamped sampleObject) ∧
      a.rejection ≠ none := by
  have hfirst := sample_apply (q := (freshMine : Payload V)) (o := stamped sampleObject) rfl rfl rfl
  have hsecond : applyPayload (sampleApplied (stamped sampleObject)) (freshMine : Payload V) [] 1 =
      .ok (some "Created object already exists (creation collision)",
        sampleApplied (stamped sampleObject)) := by
    have hage : groundingAgedOut 1 0 = false := by decide
    simp [applyPayload, sampleApplied, sampleWorking, freshMine, minedPayload, hage,
      createdCollision, firstCollision, alreadyCreated]
  have happly : applyTxs [] 1 sampleWorking (parseBlobs (sampleParser staleMine freshMine)
      (fetchTargetBlobs [⟨1, [.ok (0, [1]), .ok (1, [1])]⟩])) =
      .ok (sampleApplied (stamped sampleObject), [⟨1, [⟨some (freshMine : Payload V).txFinal, none⟩,
        ⟨some freshMine.txFinal, some "Created object already exists (creation collision)"⟩]⟩],
        [⟨sampleWorking, freshMine, none⟩, ⟨sampleApplied (stamped sampleObject), freshMine,
          some "Created object already exists (creation collision)"⟩]) := by
    simp [parseBlobs, parseTxBlobs, fetchTargetBlobs, Except.toOption, sampleParser, applyTxs,
      applyTxBlobs, bind, Except.bind, hfirst, hsecond]
  obtain ⟨n, hslot, -⟩ := sample_second [] happly (by simp [statusRows])
  exact ⟨n, _, hslot, rfl, rfl, by simp⟩

theorem sample_empty (parser : BlobParser V) :
    Node.genesis.processSlot parser 1 ⟨some (sampleBlock 0), []⟩ = .ok (sampleNode [], []) := by
  simp [Node.processSlot, deriveFromContext, deriveSlot, deriveSlotState, startWorking,
    Node.genesis, Node.nextSlot, sampleBlock, parseBlobs, fetchSlotContext, fetchTargetBlobs,
    StateLogDb.donStateAtHead, StateLogDb.recentStateRoots, ContainerDb.openArray,
    ContainerDb.openSet, StateRoots.empty, bind, Except.bind, applyTxs, finishState, commitSlot,
    statusRows, StateLogDb.createdIndices, StateLogDb.lastProcessedSlot, sampleNode, sampleState,
    sampleHeader, sampleHistory]

/-- The theorem at a chain where a transaction is mined and its payload is seen again. -/
theorem Node.colliding_rejection_final_repeat :
    ∃ (n : Node Term) (as : List (Attempt Term)),
      Node.genesis.run (sampleParser staleMine freshMine) 1 [⟨some (sampleBlock 0), []⟩,
        ⟨some (sampleBlock 1), [⟨1, [.ok (0, [1]), .ok (1, [1])]⟩]⟩] = .ok (n, as) ∧
      (∃ a ∈ as, a.payload.txFinal = (freshMine : Payload Term).txFinal ∧ a.rejection ≠ none) ∧
      ∀ (more : List Slot) (n' : Node Term) (bs : List (Attempt Term)),
        n.run (sampleParser staleMine freshMine) 1 more = .ok (n', bs) →
        ∀ b ∈ bs, b.payload.txFinal = (freshMine : Payload Term).txFinal → b.rejection ≠ none := by
  obtain ⟨n, a, hslot, hap, hbefore, har⟩ := sample_repeat (V := Term)
  have hrun : Node.genesis.run (sampleParser staleMine freshMine) 1 [⟨some (sampleBlock 0), []⟩,
      ⟨some (sampleBlock 1), [⟨1, [.ok (0, [1]), .ok (1, [1])]⟩]⟩] =
      .ok (n, [⟨sampleWorking, freshMine, none⟩, a]) := by
    simp [Node.run, sample_empty, hslot, bind, Except.bind]
  have hcollide : a.Collides := by
    refine .inl ⟨stamped sampleObject, ?_, 0, ?_⟩
    · rw [hap]
      exact List.mem_cons_self
    · rw [hbefore]
      simp [sampleApplied]
  have ha : a.payload.txFinal = (freshMine : Payload Term).txFinal := by rw [hap]
  refine ⟨n, _, hrun, ⟨a, by simp, ha, har⟩, ?_⟩
  intro more n' bs hmore
  have hfinal := Node.colliding_rejection_final (t := (freshMine : Payload Term).txFinal)
    mineParser_sound hrun hmore (by
      intro b hb _ hbr
      rcases List.mem_cons.mp hb with rfl | hb
      · exact absurd rfl hbr
      · rw [List.mem_singleton.mp hb]
        exact hcollide)
  exact hfinal.1 a (by simp) ha har

/-- A rejection for a missing root is not final: the same transaction, proved again at a
committed root, is applied in the next slot, and its status turns from an error to applied. -/
theorem Node.missing_root_rejection_not_final :
    ∃ (n n' : Node Term) (a b : Attempt Term) (r r' : TxStatusRow Term),
      (sampleParser (staleMine : Payload Term) freshMine).Sound (fun _ _ _ _ _ => True) ∧
      Node.genesis.run (sampleParser staleMine freshMine) 1 [sampleSlot 0] = .ok (n, [a]) ∧
      n.run (sampleParser staleMine freshMine) 1 [sampleSlot 1] = .ok (n', [b]) ∧
      a.payload.txFinal = (staleMine : Payload Term).txFinal ∧ a.rejection = some missingRoot ∧
      b.payload.txFinal = (staleMine : Payload Term).txFinal ∧ b.rejection = none ∧
      n.stateLog.txStatusByTxFinal (staleMine : Payload Term).txFinal = some r ∧ r.error ≠ none ∧
      n'.stateLog.txStatusByTxFinal (staleMine : Payload Term).txFinal = some r' ∧
        r'.error = none := by
  obtain ⟨n, a, hfirst, hap, har, hsecond, hrows⟩ :=
    sample_run (p := (staleMine : Payload Term)) (q := freshMine) rfl rfl rfl
  have hsame : (freshMine : Payload Term).txFinal = (staleMine : Payload Term).txFinal := rfl
  refine ⟨sampleNode [rejectedRow staleMine.txFinal], n, a, ⟨sampleWorking, freshMine, none⟩,
    rejectedRow staleMine.txFinal, ⟨2, 1, 0, some staleMine.txFinal, none⟩, mineParser_sound,
    ?_, ?_, by rw [hap], har, hsame, rfl, ?_, by simp [rejectedRow], ?_, rfl⟩
  · simp [Node.run, hfirst, bind, Except.bind]
  · simp [Node.run, hsecond, bind, Except.bind]
  · simp [StateLogDb.txStatusByTxFinal, sampleNode, rejectedRow, TxStatusRow.first]
  · rw [StateLogDb.txStatusByTxFinal, hrows, hsame]
    simp [rejectedRow, TxStatusRow.first, TxStatusRow.before]

end DigitalObjects.Synchronizer
