import DigitalObjects.Synchronizer.Finality
set_option autoImplicit false

/-!
Commits and rollbacks in any order. The log of every state they reach is the log of a run
that commits the slots it still holds, and nothing else, from genesis on.
-/

namespace DigitalObjects.Synchronizer

open Pod2 Lib Txlib

variable {V : Type}

/-- Delete the slots after `keepSlot` and their created-index rows. The statuses of a
deleted slot go with it by cascade. -/
def StateLogDb.rollbackToSlot (log : StateLogDb V) (keepSlot : Nat) : StateLogDb V :=
  let deleted := (log.slots.filter fun r => keepSlot < r.slot).map SlotRow.slot
  ⟨log.slots.filter fun r => ¬ keepSlot < r.slot, log.createdIndex.filter fun r => ¬ keepSlot < r.slot,
    log.txStatuses.filter fun r => r.slot ∉ deleted⟩

section Values

variable [Values V]

/-- Slots committed one after another under their numbers. -/
def Node.commitAll (parser : BlobParser V) :
    Node V → List (Nat × Slot) → Except Fault (Node V × List (Attempt V))
  | n, [] => .ok (n, [])
  | n, (number, slot) :: rest => do
    let (n, as) ← n.commitSlotAt parser number slot
    let (n, bs) ← Node.commitAll parser n rest
    .ok (n, as ++ bs)

/-- What happens to the node. A derivation that is not committed leaves containers behind;
these are content-addressed, so any others may be there too. -/
inductive NodeOp (V : Type) where
  | commit (gap : Nat) (slot : Slot)
  | rollback (keepSlot : Nat)
  | orphan (extra : ContainerDb V)

/-- A commit that fails leaves the tables as they were. -/
def Node.apply (parser : BlobParser V) (initStartSlot : Nat) (n : Node V) : NodeOp V → Node V
  | .commit gap slot => match n.commitSlotAt parser (n.nextSlot initStartSlot + gap) slot with
    | .ok (n', _) => n'
    | .error _ => n
  | .rollback keepSlot => ⟨n.containers, n.stateLog.rollbackToSlot keepSlot⟩
  | .orphan extra =>
    ⟨⟨extra.arrays ++ n.containers.arrays, extra.sets ++ n.containers.sets⟩, n.stateLog⟩

def Node.applyAll (parser : BlobParser V) (initStartSlot : Nat) (n : Node V)
    (ops : List (NodeOp V)) : Node V :=
  ops.foldl (Node.apply parser initStartSlot) n

theorem Node.commitAll_append {parser : BlobParser V} {n : Node V} {h h' : List (Nat × Slot)}
    {n₁ n₂ : Node V} {as bs : List (Attempt V)} (h₁ : n.commitAll parser h = .ok (n₁, as))
    (h₂ : n₁.commitAll parser h' = .ok (n₂, bs)) :
    n.commitAll parser (h ++ h') = .ok (n₂, as ++ bs) := by
  induction h generalizing n as with
  | nil =>
    cases h₁
    exact h₂
  | cons e h ih =>
    obtain ⟨number, slot⟩ := e
    rw [commitAll] at h₁
    obtain ⟨⟨n₃, as₁⟩, hstep, h₁⟩ := bind_eq_ok h₁
    obtain ⟨⟨n₄, as₂⟩, hrest, h₁⟩ := bind_eq_ok h₁
    cases h₁
    have htail := ih hrest
    rw [List.cons_append, commitAll]
    simp [hstep, htail, bind, Except.bind, List.append_assoc]

theorem Node.commitAll_append_inv {parser : BlobParser V} {n n₂ : Node V}
    {h h' : List (Nat × Slot)} {cs : List (Attempt V)}
    (hall : n.commitAll parser (h ++ h') = .ok (n₂, cs)) :
    ∃ n₁ as bs, n.commitAll parser h = .ok (n₁, as) ∧ n₁.commitAll parser h' = .ok (n₂, bs) ∧
      cs = as ++ bs := by
  induction h generalizing n cs with
  | nil => exact ⟨n, [], cs, rfl, hall, rfl⟩
  | cons e h ih =>
    obtain ⟨number, slot⟩ := e
    rw [List.cons_append, commitAll] at hall
    obtain ⟨⟨n₃, as₁⟩, hstep, hall⟩ := bind_eq_ok hall
    obtain ⟨⟨n₄, as₂⟩, hrest, hall⟩ := bind_eq_ok hall
    cases hall
    obtain ⟨n₁, as, bs, h₁, h₂, rfl⟩ := ih hrest
    refine ⟨n₁, as₁ ++ as, bs, ?_, h₂, by rw [List.append_assoc]⟩
    rw [commitAll]
    simp [hstep, h₁, bind, Except.bind]

/-- What one commit writes: rows of its own slot only. -/
structure Writes (log log' : StateLogDb V) (number : Nat) : Prop where
  slots : ∃ state, log'.slots = ⟨number, state⟩ :: log.slots
  index : ∃ rows, (∀ r ∈ rows, r.slot = number) ∧ log'.createdIndex = rows ++ log.createdIndex
  statuses : ∃ rows, (∀ r ∈ rows, r.slot = number) ∧ log'.txStatuses = rows ++ log.txStatuses
  fresh : number ∉ log.slots.map SlotRow.slot

theorem deriveFromContext_slot {parser : BlobParser V} {n : Node V} {number : Nat}
    {ctx : SlotContext V} {r : ProcessedSlot V × ContainerDb V × List (Attempt V)}
    (h : deriveFromContext parser n number ctx = .ok r) : r.1.slot = number := by
  unfold deriveFromContext at h
  cases hpay : ctx.payload with
  | none =>
    simp only [hpay] at h
    cases h
    rfl
  | some block =>
    simp only [hpay] at h
    obtain ⟨⟨derived, statuses, db, attempts⟩, -, h⟩ := bind_eq_ok h
    cases h
    rfl

theorem Node.commitSlotAt_writes {parser : BlobParser V} {n n' : Node V} {number : Nat}
    {slot : Slot} {as : List (Attempt V)} (h : n.commitSlotAt parser number slot = .ok (n', as)) :
    Writes n.stateLog n'.stateLog number := by
  unfold commitSlotAt at h
  obtain ⟨⟨p, db, attempts⟩, hderive, h⟩ := bind_eq_ok h
  obtain ⟨log, hcommit, h⟩ := bind_eq_ok h
  cases h
  have hslot := deriveFromContext_slot hderive
  obtain ⟨hslots, hindex, hstatuses⟩ := commitSlot_spec hcommit
  simp only at hslot
  refine ⟨⟨_, hslot ▸ hslots⟩, ⟨_, ?_, hindex⟩, ⟨_, ?_, hstatuses⟩, ?_⟩
  · intro r hr
    cases hd : p.derived with
    | none => simp [hd] at hr
    | some d =>
      simp only [hd, Option.elim_some] at hr
      obtain ⟨e, -, rfl⟩ := List.mem_map.mp hr
      exact hslot
  · intro r hr
    obtain ⟨st, -, hr⟩ := List.mem_flatMap.mp hr
    obtain ⟨e, -, rfl⟩ := List.mem_map.mp hr
    exact hslot
  · intro hmem
    unfold commitSlot at hcommit
    rw [hslot, if_pos hmem] at hcommit
    cases hcommit

/-- Every row belongs to a committed slot. -/
structure StateLogDb.Owned (log : StateLogDb V) (numbers : List Nat) : Prop where
  slots : log.slots.map SlotRow.slot = numbers.reverse
  index : ∀ r ∈ log.createdIndex, r.slot ∈ numbers
  statuses : ∀ r ∈ log.txStatuses, r.slot ∈ numbers

omit [Values V] in
theorem StateLogDb.Owned.write {log log' : StateLogDb V} {numbers : List Nat} {number : Nat}
    (h : log.Owned numbers) (hw : Writes log log' number) : log'.Owned (numbers ++ [number]) := by
  obtain ⟨⟨state, hslots⟩, ⟨rows, hrows, hindex⟩, ⟨srows, hsrows, hstatuses⟩, -⟩ := hw
  refine ⟨?_, ?_, ?_⟩
  · rw [hslots, List.map_cons, h.slots, List.reverse_append]
    rfl
  · intro r hr
    rw [hindex, List.mem_append] at hr
    rcases hr with hr | hr
    · simp [hrows r hr]
    · exact List.mem_append_left _ (h.index r hr)
  · intro r hr
    rw [hstatuses, List.mem_append] at hr
    rcases hr with hr | hr
    · simp [hsrows r hr]
    · exact List.mem_append_left _ (h.statuses r hr)

theorem Node.commitAll_owned {parser : BlobParser V} {h : List (Nat × Slot)} {n n' : Node V}
    {as : List (Attempt V)} {numbers : List Nat} (hn : n.stateLog.Owned numbers)
    (hrun : n.commitAll parser h = .ok (n', as)) :
    n'.stateLog.Owned (numbers ++ h.map Prod.fst) := by
  induction h generalizing n as numbers with
  | nil =>
    cases hrun
    simpa using hn
  | cons e h ih =>
    obtain ⟨number, slot⟩ := e
    rw [commitAll] at hrun
    obtain ⟨⟨n₁, as₁⟩, hstep, hrun⟩ := bind_eq_ok hrun
    obtain ⟨⟨n₂, as₂⟩, hrest, hrun⟩ := bind_eq_ok hrun
    cases hrun
    have htail := ih (hn.write (commitSlotAt_writes hstep)) hrest
    simpa using htail

theorem genesis_owned : (Node.genesis : Node V).stateLog.Owned [] := by
  refine ⟨rfl, ?_, ?_⟩ <;> simp [Node.genesis]

/-- A rollback to a slot that no number exceeds changes nothing. -/
theorem StateLogDb.Owned.rollback_eq {log : StateLogDb V} {numbers : List Nat} {keepSlot : Nat}
    (h : log.Owned numbers) (hkeep : ∀ k ∈ numbers, k ≤ keepSlot) :
    log.rollbackToSlot keepSlot = log := by
  have hslots : ∀ r ∈ log.slots, ¬ keepSlot < r.slot := by
    intro r hr
    have hmem : r.slot ∈ numbers := by
      rw [← List.mem_reverse, ← h.slots]
      exact List.mem_map_of_mem hr
    have hle := hkeep _ hmem
    omega
  have hindex : ∀ r ∈ log.createdIndex, ¬ keepSlot < r.slot := by
    intro r hr
    have hle := hkeep _ (h.index r hr)
    omega
  have hdeleted : log.slots.filter (fun r => keepSlot < r.slot) = [] := by
    rw [List.filter_eq_nil_iff]
    simpa using hslots
  unfold rollbackToSlot
  rw [hdeleted, List.filter_eq_self.mpr (by simpa using hslots),
    List.filter_eq_self.mpr (by simpa using hindex)]
  simp

/-- A rollback undoes a later commit. -/
theorem Writes.rollback_eq {log log' : StateLogDb V} {number keepSlot : Nat} {numbers : List Nat}
    (hw : Writes log log' number) (hlog : log.Owned numbers) (hlt : keepSlot < number) :
    log'.rollbackToSlot keepSlot = log.rollbackToSlot keepSlot := by
  obtain ⟨⟨state, hslots⟩, ⟨rows, hrows, hindex⟩, ⟨srows, hsrows, hstatuses⟩, hfresh⟩ := hw
  have hnumber : number ∉ numbers := by
    rw [hlog.slots, List.mem_reverse] at hfresh
    exact hfresh
  have hrow : rows.filter (fun r => ¬ keepSlot < r.slot) = [] := by
    rw [List.filter_eq_nil_iff]
    intro r hr
    simp [hrows r hr, hlt]
  have hsrow : srows.filter (fun r => r.slot ∉ number ::
      (log.slots.filter fun r => keepSlot < r.slot).map SlotRow.slot) = [] := by
    rw [List.filter_eq_nil_iff]
    intro r hr
    simp [hsrows r hr]
  have hold : log.txStatuses.filter (fun r => r.slot ∉ number ::
      (log.slots.filter fun r => keepSlot < r.slot).map SlotRow.slot) =
      log.txStatuses.filter (fun r => r.slot ∉
        (log.slots.filter fun r => keepSlot < r.slot).map SlotRow.slot) := by
    refine List.filter_congr fun r hr => ?_
    have hne : r.slot ≠ number := fun heq => hnumber (heq ▸ hlog.statuses r hr)
    simp [hne]
  unfold StateLogDb.rollbackToSlot
  rw [hslots, hindex, hstatuses]
  simp only [List.filter_cons, hlt, decide_true, if_true, not_true, decide_false,
    Bool.false_eq_true, if_false, List.map_cons, List.filter_append, hrow, hsrow, hold,
    List.nil_append]

/-- What a rollback leaves is what committing only the kept slots gives. -/
theorem Node.commitAll_rollback {parser : BlobParser V} {h : List (Nat × Slot)} {n : Node V}
    {as : List (Attempt V)} (hrun : Node.genesis.commitAll parser h = .ok (n, as))
    (hinc : (h.map Prod.fst).Pairwise (· < ·)) (keepSlot : Nat) :
    ∃ n' as', Node.genesis.commitAll parser (h.filter fun e => e.1 ≤ keepSlot) = .ok (n', as') ∧
      n'.stateLog = n.stateLog.rollbackToSlot keepSlot := by
  induction h using List.reverseRecOn generalizing n as with
  | nil =>
    cases hrun
    exact ⟨_, _, rfl, (genesis_owned.rollback_eq (by simp)).symm⟩
  | append_singleton h e ih =>
    obtain ⟨number, slot⟩ := e
    have hall := commitAll_owned genesis_owned hrun
    obtain ⟨n₁, as₁, bs, h₁, h₂, -⟩ := commitAll_append_inv hrun
    rw [commitAll] at h₂
    obtain ⟨⟨n₂, as₂⟩, hstep, h₂⟩ := bind_eq_ok h₂
    cases h₂
    rw [List.map_append, List.pairwise_append] at hinc
    by_cases hkeep : number ≤ keepSlot
    · have hbound : ∀ k ∈ [] ++ (h ++ [(number, slot)]).map Prod.fst, k ≤ keepSlot := by
        intro k hk
        rw [List.nil_append, List.map_append, List.mem_append] at hk
        rcases hk with hk | hk
        · have hlt := hinc.2.2 k hk number (by simp)
          omega
        · simp only [List.map_cons, List.map_nil, List.mem_singleton] at hk
          omega
      have hself : (h ++ [(number, slot)]).filter (fun e => e.1 ≤ keepSlot) =
          h ++ [(number, slot)] := by
        rw [List.filter_eq_self]
        intro e he
        have hle := hbound e.1 (List.mem_map_of_mem he)
        simpa using hle
      rw [hself]
      exact ⟨_, _, hrun, (hall.rollback_eq hbound).symm⟩
    · obtain ⟨n', as', hrun', hlog⟩ := ih h₁ hinc.1
      have hwrites := commitSlotAt_writes hstep
      have hdrop : (h ++ [(number, slot)]).filter (fun e => e.1 ≤ keepSlot) =
          h.filter fun e => e.1 ≤ keepSlot := by
        simp [hkeep]
      rw [hdrop]
      refine ⟨n', as', hrun', ?_⟩
      rw [hwrites.rollback_eq (commitAll_owned genesis_owned h₁) (by omega)]
      exact hlog

/-! ## Containers and counts -/

/-- The containers of a state are in the store, and its counts are theirs. -/
structure DonState.Backed (s : DonState V) (db : ContainerDb V) : Prop where
  created : ∃ a, db.openArray s.roots.created = .ok a
  nullifiers : ∃ ns, db.openSet s.roots.nullifiers = .ok ns ∧ s.metadata.nullifierCount = ns.card
  history : ∃ a l, db.openArray s.roots.nextStateHistory = .ok a ∧ Represents a l ∧
    s.metadata.stateRootCount = l.length

def Node.Backed (n : Node V) : Prop :=
  ∀ s, n.stateLog.donStateAtHead = some s → s.Backed n.containers

/-- The positions that a slot adds are in the order of the list, below the count. -/
structure WorkingState.Ordered (w : WorkingState V) : Prop where
  pairwise : (w.createdAdded.map Prod.snd).Pairwise (· > ·)
  bound : ∀ i ∈ w.createdAdded.map Prod.snd, i < w.createdCount

/-- What the payloads of a slot keep of the working state. -/
structure Keeps (w w' : WorkingState V) : Prop where
  count : w.nullifierCount = w.nullifiers.card → w'.nullifierCount = w'.nullifiers.card
  history : w'.nextStateHistory = w.nextStateHistory
  ordered : w.Ordered → w'.Ordered

omit [Values V] in
theorem Keeps.refl (w : WorkingState V) : Keeps w w := ⟨id, rfl, id⟩

omit [Values V] in
theorem Keeps.trans {w w₁ w₂ : WorkingState V} (h : Keeps w w₁) (h' : Keeps w₁ w₂) : Keeps w w₂ :=
  ⟨fun hc => h'.count (h.count hc), h'.history.trans h.history, fun ho => h'.ordered (h.ordered ho)⟩

omit [Values V] in
theorem appendCreated_keeps {objs : List V} {w w' : WorkingState V}
    (h : appendCreated w objs = .ok w') : Keeps w w' := by
  induction objs generalizing w with
  | nil =>
    cases h
    exact .refl _
  | cons obj objs ih =>
    rw [appendCreated] at h
    split at h
    · cases h
    · have htail := ih h
      refine ⟨htail.count, htail.history, fun ho => htail.ordered ⟨?_, ?_⟩⟩
      · simp only [List.map_cons, List.pairwise_cons]
        exact ⟨ho.bound, ho.pairwise⟩
      · intro i hi
        simp only [List.map_cons, List.mem_cons] at hi
        rcases hi with rfl | hi
        · simp
        · have hlt := ho.bound i hi
          simp only
          omega

theorem insertNullifiers_keeps {ns : List V} {w w' : WorkingState V}
    (h : insertNullifiers w ns = .ok w') : Keeps w w' := by
  induction ns generalizing w with
  | nil =>
    cases h
    exact .refl _
  | cons n ns ih =>
    rw [insertNullifiers] at h
    split at h
    · cases h
    · rename_i hn
      have htail := ih h
      refine ⟨fun hc => htail.count ?_, htail.history, fun ho => htail.ordered ⟨?_, ?_⟩⟩
      · simp [Finset.card_insert_of_notMem hn, hc]
      · exact ho.pairwise
      · exact ho.bound

theorem applyPayload_keeps {w : WorkingState V} {p : Payload V} {prior : List (V × Nat)}
    {blockNumber : Nat} {r : Option String × WorkingState V}
    (h : applyPayload w p prior blockNumber = .ok r) : Keeps w r.2 := by
  unfold applyPayload at h
  split at h
  · cases h
    exact .refl w
  split at h
  · cases h
    exact .refl w
  split at h
  · cases h
    exact .refl w
  split at h
  · cases h
    exact .refl w
  obtain ⟨w₁, h₁, h⟩ := bind_eq_ok h
  obtain ⟨w₂, h₂, h⟩ := bind_eq_ok h
  cases h
  exact (appendCreated_keeps h₁).trans (insertNullifiers_keeps h₂)

theorem applyTxBlobs_keeps {prior : List (V × Nat)} {blockNumber : Nat}
    {blobs : List (Option (Nat × Payload V))} {statuses : List (BlobStatus V)} {w : WorkingState V}
    {r : WorkingState V × List (BlobStatus V) × List (Attempt V)}
    (h : applyTxBlobs prior blockNumber w blobs statuses = .ok r) : Keeps w r.1 := by
  induction blobs generalizing statuses w r with
  | nil =>
    cases h
    exact .refl w
  | cons b blobs ih =>
    cases statuses with
    | nil =>
      cases b <;> cases h <;> exact .refl w
    | cons s statuses =>
      cases b with
      | none =>
        rw [applyTxBlobs] at h
        obtain ⟨r', hrest, h⟩ := bind_eq_ok h
        cases h
        have htail := ih hrest
        exact htail
      | some ip =>
        obtain ⟨i, p⟩ := ip
        rw [applyTxBlobs] at h
        obtain ⟨⟨rejection, w₁⟩, hstep, h⟩ := bind_eq_ok h
        obtain ⟨r', hrest, h⟩ := bind_eq_ok h
        cases h
        have htail := ih hrest
        exact (applyPayload_keeps hstep).trans htail

theorem applyTxs_keeps {prior : List (V × Nat)} {blockNumber : Nat}
    {txs : List (TargetTx V (Payload V))} {w : WorkingState V}
    {r : WorkingState V × List (TxStatus V) × List (Attempt V)}
    (h : applyTxs prior blockNumber w txs = .ok r) : Keeps w r.1 := by
  induction txs generalizing w r with
  | nil =>
    cases h
    exact .refl w
  | cons t txs ih =>
    rw [applyTxs] at h
    obtain ⟨⟨w₁, blobs, as⟩, hstep, h⟩ := bind_eq_ok h
    obtain ⟨⟨w₂, statuses, bs⟩, hrest, h⟩ := bind_eq_ok h
    cases h
    have htail := ih hrest
    exact (applyTxBlobs_keeps hstep).trans htail

/-- The containers that a slot starts from, and their counts. -/
theorem startWorking_backed {n : Node V} {roots : List (V × Int)} {w : WorkingState V}
    (hn : n.Backed) (h : startWorking n.containers n.stateLog.donStateAtHead roots = .ok w) :
    w.nullifierCount = w.nullifiers.card ∧ ∃ l, Represents w.nextStateHistory l ∧
      (n.stateLog.donStateAtHead.elim 0 fun s => s.metadata.stateRootCount) = l.length := by
  unfold startWorking at h
  obtain ⟨created, hcre, h⟩ := bind_eq_ok h
  obtain ⟨nullifiers, hnull, h⟩ := bind_eq_ok h
  obtain ⟨history, hhist, h⟩ := bind_eq_ok h
  obtain rfl := Except.ok.inj h
  cases hs : n.stateLog.donStateAtHead with
  | none =>
    rw [hs] at hnull hhist
    simp only [Option.elim_none, StateRoots.empty] at hnull hhist
    rw [show (Pod2.empty : V) = ofSet ∅ from Values.ofSet_empty.symm,
      ContainerDb.openSet_empty] at hnull
    rw [show (Pod2.empty : V) = ofArray ∅ from Values.ofArray_empty.symm,
      ContainerDb.openArray_empty] at hhist
    cases hnull
    cases hhist
    exact ⟨rfl, [], Represents.nil, rfl⟩
  | some s =>
    rw [hs] at hnull hhist
    obtain ⟨-, ⟨ns, hns, hcount⟩, ⟨a, l, ha, hrep, hlen⟩⟩ := hn s hs
    simp only [Option.elim_some] at hnull hhist
    rw [hns] at hnull
    rw [ha] at hhist
    cases hnull
    cases hhist
    exact ⟨hcount, l, hrep, hlen⟩

theorem finishState_backed {base : Option (DonState V)} {block : ExecutionBlock}
    {w : WorkingState V} {r : DonState V × Pod2.Array V} {l : List V} (db : ContainerDb V)
    (hcount : w.nullifierCount = w.nullifiers.card)
    (hrep : Represents w.nextStateHistory l)
    (hlen : (base.elim 0 fun s => s.metadata.stateRootCount) = l.length)
    (h : finishState base block w = .ok r) :
    r.1.Backed ⟨w.created :: r.2 :: db.arrays, w.nullifiers :: db.sets⟩ := by
  unfold finishState at h
  simp only at h
  split at h
  · cases h
  · obtain rfl := Except.ok.inj h
    refine ⟨⟨w.created, ContainerDb.openArray_mem (by simp)⟩,
      ⟨w.nullifiers, ContainerDb.openSet_mem (by simp), hcount⟩,
      ⟨_, l ++ [(stateHeader block (ofArray w.created) (ofSet w.nullifiers)
        (base.elim StateRoots.empty DonState.roots).nextStateHistory).hash],
        ContainerDb.openArray_mem (by simp), ?_, ?_⟩⟩
    · rw [hlen]
      exact hrep.append _
    · rw [hlen]
      simp

theorem Node.commitSlotAt_backed {parser : BlobParser V} {n n' : Node V} {number : Nat}
    {slot : Slot} {as : List (Attempt V)} (hn : n.Backed)
    (h : n.commitSlotAt parser number slot = .ok (n', as)) : n'.Backed := by
  unfold commitSlotAt at h
  obtain ⟨⟨p, db, attempts⟩, hderive, h⟩ := bind_eq_ok h
  obtain ⟨log, hcommit, h⟩ := bind_eq_ok h
  cases h
  obtain ⟨hslots, -, -⟩ := commitSlot_spec hcommit
  unfold deriveFromContext at hderive
  cases hpay : slot.payload with
  | none =>
    simp only [fetchSlotContext, hpay] at hderive
    cases hderive
    intro s hs
    rw [StateLogDb.donStateAtHead, hslots] at hs
    exact hn s hs
  | some block =>
    simp only [fetchSlotContext, hpay] at hderive
    obtain ⟨⟨derived, statuses, db', attempts'⟩, hslot, hderive⟩ := bind_eq_ok hderive
    cases hderive
    unfold deriveSlot deriveSlotState at hslot
    obtain ⟨w, hstart, hslot⟩ := bind_eq_ok hslot
    obtain ⟨⟨w', statuses', attempts''⟩, happly, hslot⟩ := bind_eq_ok hslot
    obtain ⟨⟨state, history⟩, hfinish, hslot⟩ := bind_eq_ok hslot
    cases hslot
    obtain ⟨hcount, l, hrep, hlen⟩ := startWorking_backed hn hstart
    have hkeeps := applyTxs_keeps happly
    have hback := finishState_backed n.containers (hkeeps.count hcount)
      (by rw [hkeeps.history]; exact hrep) hlen hfinish
    intro s hs
    rw [StateLogDb.donStateAtHead, hslots] at hs
    cases hs
    exact hback

theorem Node.commitAll_backed {parser : BlobParser V} {h : List (Nat × Slot)} {n n' : Node V}
    {as : List (Attempt V)} (hn : n.Backed) (hrun : n.commitAll parser h = .ok (n', as)) :
    n'.Backed := by
  induction h generalizing n as with
  | nil =>
    cases hrun
    exact hn
  | cons e h ih =>
    obtain ⟨number, slot⟩ := e
    rw [commitAll] at hrun
    obtain ⟨⟨n₁, as₁⟩, hstep, hrun⟩ := bind_eq_ok hrun
    obtain ⟨⟨n₂, as₂⟩, hrest, hrun⟩ := bind_eq_ok hrun
    cases hrun
    exact ih (commitSlotAt_backed hn hstep) hrest

theorem genesis_backed : (Node.genesis : Node V).Backed := by
  intro s hs
  cases hs

/-- A root opens to one container, whatever else is in the store. -/
theorem startWorking_same {n n₀ : Node V} {roots : List (V × Int)} {w : WorkingState V}
    (hlog : n₀.stateLog = n.stateLog) (hn : n₀.Backed)
    (h : startWorking n.containers n.stateLog.donStateAtHead roots = .ok w) :
    startWorking n₀.containers n.stateLog.donStateAtHead roots = .ok w := by
  unfold startWorking at h ⊢
  obtain ⟨created, hcre, h⟩ := bind_eq_ok h
  obtain ⟨nullifiers, hnull, h⟩ := bind_eq_ok h
  obtain ⟨history, hhist, h⟩ := bind_eq_ok h
  have hopens : n₀.containers.openArray
        (n.stateLog.donStateAtHead.elim StateRoots.empty DonState.roots).created = .ok created ∧
      n₀.containers.openSet
        (n.stateLog.donStateAtHead.elim StateRoots.empty DonState.roots).nullifiers =
          .ok nullifiers ∧
      n₀.containers.openArray
        (n.stateLog.donStateAtHead.elim StateRoots.empty DonState.roots).nextStateHistory =
          .ok history := by
    cases hs : n.stateLog.donStateAtHead with
    | none =>
      rw [hs] at hcre hnull hhist
      simp only [Option.elim_none, StateRoots.empty] at hcre hnull hhist ⊢
      exact ⟨by simpa [ContainerDb.openArray] using hcre, by simpa [ContainerDb.openSet] using hnull,
        by simpa [ContainerDb.openArray] using hhist⟩
    | some s =>
      rw [hs] at hcre hnull hhist
      simp only [Option.elim_some] at hcre hnull hhist ⊢
      obtain ⟨⟨a, ha⟩, ⟨ns, hns, -⟩, ⟨b, l, hb, -, -⟩⟩ := hn s (by rw [hlog]; exact hs)
      have hac : a = created := by
        rw [← ofArray_inj, ContainerDb.openArray_root ha, ContainerDb.openArray_root hcre]
      have hnc : ns = nullifiers := by
        rw [← ofSet_inj, ContainerDb.openSet_root hns, ContainerDb.openSet_root hnull]
      have hbc : b = history := by
        rw [← ofArray_inj, ContainerDb.openArray_root hb, ContainerDb.openArray_root hhist]
      exact ⟨hac ▸ ha, hnc ▸ hns, hbc ▸ hb⟩
  simp only [hopens.1, hopens.2.1, hopens.2.2]
  exact h

/-- The same derivation on the store of a run from genesis. -/
theorem deriveFromContext_same {parser : BlobParser V} {n n₀ : Node V} {number : Nat}
    {ctx : SlotContext V} {p : ProcessedSlot V} {db : ContainerDb V} {as : List (Attempt V)}
    (hlog : n₀.stateLog = n.stateLog) (hn : n₀.Backed)
    (h : deriveFromContext parser n number ctx = .ok (p, db, as)) :
    ∃ db₀, deriveFromContext parser n₀ number ctx = .ok (p, db₀, as) := by
  unfold deriveFromContext at h ⊢
  cases hpay : ctx.payload with
  | none =>
    simp only [hpay] at h ⊢
    cases h
    exact ⟨_, rfl⟩
  | some block =>
    simp only [hpay] at h ⊢
    obtain ⟨⟨derived, statuses, db', attempts'⟩, hslot, h⟩ := bind_eq_ok h
    cases h
    unfold deriveSlot deriveSlotState at hslot
    obtain ⟨w, hstart, hslot⟩ := bind_eq_ok hslot
    obtain ⟨⟨w', statuses', attempts''⟩, happly, hslot⟩ := bind_eq_ok hslot
    obtain ⟨⟨state, history⟩, hfinish, hslot⟩ := bind_eq_ok hslot
    cases hslot
    have hstart₀ := startWorking_same hlog hn hstart
    rw [hlog]
    unfold deriveSlot deriveSlotState
    rw [hlog, hstart₀]
    simp only [bind, Except.bind]
    simp only [happly, hfinish]
    exact ⟨_, rfl⟩

theorem Node.commitSlotAt_same {parser : BlobParser V} {n n₀ n' : Node V} {number : Nat}
    {slot : Slot} {as : List (Attempt V)} (hlog : n₀.stateLog = n.stateLog) (hn : n₀.Backed)
    (h : n.commitSlotAt parser number slot = .ok (n', as)) :
    ∃ n₀', n₀.commitSlotAt parser number slot = .ok (n₀', as) ∧ n₀'.stateLog = n'.stateLog := by
  unfold commitSlotAt at h ⊢
  obtain ⟨⟨p, db, attempts⟩, hderive, h⟩ := bind_eq_ok h
  obtain ⟨log, hcommit, h⟩ := bind_eq_ok h
  cases h
  obtain ⟨db₀, hderive₀⟩ := deriveFromContext_same hlog hn hderive
  rw [hderive₀]
  simp only [bind, Except.bind, hlog, hcommit]
  exact ⟨_, rfl, rfl⟩

/-! ## Histories -/

/-- The log of the node is what committing `h` on an empty database gives. -/
structure Node.Tracks (parser : BlobParser V) (initStartSlot : Nat) (n : Node V)
    (h : List (Nat × Slot)) : Prop where
  run : ∃ base as, Node.genesis.commitAll parser h = .ok (base, as) ∧ base.stateLog = n.stateLog
  increasing : (h.map Prod.fst).Pairwise (· < ·)
  bounded : ∀ k ∈ h.map Prod.fst, initStartSlot ≤ k

theorem Node.Tracks.genesis (parser : BlobParser V) (initStartSlot : Nat) :
    (Node.genesis : Node V).Tracks parser initStartSlot [] :=
  ⟨⟨_, _, rfl, rfl⟩, by simp, by simp⟩

theorem Node.Tracks.slots {parser : BlobParser V} {initStartSlot : Nat} {n : Node V}
    {h : List (Nat × Slot)} (ht : n.Tracks parser initStartSlot h) :
    n.stateLog.slots.map SlotRow.slot = (h.map Prod.fst).reverse := by
  obtain ⟨⟨base, as, hrun, hlog⟩, -, -⟩ := ht
  have howned := commitAll_owned genesis_owned hrun
  rw [hlog, List.nil_append] at howned
  exact howned.slots

/-- The next slot is after every committed one. -/
theorem Node.Tracks.lt_nextSlot {parser : BlobParser V} {initStartSlot : Nat} {n : Node V}
    {h : List (Nat × Slot)} (ht : n.Tracks parser initStartSlot h) :
    initStartSlot ≤ n.nextSlot initStartSlot ∧
      ∀ k ∈ h.map Prod.fst, k < n.nextSlot initStartSlot := by
  have hhead := congrArg List.head? ht.slots
  obtain ⟨-, hinc, hbound⟩ := ht
  unfold nextSlot StateLogDb.lastProcessedSlot
  rw [List.head?_map, List.head?_reverse] at hhead
  rw [hhead]
  cases hlast : (h.map Prod.fst).getLast? with
  | none =>
    rw [List.getLast?_eq_none_iff] at hlast
    rw [hlast]
    exact ⟨le_refl _, by simp⟩
  | some k =>
    obtain ⟨ks, hks⟩ := List.getLast?_eq_some_iff.mp hlast
    rw [hks] at hinc hbound ⊢
    have hk := hbound k (by simp)
    refine ⟨by simp only [Option.elim_some]; omega, ?_⟩
    intro j hj
    simp only [Option.elim_some]
    rcases List.mem_append.mp hj with hj | hj
    · have hlt := (List.pairwise_append.mp hinc).2.2 j hj k (by simp)
      omega
    · rw [List.mem_singleton.mp hj]
      omega

theorem Node.Tracks.commit {parser : BlobParser V} {initStartSlot : Nat} {n n' : Node V}
    {h : List (Nat × Slot)} {number : Nat} {slot : Slot} {as : List (Attempt V)}
    (ht : n.Tracks parser initStartSlot h) (hnumber : n.nextSlot initStartSlot ≤ number)
    (hstep : n.commitSlotAt parser number slot = .ok (n', as)) :
    n'.Tracks parser initStartSlot (h ++ [(number, slot)]) := by
  have hnext := ht.lt_nextSlot
  obtain ⟨⟨base, bs, hrun, hlog⟩, hinc, hbound⟩ := ht
  obtain ⟨base', hstep', hlog'⟩ := commitSlotAt_same hlog (commitAll_backed genesis_backed hrun) hstep
  refine ⟨⟨base', bs ++ (as ++ []), commitAll_append hrun ?_, hlog'⟩, ?_, ?_⟩
  · rw [commitAll, hstep']
    rfl
  · rw [List.map_append, List.pairwise_append]
    refine ⟨hinc, by simp, ?_⟩
    intro k hk j hj
    have hlt := hnext.2 k hk
    simp only [List.map_cons, List.map_nil, List.mem_singleton] at hj
    omega
  · intro k hk
    rw [List.map_append, List.mem_append] at hk
    rcases hk with hk | hk
    · exact hbound k hk
    · simp only [List.map_cons, List.map_nil, List.mem_singleton] at hk
      omega

theorem Node.Tracks.rollback {parser : BlobParser V} {initStartSlot : Nat} {n : Node V}
    {h : List (Nat × Slot)} (ht : n.Tracks parser initStartSlot h) (keepSlot : Nat) :
    Node.Tracks parser initStartSlot ⟨n.containers, n.stateLog.rollbackToSlot keepSlot⟩
      (h.filter fun e => e.1 ≤ keepSlot) := by
  obtain ⟨⟨base, as, hrun, hlog⟩, hinc, hbound⟩ := ht
  obtain ⟨n', as', hrun', hlog'⟩ := commitAll_rollback hrun hinc keepSlot
  have hsub : (h.filter fun e => e.1 ≤ keepSlot).Sublist h := List.filter_sublist
  refine ⟨⟨n', as', hrun', by rw [hlog', hlog]⟩, hinc.sublist (hsub.map Prod.fst), ?_⟩
  intro k hk
  exact hbound k ((hsub.map Prod.fst).subset hk)

/-- Whatever happens to a node, it tracks a history. -/
theorem Node.Tracks.apply {parser : BlobParser V} {initStartSlot : Nat} {n : Node V}
    {h : List (Nat × Slot)} (ht : n.Tracks parser initStartSlot h) (op : NodeOp V) :
    ∃ h', (n.apply parser initStartSlot op).Tracks parser initStartSlot h' := by
  cases op with
  | commit gap slot =>
    cases hstep : n.commitSlotAt parser (n.nextSlot initStartSlot + gap) slot with
    | error e =>
      simp only [Node.apply, hstep]
      exact ⟨h, ht⟩
    | ok r =>
      simp only [Node.apply, hstep]
      exact ⟨_, ht.commit (Nat.le_add_right _ gap) hstep⟩
  | rollback keepSlot => exact ⟨_, ht.rollback keepSlot⟩
  | orphan extra => exact ⟨h, ht.run, ht.increasing, ht.bounded⟩

theorem Node.Tracks.applyAll {parser : BlobParser V} {initStartSlot : Nat} {n : Node V}
    {h : List (Nat × Slot)} (ht : n.Tracks parser initStartSlot h) (ops : List (NodeOp V)) :
    ∃ h', (n.applyAll parser initStartSlot ops).Tracks parser initStartSlot h' := by
  induction ops generalizing n h with
  | nil => exact ⟨h, ht⟩
  | cons op ops ih =>
    obtain ⟨h', ht'⟩ := ht.apply op
    exact ih ht'

end Values

end DigitalObjects.Synchronizer
