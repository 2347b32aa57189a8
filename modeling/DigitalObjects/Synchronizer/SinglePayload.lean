import DigitalObjects.Synchronizer.Window
set_option autoImplicit false

/-!
Chains whose blocks hold at most one payload. Every block derives, and what it leaves is that of the
one call of `apply_payload`.
-/

namespace DigitalObjects.Synchronizer

open Pod2 Txlib

variable {V : Type} [Values V]

/-- A block with one blob, which the parser reads as the payload, or with none. -/
def blockOf (block : ExecutionBlock) (p : Option (Payload V)) : Slot :=
  ⟨some block, p.elim [] fun _ => [⟨block.number, [.ok (0, [])]⟩]⟩

/-- Derive a block at the head, and commit it under its number. -/
def Node.commitBlock (n : Node V) (block : ExecutionBlock) (p : Option (Payload V)) :
    Except Fault (Node V × List (Attempt V)) :=
  n.commitSlotAt (fun _ => .ok p) block.number (blockOf block p)

def Node.commitBlocks : Node V → List (ExecutionBlock × Option (Payload V)) → Except Fault (Node V)
  | n, [] => .ok n
  | n, (block, p) :: blocks => do
    let (n, _) ← n.commitBlock block p
    n.commitBlocks blocks

theorem Node.commitBlocks_append {n n' : Node V} {as bs : List (ExecutionBlock × Option (Payload V))}
    (h : n.commitBlocks as = .ok n') : n.commitBlocks (as ++ bs) = n'.commitBlocks bs := by
  induction as generalizing n with
  | nil =>
    cases h
    rfl
  | cons a as ih =>
    obtain ⟨block, p⟩ := a
    rw [commitBlocks] at h
    obtain ⟨⟨n₁, attempts⟩, hstep, h⟩ := bind_eq_ok h
    have htail := ih h
    simp only [List.cons_append, commitBlocks, hstep, bind, Except.bind]
    exact htail

/-! ## One block -/

/-- The transactions of the block, parsed. -/
def blockTxs (block : ExecutionBlock) (p : Option (Payload V)) : List (TargetTx V (Payload V)) :=
  parseBlobs (fun _ => .ok p) (fetchTargetBlobs (blockOf block p).targetBlobTxs)

omit [Values V] in
theorem payloadsOf_blockTxs (block : ExecutionBlock) (p : Option (Payload V)) :
    payloadsOf (blockTxs block p) = p.toList := by
  cases p <;> rfl

omit [Values V] in
theorem candidatesOf_blockTxs (block : ExecutionBlock) (p : Option (Payload V)) :
    candidatesOf (blockTxs block p) = p.elim [] Payload.created := by
  cases p with
  | none => rfl
  | some q =>
    have hflat : candidatesOf (blockTxs block (some q)) = (q.created ++ []) ++ [] := rfl
    simpa using hflat

omit [Values V] in
theorem lined_blockTxs (block : ExecutionBlock) (p : Option (Payload V)) : Lined (blockTxs block p) :=
  parseBlobs_lined _ (fetchTargetBlobs_lined _)

omit [Values V] in
/-- The status rows of the block have its number, and one key each. -/
theorem statusRows_blockTxs {block : ExecutionBlock} {p : Option (Payload V)} {as : List (Attempt V)}
    {sts : List (TxStatus V)} (h : TxOutcomes (blockTxs block p) as sts) :
    (∀ r ∈ statusRows block.number sts, r.txHash = block.number) ∧
      ((statusRows block.number sts).map fun r => (r.txHash, r.txBlobIndex)).Nodup := by
  cases p with
  | none =>
    have hnil : TxOutcomes [] as sts := h
    cases hnil
    simp [statusRows]
  | some q =>
    have hone : TxOutcomes [⟨[some (0, q)], ⟨block.number, [⟨some q.txFinal, none⟩]⟩⟩] as sts := h
    cases hone with
    | cons hblobs hrest =>
      cases hrest
      cases hblobs with
      | tried i s a hblobs =>
        cases hblobs
        simp [statusRows]

/-- A slot whose rows repeat no key is committed. -/
theorem commitSlot_ok {log : StateLogDb V} {p : ProcessedSlot V} (hslot : p.slot ∉ log.slots.map SlotRow.slot)
    (hrows : ((p.createdRows ++ log.createdIndex).map CreatedRow.commitment).Nodup)
    (hstatuses : ((statusRows p.slot p.txStatuses ++ log.txStatuses).map
      fun r => (r.txHash, r.txBlobIndex)).Nodup) :
    commitSlot log p = .ok ⟨⟨p.slot, p.derived.map DerivedSlot.state⟩ :: log.slots,
      p.createdRows ++ log.createdIndex, statusRows p.slot p.txStatuses ++ log.txStatuses⟩ := by
  unfold commitSlot
  unfold ProcessedSlot.createdRows at hrows ⊢
  simp only [if_neg hslot, hrows, hstatuses, not_true_eq_false, if_false]

/-- A node whose log holds nothing of the block `next` or a later one. -/
structure Node.Below (n : Node V) (l : List V) (next : Nat) : Prop where
  tally : n.stateLog.Tally l
  stocked : n.Stocked
  rooted : n.Rooted
  keys : (n.stateLog.createdIndex.map CreatedRow.commitment).Nodup
  slots : ∀ row ∈ n.stateLog.slots, row.slot < next ∧ ∀ s, row.state = some s → s.metadata.block.number < next
  statuses : ∀ r ∈ n.stateLog.txStatuses, r.txHash < next
  status_keys : (n.stateLog.txStatuses.map fun r => (r.txHash, r.txBlobIndex)).Nodup

theorem Node.Below.genesis (next : Nat) : (Node.genesis : Node V).Below [] next := by
  refine ⟨Node.genesis_tally, Node.genesis_stocked, fun row hrow => (by cases hrow), by simp [Node.genesis],
    fun row hrow => (by cases hrow), fun r hr => (by cases hr), by simp [Node.genesis]⟩

/-- The working state opens the containers of the base state. -/
theorem startWorking_roots {db : ContainerDb V} {base : Option (DonState V)} {roots : List (V × Int)}
    {w : WorkingState V} (h : startWorking db base roots = .ok w) :
    ofArray w.created = (base.elim StateRoots.empty DonState.roots).created ∧
      ofSet w.nullifiers = (base.elim StateRoots.empty DonState.roots).nullifiers ∧
      ofArray w.nextStateHistory = (base.elim StateRoots.empty DonState.roots).nextStateHistory ∧
      w.nullifierCount = (base.elim 0 fun s => s.metadata.nullifierCount) ∧ w.createdAdded = [] := by
  unfold startWorking at h
  obtain ⟨created, hcreated, h⟩ := bind_eq_ok h
  obtain ⟨nullifiers, hnullifiers, h⟩ := bind_eq_ok h
  obtain ⟨history, hhistory, h⟩ := bind_eq_ok h
  obtain rfl := Except.ok.inj h
  exact ⟨ContainerDb.openArray_root hcreated, ContainerDb.openSet_root hnullifiers,
    ContainerDb.openArray_root hhistory, rfl, rfl⟩

/-- What `finishState_spec` leaves out: the history and the counts. -/
theorem finishState_history {base : Option (DonState V)} {block : ExecutionBlock} {w : WorkingState V}
    {state : DonState V} {history : Pod2.Array V} (h : finishState base block w = .ok (state, history)) :
    state.roots.priorStateHistory = (base.elim StateRoots.empty DonState.roots).nextStateHistory ∧
      state.roots.nextStateHistory = ofArray (w.nextStateHistory.insert
        (base.elim 0 fun s => s.metadata.stateRootCount) state.metadata.stateRoot) ∧
      state.metadata.block = block ∧ state.metadata.nullifierCount = w.nullifierCount ∧
      state.metadata.stateRootCount = (base.elim 0 fun s => s.metadata.stateRootCount) + 1 := by
  unfold finishState at h
  dsimp only at h
  split at h
  · cases h
  · cases h
    exact ⟨rfl, rfl, rfl, rfl, rfl⟩

/-- What deriving a block gives. -/
structure Node.Derived (n n' : Node V) (block : ExecutionBlock) (p : Option (Payload V)) (w w' : WorkingState V)
    (as : List (Attempt V)) (state : DonState V) (history : Pod2.Array V) : Prop where
  start : startWorking n.containers n.stateLog.donStateAtHead n.window = .ok w
  calls : applyPayloads (n.stateLog.createdIndices (p.elim [] Payload.created)) block.number w p.toList = .ok (w', as)
  finish : finishState n.stateLog.donStateAtHead block w' = .ok (state, history)
  slots : n'.stateLog.slots = ⟨block.number, some state⟩ :: n.stateLog.slots

/-- A block above all of the log is derived and committed. -/
theorem Node.Below.commitBlock {n : Node V} {l : List V} {next : Nat} (h : n.Below l next) {block : ExecutionBlock}
    (hblock : next ≤ block.number) (p : Option (Payload V)) :
    ∃ n' w w' as state history, n.commitBlock block p = .ok (n', as) ∧
      n.Derived n' block p w w' as state history ∧ n'.Below (l ++ createdBy as) (block.number + 1) := by
  have hcover : ∀ q ∈ payloadsOf (blockTxs block p), q.created ⊆ candidatesOf (blockTxs block p) :=
    created_subset_candidatesOf
  obtain ⟨w, w', as, state, history, sts, hstart, hw, happly, -, hout, hfinish, hderive⟩ :=
    n.deriveSlotState_total h.stocked h.tally n.window block (lined_blockTxs block p) hcover
  obtain ⟨hhashes, hkeys⟩ := statusRows_blockTxs hout
  -- the positions that the calls add are in order, so their commitments are new keys
  obtain ⟨w₂, as₂, happly₂, -, hw₂⟩ := applyPayloads_total block.number (h.tally.index.prefetched _) hw hcover
  cases happly.symm.trans happly₂
  obtain ⟨sts', htxs, -⟩ := applyTxs_outcomes (lined_blockTxs block p) happly
  have hordered : w'.Ordered := by
    refine (applyTxs_keeps htxs).ordered ?_
    have hempty : w.createdAdded = [] := (startWorking_roots hstart).2.2.2.2
    exact ⟨by simp [hempty], by simp [hempty]⟩
  have hfresh : block.number ∉ n.stateLog.slots.map SlotRow.slot := by
    intro hin
    obtain ⟨row, hrow, heq⟩ := List.mem_map.mp hin
    have hlt := (h.slots row hrow).1
    omega
  have hrows := hw₂.key_nodup hordered h.tally.index h.keys block.number
  have hstatuses : ((statusRows block.number sts ++ n.stateLog.txStatuses).map
      fun r => (r.txHash, r.txBlobIndex)).Nodup := by
    rw [List.map_append, List.nodup_append]
    refine ⟨hkeys, h.status_keys, fun x hx y hy hxy => ?_⟩
    obtain ⟨r, hr, rfl⟩ := List.mem_map.mp hx
    obtain ⟨r', hr', rfl⟩ := List.mem_map.mp hy
    have hnew := hhashes r hr
    have hold := h.statuses r' hr'
    have hsame : r.txHash = r'.txHash := congrArg Prod.fst hxy
    omega
  have hslot : commitSlot n.stateLog ⟨block.number, some ⟨state, w'.createdAdded⟩, sts⟩ =
      .ok ⟨⟨block.number, some state⟩ :: n.stateLog.slots,
        (w'.createdAdded.map fun e => ⟨e.1, e.2, block.number⟩) ++ n.stateLog.createdIndex,
        statusRows block.number sts ++ n.stateLog.txStatuses⟩ := by
    exact commitSlot_ok hfresh hrows hstatuses
  have hcommit : n.commitBlock block p = .ok (⟨⟨w'.created :: history :: n.containers.arrays,
      w'.nullifiers :: n.containers.sets⟩, ⟨⟨block.number, some state⟩ :: n.stateLog.slots,
        (w'.createdAdded.map fun e => ⟨e.1, e.2, block.number⟩) ++ n.stateLog.createdIndex,
        statusRows block.number sts ++ n.stateLog.txStatuses⟩⟩, as) := by
    have hslotOf : deriveSlot (fun _ => .ok p) n n.stateLog.donStateAtHead n.window block
        (fetchTargetBlobs (blockOf block p).targetBlobTxs) =
          .ok (⟨state, w'.createdAdded⟩, sts,
            ⟨w'.created :: history :: n.containers.arrays, w'.nullifiers :: n.containers.sets⟩, as) := hderive
    unfold Node.commitBlock Node.commitSlotAt
    have hcontext : (fetchSlotContext (blockOf block p) : SlotContext V) =
        ⟨some block, fetchTargetBlobs (blockOf block p).targetBlobTxs⟩ := rfl
    rw [hcontext, deriveFromContext_window, hslotOf]
    simp only [bind, Except.bind, hslot]
  refine ⟨_, w, w', as, state, history, hcommit, ⟨hstart, ?_, hfinish, rfl⟩, ?_⟩
  · rw [candidatesOf_blockTxs, payloadsOf_blockTxs] at happly
    exact happly
  · refine ⟨Node.commitSlotAt_tally h.tally hcommit, h.stocked.commit hcommit, h.rooted.commit hcommit, hrows,
      fun row hrow => ?_, fun r hr => ?_, hstatuses⟩
    · rcases List.mem_cons.mp hrow with rfl | hin
      · refine ⟨Nat.lt_succ_self _, fun s hs => ?_⟩
        cases hs
        have hnumber : state.metadata.block = block := (finishState_history hfinish).2.2.1
        rw [hnumber]
        exact Nat.lt_succ_self _
      · obtain ⟨hlt, hstate⟩ := h.slots row hin
        refine ⟨by omega, fun s hs => ?_⟩
        have hlt' := hstate s hs
        omega
    · rcases List.mem_append.mp hr with hin | hin
      · have heq := hhashes r hin
        omega
      · have hlt := h.statuses r hin
        omega

end DigitalObjects.Synchronizer
