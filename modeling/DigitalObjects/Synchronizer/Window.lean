import DigitalObjects.Synchronizer.Derivation
import DigitalObjects.Driver.Submission
import DigitalObjects.Driver.Operations
set_option autoImplicit false

/-!
The window of state roots that a payload may be grounded at. It is cut at the head and again
at the new block, and it is keyed by root; a root still passes exactly while its block is young
enough. The driver gives a payload up no earlier than that.
-/

namespace DigitalObjects.Synchronizer

open Pod2 Txlib Driver

variable {V : Type} [Values V]

def Node.minBlockNumber (n : Node V) : Nat :=
  n.stateLog.donStateAtHead.elim 0 fun s => s.metadata.block.number - maxStateRootAgeBlocks.toNat

/-- The roots that `derive_from_context` prefetches for the slot after the head. -/
def Node.window (n : Node V) : List (V × Int) := n.stateLog.recentStateRoots n.minBlockNumber

theorem deriveFromContext_window (parser : BlobParser V) (n : Node V) (slot : Nat)
    (block : ExecutionBlock) (txs : List (TargetTx V Bytes)) :
    deriveFromContext parser n slot ⟨some block, txs⟩ =
      (deriveSlot parser n n.stateLog.donStateAtHead n.window block txs).bind fun r =>
        .ok (⟨slot, some r.1, r.2.1⟩, r.2.2.1, r.2.2.2) := rfl

/-- The first two checks of `apply_payload`. -/
def groundingCheck (w : WorkingState V) (root : V) (blockNumber : Nat) : Option String :=
  match w.recentStateRoots.lookup root with
  | none => some "Blob proof state_root not found in recent state root history"
  | some stateRootBlock =>
    if groundingAgedOut blockNumber stateRootBlock then
      some s!"Blob proof state_root is too old: {(blockNumber : Int) - stateRootBlock} blocks (state root at block {stateRootBlock})"
    else none

theorem applyPayload_grounding (w : WorkingState V) (p : Payload V) (prior : List (V × Nat))
    (blockNumber : Nat) :
    applyPayload w p prior blockNumber = match groundingCheck w p.stateRoot blockNumber with
      | some reason => .ok (some reason, w)
      | none => match createdCollision w prior p with
        | some reason => .ok (some reason, w)
        | none => match nullifierCollision w p with
          | some reason => .ok (some reason, w)
          | none => (do
            let w ← appendCreated w p.created
            let w ← insertNullifiers w p.nullifiers
            .ok (none, w)) := by
  unfold applyPayload groundingCheck
  cases w.recentStateRoots.lookup p.stateRoot with
  | none => rfl
  | some block =>
    by_cases hage : groundingAgedOut blockNumber block = true
    · simp [hage]
    · simp only [hage]
      rfl

theorem groundingCheck_eq_none {w : WorkingState V} {root : V} {blockNumber : Nat} :
    groundingCheck w root blockNumber = none ↔
      ∃ block, w.recentStateRoots.lookup root = some block ∧
        (blockNumber : Int) - block ≤ maxStateRootAgeBlocks := by
  unfold groundingCheck
  cases w.recentStateRoots.lookup root with
  | none => simp
  | some block =>
    by_cases hage : groundingAgedOut blockNumber block = true
    · have hold : maxStateRootAgeBlocks < (blockNumber : Int) - block := by
        simpa [groundingAgedOut] using hage
      dsimp only
      rw [if_pos hage]
      constructor
      · intro h
        cases h
      · rintro ⟨block', hblock, hyoung⟩
        cases hblock
        omega
    · have hyoung : (blockNumber : Int) - block ≤ maxStateRootAgeBlocks := by
        simpa [groundingAgedOut] using hage
      dsimp only
      rw [if_neg hage]
      exact ⟨fun _ => ⟨block, rfl, hyoung⟩, fun _ => rfl⟩

/-! ## Roots of committed states -/

/-- A root tells the block that it was derived at. -/
theorem StateHeader.blockNumber_of_hash {h h' : StateHeader V} (heq : h.hash = h'.hash) :
    h.blockNumber = h'.blockNumber := by
  have harray : h.array = h'.array := ofArray_inj.mp heq
  have hlookup : ∀ k : StateHeader V,
      k.array.lookup stateHeaderBlockNumberSlot = some (ofInt k.blockNumber) := by
    intro k
    simp [StateHeader.array]
  have hint := hlookup h
  rw [harray, hlookup h', Option.some.injEq, ofInt_inj] at hint
  exact hint.symm

/-- The root of every committed state is the hash of its header. -/
def Node.Rooted (n : Node V) : Prop :=
  ∀ row ∈ n.stateLog.slots, ∀ s, row.state = some s → s.metadata.stateRoot = s.stateHeader.hash

theorem Node.Rooted.commit {parser : BlobParser V} {n n' : Node V} {number : Nat} {slot : Slot}
    {as : List (Attempt V)} (hn : n.Rooted) (h : n.commitSlotAt parser number slot = .ok (n', as)) :
    n'.Rooted := by
  unfold commitSlotAt at h
  obtain ⟨⟨processed, db, attempts⟩, hderive, h⟩ := bind_eq_ok h
  obtain ⟨log, hcommit, h⟩ := bind_eq_ok h
  cases h
  intro row hrow s hs
  rw [(commitSlot_spec hcommit).1] at hrow
  rcases List.mem_cons.mp hrow with rfl | hrow
  · unfold deriveFromContext at hderive
    cases hpay : slot.payload with
    | none =>
      simp only [fetchSlotContext, hpay] at hderive
      cases hderive
      cases hs
    | some block =>
      simp only [fetchSlotContext, hpay] at hderive
      obtain ⟨⟨derived, statuses, db', attempts'⟩, hslot, hderive⟩ := bind_eq_ok hderive
      cases hderive
      unfold deriveSlot deriveSlotState at hslot
      obtain ⟨w, -, hslot⟩ := bind_eq_ok hslot
      obtain ⟨⟨w', statuses', attempts''⟩, -, hslot⟩ := bind_eq_ok hslot
      obtain ⟨⟨state, history⟩, hfinish, hslot⟩ := bind_eq_ok hslot
      cases hslot
      cases hs
      exact (finishState_spec hfinish).2.2.2
  · exact hn row hrow s hs

theorem Node.Rooted.applyAll {n : Node V} (hn : n.Rooted) (parser : BlobParser V) (initStartSlot : Nat)
    (ops : List (NodeOp V)) : (n.applyAll parser initStartSlot ops).Rooted := by
  induction ops generalizing n with
  | nil => exact hn
  | cons op ops ih =>
    refine ih (n := n.apply parser initStartSlot op) ?_
    cases op with
    | commit gap slot =>
      cases hstep : n.commitSlotAt parser (n.nextSlot initStartSlot + gap) slot with
      | error e =>
        simp only [Node.apply, hstep]
        exact hn
      | ok r =>
        simp only [Node.apply, hstep]
        exact hn.commit hstep
    | rollback keepSlot =>
      intro row hrow s hs
      exact hn row (List.mem_filter.mp hrow).1 s hs
    | orphan extra => exact hn

/-! ## The window -/

omit [Values V] in
theorem StateLogDb.mem_recentStateRoots_iff {log : StateLogDb V} {min : Nat} {root : V} {number : Int} :
    (root, number) ∈ log.recentStateRoots min ↔ ∃ row ∈ log.slots, ∃ s, row.state = some s ∧
      min ≤ s.metadata.block.number ∧ s.metadata.stateRoot = root ∧
      (s.metadata.block.number : Int) = number := by
  simp only [recentStateRoots, List.mem_mergeSort, List.mem_map, List.mem_filter, List.mem_filterMap,
    List.mem_reverse, decide_eq_true_eq, Prod.mk.injEq]
  constructor
  · rintro ⟨s, ⟨⟨row, hrow, hs⟩, hmin⟩, hroot, hnumber⟩
    exact ⟨row, hrow, s, hs, hmin, hroot, hnumber⟩
  · rintro ⟨row, hrow, s, hs, hmin, hroot, hnumber⟩
    exact ⟨s, ⟨⟨row, hrow, hs⟩, hmin⟩, hroot, hnumber⟩

/-- The calls of a derivation leave the window as it was. -/
theorem Node.Deriving.recentStateRoots {n : Node V} {roots : List (V × Int)} {blockNumber : Nat}
    {candidates : List V} {w : WorkingState V} (h : n.Deriving roots blockNumber candidates w)
    {l : List V} (hn : n.stateLog.Tally l) : w.recentStateRoots = roots.reverse := by
  induction h with
  | start hstart =>
    unfold startWorking at hstart
    obtain ⟨created, -, hstart⟩ := bind_eq_ok hstart
    obtain ⟨nullifiers, -, hstart⟩ := bind_eq_ok hstart
    obtain ⟨history, -, hstart⟩ := bind_eq_ok hstart
    obtain rfl := Except.ok.inj hstart
    rfl
  | @step u u' p rejection hu hp hstep ih =>
    obtain ⟨l', hw⟩ := hu.tally hn
    obtain ⟨rejection', w₁, hstep', -, happly, hkeep⟩ := applyPayload_exact blockNumber hw
      fun x hx => hn.index.prefetched candidates u l' hw x (hp hx)
    cases hstep.symm.trans hstep'
    cases rejection with
    | none => rw [(happly rfl).1.recentStateRoots, ih]
    | some reason => rw [hkeep (by simp), ih]

omit [Values V] in
/-- A lookup by root finds an entry when there is one. -/
theorem lookup_of_mem [DecidableEq V] {l : List (V × Int)} {root : V} {block : Int}
    (h : (root, block) ∈ l) : ∃ block', l.lookup root = some block' ∧ (root, block') ∈ l := by
  cases hl : l.lookup root with
  | none =>
    rw [List.lookup_eq_none_iff] at hl
    have hne := hl (root, block) h
    simp at hne
  | some block' =>
    obtain ⟨l₁, l₂, heq, -⟩ := List.lookup_eq_some_iff.mp hl
    exact ⟨block', rfl, by rw [heq]; simp⟩

omit [Values V] in
/-- A cut at the head keeps every block that is young for a later one. -/
theorem cut_le {head : Option (DonState V)} {age block next : Nat}
    (hnext : ∀ s, head = some s → s.metadata.block.number < next) (hyoung : (next : Int) - block ≤ age) :
    (head.elim 0 fun s => s.metadata.block.number - age) ≤ block := by
  cases head with
  | none => exact Nat.zero_le _
  | some top =>
    have hlt := hnext top rfl
    simp only [Option.elim_some]
    omega

theorem maxStateRootAgeBlocks_toNat : (maxStateRootAgeBlocks.toNat : Int) = maxStateRootAgeBlocks :=
  Int.toNat_of_nonneg (by decide)

omit [Values V] in
theorem Node.minBlockNumber_le {n : Node V} {block next : Nat}
    (hnext : ∀ s, n.stateLog.donStateAtHead = some s → s.metadata.block.number < next)
    (hyoung : (next : Int) - block ≤ maxStateRootAgeBlocks) : n.minBlockNumber ≤ block :=
  cut_le hnext (by rw [maxStateRootAgeBlocks_toNat]; exact hyoung)

/-- A root of the chain as the block `blockNumber` may be grounded at it. -/
def Node.Groundable (n : Node V) (root : V) (blockNumber : Nat) : Prop :=
  ∃ row ∈ n.stateLog.slots, ∃ s, row.state = some s ∧ s.metadata.stateRoot = root ∧
    (blockNumber : Int) - s.metadata.block.number ≤ maxStateRootAgeBlocks

theorem groundingCheck_window {n : Node V} {l candidates : List V} {blockNumber : Nat}
    {w : WorkingState V} (hrooted : n.Rooted) (htally : n.stateLog.Tally l)
    (hnext : ∀ s, n.stateLog.donStateAtHead = some s → s.metadata.block.number < blockNumber)
    (hw : n.Deriving n.window blockNumber candidates w) (root : V) :
    groundingCheck w root blockNumber = none ↔ n.Groundable root blockNumber := by
  rw [groundingCheck_eq_none, hw.recentStateRoots htally]
  constructor
  · rintro ⟨block, hlookup, hyoung⟩
    obtain ⟨l₁, l₂, heq, -⟩ := List.lookup_eq_some_iff.mp hlookup
    have hmem : (root, block) ∈ n.window := by
      rw [← List.mem_reverse, heq]
      simp
    obtain ⟨row, hrow, s, hs, -, hroot, rfl⟩ := StateLogDb.mem_recentStateRoots_iff.mp hmem
    exact ⟨row, hrow, s, hs, hroot, hyoung⟩
  · rintro ⟨row, hrow, s, hs, hroot, hyoung⟩
    have hmin := n.minBlockNumber_le hnext hyoung
    have hmem : (root, (s.metadata.block.number : Int)) ∈ n.window.reverse :=
      List.mem_reverse.mpr (StateLogDb.mem_recentStateRoots_iff.mpr ⟨row, hrow, s, hs, hmin, hroot, rfl⟩)
    obtain ⟨block, hlookup, hfound⟩ := lookup_of_mem hmem
    obtain ⟨row', hrow', s', hs', -, hroot', rfl⟩ :=
      StateLogDb.mem_recentStateRoots_iff.mp (List.mem_reverse.mp hfound)
    have hsame : s'.stateHeader.blockNumber = s.stateHeader.blockNumber := by
      refine StateHeader.blockNumber_of_hash ?_
      rw [← hrooted row' hrow' s' hs', ← hrooted row hrow s hs, hroot, hroot']
    refine ⟨_, hlookup, ?_⟩
    rw [show (s'.metadata.block.number : Int) = s.metadata.block.number from hsame]
    exact hyoung

/-! ## The driver -/

/-- The driver gives up a payload grounded at `block` when the synchronizer is at `head`:
`submit` ends at its age check, or `settle_with` finds no status and lets the record expire. -/
inductive Driver.Refuses (head block : Int) : Prop where
  | submit (tx tx' : Submission.Tx) (hread : tx.submit = some (.read block))
    (hstep : tx.submitHead head = some tx') (hend : tx'.submit = none)
  | settle {H : Type} [DecidableEq H] (x : Objects.Settlement H) (now : Nat)
    (r : Objects.TransactionRecord H) (hblock : r.groundingBlock = block) (hopen : r.isOpen = true)
    (hhead : x.head = some head) (hstatus : (x.statuses.lookup r.txFinal).join = none)
    (hend : (Objects.settled x now r).state = .expired)

theorem Objects.noteJob_same {H : Type} [DecidableEq H] (x : Objects.Settlement H)
    (r : Objects.TransactionRecord H) : (Objects.noteJob x r).txFinal = r.txFinal ∧
      (Objects.noteJob x r).groundingBlock = r.groundingBlock ∧
      (Objects.noteJob x r).state = r.state := by
  unfold Objects.noteJob
  split <;> exact ⟨rfl, rfl, rfl⟩

theorem Driver.Refuses.agedOut {head block : Int} (h : Driver.Refuses head block) :
    groundingAgedOut head block = true := by
  cases h with
  | submit tx tx' hread hstep hend =>
    simp only [Submission.Tx.submitHead, hread, Option.some.injEq] at hstep
    subst hstep
    by_cases haged : groundingAgedOut head block = true
    · exact haged
    · simp [haged] at hend
  | settle x now r hblock hopen hhead hstatus hend =>
    obtain ⟨htx, hground, hstate⟩ := Objects.noteJob_same x r
    have hnot : r.state ≠ .expired := by
      intro hexpired
      simp [Objects.TransactionRecord.isOpen, hexpired, TransactionState.isTerminal] at hopen
    unfold Objects.settled at hend
    split at hend
    · exact absurd hend hnot
    · unfold Objects.settleRecord at hend
      dsimp only at hend
      rw [htx, hstatus, hhead, hground, hblock] at hend
      by_cases haged : groundingAgedOut head block = true
      · exact haged
      · simp only [if_neg haged, hstate] at hend
        exact absurd hend hnot

/-- The window of a node is exact for the blocks after its head, and what the driver has given
up at some head no later block accepts. -/
structure Node.WindowExact (n : Node V) : Prop where
  passes_iff : ∀ blockNumber candidates w root,
    (∀ s, n.stateLog.donStateAtHead = some s → s.metadata.block.number < blockNumber) →
    n.Deriving n.window blockNumber candidates w →
    (groundingCheck w root blockNumber = none ↔ n.Groundable root blockNumber)
  given_up : ∀ (head block : Int), Driver.Refuses head block →
    ∀ header : StateHeader V, header.blockNumber = block →
    ∀ (blockNumber : Nat) candidates w, head < blockNumber →
      n.Deriving n.window blockNumber candidates w →
      groundingCheck w header.hash blockNumber ≠ none

theorem Node.window_exact (parser : BlobParser V) (initStartSlot : Nat) (ops : List (NodeOp V)) :
    (Node.genesis.applyAll parser initStartSlot ops).WindowExact := by
  obtain ⟨h, htracks⟩ := (Node.Tracks.genesis parser initStartSlot).applyAll ops
  obtain ⟨l, htally⟩ := htracks.tally
  have hgenesis : (Node.genesis : Node V).Rooted := by
    intro row hrow
    cases hrow
  have hrooted := hgenesis.applyAll parser initStartSlot ops
  generalize (Node.genesis : Node V).applyAll parser initStartSlot ops = n at htally hrooted
  refine ⟨fun blockNumber candidates w root hnext hw =>
    groundingCheck_window hrooted htally hnext hw root, ?_⟩
  intro head block hrefuses header hheader blockNumber candidates w hafter hw hpass
  rw [groundingCheck_eq_none, hw.recentStateRoots htally] at hpass
  obtain ⟨found, hlookup, hyoung⟩ := hpass
  obtain ⟨l₁, l₂, heq, -⟩ := List.lookup_eq_some_iff.mp hlookup
  have hmem : (header.hash, found) ∈ n.window := by
    rw [← List.mem_reverse, heq]
    simp
  obtain ⟨row, hrow, s, hs, -, hroot, rfl⟩ := StateLogDb.mem_recentStateRoots_iff.mp hmem
  have hsame : s.stateHeader.blockNumber = header.blockNumber := by
    refine StateHeader.blockNumber_of_hash ?_
    rw [← hrooted row hrow s hs, hroot]
  have hblock : (s.metadata.block.number : Int) = block := hsame.trans hheader
  have haged : maxStateRootAgeBlocks < head - block := by
    simpa [groundingAgedOut] using hrefuses.agedOut
  omega

end DigitalObjects.Synchronizer
