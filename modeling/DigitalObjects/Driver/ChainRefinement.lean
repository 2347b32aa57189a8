import DigitalObjects.Driver.Membership
import DigitalObjects.Driver.SynchronizerClient
import DigitalObjects.Synchronizer.CommittedSlot
import Mathlib.Logic.Equiv.List
set_option autoImplicit false

/-!
The chain of the driver's rules is the log of the synchronizer. A node that commits slots one after another is
followed by the chain, and what the client reads of the node is what the chain answers.
-/

namespace DigitalObjects.Driver

open Txlib

/-! ## The chain -/

namespace Chain

variable {H : Type} [DecidableEq H]

theorem rejection_eq_none {c : Chain H} {block : Int} {p : Payload H} :
    c.rejection block p = none ↔ p.groundingBlock ≤ c.head ∧ groundingAgedOut block p.groundingBlock = false ∧
      ¬ Collides p.created c.created ∧ ¬ Collides p.nullifiers c.nullifiers := by
  unfold rejection
  by_cases h₁ : c.head < p.groundingBlock
  · simp [h₁]
  · have hle : p.groundingBlock ≤ c.head := by omega
    by_cases h₂ : groundingAgedOut block p.groundingBlock = true
    · simp [h₁, h₂]
    · by_cases h₃ : Collides p.created c.created
      · simp [h₁, h₂, h₃]
      · by_cases h₄ : Collides p.nullifiers c.nullifiers
        · simp [h₁, h₂, h₃, h₄]
        · simp [h₁, h₂, h₃, h₄, hle]

/-- The status of a transaction is of the best of its entries: an applied one if there is any, and of those alike one of
the latest block. -/
theorem status_best {c : Chain H} (hsorted : c.entries.Pairwise fun e e' => e'.block ≤ e.block) {t : H} {e : Entry H}
    (h : c.status t = some e) : e ∈ c.entries ∧ e.payload.txFinal = t ∧
      ∀ f ∈ c.entries, f.payload.txFinal = t →
        (f.error = none → e.error = none) ∧ ((f.error = none ↔ e.error = none) → f.block ≤ e.block) := by
  obtain ⟨hmem, htx⟩ := status_mem h
  refine ⟨hmem, htx, fun f hf hft => ?_⟩
  have happlied : f.error = none → e.error = none := by
    intro hnone
    by_contra herr
    exact status_rejected h herr f hf hft hnone
  refine ⟨happlied, fun hsame => ?_⟩
  have hsub : (c.entries.filter fun e => e.payload.txFinal = t).Pairwise fun e e' => e'.block ≤ e.block :=
    hsorted.filter _
  have hin : f ∈ c.entries.filter fun e => e.payload.txFinal = t := by simp [hf, hft]
  unfold status at h
  rcases Option.or_eq_some_iff.mp h with hfound | ⟨hnone, hhead⟩
  · have herr : e.error = none := by simpa using List.find?_some hfound
    obtain ⟨-, before, after, heq, hbefore⟩ := List.find?_eq_some_iff_append.mp hfound
    rw [heq] at hin hsub
    rcases List.mem_append.mp hin with hin | hin
    · have hnot := hbefore f hin
      simp [hsame.mpr herr] at hnot
    · rcases List.mem_cons.mp hin with rfl | hin
      · exact le_refl f.block
      · exact (List.pairwise_cons.mp (List.pairwise_append.mp hsub).2.1).1 f hin
  · obtain ⟨rest, heq⟩ := List.head?_eq_some_iff.mp hhead
    rw [heq] at hin hsub
    rcases List.mem_cons.mp hin with rfl | hin
    · exact le_refl f.block
    · exact (List.pairwise_cons.mp hsub).1 f hin

theorem created_apply_eq (c : Chain H) (block : Int) (p : Payload H) :
    (c.apply block p).created = if c.rejection block p = none then p.created ++ c.created else c.created := by
  unfold created
  rw [applied_apply]
  split <;> simp

theorem nullifiers_apply_eq (c : Chain H) (block : Int) (p : Payload H) :
    (c.apply block p).nullifiers = if c.rejection block p = none then p.nullifiers ++ c.nullifiers else c.nullifiers := by
  unfold nullifiers
  rw [applied_apply]
  split <;> simp

theorem Grows.trans {c c' c'' : Chain H} (h : c.Grows c') (h' : c'.Grows c'') : c.Grows c'' := by
  induction h' with
  | refl => exact h
  | commit _ hblock ps ih => exact .commit ih hblock ps

end Chain

namespace Client

open Pod2 Synchronizer Objects Lib

variable {V : Type} [Values V]

/-! ## The chain of a history -/

/-- A root is known by the number of its block; one that the log does not have, by the next number. -/
def groundingBlock (log : StateLogDb V) (root : V) : Int :=
  match log.slots.findSome? fun row => row.state.bind fun s =>
    if s.metadata.stateRoot = root then some (s.metadata.block.number : Int) else none with
  | some block => block
  | none => (log.donStateAtHead.elim 0 fun s => (s.metadata.block.number : Int)) + 1

def entryPayload (ground : V → Int) (p : Synchronizer.Payload V) : Driver.Payload V :=
  ⟨p.txFinal, ground p.stateRoot, p.created, p.nullifiers, Encodable.encode p.proof⟩

section History

variable (parser : BlobParser V) (initStartSlot : Nat)

/-- The node after slots that are each committed under a number past the last, or not at all. -/
def nodeAfter (n : Node V) (slots : List (Nat × Slot)) : Node V :=
  n.applyAll parser initStartSlot (slots.map fun e => .commit e.1 e.2)

/-- The chain commits the block of a slot that the node commits. -/
def chainStep (ground : V → Int) (n : Node V) (c : Chain V) (e : Nat × Slot) : Chain V :=
  match n.commitSlotAt parser (n.nextSlot initStartSlot + e.1) e.2 with
  | .error _ => c
  | .ok _ => match e.2.payload with
    | none => c
    | some block => c.commit block.number ((payloadsOf (slotTxs parser e.2)).map (entryPayload ground))

def chainAfter (ground : V → Int) : Node V → Chain V → List (Nat × Slot) → Chain V
  | _, c, [] => c
  | n, c, e :: slots => chainAfter ground (n.apply parser initStartSlot (.commit e.1 e.2))
      (chainStep parser initStartSlot ground n c e) slots

end History

/-- The numbers of the execution blocks go up, from past `number`. -/
def Ascending : Int → List (Nat × Slot) → Prop
  | _, [] => True
  | number, e :: slots => match e.2.payload with
    | none => Ascending number slots
    | some block => number < block.number ∧ Ascending block.number slots

theorem Ascending.mono {number number' : Int} {slots : List (Nat × Slot)} (h : Ascending number' slots)
    (hle : number ≤ number') : Ascending number slots := by
  induction slots generalizing number number' with
  | nil => trivial
  | cons e slots ih =>
    unfold Ascending at h ⊢
    cases hpayload : e.2.payload with
    | none =>
      rw [hpayload] at h
      exact ih h hle
    | some block =>
      rw [hpayload] at h
      exact ⟨by omega, h.2⟩

/-! ## One slot -/

/-- What `apply_payload` accepts is what the chain accepts. -/
theorem acceptable_iff {ground : V → Int} {w : WorkingState V} {c : Chain V} {l : List V} {number : Nat}
    (hrep : Represents w.created l) (hcreated : ∀ x, x ∈ c.created ↔ x ∈ l)
    (hnullifiers : w.nullifiers = c.nullifiers.toFinset)
    (hground : ∀ root, (∃ b, w.recentStateRoots.lookup root = some b ∧ groundingAgedOut number b = false) ↔
      ground root ≤ c.head ∧ groundingAgedOut number (ground root) = false) (p : Synchronizer.Payload V) :
    Acceptable w p number ↔ c.rejection number (entryPayload ground p) = none := by
  have hfresh : (∀ x ∈ p.created, ∀ i, w.created.lookup i ≠ some x) ↔ ∀ x ∈ p.created, x ∉ c.created := by
    refine forall₂_congr fun x _ => ?_
    rw [hcreated x, List.mem_iff_getElem?, not_exists]
    exact forall_congr' fun i => by rw [hrep i]
  have hunspent : (∀ x ∈ p.nullifiers, x ∉ w.nullifiers) ↔ ∀ x ∈ p.nullifiers, x ∉ c.nullifiers := by
    refine forall₂_congr fun x _ => ?_
    rw [hnullifiers, List.mem_toFinset]
  have hcollides : ∀ new old : List V, ¬ Chain.Collides new old ↔ new.Nodup ∧ ∀ x ∈ new, x ∉ old := by
    intro new old
    simp [Chain.Collides]
  rw [Chain.rejection_eq_none, hcollides, hcollides]
  constructor
  · rintro ⟨hgrounded, hnodup, hnew, hnodup', hnew'⟩
    obtain ⟨hle, hyoung⟩ := (hground p.stateRoot).mp hgrounded
    exact ⟨hle, hyoung, ⟨hnodup, hfresh.mp hnew⟩, hnodup', hunspent.mp hnew'⟩
  · rintro ⟨hle, hyoung, ⟨hnodup, hnew⟩, hnodup', hnew'⟩
    exact ⟨(hground p.stateRoot).mpr ⟨hle, hyoung⟩, hnodup, hfresh.mpr hnew, hnodup', hunspent.mpr hnew'⟩

/-- The entry of an attempt. -/
structure EntryOf (ground : V → Int) (number : Int) (a : Attempt V) (e : Entry V) : Prop where
  block : e.block = number
  payload : e.payload = entryPayload ground a.payload
  error : e.error = none ↔ a.rejection = none

/-- The payloads of a slot, applied on both sides. -/
theorem applyPayloads_chain {ground : V → Int} {prior : List (V × Nat)} {base candidates l : List V} {number : Nat}
    (hprior : Prefetched prior base candidates) {ps : List (Synchronizer.Payload V)}
    (hps : ∀ p ∈ ps, p.created ⊆ candidates) {w w' : WorkingState V} {c : Chain V} {as : List (Attempt V)}
    (hw : w.Tally base l) (hcreated : ∀ x, x ∈ c.created ↔ x ∈ l) (hnullifiers : w.nullifiers = c.nullifiers.toFinset)
    (hground : ∀ root, (∃ b, w.recentStateRoots.lookup root = some b ∧ groundingAgedOut number b = false) ↔
      ground root ≤ c.head ∧ groundingAgedOut number (ground root) = false)
    (h : applyPayloads prior number w ps = .ok (w', as)) :
    (∀ x, x ∈ (c.applyAll number (ps.map (entryPayload ground))).created ↔ x ∈ l ++ createdBy as) ∧
      w'.nullifiers = (c.applyAll number (ps.map (entryPayload ground))).nullifiers.toFinset ∧
      ∃ es, (c.applyAll number (ps.map (entryPayload ground))).entries = es ++ c.entries ∧
        List.Forall₂ (EntryOf ground number) as es.reverse := by
  induction ps generalizing w c l as with
  | nil =>
    cases h
    exact ⟨by simpa [createdBy, Chain.applyAll] using hcreated, hnullifiers, [], rfl, .nil⟩
  | cons p ps ih =>
    rw [applyPayloads] at h
    obtain ⟨⟨rejection, w₁⟩, hstep, h⟩ := bind_eq_ok h
    obtain ⟨⟨w₂, bs⟩, hrest, h⟩ := bind_eq_ok h
    cases h
    have hp : p.created ⊆ candidates := hps p List.mem_cons_self
    obtain ⟨rejection', w₁', hstep', hiff, happlied, hkept⟩ :=
      applyPayload_exact number hw fun x hx => hprior w l hw x (hp hx)
    cases hstep.symm.trans hstep'
    have hrejection := acceptable_iff hw.represents hcreated hnullifiers hground p
    rw [← hiff] at hrejection
    have hlist : createdBy (⟨w, p, rejection⟩ :: bs) = Attempt.created ⟨w, p, rejection⟩ ++ createdBy bs := rfl
    have hsplit : w₁.Tally base (l ++ Attempt.created ⟨w, p, rejection⟩) ∧
        (∀ x, x ∈ (c.apply number (entryPayload ground p)).created ↔ x ∈ l ++ Attempt.created ⟨w, p, rejection⟩) ∧
        w₁.nullifiers = (c.apply number (entryPayload ground p)).nullifiers.toFinset ∧
        w₁.recentStateRoots = w.recentStateRoots := by
      rw [Chain.created_apply_eq, Chain.nullifiers_apply_eq]
      cases rejection with
      | none =>
        obtain ⟨hpayload, htally⟩ := happlied rfl
        rw [if_pos (hrejection.mp rfl), if_pos (hrejection.mp rfl)]
        refine ⟨htally, fun x => ?_, ?_, hpayload.recentStateRoots⟩
        · show x ∈ p.created ++ c.created ↔ x ∈ l ++ p.created
          rw [List.mem_append, List.mem_append, hcreated x, or_comm]
        · rw [hpayload.nullifiers, hnullifiers, List.toFinset_append, Finset.union_comm]
          rfl
      | some reason =>
        have hnot : c.rejection number (entryPayload ground p) ≠ none := fun hnone => by cases hrejection.mpr hnone
        rw [if_neg hnot, if_neg hnot, hkept (by simp)]
        simpa [Attempt.created] using ⟨hw, hcreated, hnullifiers⟩
    obtain ⟨htally₁, hcreated₁, hnullifiers₁, hroots₁⟩ := hsplit
    obtain ⟨hcreated', hnullifiers', es, hentries, hall⟩ := ih (fun q hq => hps q (List.mem_cons_of_mem p hq)) htally₁
      hcreated₁ hnullifiers₁ (by rw [hroots₁]; exact hground) hrest
    refine ⟨fun x => ?_, hnullifiers', es ++ [⟨number, entryPayload ground p, c.rejection number (entryPayload ground p)⟩],
      ?_, ?_⟩
    · rw [hlist, ← List.append_assoc]
      exact hcreated' x
    · rw [List.append_assoc]
      exact hentries
    · rw [List.reverse_append, List.reverse_singleton, List.singleton_append]
      exact .cons ⟨rfl, rfl, hrejection.symm⟩ hall

/-! ## The log beside the chain -/

/-- The slot was derived at the block. -/
def DerivedAt (log : StateLogDb V) (slot : Nat) (block : Int) : Prop :=
  ∃ row ∈ log.slots, row.slot = slot ∧ ∃ s, row.state = some s ∧ (s.metadata.block.number : Int) = block

/-- The row is the status of a blob with the payload of the entry, or one like it. -/
structure Tells (log : StateLogDb V) (r : TxStatusRow V) (e : Entry V) : Prop where
  txFinal : r.txFinal = some e.payload.txFinal
  error : r.error = none ↔ e.error = none
  derived : DerivedAt log r.slot e.block

/-- Slots and execution blocks both go down from the head. -/
def Descending (rows : List (SlotRow V)) : Prop :=
  rows.Pairwise fun row row' => row'.slot < row.slot ∧
    ∀ s s', row.state = some s → row'.state = some s' → s'.metadata.block.number < s.metadata.block.number

/-- The chain has what the node has committed. -/
structure FollowedBy (n : Node V) (c : Chain V) : Prop where
  tally : ∃ l, n.stateLog.Tally l ∧ ∀ x, x ∈ c.created ↔ x ∈ l
  nullifiers : (n.stateLog.donStateAtHead.elim StateRoots.empty DonState.roots).nullifiers = ofSet c.nullifiers.toFinset
  head : (n.stateLog.donStateAtHead.elim 0 fun s => (s.metadata.block.number : Int)) = c.head
  below : ∀ row ∈ n.stateLog.slots, ∀ s, row.state = some s → (s.metadata.block.number : Int) ≤ c.head
  rooted : n.Rooted
  descending : Descending n.stateLog.slots
  rows : ∀ e ∈ c.entries, ∃ r ∈ n.stateLog.txStatuses, Tells n.stateLog r e
  entries : ∀ r ∈ n.stateLog.txStatuses, r.txFinal ≠ none → ∃ e ∈ c.entries, Tells n.stateLog r e
  sorted : c.entries.Pairwise fun e e' => e'.block ≤ e.block

theorem FollowedBy.genesis : FollowedBy (Node.genesis : Node V) Chain.genesis := by
  refine ⟨⟨[], Node.genesis_tally, by simp [Chain.genesis, Chain.created, Chain.applied]⟩, ?_, rfl, ?_, ?_, ?_, ?_, ?_, ?_⟩
  · simp [Node.genesis, StateLogDb.donStateAtHead, StateRoots.empty, Chain.genesis, Chain.nullifiers, Chain.applied,
      Pod2.empty, Values.ofSet_empty]
  · intro row hrow
    cases hrow
  · intro row hrow
    cases hrow
  · exact .nil
  · intro e he
    cases he
  · intro r hr
    cases hr
  · exact .nil

omit [Values V] in
theorem DerivedAt.cons {log log' : StateLogDb V} {row : SlotRow V} (hslots : log'.slots = row :: log.slots) {slot : Nat}
    {block : Int} (h : DerivedAt log slot block) : DerivedAt log' slot block := by
  obtain ⟨row', hrow', hrest⟩ := h
  exact ⟨row', by rw [hslots]; exact List.mem_cons_of_mem row hrow', hrest⟩

omit [Values V] in
theorem Tells.cons {log log' : StateLogDb V} {row : SlotRow V} (hslots : log'.slots = row :: log.slots)
    {r : TxStatusRow V} {e : Entry V} (h : Tells log r e) : Tells log' r e :=
  ⟨h.txFinal, h.error, h.derived.cons hslots⟩

theorem FollowedBy.block_le_head {n : Node V} {c : Chain V} (h : FollowedBy n c) {e : Entry V} (he : e ∈ c.entries) :
    e.block ≤ c.head := by
  obtain ⟨r, -, htells⟩ := h.rows e he
  obtain ⟨row, hrow, -, s, hs, heq⟩ := htells.derived
  have hle := h.below row hrow s hs
  omega

/-- How the roots of the log are grounded in a block after the head. -/
def Grounded (ground : V → Int) (n : Node V) (c : Chain V) : Prop :=
  ∀ root (number : Nat), c.head < number → (n.Groundable root number ↔
    ground root ≤ c.head ∧ groundingAgedOut number (ground root) = false)

/-- A slot without a block leaves the chain as it is. -/
theorem FollowedBy.commit_empty {parser : BlobParser V} {n n' : Node V} {c : Chain V} (h : FollowedBy n c) {number : Nat}
    {slot : Slot} {as : List (Attempt V)} (hcommit : n.commitSlotAt parser number slot = .ok (n', as))
    (hnumber : ∀ row ∈ n.stateLog.slots, row.slot < number) (has : as = [])
    (hslots : n'.stateLog.slots = ⟨number, none⟩ :: n.stateLog.slots)
    (hstatuses : n'.stateLog.txStatuses = n.stateLog.txStatuses) : FollowedBy n' c := by
  obtain ⟨l, htally, hcreated⟩ := h.tally
  have htally' := Node.commitSlotAt_tally htally hcommit
  have hhead : n'.stateLog.donStateAtHead = n.stateLog.donStateAtHead := by
    rw [StateLogDb.donStateAtHead, hslots]
    rfl
  subst has
  rw [show l ++ createdBy ([] : List (Attempt V)) = l by simp [createdBy]] at htally'
  refine ⟨⟨l, htally', hcreated⟩, by rw [hhead]; exact h.nullifiers, by rw [hhead]; exact h.head, fun row hrow s hs => ?_,
    h.rooted.commit hcommit, ?_, fun e he => ?_, fun r hr ht => ?_, h.sorted⟩
  · rw [hslots] at hrow
    rcases List.mem_cons.mp hrow with rfl | hrow
    · cases hs
    · exact h.below row hrow s hs
  · rw [hslots]
    refine List.pairwise_cons.mpr ⟨fun row hrow => ⟨hnumber row hrow, fun s s' hs => ?_⟩, h.descending⟩
    cases hs
  · obtain ⟨r, hr, htells⟩ := h.rows e he
    exact ⟨r, by rw [hstatuses]; exact hr, htells.cons hslots⟩
  · rw [hstatuses] at hr
    obtain ⟨e, he, htells⟩ := h.entries r hr ht
    exact ⟨e, he, htells.cons hslots⟩

/-- A committed block is committed on the chain, with the payloads of the slot. -/
theorem FollowedBy.commit_block {ground : V → Int} {parser : BlobParser V} {n n' : Node V} {c : Chain V}
    (h : FollowedBy n c) (hground : Grounded ground n c) {number : Nat} {slot : Slot} {as : List (Attempt V)}
    (hcommit : n.commitSlotAt parser number slot = .ok (n', as)) (hnumber : ∀ row ∈ n.stateLog.slots, row.slot < number)
    {block : ExecutionBlock} (hblock : c.head < block.number) {w w' : WorkingState V} {state : DonState V}
    {history : Pod2.Array V} (hc : Node.Committed parser n n' number slot as block w w' state history) :
    FollowedBy n' (c.commit block.number ((payloadsOf (slotTxs parser slot)).map (entryPayload ground))) := by
  obtain ⟨l, htally, hcreated⟩ := h.tally
  have hw := startWorking_tally htally hc.start
  have hbelow : ∀ s, n.stateLog.donStateAtHead = some s → s.metadata.block.number < block.number := by
    intro s hs
    have hhead := h.head
    rw [hs, Option.elim_some] at hhead
    omega
  have hnullifiers : w.nullifiers = c.nullifiers.toFinset := by
    have hroot := (startWorking_roots hc.start).2.1
    rw [h.nullifiers, ofSet_inj] at hroot
    exact hroot
  have hroots : ∀ root, (∃ b, w.recentStateRoots.lookup root = some b ∧ groundingAgedOut block.number b = false) ↔
      ground root ≤ c.head ∧ groundingAgedOut block.number (ground root) = false := by
    intro root
    rw [← hground root block.number hblock, ← groundingCheck_window h.rooted htally hbelow
      (Node.Deriving.start hc.start : n.Deriving n.window block.number [] w) root, groundingCheck_eq_none]
    simp [groundingAgedOut]
  obtain ⟨hcreated', hnullifiers', es, hentries, hall⟩ := applyPayloads_chain (htally.index.prefetched _)
    created_subset_candidatesOf hw hcreated hnullifiers hroots hc.calls
  obtain ⟨-, hnullroot, -, -⟩ := finishState_spec hc.finish
  have hmeta : state.metadata.block = block := (finishState_history hc.finish).2.2.1
  have hhead : n'.stateLog.donStateAtHead = some state := by
    rw [StateLogDb.donStateAtHead, hc.slots]
    rfl
  obtain ⟨sts, hout, hstatuses⟩ := hc.statuses
  obtain ⟨hanswered, hreported⟩ :=
    (hout.reported (fetchTargetBlobs_aligned parser slot.targetBlobTxs)).rows number
  have hderived : DerivedAt n'.stateLog number block.number :=
    ⟨⟨number, some state⟩, by rw [hc.slots]; exact List.mem_cons_self, rfl, state, rfl, by rw [hmeta]⟩
  -- the new entries are the attempts, and the new rows their statuses
  have hentry : ∀ e ∈ es, ∃ a ∈ as, EntryOf ground block.number a e := by
    intro e he
    obtain ⟨a, ha, hof⟩ := forall₂_mem_right hall (List.mem_reverse.mpr he)
    exact ⟨a, ha, hof⟩
  have hattempt : ∀ a ∈ as, ∃ e ∈ es, EntryOf ground block.number a e := by
    intro a ha
    obtain ⟨e, he, hof⟩ := forall₂_mem_right hall.flip ha
    exact ⟨e, List.mem_reverse.mp he, hof⟩
  refine ⟨⟨_, Node.commitSlotAt_tally htally hcommit, hcreated'⟩, ?_, ?_, fun row hrow s hs => ?_, h.rooted.commit hcommit,
    ?_, fun e he => ?_, fun r hr ht => ?_, ?_⟩
  · rw [hhead, Option.elim_some, hnullroot, hnullifiers']
    rfl
  · rw [hhead, Option.elim_some, hmeta]
    rfl
  · show (s.metadata.block.number : Int) ≤ block.number
    rw [hc.slots] at hrow
    rcases List.mem_cons.mp hrow with rfl | hrow
    · cases hs
      rw [hmeta]
    · have hle := h.below row hrow s hs
      omega
  · rw [hc.slots]
    refine List.pairwise_cons.mpr ⟨fun row hrow => ⟨hnumber row hrow, fun s s' hs hs' => ?_⟩, h.descending⟩
    cases hs
    have hle := h.below row hrow s' hs'
    rw [hmeta]
    omega
  · have hmem : e ∈ es ++ c.entries := by rw [← hentries]; exact he
    rcases List.mem_append.mp hmem with he | he
    · obtain ⟨a, ha, hof⟩ := hentry e he
      obtain ⟨r, hr, hfinal, herror⟩ := hreported a ha
      refine ⟨r, by rw [hstatuses]; exact List.mem_append_left _ hr, ?_, ?_, ?_⟩
      · rw [hfinal, hof.payload]
        rfl
      · rw [herror, hof.error]
      · rw [(hanswered r hr).1, hof.block]
        exact hderived
    · obtain ⟨r, hr, htells⟩ := h.rows e he
      exact ⟨r, by rw [hstatuses]; exact List.mem_append_right _ hr, htells.cons hc.slots⟩
  · rw [hstatuses] at hr
    rcases List.mem_append.mp hr with hr | hr
    · obtain ⟨t, hfinal⟩ := Option.ne_none_iff_exists'.mp ht
      obtain ⟨a, ha, htx, herror⟩ := (hanswered r hr).2 t hfinal
      obtain ⟨e, he, hof⟩ := hattempt a ha
      refine ⟨e, ?_, ?_, ?_, ?_⟩
      · show e ∈ (c.applyAll block.number ((payloadsOf (slotTxs parser slot)).map (entryPayload ground))).entries
        rw [hentries]
        exact List.mem_append_left _ he
      · rw [hfinal, hof.payload, ← htx]
        rfl
      · rw [herror, hof.error]
      · rw [(hanswered r hr).1, hof.block]
        exact hderived
    · obtain ⟨e, he, htells⟩ := h.entries r hr ht
      refine ⟨e, ?_, htells.cons hc.slots⟩
      show e ∈ (c.applyAll block.number ((payloadsOf (slotTxs parser slot)).map (entryPayload ground))).entries
      rw [hentries]
      exact List.mem_append_right _ he
  · show (c.applyAll block.number ((payloadsOf (slotTxs parser slot)).map (entryPayload ground))).entries.Pairwise _
    rw [hentries]
    have hnew : ∀ e ∈ es, e.block = block.number := by
      intro e he
      obtain ⟨a, -, hof⟩ := hentry e he
      exact hof.block
    refine List.pairwise_append.mpr ⟨List.pairwise_of_forall_mem_list fun e he e' he' => ?_, h.sorted, fun e he e' he' => ?_⟩
    · rw [hnew e he, hnew e' he']
    · have hle := h.block_le_head he'
      rw [hnew e he]
      omega

/-! ## Along a history -/

/-- The log with later slots, whose blocks are past `number`. -/
structure Extends (log log' : StateLogDb V) (number : Int) (newer : List (SlotRow V)) : Prop where
  slots : log'.slots = newer ++ log.slots
  blocks : ∀ row ∈ newer, ∀ s, row.state = some s → number < s.metadata.block.number
  statuses : ∃ rows, log'.txStatuses = rows ++ log.txStatuses ∧ ∀ r ∈ rows, ∃ row ∈ newer, row.slot = r.slot

omit [Values V] in
theorem Extends.refl (log : StateLogDb V) (number : Int) : Extends log log number [] :=
  ⟨rfl, by simp, [], rfl, by simp⟩

theorem nodeAfter_extends (parser : BlobParser V) (initStartSlot : Nat) {n : Node V} {l : List V} (htally : n.stateLog.Tally l) {slots : List (Nat × Slot)} {number : Int}
    (h : Ascending number slots) :
    ∃ newer, Extends n.stateLog (nodeAfter parser initStartSlot n slots).stateLog number newer := by
  induction slots generalizing n l number with
  | nil => exact ⟨[], Extends.refl n.stateLog number⟩
  | cons e slots ih =>
    have hcons : nodeAfter parser initStartSlot n (e :: slots) =
        nodeAfter parser initStartSlot (n.apply parser initStartSlot (.commit e.1 e.2)) slots := rfl
    have hrest : ∃ number', number ≤ number' ∧ Ascending number' slots ∧
        ∀ block, e.2.payload = some block → number < block.number := by
      unfold Ascending at h
      cases hpayload : e.2.payload with
      | none =>
        rw [hpayload] at h
        exact ⟨number, le_refl number, h, by simp⟩
      | some block =>
        rw [hpayload] at h
        refine ⟨block.number, by omega, h.2, fun b hb => ?_⟩
        cases hb
        exact h.1
    obtain ⟨number', hle, hascending, hblock⟩ := hrest
    rw [hcons]
    cases hstep : n.commitSlotAt parser (n.nextSlot initStartSlot + e.1) e.2 with
    | error err =>
      have hsame : n.apply parser initStartSlot (.commit e.1 e.2) = n := by simp only [Node.apply, hstep]
      rw [hsame]
      exact ih htally (hascending.mono hle)
    | ok r =>
      obtain ⟨n', as⟩ := r
      have hnext : n.apply parser initStartSlot (.commit e.1 e.2) = n' := by simp only [Node.apply, hstep]
      rw [hnext]
      obtain ⟨newer, hslots, hblocks, rows, hrows, hin⟩ := ih (Node.commitSlotAt_tally htally hstep) (hascending.mono hle)
      obtain ⟨state, hslots', hstate⟩ := Node.commitSlotAt_row htally hstep
      obtain ⟨rows', hrows', hstatuses'⟩ := (Node.commitSlotAt_writes hstep).statuses
      refine ⟨newer ++ [⟨n.nextSlot initStartSlot + e.1, state⟩], ?_, fun row hrow s hs => ?_, rows ++ rows', ?_, fun r hr => ?_⟩
      · rw [hslots, hslots', List.append_assoc]
        rfl
      · rcases List.mem_append.mp hrow with hrow | hrow
        · exact hblocks row hrow s hs
        · obtain rfl := List.mem_singleton.mp hrow
          obtain rfl : state = some s := hs
          exact hblock s.metadata.block hstate.symm
      · rw [hrows, hstatuses', List.append_assoc]
      · rcases List.mem_append.mp hr with hr | hr
        · obtain ⟨row, hrow, heq⟩ := hin r hr
          exact ⟨row, List.mem_append_left _ hrow, heq⟩
        · exact ⟨_, List.mem_append_right _ (List.mem_singleton.mpr rfl), (hrows' r hr).symm⟩

/-- Roots are numbered by the last log of the history. -/
theorem FollowedBy.grounded {n n' : Node V} {c : Chain V} (h : FollowedBy n c) (hrooted : n'.Rooted)
    {newer : List (SlotRow V)} (hextends : Extends n.stateLog n'.stateLog c.head newer) :
    Grounded (groundingBlock n'.stateLog) n c := by
  have hnumbers : ∀ row ∈ n'.stateLog.slots, ∀ row' ∈ n'.stateLog.slots, ∀ s s', row.state = some s → row'.state = some s' →
      s.metadata.stateRoot = s'.metadata.stateRoot → (s.metadata.block.number : Int) = s'.metadata.block.number := by
    intro row hrow row' hrow' s s' hs hs' heq
    rw [hrooted row hrow s hs, hrooted row' hrow' s' hs'] at heq
    exact StateHeader.blockNumber_of_hash heq
  have hold : ∀ row ∈ n.stateLog.slots, row ∈ n'.stateLog.slots := by
    intro row hrow
    rw [hextends.slots]
    exact List.mem_append_right newer hrow
  intro root number hnumber
  have hknown : (∃ row ∈ n'.stateLog.slots, ∃ s, row.state = some s ∧ s.metadata.stateRoot = root ∧
        (s.metadata.block.number : Int) = groundingBlock n'.stateLog root) ∨
      (∀ row ∈ n'.stateLog.slots, ∀ s, row.state = some s → s.metadata.stateRoot ≠ root) ∧
        c.head < groundingBlock n'.stateLog root := by
    unfold groundingBlock
    cases hfound : n'.stateLog.slots.findSome? fun row => row.state.bind fun s =>
        if s.metadata.stateRoot = root then some (s.metadata.block.number : Int) else none with
    | some block =>
      left
      obtain ⟨row, hrow, hblock⟩ := List.exists_of_findSome?_eq_some hfound
      obtain ⟨s, hs, heq⟩ := Option.bind_eq_some_iff.mp hblock
      by_cases hroot : s.metadata.stateRoot = root
      · rw [if_pos hroot, Option.some.injEq] at heq
        exact ⟨row, hrow, s, hs, hroot, heq⟩
      · simp [hroot] at heq
    | none =>
      right
      refine ⟨fun row hrow s hs hroot => ?_, ?_⟩
      · have hnone := List.findSome?_eq_none_iff.mp hfound row hrow
        simp [hs, hroot] at hnone
      · have hhead := h.head
        have hlast : c.head ≤ n'.stateLog.donStateAtHead.elim 0 fun s => (s.metadata.block.number : Int) := by
          rw [StateLogDb.donStateAtHead, hextends.slots, List.findSome?_append]
          cases hnew : newer.findSome? SlotRow.state with
          | none =>
            rw [Option.none_or, ← hhead]
            exact le_refl _
          | some s =>
            obtain ⟨row, hrow, hs⟩ := List.exists_of_findSome?_eq_some hnew
            have hlt := hextends.blocks row hrow s hs
            simp only [Option.some_or, Option.elim_some]
            omega
        dsimp only
        omega
  rcases hknown with ⟨row, hrow, s, hs, hroot, hblock⟩ | ⟨hnone, hlt⟩
  · rw [← hblock]
    constructor
    · rintro ⟨row', hrow', s', hs', hroot', hyoung⟩
      have heq := hnumbers row hrow row' (hold row' hrow') s s' hs hs' (hroot.trans hroot'.symm)
      have hle := h.below row' hrow' s' hs'
      rw [heq]
      exact ⟨hle, by simpa [groundingAgedOut] using hyoung⟩
    · rintro ⟨hle, hyoung⟩
      have hmem := hrow
      rw [hextends.slots] at hmem
      rcases List.mem_append.mp hmem with hmem | hmem
      · have hlt := hextends.blocks row hmem s hs
        omega
      · exact ⟨row, hmem, s, hs, hroot, by simpa [groundingAgedOut] using hyoung⟩
  · constructor
    · rintro ⟨row, hrow, s, hs, hroot, -⟩
      exact absurd hroot (hnone row (hold row hrow) s hs)
    · rintro ⟨hle, -⟩
      omega

/-- The slot of the next commit is past every slot. -/
theorem FollowedBy.nextSlot_gt {n : Node V} {c : Chain V} (h : FollowedBy n c) (initStartSlot gap : Nat) :
    ∀ row ∈ n.stateLog.slots, row.slot < n.nextSlot initStartSlot + gap := by
  intro row hrow
  unfold Node.nextSlot StateLogDb.lastProcessedSlot
  have hdesc := h.descending
  cases hslots : n.stateLog.slots with
  | nil =>
    rw [hslots] at hrow
    cases hrow
  | cons first rows =>
    unfold Descending at hdesc
    rw [hslots] at hrow hdesc
    simp only [List.head?_cons, Option.map_some, Option.elim_some]
    rcases List.mem_cons.mp hrow with rfl | hrow
    · omega
    · have hlt := ((List.pairwise_cons.mp hdesc).1 row hrow).1
      omega

/-- One slot of the history, whether or not it is committed. -/
theorem FollowedBy.step (parser : BlobParser V) (initStartSlot : Nat) {ground : V → Int} {n : Node V} {c : Chain V} (h : FollowedBy n c) (hground : Grounded ground n c)
    {e : Nat × Slot} (hblock : ∀ block, e.2.payload = some block → c.head < block.number) :
    FollowedBy (n.apply parser initStartSlot (.commit e.1 e.2)) (chainStep parser initStartSlot ground n c e) ∧
      c.Grows (chainStep parser initStartSlot ground n c e) ∧
      (chainStep parser initStartSlot ground n c e = c ∨
        ∃ block, e.2.payload = some block ∧ (chainStep parser initStartSlot ground n c e).head = block.number) := by
  obtain ⟨l, htally, -⟩ := h.tally
  unfold chainStep
  cases hstep : n.commitSlotAt parser (n.nextSlot initStartSlot + e.1) e.2 with
  | error err =>
    simp only [Node.apply, hstep]
    exact ⟨h, .refl, .inl trivial⟩
  | ok r =>
    obtain ⟨n', as⟩ := r
    simp only [Node.apply, hstep]
    rcases Node.commitSlotAt_cases htally hstep with ⟨hpayload, has, hslots, hstatuses⟩ |
      ⟨block, hpayload, w, w', state, history, hcommitted⟩
    · simp only [hpayload]
      exact ⟨h.commit_empty hstep (h.nextSlot_gt initStartSlot e.1) has hslots hstatuses, .refl, .inl trivial⟩
    · have hnext := hblock block hpayload
      simp only [hpayload]
      exact ⟨h.commit_block hground hstep (h.nextSlot_gt initStartSlot e.1) hnext hcommitted, .commit .refl hnext _,
        .inr ⟨block, rfl, rfl⟩⟩

variable (parser : BlobParser V) (initStartSlot : Nat)

/-- A history is followed to any place in it; the log at its end numbers the roots. -/
theorem FollowedBy.run {n : Node V} {c : Chain V} (h : FollowedBy n c) (done rest : List (Nat × Slot)) {ground : V → Int}
    (hground : ground = groundingBlock (nodeAfter parser initStartSlot n (done ++ rest)).stateLog)
    (hslots : Ascending c.head (done ++ rest)) :
    FollowedBy (nodeAfter parser initStartSlot n done) (chainAfter parser initStartSlot ground n c done) ∧
      c.Grows (chainAfter parser initStartSlot ground n c done) ∧
      Ascending (chainAfter parser initStartSlot ground n c done).head rest := by
  induction done generalizing n c with
  | nil => exact ⟨h, .refl, hslots⟩
  | cons e done ih =>
    obtain ⟨l, htally, -⟩ := h.tally
    obtain ⟨newer, hextends⟩ := nodeAfter_extends parser initStartSlot htally hslots
    have hgrounded : Grounded ground n c := by
      rw [hground]
      exact h.grounded (h.rooted.applyAll parser initStartSlot _) hextends
    rw [List.cons_append] at hslots
    unfold Ascending at hslots
    have hblock : ∀ block, e.2.payload = some block → c.head < block.number := by
      intro block hpayload
      rw [hpayload] at hslots
      exact hslots.1
    obtain ⟨hnext, hgrows, hhead⟩ := h.step parser initStartSlot hgrounded hblock
    have hascending : Ascending (chainStep parser initStartSlot ground n c e).head (done ++ rest) := by
      cases hpayload : e.2.payload with
      | none =>
        rw [hpayload] at hslots
        rcases hhead with heq | ⟨block, hsome, -⟩
        · rw [heq]
          exact hslots
        · rw [hpayload] at hsome
          cases hsome
      | some block =>
        rw [hpayload] at hslots
        rcases hhead with heq | ⟨block', hsome, heq⟩
        · rw [heq]
          exact hslots.2.mono (Int.le_of_lt hslots.1)
        · rw [hpayload] at hsome
          cases hsome
          rw [heq]
          exact hslots.2
    obtain ⟨hend, hgrows', hlast⟩ := ih hnext hground hascending
    exact ⟨hend, hgrows.trans hgrows', hlast⟩

/-! ## What the client reads -/

/-- The client's answers, request `k` being served by `app k`. -/
def responses (texts : Texts V) (app : Nat → Except String (Reads V)) (k : Nat) : (q : Query V) → q.Answer
  | .head => do
    let reads ← app k
    let head ← fetchHead texts reads
    .ok head.blockNumber
  | .txStatus txFinal => do
    let reads ← app k
    .ok ((fetchTxStatus reads txFinal).map fun status => ⟨status.txHash, status.blockNumber, status.error⟩)
  | .membership request => do
    let reads ← app k
    let payload ← decodeJsonResponse texts "/v1/state/membership" "synchronizer membership response"
      (postStateMembership reads request.objectCommitments request.nullifiers)
    .ok ⟨payload.createdResults.map fun entry => (entry.commitment, entry.present),
      payload.nullifierResults.map fun entry => (entry.commitment, entry.present), payload.blockNumber⟩

/-- The status rows of the entry's block with its `tx_final`, applied or rejected as it is. -/
def statusesOf (log : StateLogDb V) (e : Entry V) : List (TxStatusRow V) :=
  log.txStatuses.filter fun r => r.txFinal = some e.payload.txFinal ∧ (r.error = none ↔ e.error = none) ∧
    (blockOfSlot log r.slot).map (fun block => (block.number : Int)) = some e.block

/-- The status that the synchronizer reports for the entry. -/
def describeEntry (log : StateLogDb V) (e : Entry V) : TxStatus :=
  match TxStatusRow.first (statusesOf log e) with
  | some r => ⟨showTxHash r.txHash, e.block, r.error⟩
  | none => ⟨"", e.block, none⟩

omit [Values V] in
/-- The block of a slot is read off its row. -/
theorem blockOfSlot_of_mem {log : StateLogDb V} (hdesc : Descending log.slots) {row : SlotRow V}
    (hrow : row ∈ log.slots) : blockOfSlot log row.slot = row.state.map fun s => s.metadata.block := by
  unfold blockOfSlot
  have hfound : log.slots.find? (fun r => r.slot = row.slot) = some row := by
    unfold Descending at hdesc
    generalize log.slots = rows at hrow hdesc
    induction rows with
    | nil => cases hrow
    | cons first rows ih =>
      obtain ⟨hfirst, hdesc⟩ := List.pairwise_cons.mp hdesc
      rcases List.mem_cons.mp hrow with rfl | hrow
      · simp
      · have hlt := (hfirst row hrow).1
        have hne : ¬ first.slot = row.slot := by omega
        rw [List.find?_cons_of_neg (by simpa using hne)]
        exact ih hrow hdesc
  rw [hfound]
  rfl

omit [Values V] in
theorem blockOfSlot_iff {log : StateLogDb V} (hdesc : Descending log.slots) {slot : Nat} {block : Int} :
    (blockOfSlot log slot).map (fun block => (block.number : Int)) = some block ↔ DerivedAt log slot block := by
  constructor
  · intro h
    obtain ⟨b, hb, rfl⟩ := Option.map_eq_some_iff.mp h
    unfold blockOfSlot at hb
    obtain ⟨row, hfound, hstate⟩ := Option.bind_eq_some_iff.mp hb
    obtain ⟨s, hs, rfl⟩ := Option.map_eq_some_iff.mp hstate
    exact ⟨row, List.mem_of_find?_eq_some hfound, by simpa using List.find?_some hfound, s, hs, rfl⟩
  · rintro ⟨row, hrow, rfl, s, hs, rfl⟩
    rw [blockOfSlot_of_mem hdesc hrow, hs]
    rfl

omit [Values V] in
/-- A later slot is of a later block. -/
theorem DerivedAt.lt_iff {log : StateLogDb V} (hdesc : Descending log.slots) {slot slot' : Nat} {block block' : Int}
    (h : DerivedAt log slot block) (h' : DerivedAt log slot' block') : slot < slot' ↔ block < block' := by
  obtain ⟨row, hrow, rfl, s, hs, rfl⟩ := h
  obtain ⟨row', hrow', rfl, s', hs', rfl⟩ := h'
  have hpair : ∀ r ∈ log.slots, ∀ r' ∈ log.slots, r = r' ∨
      (r'.slot < r.slot ∧ ∀ s s', r.state = some s → r'.state = some s' → s'.metadata.block.number < s.metadata.block.number) ∨
      (r.slot < r'.slot ∧ ∀ s s', r'.state = some s → r.state = some s' → s'.metadata.block.number < s.metadata.block.number) := by
    unfold Descending at hdesc
    generalize log.slots = rows at hdesc
    induction rows with
    | nil => simp
    | cons first rows ih =>
      obtain ⟨hfirst, hdesc⟩ := List.pairwise_cons.mp hdesc
      intro r hr r' hr'
      rcases List.mem_cons.mp hr with rfl | hin <;> rcases List.mem_cons.mp hr' with rfl | hin'
      · exact .inl rfl
      · exact .inr (.inl (hfirst r' hin'))
      · exact .inr (.inr (hfirst r hin))
      · exact ih hdesc r hin r' hin'
  rcases hpair row hrow row' hrow' with rfl | ⟨hslot, hblock⟩ | ⟨hslot, hblock⟩
  · obtain rfl : s = s' := Option.some.inj (hs.symm.trans hs')
    simp
  · have hnumber := hblock s s' hs hs'
    omega
  · have hnumber := hblock s' s hs' hs
    omega

/-- Later slots have no status of an entry from before them. -/
theorem Extends.statusesOf {log log' : StateLogDb V} {number : Int} {newer : List (SlotRow V)}
    (h : Extends log log' number newer) (hdesc' : Descending log'.slots) (hdesc : Descending log.slots) {e : Entry V}
    {t : V} (ht : e.payload.txFinal = t) (hblock : e.block ≤ number) :
    statusesOf log' e = (log.txStatuses.filter fun r => r.txFinal = some t).filter
      fun r => (r.error = none ↔ e.error = none) ∧
        (blockOfSlot log r.slot).map (fun block => (block.number : Int)) = some e.block := by
  obtain ⟨rows, hrows, hin⟩ := h.statuses
  have hearlier : ∀ slot, DerivedAt log' slot e.block → DerivedAt log slot e.block := by
    rintro slot ⟨row, hrow, hslot, s, hs, heq⟩
    rw [h.slots] at hrow
    rcases List.mem_append.mp hrow with hrow | hrow
    · have hlt := h.blocks row hrow s hs
      omega
    · exact ⟨row, hrow, hslot, s, hs, heq⟩
  have hnew : ∀ r ∈ rows, ¬ DerivedAt log' r.slot e.block := by
    intro r hr hderived
    obtain ⟨row, hrow, hslot⟩ := hin r hr
    obtain ⟨row', hrow', hslot', -⟩ := hearlier r.slot hderived
    unfold Descending at hdesc'
    rw [h.slots] at hdesc'
    have hlt := ((List.pairwise_append.mp hdesc').2.2 row hrow row' hrow').1
    omega
  have hsame : ∀ slot, DerivedAt log' slot e.block ↔ DerivedAt log slot e.block := by
    refine fun slot => ⟨hearlier slot, ?_⟩
    rintro ⟨row, hrow, hrest⟩
    exact ⟨row, by rw [h.slots]; exact List.mem_append_right newer hrow, hrest⟩
  subst ht
  unfold Client.statusesOf
  rw [hrows, List.filter_append, List.filter_filter]
  have hempty : (rows.filter fun r => r.txFinal = some e.payload.txFinal ∧ (r.error = none ↔ e.error = none) ∧
      (blockOfSlot log' r.slot).map (fun block => (block.number : Int)) = some e.block) = [] := by
    refine List.filter_eq_nil_iff.mpr fun r hr hp => ?_
    simp only [decide_eq_true_eq, blockOfSlot_iff hdesc'] at hp
    exact hnew r hr hp.2.2
  rw [hempty, List.nil_append]
  refine List.filter_congr fun r _ => ?_
  rw [Bool.eq_iff_iff]
  simp only [Bool.and_eq_true, decide_eq_true_eq, blockOfSlot_iff hdesc', blockOfSlot_iff hdesc, hsame]
  tauto

/-- The status of a transaction, read off the chain. -/
theorem FollowedBy.txStatus {n n' : Node V} {c : Chain V} (h : FollowedBy n c) {newer : List (SlotRow V)}
    (hextends : Extends n.stateLog n'.stateLog c.head newer) (hdesc : Descending n'.stateLog.slots) (app : Reads V)
    (happ : app.stateLog = n.stateLog) (t : V) :
    (fetchTxStatus app t).map (fun status => (⟨status.txHash, status.blockNumber, status.error⟩ : TxStatus)) =
      (c.status t).map (describeEntry n'.stateLog) := by
  unfold fetchTxStatus getTxStatusByTxFinal StateLogDb.txStatusByTxFinal
  rw [happ]
  cases hfirst : TxStatusRow.first (n.stateLog.txStatuses.filter fun r => r.txFinal = some t) with
  | none =>
    have hempty := TxStatusRow.first_eq_none.mp hfirst
    have hnone : c.status t = none := by
      cases hstatus : c.status t with
      | none => rfl
      | some e =>
        obtain ⟨he, htx⟩ := Chain.status_mem hstatus
        obtain ⟨r, hr, htells⟩ := h.rows e he
        have hmem : r ∈ n.stateLog.txStatuses.filter fun r => r.txFinal = some t := by
          simp [hr, htells.txFinal, htx]
        rw [hempty] at hmem
        cases hmem
    rw [hnone]
    rfl
  | some r =>
    have hmem := TxStatusRow.first_mem hfirst
    simp only [List.mem_filter, decide_eq_true_eq] at hmem
    obtain ⟨hr, hfinal⟩ := hmem
    have hleast := TxStatusRow.first_least hfirst
    obtain ⟨f, hf, hftells⟩ := h.entries r hr (by rw [hfinal]; simp)
    have hft : f.payload.txFinal = t := Option.some.inj (hftells.txFinal.symm.trans hfinal)
    cases hstatus : c.status t with
    | none => exact absurd hft (Chain.status_none hstatus f hf)
    | some e =>
      obtain ⟨he, het, hbest⟩ := Chain.status_best h.sorted hstatus
      obtain ⟨r', hr', htells'⟩ := h.rows e he
      have hnot := hleast r' (by simp [hr', htells'.txFinal, het])
      -- the row is as good as the entry's
      have hsame : r.error = none ↔ e.error = none := by
        constructor
        · intro hnone
          exact (hbest f hf hft).1 (hftells.error.mp hnone)
        · intro hnone
          by_contra herr
          have hsome : r.error.isSome = true := Option.isSome_iff_ne_none.mpr herr
          simp [TxStatusRow.before, htells'.error.mpr hnone, hsome] at hnot
      have hle := (hbest f hf hft).2 (hftells.error.symm.trans hsame)
      have hslot : ¬ r.slot < r'.slot := by
        intro hlt
        have hkind : r'.error.isSome = r.error.isSome := by
          rw [Bool.eq_iff_iff, Option.isSome_iff_ne_none, Option.isSome_iff_ne_none, ne_eq, ne_eq, htells'.error, hsame]
        have hne : r'.slot ≠ r.slot := by omega
        simp [TxStatusRow.before, hkind, hne, hlt] at hnot
      have hblock : f.block = e.block := by
        have hiff := hftells.derived.lt_iff h.descending htells'.derived
        omega
      have hderived : DerivedAt n.stateLog r.slot e.block := by
        rw [← hblock]
        exact hftells.derived
      -- later rows are of later blocks
      have hrows : statusesOf n'.stateLog e = (n.stateLog.txStatuses.filter fun r => r.txFinal = some t).filter
          fun r => (r.error = none ↔ e.error = none) ∧
            (blockOfSlot n.stateLog r.slot).map (fun block => (block.number : Int)) = some e.block := by
        exact hextends.statusesOf hdesc h.descending het (h.block_le_head he)
      have hpick : TxStatusRow.first (statusesOf n'.stateLog e) = some r := by
        rw [hrows]
        refine TxStatusRow.first_filter hfirst ?_
        simp only [decide_eq_true_eq]
        exact ⟨hsame, (blockOfSlot_iff h.descending).mpr hderived⟩
      obtain ⟨block, hblockOf, hnumber⟩ := Option.map_eq_some_iff.mp ((blockOfSlot_iff h.descending).mpr hderived)
      simp only [Option.bind_eq_bind, Option.bind_some, hblockOf, pure, Option.map_some, describeEntry, hpick, hnumber]

theorem FollowedBy.hasCreated {n : Node V} {c : Chain V} (h : FollowedBy n c) {s : DonState V}
    (hs : n.stateLog.donStateAtHead = some s) (x : V) : s.HasCreated x ↔ x ∈ c.created := by
  obtain ⟨l, htally, hcreated⟩ := h.tally
  have hhead := htally.head
  rw [hs] at hhead
  obtain ⟨⟨a, ha, hroot⟩, -⟩ := hhead
  rw [hcreated, List.mem_iff_getElem?, DonState.HasCreated, hroot]
  simp only [arrayContains_ofArray, ha _]

theorem FollowedBy.hasNullifier {n : Node V} {c : Chain V} (h : FollowedBy n c) {s : DonState V}
    (hs : n.stateLog.donStateAtHead = some s) (x : V) : s.HasNullifier x ↔ x ∈ c.nullifiers := by
  have hroot := h.nullifiers
  rw [hs, Option.elim_some] at hroot
  rw [DonState.HasNullifier, hroot, setContains_ofSet, List.mem_toFinset]

omit [Values V] in
theorem ResultsFor.pairs {p : V → Prop} {f : V → Bool} {queried : List V} {results : List (ContainsEntry V)}
    (h : ResultsFor p queried results) (hf : ∀ x, p x ↔ f x = true) :
    results.map (fun entry => (entry.commitment, entry.present)) = queried.map fun x => (x, f x) := by
  refine (map_eq_of_forall₂ h fun x r hr => ?_).symm
  obtain ⟨rfl, hpresent⟩ := hr
  rw [Prod.mk.injEq, Bool.eq_iff_iff, hpresent, hf]
  exact ⟨rfl, Iff.rfl⟩

/-- A membership response is of the chain. -/
theorem FollowedBy.membership {n : Node V} {c : Chain V} (h : FollowedBy n c) {reads : Reads V}
    (hreads : reads.stateLog = n.stateLog) {request : MembershipRequest V} {payload : Synchronizer.MembershipResponse V}
    (hpost : postStateMembership reads request.objectCommitments request.nullifiers = .ok payload) :
    (⟨payload.createdResults.map fun entry => (entry.commitment, entry.present),
      payload.nullifierResults.map fun entry => (entry.commitment, entry.present), payload.blockNumber⟩ :
        Objects.MembershipResponse V) = membershipOf c request := by
  obtain ⟨m, hm, hpost⟩ := bind_eq_ok hpost
  cases hpost
  obtain ⟨l, htally, -⟩ := h.tally
  obtain ⟨hhead, hcreated, hnullifiers⟩ := loadMembership_spec (by rw [hreads]; exact htally) hm
  rw [hreads] at hhead
  have hnumber := h.head
  rw [hhead, Option.elim_some] at hnumber
  unfold membershipOf
  rw [ResultsFor.pairs hcreated fun x => (h.hasCreated hhead x).trans decide_eq_true_iff.symm,
    ResultsFor.pairs hnullifiers fun x => (h.hasNullifier hhead x).trans decide_eq_true_iff.symm, hnumber]

/-! ## The refinement -/

/-- Why a request fails. -/
def failure : (q : Query V) → q.Answer → Option String
  | .head, answer | .txStatus _, answer | .membership _, answer => match answer with
    | .error e => some e
    | .ok _ => none

/-- The chain that answers request `k`, unless the request fails. -/
def viewAt (texts : Texts V) (app : Nat → Except String (Reads V)) (chains : Nat → Chain V) (asked : Option (Query V))
    (k : Nat) : Except String (Chain V) :=
  match asked.bind fun q => failure q (responses texts app k q) with
  | some e => .error e
  | none => .ok (chains k)

/-- The reads of a request that is served after `i` slots of the history, from the tables as they are then and the
containers as they are at most a few slots later. -/
def ServedAfter (parser : BlobParser V) (initStartSlot : Nat) (slots : List (Nat × Slot)) (i : Nat) (reads : Reads V) :
    Prop :=
  ∃ j j', i ≤ j ∧ j ≤ j' ∧
    reads = ⟨(nodeAfter parser initStartSlot Node.genesis (slots.take i)).stateLog,
      (nodeAfter parser initStartSlot Node.genesis (slots.take j)).containers,
      (nodeAfter parser initStartSlot Node.genesis (slots.take j')).containers⟩

/-- Request `k` fails on its way, before there is a state, or over the limit. -/
inductive Unanswered (app : Nat → Except String (Reads V)) (k : Nat) (q : Query V) : Prop
  | network (e : String) (h : app k = .error e)
  | empty (reads : Reads V) (h : app k = .ok reads) (hnone : reads.stateLog.donStateAtHead = none)
  | limit (request : MembershipRequest V) (hq : q = .membership request)
    (h : maxHashQueryItems < request.objectCommitments.length + request.nullifiers.length)

theorem nodeAfter_append (n : Node V) (xs ys : List (Nat × Slot)) : nodeAfter parser initStartSlot n (xs ++ ys) =
    nodeAfter parser initStartSlot (nodeAfter parser initStartSlot n xs) ys := by
  simp [nodeAfter, Node.applyAll, List.foldl_append]

theorem chainAfter_append (ground : V → Int) (n : Node V) (c : Chain V) (xs ys : List (Nat × Slot)) :
    chainAfter parser initStartSlot ground n c (xs ++ ys) = chainAfter parser initStartSlot ground
      (nodeAfter parser initStartSlot n xs) (chainAfter parser initStartSlot ground n c xs) ys := by
  induction xs generalizing n c with
  | nil => rfl
  | cons e xs ih => exact ih _ _

/-- Later slots only add to the store. -/
theorem nodeAfter_within (slots : List (Nat × Slot)) {i j : Nat} (hij : i ≤ j) :
    (nodeAfter parser initStartSlot Node.genesis (slots.take i)).containers.Within
      (nodeAfter parser initStartSlot (Node.genesis : Node V) (slots.take j)).containers := by
  have hsplit : slots.take j = slots.take i ++ (slots.drop i).take (j - i) := by
    rw [← List.take_add, Nat.add_sub_cancel' hij]
  rw [hsplit, nodeAfter_append]
  exact Node.applyAll_within parser initStartSlot _ _

omit [Values V] in
theorem slotStateAtHead_state (log : StateLogDb V) : (slotStateAtHead log).map SlotState.state = log.donStateAtHead := by
  unfold slotStateAtHead StateLogDb.donStateAtHead
  induction log.slots with
  | nil => rfl
  | cons row rows ih =>
    rw [List.findSome?_cons, List.findSome?_cons]
    cases row.state with
    | none => exact ih
    | some s => rfl

/-- A failed request is a failed view. -/
theorem answers_of_failure {describe : Entry V → TxStatus} {views : Nat → Except String (Chain V)} {k : Nat} {q : Query V}
    {answer : q.Answer} {e : String} (h : failure q answer = some e) (hview : views k = .error e) :
    answer = answers describe views k q := by
  cases q <;> cases answer <;> cases h <;> rw [Objects.answers, hview] <;> rfl

/-- A request fails only where it may. -/
theorem unanswered_of_failure {n : Node V} (hstocked : n.Stocked) (texts : Texts V)
    {app : Nat → Except String (Reads V)} {k : Nat} {reads : Reads V} (happ : app k = .ok reads)
    (hlog : reads.stateLog = n.stateLog) (hfirst : n.containers.Within reads.first)
    (hsecond : n.containers.Within reads.second) {q : Query V} {e : String}
    (hfailure : failure q (responses texts app k q) = some e) : Unanswered app k q := by
  cases hs : n.stateLog.donStateAtHead with
  | none => exact .empty reads happ (by rw [hlog, hs])
  | some s =>
    cases q with
    | head =>
      obtain ⟨top, htop, -⟩ := Option.map_eq_some_iff.mp ((slotStateAtHead_state n.stateLog).trans hs)
      simp [responses, happ, fetchHead, getStateHead, hlog, htop, decodeJsonResponse, bind, Except.bind, failure] at hfailure
    | txStatus t => simp [responses, happ, bind, Except.bind, failure] at hfailure
    | membership request =>
      by_cases hlimit : request.objectCommitments.length + request.nullifiers.length ≤ maxHashQueryItems
      · have hbacked := hstocked.backed s hs
        obtain ⟨⟨payload, hpost⟩, -⟩ := AnswersOneHead.of_backed (P := openProofs) (by rw [hlog]; exact hs)
          (hbacked.mono hfirst) (hbacked.mono hsecond) hlimit
        simp [responses, happ, hpost, decodeJsonResponse, bind, Except.bind, failure] at hfailure
      · exact .limit request rfl (by omega)

/-- A request that does not fail is answered as the chain does. -/
theorem FollowedBy.answered {n n' : Node V} {c : Chain V} (h : FollowedBy n c) {newer : List (SlotRow V)}
    (hextends : Extends n.stateLog n'.stateLog c.head newer) (hdesc : Descending n'.stateLog.slots) (texts : Texts V)
    {app : Nat → Except String (Reads V)} {k : Nat} {reads : Reads V} (happ : app k = .ok reads)
    (hlog : reads.stateLog = n.stateLog) {q : Query V} (hfailure : failure q (responses texts app k q) = none)
    {views : Nat → Except String (Chain V)} (hview : views k = .ok c) :
    responses texts app k q = answers (describeEntry n'.stateLog) views k q := by
  cases q with
  | head =>
    have hstate := slotStateAtHead_state n.stateLog
    cases htop : slotStateAtHead n.stateLog with
    | none =>
      simp [responses, happ, fetchHead, getStateHead, hlog, htop, decodeJsonResponse, bind, Except.bind, failure] at hfailure
    | some top =>
      have hnumber := h.head
      rw [← hstate, htop, Option.map_some, Option.elim_some] at hnumber
      rw [Objects.answers, hview]
      simp only [responses, happ, fetchHead, getStateHead, hlog, htop, decodeJsonResponse, bind, Except.bind, Except.map,
        stateHeadResponse, hnumber]
      rfl
  | txStatus t =>
    have hstatus := h.txStatus hextends hdesc reads hlog t
    simp only [responses, happ, bind, Except.bind]
    rw [Objects.answers, hview, hstatus]
    rfl
  | membership request =>
    cases hpost : postStateMembership reads request.objectCommitments request.nullifiers with
    | error err => simp [responses, happ, hpost, decodeJsonResponse, bind, Except.bind, failure] at hfailure
    | ok payload =>
      rw [Objects.answers, hview]
      simp only [responses, happ, hpost, decodeJsonResponse, bind, Except.bind, Except.map, h.membership hlog hpost]
      rfl

/-- A history that commits the slots of a chain without reorgs is followed by the chain of the driver's rules, which only
grows; and every routine of the driver that reads the synchronizer while it goes on reads what the chain answers, with
views that fail only where requests do. -/
theorem chain_refinement (texts : Texts V) (slots : List (Nat × Slot)) (hslots : Ascending 0 slots) :
    let last := nodeAfter parser initStartSlot Node.genesis slots
    let chains i := chainAfter parser initStartSlot (groundingBlock last.stateLog) Node.genesis Chain.genesis (slots.take i)
    (∀ i j, i ≤ j → (chains i).Grows (chains j)) ∧
    ∀ (upTo : Nat → Nat) (app : Nat → Except String (Reads V)), Monotone upTo →
      (∀ k reads, app k = .ok reads → ServedAfter parser initStartSlot slots (upTo k) reads) →
      ∀ (α : Type) (routine : Reading V α) (k : Nat), ∃ views, Growing views ∧
        (∀ j c, views j = .ok c → c = chains (upTo j)) ∧
        (∀ i q e, (routine.serve (responses texts app) k).2[i]? = some q → views (k + i) = .error e →
          Unanswered app (k + i) q) ∧
        routine.serve (responses texts app) k = routine.serve (answers (describeEntry last.stateLog) views) k := by
  intro last chains
  have hsplit : ∀ i, slots.take i ++ slots.drop i = slots := fun i => List.take_append_drop i slots
  have hrun : ∀ i, FollowedBy (nodeAfter parser initStartSlot Node.genesis (slots.take i)) (chains i) ∧
      Ascending (chains i).head (slots.drop i) := by
    intro i
    obtain ⟨hfollowed, -, hrest⟩ := FollowedBy.genesis.run parser initStartSlot (slots.take i) (slots.drop i)
      (by rw [hsplit]) (by rw [hsplit]; exact hslots)
    exact ⟨hfollowed, hrest⟩
  have hgrows : ∀ i j, i ≤ j → (chains i).Grows (chains j) := by
    intro i j hij
    have hlast : nodeAfter parser initStartSlot (nodeAfter parser initStartSlot Node.genesis (slots.take i))
        ((slots.drop i).take (j - i) ++ (slots.drop i).drop (j - i)) = last := by
      rw [List.take_append_drop, ← nodeAfter_append, hsplit]
    obtain ⟨hfollowed, hrest⟩ := hrun i
    obtain ⟨-, hgrows, -⟩ := hfollowed.run parser initStartSlot ((slots.drop i).take (j - i)) ((slots.drop i).drop (j - i))
      (by rw [hlast]) (by rw [List.take_append_drop]; exact hrest)
    rw [← chainAfter_append, ← List.take_add, Nat.add_sub_cancel' hij] at hgrows
    exact hgrows
  refine ⟨hgrows, fun upTo app hmono hserved α routine k => ?_⟩
  have hstocked : ∀ i, (nodeAfter parser initStartSlot (Node.genesis : Node V) (slots.take i)).Stocked :=
    fun i => Node.genesis_stocked.applyAll parser initStartSlot _
  have hextends : ∀ i, ∃ newer, Extends (nodeAfter parser initStartSlot Node.genesis (slots.take i)).stateLog last.stateLog
      (chains i).head newer := by
    intro i
    obtain ⟨hfollowed, hrest⟩ := hrun i
    obtain ⟨l, htally, -⟩ := hfollowed.tally
    have hnewer := nodeAfter_extends parser initStartSlot htally hrest
    rw [← nodeAfter_append, hsplit] at hnewer
    exact hnewer
  have hdesc : Descending last.stateLog.slots := by
    have hend := (hrun slots.length).1
    rw [List.take_length] at hend
    exact hend.descending
  let asked := (routine.serve (responses texts app) k).2
  let views j := viewAt texts app (fun j => chains (upTo j)) (if k ≤ j then asked[j - k]? else none) j
  have hviews : ∀ j c, views j = .ok c → c = chains (upTo j) := by
    intro j c hc
    simp only [views, viewAt] at hc
    split at hc
    · cases hc
    · cases hc
      rfl
  have hasked : ∀ i q, asked[i]? = some q → views (k + i) = match failure q (responses texts app (k + i) q) with
      | some e => .error e
      | none => .ok (chains (upTo (k + i))) := by
    intro i q hq
    have hle : k ≤ k + i := Nat.le_add_right k i
    simp only [views, viewAt, if_pos hle, Nat.add_sub_cancel_left, hq, Option.bind_some]
  have hfailed : ∀ j q e, app j = .error e → failure q (responses texts app j q) = some e := by
    intro j q e he
    cases q <;> simp [responses, he, bind, Except.bind, failure]
  refine ⟨views, fun i j c c' hij hc hc' => ?_, hviews, fun i q e hq he => ?_, ?_⟩
  · rw [hviews i c hc, hviews j c' hc']
    exact hgrows _ _ (hmono hij)
  · cases happ : app (k + i) with
    | error err => exact .network err happ
    | ok reads =>
      obtain ⟨j, j', hij, hjj', hreads⟩ := hserved (k + i) reads happ
      cases hfailure : failure q (responses texts app (k + i) q) with
      | none =>
        rw [hasked i q hq, hfailure] at he
        cases he
      | some err =>
        refine unanswered_of_failure (hstocked (upTo (k + i))) texts happ (by rw [hreads]) ?_ ?_ hfailure
        · rw [hreads]
          exact nodeAfter_within parser initStartSlot slots hij
        · rw [hreads]
          exact nodeAfter_within parser initStartSlot slots (hij.trans hjj')
  · refine Dialogue.serve_congr routine k fun i q hq => ?_
    have hview := hasked i q hq
    cases hfailure : failure q (responses texts app (k + i) q) with
    | some e =>
      rw [hfailure] at hview
      exact answers_of_failure hfailure hview
    | none =>
      rw [hfailure] at hview
      cases happ : app (k + i) with
      | error err =>
        rw [hfailed (k + i) q err happ] at hfailure
        cases hfailure
      | ok reads =>
        obtain ⟨j, j', -, -, hreads⟩ := hserved (k + i) reads happ
        obtain ⟨newer, hnewer⟩ := hextends (upTo (k + i))
        exact (hrun (upTo (k + i))).1.answered hnewer hdesc texts happ (by rw [hreads]) hfailure hview

/-- Two blocks, and a routine that begins before the first of them. -/
theorem chain_refinement_sample :
    let slots := [(0, sampleSlot 1), (0, sampleSlot 2)]
    let parser : BlobParser Term := sampleParser staleMine freshMine
    let node i := nodeAfter parser 1 Node.genesis (slots.take i)
    let routine := fetchMembershipWithNullifiers [stamped (sampleObject : Dictionary Term)] []
    let texts : Texts Term := ⟨"", fun _ => "", fun _ => "", fun _ => "", ""⟩
    Ascending 0 slots ∧ ∃ views, Growing views ∧
      routine.serve (responses texts fun j => .ok ⟨(node j).stateLog, (node j).containers, (node j).containers⟩) 0 =
        routine.serve (answers (describeEntry (nodeAfter parser 1 Node.genesis slots).stateLog) views) 0 := by
  intro slots parser node routine texts
  have hslots : Ascending 0 slots := ⟨by decide, by decide, trivial⟩
  obtain ⟨-, hserve⟩ := chain_refinement parser 1 texts slots hslots
  obtain ⟨views, hgrowing, -, -, heq⟩ := hserve id
    (fun j => .ok ⟨(node j).stateLog, (node j).containers, (node j).containers⟩) monotone_id
    (fun j reads hreads => by
      cases hreads
      exact ⟨j, j, le_refl j, le_refl j, rfl⟩) _ routine 0
  exact ⟨hslots, views, hgrowing, heq⟩

end Client

end DigitalObjects.Driver
