import DigitalObjects.Driver.Chain
import DigitalObjects.Driver.Operations
import DigitalObjects.Lib.Dialogue
set_option autoImplicit false

/-!
What the driver asks of the synchronizer before it settles. The chain goes on between two
requests, so the answers are those of different heads.
-/

namespace DigitalObjects.Driver

open Txlib Lib

variable {H : Type} [DecidableEq H]

/-! ## A chain that goes on -/

/-- `c'` comes of `c` by commits. -/
inductive Chain.Grows (c : Chain H) : Chain H → Prop
  | refl : Grows c c
  | commit {c' : Chain H} (h : Grows c c') {block : Int} (hblock : c'.head < block)
      (ps : List (Payload H)) : Grows c (c'.commit block ps)

namespace Chain

variable {c c' : Chain H}

theorem created_commit (c : Chain H) (block : Int) (ps : List (Payload H)) :
    c.created ⊆ (c.commit block ps).created := by
  show c.created ⊆ (c.applyAll block ps).created
  induction ps generalizing c with
  | nil => exact List.Subset.refl _
  | cons p ps ih => exact List.Subset.trans (created_apply c block p) (ih (c.apply block p))

theorem nullifiers_commit (c : Chain H) (block : Int) (ps : List (Payload H)) :
    c.nullifiers ⊆ (c.commit block ps).nullifiers := by
  show c.nullifiers ⊆ (c.applyAll block ps).nullifiers
  induction ps generalizing c with
  | nil => exact List.Subset.refl _
  | cons p ps ih => exact List.Subset.trans (nullifiers_apply c block p) (ih (c.apply block p))

theorem Grows.created (h : c.Grows c') : c.created ⊆ c'.created := by
  induction h with
  | refl => exact List.Subset.refl _
  | commit _ _ ps ih => exact List.Subset.trans ih (created_commit _ _ ps)

theorem Grows.nullifiers (h : c.Grows c') : c.nullifiers ⊆ c'.nullifiers := by
  induction h with
  | refl => exact List.Subset.refl _
  | commit _ _ ps ih => exact List.Subset.trans ih (nullifiers_commit _ _ ps)

end Chain

namespace Objects

/-! ## Requests -/

structure MembershipRequest (H : Type) where
  objectCommitments : List H
  nullifiers : List H
deriving DecidableEq, Repr

structure MembershipResponse (H : Type) where
  createdResults : List (H × Bool)
  nullifierResults : List (H × Bool)
  blockNumber : Int

inductive Query (H : Type) where
  | head
  | txStatus (txFinal : H)
  | membership (request : MembershipRequest H)
deriving DecidableEq, Repr

def Query.Answer : Query H → Type
  | head => Except String Int
  | txStatus _ => Except String (Option TxStatus)
  | membership _ => Except String (MembershipResponse H)

abbrev Reading (H α : Type) := Dialogue (Query H) Query.Answer String α

def fetchHead : Reading H Int := .ask .head Dialogue.lift

def fetchTxStatus (txFinal : H) : Reading H (Option TxStatus) := .ask (.txStatus txFinal) Dialogue.lift

structure SynchronizerMembership (H : Type) extends Membership H where
  /-- Oldest head block used across the batches. -/
  blockNumber : Int

/-- `HASH_BATCH_LIMIT`, for commitments and nullifiers together. -/
def hashBatchLimit : Nat := 256

/-- What the batches so far have told. -/
structure Batches (H : Type) where
  createdObjects : List H
  onChainNullifiers : List H
  blockNumber : Option Int

def Batches.add (b : Batches H) (payload : MembershipResponse H) : Batches H where
  createdObjects := b.createdObjects ++ (payload.createdResults.filter (·.2)).map (·.1)
  onChainNullifiers := b.onChainNullifiers ++ (payload.nullifierResults.filter (·.2)).map (·.1)
  blockNumber := some (match b.blockNumber with
    | some earliest => min earliest payload.blockNumber
    | none => payload.blockNumber)

def objTake (objectCommitments : List H) (objCursor : Nat) : Nat :=
  min (objectCommitments.length - objCursor) hashBatchLimit

/-- What the commitments leave of the limit. -/
def nullTake (objectCommitments nullifiers : List H) (objCursor nullCursor : Nat) : Nat :=
  let remainingCapacity := hashBatchLimit - objTake objectCommitments objCursor
  min (nullifiers.length - nullCursor) remainingCapacity

def batchRequest (objectCommitments nullifiers : List H) (objCursor nullCursor : Nat) :
    MembershipRequest H where
  objectCommitments := (objectCommitments.drop objCursor).take (objTake objectCommitments objCursor)
  nullifiers :=
    (nullifiers.drop nullCursor).take (nullTake objectCommitments nullifiers objCursor nullCursor)

/-- The loop, from its cursors on. -/
def fetchBatches (objectCommitments nullifiers : List H) (objCursor nullCursor : Nat)
    (b : Batches H) : Reading H (Batches H) :=
  .ask (.membership (batchRequest objectCommitments nullifiers objCursor nullCursor)) fun
    | .error e => .throw e
    | .ok payload =>
      let objNext := objCursor + objTake objectCommitments objCursor
      let nullNext := nullCursor + nullTake objectCommitments nullifiers objCursor nullCursor
      if objectCommitments.length ≤ objNext ∧ nullifiers.length ≤ nullNext then .ret (b.add payload)
      else fetchBatches objectCommitments nullifiers objNext nullNext (b.add payload)
termination_by objectCommitments.length - objCursor + (nullifiers.length - nullCursor)
decreasing_by
  simp only [objTake, nullTake, hashBatchLimit] at *
  omega

/-- An empty query still needs one request to read the head. -/
def fetchMembershipWithNullifiers (objectCommitments nullifiers : List H) :
    Reading H (SynchronizerMembership H) := do
  let b ← fetchBatches objectCommitments nullifiers 0 0 ⟨[], [], none⟩
  match b.blockNumber with
  | some blockNumber => pure ⟨⟨b.createdObjects, b.onChainNullifiers⟩, blockNumber⟩
  | none => .throw "at least one membership request was made"

/-! ## What `settle_with` reads -/

/-- The membership response at the head of the chain. -/
def membershipOf (c : Chain H) (request : MembershipRequest H) : MembershipResponse H where
  createdResults := request.objectCommitments.map fun h => (h, decide (h ∈ c.created))
  nullifierResults := request.nullifiers.map fun h => (h, decide (h ∈ c.nullifiers))
  blockNumber := c.head

/-- The request `k` is answered from the chain as it is then, or fails. -/
def answers (describe : Entry H → TxStatus) (views : Nat → Except String (Chain H)) (k : Nat) :
    (q : Query H) → q.Answer
  | .head => (views k).map Chain.head
  | .txStatus txFinal => (views k).map fun c => (c.status txFinal).map describe
  | .membership request => (views k).map fun c => membershipOf c request

/-- Between two requests the chain may have grown. -/
def Growing (views : Nat → Except String (Chain H)) : Prop :=
  ∀ i j c c', i ≤ j → views i = .ok c → views j = .ok c' → c.Grows c'

/-! ## Batches -/

def Query.objectCommitments : Query H → List H
  | membership request => request.objectCommitments
  | _ => []

def Query.nullifiers : Query H → List H
  | membership request => request.nullifiers
  | _ => []

omit [DecidableEq H] in
/-- One turn of the loop. -/
theorem fetchBatches_serve (reply : Nat → (q : Query H) → q.Answer)
    (objectCommitments nullifiers : List H) (objCursor nullCursor : Nat) (b : Batches H) (k : Nat) :
    (fetchBatches objectCommitments nullifiers objCursor nullCursor b).serve reply k =
      let request := batchRequest objectCommitments nullifiers objCursor nullCursor
      let objNext := objCursor + objTake objectCommitments objCursor
      let nullNext := nullCursor + nullTake objectCommitments nullifiers objCursor nullCursor
      match reply k (.membership request) with
      | .error e => (.error e, [.membership request])
      | .ok payload =>
        if objectCommitments.length ≤ objNext ∧ nullifiers.length ≤ nullNext then
          (.ok (b.add payload), [.membership request])
        else
          let rest := (fetchBatches objectCommitments nullifiers objNext nullNext (b.add payload)).serve
            reply (k + 1)
          (rest.1, .membership request :: rest.2) := by
  rw [fetchBatches, Dialogue.serve]
  dsimp only
  generalize reply k (.membership
    (batchRequest objectCommitments nullifiers objCursor nullCursor)) = answer
  cases answer with
  | error e => rfl
  | ok payload =>
    dsimp only
    split <;> rfl

/-- The requests that were answered, each with the chain it was answered from. -/
structure Answered (views : Nat → Except String (Chain H)) (k : Nat) (asked : List (Query H))
    (objectCommitments nullifiers : List H)
    (answered : List (MembershipRequest H × Chain H)) : Prop where
  asked : asked = answered.map fun a => .membership a.1
  views : ∀ i a, answered[i]? = some a → views (k + i) = .ok a.2
  objectCommitments : answered.flatMap (fun a => a.1.objectCommitments) = objectCommitments
  nullifiers : answered.flatMap (fun a => a.1.nullifiers) = nullifiers

omit [DecidableEq H] in
theorem batchRequest_append (objectCommitments nullifiers : List H) (objCursor nullCursor : Nat) :
    (batchRequest objectCommitments nullifiers objCursor nullCursor).objectCommitments ++
        objectCommitments.drop (objCursor + objTake objectCommitments objCursor) =
      objectCommitments.drop objCursor ∧
    (batchRequest objectCommitments nullifiers objCursor nullCursor).nullifiers ++
        nullifiers.drop (nullCursor + nullTake objectCommitments nullifiers objCursor nullCursor) =
      nullifiers.drop nullCursor := by
  constructor
  · rw [← List.drop_drop]
    exact List.take_append_drop _ _
  · rw [← List.drop_drop]
    exact List.take_append_drop _ _

omit [DecidableEq H] in
/-- A further request before those that were answered. -/
theorem Answered.cons {views : Nat → Except String (Chain H)} {k : Nat} {asked : List (Query H)}
    {objectCommitments nullifiers : List H} {answered : List (MembershipRequest H × Chain H)}
    (h : Answered views (k + 1) asked objectCommitments nullifiers answered)
    {request : MembershipRequest H} {c : Chain H} (hc : views k = .ok c) :
    Answered views k (.membership request :: asked) (request.objectCommitments ++ objectCommitments)
      (request.nullifiers ++ nullifiers) ((request, c) :: answered) := by
  refine ⟨?_, ?_, ?_, ?_⟩
  · rw [h.asked]
    rfl
  · intro i a ha
    cases i with
    | zero =>
      cases ha
      exact hc
    | succ i =>
      have hview := h.views i a ha
      rwa [Nat.add_assoc, Nat.add_comm 1 i] at hview
  · rw [List.flatMap_cons, h.objectCommitments]
  · rw [List.flatMap_cons, h.nullifiers]

omit [DecidableEq H] in
theorem Answered.nil (views : Nat → Except String (Chain H)) (k : Nat) :
    Answered views k [] [] [] [] :=
  ⟨rfl, fun i a ha => by simp at ha, rfl, rfl⟩

/-- One of the `n` requests from `k` on was answered from `c`. -/
def Read (views : Nat → Except String (Chain H)) (k n : Nat) (c : Chain H) : Prop :=
  ∃ i, k ≤ i ∧ i < k + n ∧ views i = .ok c

/-- The answer is true of the heads that were read: what is present was there at one of them,
and what is absent was not there at the block of the answer. -/
structure AsOf (views : Nat → Except String (Chain H)) (k n : Nat) (objectCommitments nullifiers : List H)
    (m : SynchronizerMembership H) : Prop where
  createdPresent : ∀ h ∈ m.createdObjects, ∃ c, Read views k n c ∧ h ∈ c.created
  nullifierPresent : ∀ h ∈ m.onChainNullifiers, ∃ c, Read views k n c ∧ h ∈ c.nullifiers
  absent : ∃ c, Read views k n c ∧ c.head = m.blockNumber ∧
    (∀ h ∈ objectCommitments, h ∉ m.createdObjects → h ∉ c.created) ∧
    ∀ h ∈ nullifiers, h ∉ m.onChainNullifiers → h ∉ c.nullifiers
  earliest : ∀ c, Read views k n c → m.blockNumber ≤ c.head

omit [DecidableEq H] in
theorem Answered.read {views : Nat → Except String (Chain H)} {k : Nat} {asked : List (Query H)}
    {objectCommitments nullifiers : List H} {answered : List (MembershipRequest H × Chain H)}
    (h : Answered views k asked objectCommitments nullifiers answered)
    {a : MembershipRequest H × Chain H} (ha : a ∈ answered) : Read views k asked.length a.2 := by
  obtain ⟨i, hi⟩ := List.getElem?_of_mem ha
  have hlength : i < answered.length := (List.getElem?_eq_some_iff.mp hi).1
  refine ⟨k + i, by omega, ?_, h.views i a hi⟩
  rw [h.asked, List.length_map]
  omega

section Settlement

variable {describe : Entry H → TxStatus} {views : Nat → Except String (Chain H)}

end Settlement

/-! ## What the settlement does with it -/

/-- The chain has got as far as the status of the file says. -/
def Reached (c : Chain H) (obj : Object H) : FileStatus → Prop
  | .unknown => True
  | .live => obj.commitment ∈ c.created
  | .nullified => ∃ nullifier, obj.nullifier = some nullifier ∧ nullifier ∈ c.nullifiers

theorem AsOf.reached {views : Nat → Except String (Chain H)} {k n : Nat}
    {objectCommitments nullifiers : List H} {m : SynchronizerMembership H}
    (h : AsOf views k n objectCommitments nullifiers m) {record : ObjectRecord H}
    (hmoved : chainFileStatus record m.toMembership ≠ record.status) :
    ∃ c, Read views k n c ∧ Reached c record.obj (chainFileStatus record m.toMembership) := by
  have hspent : m.spends record.obj = true →
      ∃ c, Read views k n c ∧ Reached c record.obj .nullified := by
    intro hspends
    unfold Membership.spends at hspends
    split at hspends
    next nullifier hnullifier =>
      obtain ⟨c, hread, hmem⟩ := h.nullifierPresent nullifier (by simpa using hspends)
      exact ⟨c, hread, nullifier, hnullifier, hmem⟩
    next => cases hspends
  unfold chainFileStatus at hmoved ⊢
  split at hmoved
  next hstatus => simp [hstatus] at hmoved
  next hstatus =>
    split
    next hspends => exact hspent hspends
    next hunspent =>
      split
      next hcreated => exact h.createdPresent _ hcreated
      next habsent => simp [hunspent, habsent, hstatus] at hmoved
  next hstatus =>
    split
    next hspends => exact hspent hspends
    next hunspent => simp [hunspent, hstatus] at hmoved

namespace Sample

/-- A block that creates 7, and one that comes after the first request. -/
def first : Chain Nat := Chain.genesis.commit 1 [⟨1, 0, [7], [], 0⟩]

def views : Nat → Except String (Chain Nat)
  | 0 => .ok first
  | _ + 1 => .ok (first.commit 2 [])

def describe (entry : Entry Nat) : TxStatus := ⟨"0xaa", entry.block, none⟩

end Sample

end Objects

end DigitalObjects.Driver
