import DigitalObjects.Lib.Lists
import DigitalObjects.Pod2.Terms
import DigitalObjects.Synchronizer.Window
set_option autoImplicit false

/-!
The read API: one snapshot of the tables, then the containers at its roots, opened while the
sync loop commits and rolls back.
-/

namespace DigitalObjects.Synchronizer

open Pod2 Txlib

/-! ## Array proofs -/

/-- pod2's Merkle proofs of array entries. -/
structure ArrayProofs (V : Type) where
  Proof : Type
  prove : Pod2.Array V → Nat → Except String (V × Proof)
  verify : V → Nat → V → Proof → Bool

variable {V : Type} [Values V]

/-- The proofs are complete and sound for the array of the root. -/
structure ArrayProofs.Lawful (P : ArrayProofs V) : Prop where
  complete : ∀ a i v, a.lookup i = some v → ∃ proof, P.prove a i = .ok (v, proof)
  honest : ∀ a i v proof, P.prove a i = .ok (v, proof) → P.verify (ofArray a) i v proof = true
  sound : ∀ a i v proof, P.verify (ofArray a) i v proof = true → a.lookup i = some v

/-! ## Handlers -/

inductive ReadError where
  | badRequest (message : String)
  | serviceUnavailable (message : String)
  | internal (fault : Fault)
deriving DecidableEq, Repr

def maxHashQueryItems : Nat := 256

def ensureHashQueryLimit (fieldName : String) (count : Nat) : Except ReadError Unit :=
  if count > maxHashQueryItems then
    .error (.badRequest s!"{fieldName} exceeds maximum item count: {count} > {maxHashQueryItems}")
  else .ok ()

def ensureMembershipQueryLimit (objectCommitmentCount nullifierCount : Nat) :
    Except ReadError Unit :=
  let total := objectCommitmentCount + nullifierCount
  if total > maxHashQueryItems then
    .error (.badRequest s!"membership query exceeds maximum total item count: {total} > {maxHashQueryItems} across object commitments and nullifiers")
  else .ok ()

def notInitialized : ReadError :=
  .serviceUnavailable "synchronizer has not derived its genesis state yet"

/-- Both reads are made in one `REPEATABLE READ` transaction. -/
def StateLogDb.slotStateAtHeadWithCreatedIndices (log : StateLogDb V) (commitments : List V) :
    Option (DonState V) × List (V × Nat) :=
  (log.donStateAtHead, log.createdIndices commitments)

def ContainerDb.createdExistsFor (db : ContainerDb V) (roots : StateRoots V)
    (objCommitments : List V) (indices : List (V × Nat)) : Except Fault (List Bool) := do
  let created ← db.openArray roots.created
  .ok (objCommitments.map fun commitment => match indices.lookup commitment with
    | none => false
    | some index => createdArrayHolds created index commitment)

def ContainerDb.proveCreatedFor (P : ArrayProofs V) (db : ContainerDb V) (roots : StateRoots V)
    (objCommitments : List V) (indices : List (V × Nat)) :
    Except Fault (List (Option (Nat × P.Proof))) := do
  let created ← db.openArray roots.created
  .ok (objCommitments.map fun commitment => match indices.lookup commitment with
    | none => none
    | some index => match P.prove created index with
      | .ok (value, proof) => if value = commitment then some (index, proof) else none
      | .error _ => none)

def ContainerDb.nullifierExistsBatch (db : ContainerDb V) (roots : StateRoots V)
    (nullifiers : List V) : Except Fault (List Bool) := do
  let nullifierSet ← db.openSet roots.nullifiers
  .ok (nullifiers.map fun hash => decide (hash ∈ nullifierSet))

structure Membership (V : Type) where
  head : DonState V
  createdPresent : List Bool
  nullifierPresent : List Bool

/-- The snapshot of the tables, and the containers as they are at the two reads after it. -/
structure Reads (V : Type) where
  stateLog : StateLogDb V
  first : ContainerDb V
  second : ContainerDb V

def loadMembership (app : Reads V) (objectCommitments nullifiers : List V) :
    Except ReadError (Membership V) := do
  ensureMembershipQueryLimit objectCommitments.length nullifiers.length
  let (head, indices) := app.stateLog.slotStateAtHeadWithCreatedIndices objectCommitments
  match head with
  | none => .error notInitialized
  | some head =>
    let createdPresent ←
      (app.first.createdExistsFor head.roots objectCommitments indices).mapError .internal
    let nullifierPresent ←
      (app.second.nullifierExistsBatch head.roots nullifiers).mapError .internal
    .ok ⟨head, createdPresent, nullifierPresent⟩

structure ContainsEntry (V : Type) where
  commitment : V
  present : Bool

/-- `object_contains_entries` and `nullifier_contains_entries`. -/
def containsEntries (queried : List V) (present : List Bool) : List (ContainsEntry V) :=
  (queried.zip present).map fun (commitment, present) => ⟨commitment, present⟩

structure ContainsResponse (V : Type) where
  blockNumber : Int
  blockHash : List Nat
  stateRoot : V
  results : List (ContainsEntry V)

structure MembershipResponse (V : Type) where
  blockNumber : Int
  blockHash : List Nat
  stateRoot : V
  createdResults : List (ContainsEntry V)
  nullifierResults : List (ContainsEntry V)

def postStateObjectContains (app : Reads V) (objectCommitments : List V) :
    Except ReadError (ContainsResponse V) := do
  let membership ← loadMembership app objectCommitments []
  let metadata := membership.head.metadata
  .ok ⟨metadata.block.number, metadata.block.hash, metadata.stateRoot,
    containsEntries objectCommitments membership.createdPresent⟩

def postStateNullifierContains (app : Reads V) (nullifiers : List V) :
    Except ReadError (ContainsResponse V) := do
  let membership ← loadMembership app [] nullifiers
  let metadata := membership.head.metadata
  .ok ⟨metadata.block.number, metadata.block.hash, metadata.stateRoot,
    containsEntries nullifiers membership.nullifierPresent⟩

def postStateMembership (app : Reads V) (objectCommitments nullifiers : List V) :
    Except ReadError (MembershipResponse V) := do
  let membership ← loadMembership app objectCommitments nullifiers
  let metadata := membership.head.metadata
  .ok ⟨metadata.block.number, metadata.block.hash, metadata.stateRoot,
    containsEntries objectCommitments membership.createdPresent,
    containsEntries nullifiers membership.nullifierPresent⟩

structure ObjectProofResponse (V Proof : Type) where
  commitment : V
  present : Bool
  index : Option Nat
  proof : Option Proof

/-- The fields of `header` are fields of the response. -/
structure GroundingWitnessResponse (V Proof : Type) where
  stateRoot : V
  header : StateHeader V
  createdProofs : List (ObjectProofResponse V Proof)

def postGroundingWitness (P : ArrayProofs V) (app : Reads V) (objectCommitments : List V) :
    Except ReadError (GroundingWitnessResponse V P.Proof) := do
  ensureHashQueryLimit "objectCommitments" objectCommitments.length
  let (head, indices) := app.stateLog.slotStateAtHeadWithCreatedIndices objectCommitments
  match head with
  | none => .error notInitialized
  | some state =>
    let witnesses ←
      (app.first.proveCreatedFor P state.roots objectCommitments indices).mapError .internal
    .ok ⟨state.metadata.stateRoot, state.stateHeader,
      (objectCommitments.zip witnesses).map fun (commitment, witness) =>
        ⟨commitment, witness.isSome, witness.map Prod.fst, witness.map Prod.snd⟩⟩

/-! ## One head -/

/-- The created array of the state has `x` at some index. -/
def DonState.HasCreated (s : DonState V) (x : V) : Prop :=
  ∃ i : Nat, ArrayContains s.roots.created (ofInt i) x

def DonState.HasNullifier (s : DonState V) (x : V) : Prop := SetContains s.roots.nullifiers x

/-- The results are for the queried values, in their order, and say of each whether it has `p`. -/
def ResultsFor (p : V → Prop) (queried : List V) (results : List (ContainsEntry V)) : Prop :=
  List.Forall₂ (fun x r => r.commitment = x ∧ (r.present = true ↔ p x)) queried results

/-- A proof response tells where the state's created array has the commitment, with a proof
against its root, or that the array does not have it. -/
structure ProofFor (P : ArrayProofs V) (s : DonState V) (x : V)
    (r : ObjectProofResponse V P.Proof) : Prop where
  commitment : r.commitment = x
  present : r.present = true ↔ s.HasCreated x
  proven : r.present = true → ∃ i proof, r.index = some i ∧ r.proof = some proof ∧
    ArrayContains s.roots.created (ofInt i) x ∧ P.verify s.roots.created i x proof = true
  absent : r.present = false → r.index = none ∧ r.proof = none

/-- The prefetched index of a commitment is its place in the created array. -/
theorem StateLogDb.Tally.lookup {log : StateLogDb V} {l : List V} (h : log.Tally l) {s : DonState V}
    (hs : log.donStateAtHead = some s) {a : Pod2.Array V} (ha : ofArray a = s.roots.created)
    {queried : List V} {x : V} (hx : x ∈ queried) :
    (∃ i, (log.createdIndices queried).lookup x = some i ∧ a.lookup i = some x) ↔ s.HasCreated x := by
  have hhead := h.head
  rw [hs] at hhead
  obtain ⟨⟨b, hb, hroot⟩, -⟩ := hhead
  obtain rfl : a = b := by
    rw [← ofArray_inj, ha, hroot]
  simp only [DonState.HasCreated, ← ha, arrayContains_ofArray]
  constructor
  · rintro ⟨i, -, hi⟩
    exact ⟨i, hi⟩
  · rintro ⟨i, hi⟩
    rw [hb i] at hi
    obtain ⟨r, hr, hrx, -⟩ := (h.index x i).mpr hi
    obtain ⟨q, hq, hqx, hlookup⟩ := lookup_createdIndices hx hr hrx
    refine ⟨q.arrayIndex, hlookup, ?_⟩
    rw [hb]
    exact (h.index x q.arrayIndex).mp ⟨q, hq, hqx, rfl⟩

omit [Values V] in
theorem resultsFor_containsEntries {p : V → Prop} {queried : List V} {f : V → Bool}
    (h : ∀ x ∈ queried, f x = true ↔ p x) :
    ResultsFor p queried (containsEntries queried (queried.map f)) :=
  Lib.forall₂_zip_map fun x hx => ⟨rfl, h x hx⟩

theorem mapError_eq_ok {ε ε' α : Type} {f : ε → ε'} {o : Except ε α} {a : α}
    (h : o.mapError f = .ok a) : o = .ok a := by
  cases o with
  | ok b =>
    cases h
    rfl
  | error e => cases h

section Head

variable {log : StateLogDb V} {l : List V} {db : ContainerDb V} {s : DonState V} {queried : List V}

theorem createdExistsFor_spec (hlog : log.Tally l) (hs : log.donStateAtHead = some s)
    {present : List Bool}
    (h : db.createdExistsFor s.roots queried (log.createdIndices queried) = .ok present) :
    ResultsFor s.HasCreated queried (containsEntries queried present) := by
  obtain ⟨a, ha, h⟩ := bind_eq_ok h
  cases h
  refine resultsFor_containsEntries fun x hx => ?_
  rw [← hlog.lookup hs (ContainerDb.openArray_root ha) hx]
  cases (log.createdIndices queried).lookup x with
  | none => simp
  | some i => simp [createdArrayHolds]

theorem nullifierExistsBatch_spec {present : List Bool}
    (h : db.nullifierExistsBatch s.roots queried = .ok present) :
    ResultsFor s.HasNullifier queried (containsEntries queried present) := by
  obtain ⟨m, hm, h⟩ := bind_eq_ok h
  cases h
  refine resultsFor_containsEntries fun x _ => ?_
  rw [DonState.HasNullifier, ← ContainerDb.openSet_root hm]
  simp

theorem proveCreatedFor_spec {P : ArrayProofs V} (hP : P.Lawful) (hlog : log.Tally l)
    (hs : log.donStateAtHead = some s) {witnesses : List (Option (Nat × P.Proof))}
    (h : db.proveCreatedFor P s.roots queried (log.createdIndices queried) = .ok witnesses) :
    List.Forall₂ (ProofFor P s) queried ((queried.zip witnesses).map fun (commitment, witness) =>
      ⟨commitment, witness.isSome, witness.map Prod.fst, witness.map Prod.snd⟩) := by
  obtain ⟨a, ha, h⟩ := bind_eq_ok h
  cases h
  refine Lib.forall₂_zip_map fun x hx => ?_
  have hroot := ContainerDb.openArray_root ha
  have hplace := hlog.lookup hs hroot hx
  cases hlookup : (log.createdIndices queried).lookup x with
  | none =>
    have habsent : ¬ s.HasCreated x := by
      rw [← hplace]
      simp [hlookup]
    exact ⟨rfl, by simp [habsent], by simp, by simp⟩
  | some i =>
    simp only [hlookup, Option.some.injEq, exists_eq_left'] at hplace
    by_cases hx' : a.lookup i = some x
    · obtain ⟨proof, hproof⟩ := hP.complete a i x hx'
      have hverify := hP.honest a i x proof hproof
      rw [hroot] at hverify
      have hcontains : ArrayContains s.roots.created (ofInt i) x := by
        rw [← hroot]
        exact arrayContains_ofArray.mpr hx'
      refine ⟨rfl, ?_, ?_, ?_⟩
      · simp [hproof, hplace.mp hx']
      · exact fun _ => ⟨i, proof, by simp [hproof], by simp [hproof], hcontains, hverify⟩
      · simp [hproof]
    · have habsent : ¬ s.HasCreated x := fun h => hx' (hplace.mpr h)
      have hnone : (match P.prove a i with
          | .ok (value, proof) => if value = x then some (i, proof) else none
          | .error _ => none) = none := by
        split
        next value proof hproof =>
          have hlook := hP.sound a i value proof (hP.honest a i value proof hproof)
          refine if_neg fun heq => hx' ?_
          rw [hlook, heq]
        next => rfl
      refine ⟨rfl, ?_, ?_, ?_⟩ <;> simp [hnone, habsent]

end Head

/-- The membership of a request is that of the head of the snapshot. -/
structure MembershipFor (log : StateLogDb V) (objectCommitments nullifiers : List V)
    (m : Membership V) : Prop where
  head : log.donStateAtHead = some m.head
  created : ResultsFor m.head.HasCreated objectCommitments
    (containsEntries objectCommitments m.createdPresent)
  nullifiers : ResultsFor m.head.HasNullifier nullifiers (containsEntries nullifiers m.nullifierPresent)

theorem loadMembership_spec {app : Reads V} {l : List V} (hlog : app.stateLog.Tally l)
    {objectCommitments nullifiers : List V} {m : Membership V}
    (h : loadMembership app objectCommitments nullifiers = .ok m) :
    MembershipFor app.stateLog objectCommitments nullifiers m := by
  obtain ⟨-, -, h⟩ := bind_eq_ok h
  simp only [StateLogDb.slotStateAtHeadWithCreatedIndices] at h
  split at h
  · cases h
  next head hhead =>
    obtain ⟨created, hcreated, h⟩ := bind_eq_ok h
    obtain ⟨present, hpresent, h⟩ := bind_eq_ok h
    cases h
    exact ⟨hhead, createdExistsFor_spec hlog hhead (mapError_eq_ok hcreated),
      nullifierExistsBatch_spec (mapError_eq_ok hpresent)⟩

/-- The block and the root of a response are those of the state. -/
def Anchored (s : DonState V) (blockNumber : Int) (blockHash : List Nat) (stateRoot : V) : Prop :=
  blockNumber = s.metadata.block.number ∧ blockHash = s.metadata.block.hash ∧
    stateRoot = s.metadata.stateRoot

/-- Once there is a head every request within the limits gets a response, and every successful
response answers for one committed state. -/
structure AnswersOneHead (P : ArrayProofs V) (app : Reads V) : Prop where
  responds : app.stateLog.donStateAtHead.isSome → ∀ objectCommitments nullifiers,
    objectCommitments.length + nullifiers.length ≤ maxHashQueryItems →
    (∃ r, postStateMembership app objectCommitments nullifiers = .ok r) ∧
      ∃ r, postGroundingWitness P app objectCommitments = .ok r
  membership : ∀ objectCommitments nullifiers r,
    postStateMembership app objectCommitments nullifiers = .ok r →
    ∃ s, app.stateLog.donStateAtHead = some s ∧ Anchored s r.blockNumber r.blockHash r.stateRoot ∧
      ResultsFor s.HasCreated objectCommitments r.createdResults ∧
      ResultsFor s.HasNullifier nullifiers r.nullifierResults
  objects : ∀ objectCommitments r, postStateObjectContains app objectCommitments = .ok r →
    ∃ s, app.stateLog.donStateAtHead = some s ∧ Anchored s r.blockNumber r.blockHash r.stateRoot ∧
      ResultsFor s.HasCreated objectCommitments r.results
  nullifiers : ∀ nullifiers r, postStateNullifierContains app nullifiers = .ok r →
    ∃ s, app.stateLog.donStateAtHead = some s ∧ Anchored s r.blockNumber r.blockHash r.stateRoot ∧
      ResultsFor s.HasNullifier nullifiers r.results
  witness : ∀ objectCommitments r, postGroundingWitness P app objectCommitments = .ok r →
    ∃ s, app.stateLog.donStateAtHead = some s ∧ r.stateRoot = s.metadata.stateRoot ∧
      r.header = s.stateHeader ∧ r.stateRoot = r.header.hash ∧
      List.Forall₂ (ProofFor P s) objectCommitments r.createdProofs

omit [Values V] in
theorem ContainerDb.Within.refl (db : ContainerDb V) : db.Within db :=
  ⟨List.Subset.refl _, List.Subset.refl _⟩

omit [Values V] in
theorem ContainerDb.Within.trans {a b c : ContainerDb V} (h : a.Within b) (h' : b.Within c) :
    a.Within c :=
  ⟨List.Subset.trans h.1 h'.1, List.Subset.trans h.2 h'.2⟩

/-- The container store only grows. -/
theorem Node.applyAll_within (parser : BlobParser V) (initStartSlot : Nat) (n : Node V)
    (ops : List (NodeOp V)) : n.containers.Within (n.applyAll parser initStartSlot ops).containers := by
  induction ops generalizing n with
  | nil => exact .refl _
  | cons op ops ih =>
    refine ContainerDb.Within.trans ?_ (ih (n.apply parser initStartSlot op))
    cases op with
    | commit gap slot =>
      cases hstep : n.commitSlotAt parser (n.nextSlot initStartSlot + gap) slot with
      | error e =>
        simp only [Node.apply, hstep]
        exact .refl _
      | ok r =>
        simp only [Node.apply, hstep]
        exact commitSlotAt_within hstep
    | rollback keepSlot => exact .refl _
    | orphan extra => exact ⟨List.subset_append_right _ _, List.subset_append_right _ _⟩

/-- The containers of the head can be opened. -/
theorem AnswersOneHead.of_backed {P : ArrayProofs V} {app : Reads V} {s : DonState V}
    (hs : app.stateLog.donStateAtHead = some s) (hfirst : s.Backed app.first)
    (hsecond : s.Backed app.second) {objectCommitments nullifiers : List V}
    (hlimit : objectCommitments.length + nullifiers.length ≤ maxHashQueryItems) :
    (∃ r, postStateMembership app objectCommitments nullifiers = .ok r) ∧
      ∃ r, postGroundingWitness P app objectCommitments = .ok r := by
  obtain ⟨a, ha⟩ := hfirst.created
  obtain ⟨m, hm, -⟩ := hsecond.nullifiers
  have hboth : ¬ objectCommitments.length + nullifiers.length > maxHashQueryItems := by omega
  have hobjects : ¬ objectCommitments.length > maxHashQueryItems := by omega
  constructor
  · simp [postStateMembership, loadMembership, ensureMembershipQueryLimit, if_neg hboth, hs,
      StateLogDb.slotStateAtHeadWithCreatedIndices, ContainerDb.createdExistsFor, ha,
      ContainerDb.nullifierExistsBatch, hm, bind, Except.bind, Except.mapError]
  · simp [postGroundingWitness, ensureHashQueryLimit, if_neg hobjects, hs,
      StateLogDb.slotStateAtHeadWithCreatedIndices, ContainerDb.proveCreatedFor, ha, bind,
      Except.bind, Except.mapError]

/-- Whatever the sync loop commits and rolls back before the snapshot, between it and the reads
of the containers, and between those. -/
theorem Node.answers_one_head {P : ArrayProofs V} (hP : P.Lawful) (parser : BlobParser V)
    (initStartSlot : Nat) (ops ops₁ ops₂ : List (NodeOp V)) :
    let n := Node.genesis.applyAll parser initStartSlot ops
    let n₁ := n.applyAll parser initStartSlot ops₁
    let n₂ := n₁.applyAll parser initStartSlot ops₂
    AnswersOneHead P ⟨n.stateLog, n₁.containers, n₂.containers⟩ := by
  intro n n₁ n₂
  obtain ⟨h, htracks⟩ := (Node.Tracks.genesis parser initStartSlot).applyAll ops
  obtain ⟨l, htally⟩ := htracks.tally
  constructor
  · intro hsome objectCommitments nullifiers hlimit
    obtain ⟨s, hs⟩ := Option.isSome_iff_exists.mp hsome
    have hbacked := (Node.genesis_stocked.applyAll parser initStartSlot ops).backed s hs
    have hwithin := n.applyAll_within parser initStartSlot ops₁
    have hlater := hwithin.trans (n₁.applyAll_within parser initStartSlot ops₂)
    exact AnswersOneHead.of_backed hs (hbacked.mono hwithin) (hbacked.mono hlater) hlimit
  · intro objectCommitments nullifiers r hr
    obtain ⟨m, hm, hr⟩ := bind_eq_ok hr
    cases hr
    have hspec := loadMembership_spec htally hm
    exact ⟨m.head, hspec.head, ⟨rfl, rfl, rfl⟩, hspec.created, hspec.nullifiers⟩
  · intro objectCommitments r hr
    obtain ⟨m, hm, hr⟩ := bind_eq_ok hr
    cases hr
    have hspec := loadMembership_spec htally hm
    exact ⟨m.head, hspec.head, ⟨rfl, rfl, rfl⟩, hspec.created⟩
  · intro nullifiers r hr
    obtain ⟨m, hm, hr⟩ := bind_eq_ok hr
    cases hr
    have hspec := loadMembership_spec htally hm
    exact ⟨m.head, hspec.head, ⟨rfl, rfl, rfl⟩, hspec.nullifiers⟩
  · intro objectCommitments r hr
    obtain ⟨-, -, hr⟩ := bind_eq_ok hr
    simp only [StateLogDb.slotStateAtHeadWithCreatedIndices] at hr
    split at hr
    · cases hr
    next s hs =>
      obtain ⟨witnesses, hwitnesses, hr⟩ := bind_eq_ok hr
      cases hr
      have hrooted : n.Rooted := Node.Rooted.applyAll (by
        intro row hrow
        cases hrow) parser initStartSlot ops
      obtain ⟨row, hrow, hstate⟩ := List.exists_of_findSome?_eq_some hs
      exact ⟨s, hs, rfl, rfl, hrooted row hrow s hstate,
        proveCreatedFor_spec hP htally hs (mapError_eq_ok hwitnesses)⟩

/-! ## A first slot -/

/-- Proofs that open the whole array. -/
def openProofs : ArrayProofs V where
  Proof := Pod2.Array V
  prove a i := match a.lookup i with
    | some v => .ok (v, a)
    | none => .error "no entry"
  verify root i v a := decide (ofArray a = root ∧ a.lookup i = some v)

theorem openProofs_lawful : (openProofs : ArrayProofs V).Lawful := by
  constructor
  · intro a i v h
    exact ⟨a, by simp [openProofs, h]⟩
  · intro a i v proof h
    simp only [openProofs] at h
    split at h
    next w hw =>
      cases h
      simp [openProofs, hw]
    next => cases h
  · intro a i v proof h
    simp only [openProofs, decide_eq_true_eq] at h
    rw [← ofArray_inj.mp h.1]
    exact h.2

/-- The commit of the first slot, and a rollback between the snapshot and the proofs. -/
theorem Node.answers_one_head_first : (openProofs : ArrayProofs Term).Lawful ∧
    ∃ r s, postGroundingWitness (openProofs : ArrayProofs Term)
      ⟨(Node.genesis.applyAll (sampleParser staleMine freshMine) 1 [.commit 0 (sampleSlot 0)]).stateLog,
        ((Node.genesis.applyAll (sampleParser staleMine freshMine) 1
          [.commit 0 (sampleSlot 0)]).applyAll (sampleParser staleMine freshMine) 1
            [.rollback 0]).containers,
        ((Node.genesis.applyAll (sampleParser staleMine freshMine) 1
          [.commit 0 (sampleSlot 0)]).applyAll (sampleParser staleMine freshMine) 1
            [.rollback 0]).containers⟩ [empty] = .ok r ∧
      r.header = DonState.stateHeader s ∧ List.Forall₂ (ProofFor openProofs s) [empty] r.createdProofs := by
  have hanswers := Node.answers_one_head (openProofs_lawful (V := Term))
    (sampleParser staleMine freshMine) 1 [.commit 0 (sampleSlot 0)] [.rollback 0] []
  obtain ⟨a, hfirst, -, -⟩ := sample_first (staleMine : Payload Term) freshMine
  have hnode : Node.genesis.apply (sampleParser (staleMine : Payload Term) freshMine) 1
      (.commit 0 (sampleSlot 0)) = sampleNode [rejectedRow staleMine.txFinal] := by
    have hcommit : Node.genesis.commitSlotAt (sampleParser (staleMine : Payload Term) freshMine)
        ((Node.genesis : Node Term).nextSlot 1 + 0) (sampleSlot 0) =
        .ok (sampleNode [rejectedRow staleMine.txFinal], [a]) := hfirst
    simp only [Node.apply, hcommit]
  have hhead : (Node.genesis.applyAll (sampleParser (staleMine : Payload Term) freshMine) 1
      [.commit 0 (sampleSlot 0)]).stateLog.donStateAtHead.isSome := by
    simp only [Node.applyAll, List.foldl_cons, List.foldl_nil, hnode]
    rfl
  obtain ⟨-, r, hr⟩ := hanswers.responds hhead [empty] [] (by decide)
  obtain ⟨s, -, -, hheader, -, hproofs⟩ := hanswers.witness [empty] r hr
  exact ⟨openProofs_lawful, r, s, hr, hheader, hproofs⟩

end DigitalObjects.Synchronizer
