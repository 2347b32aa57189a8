import DigitalObjects.Driver.ChainRefinement
import DigitalObjects.Driver.MockDonAgreement
import DigitalObjects.Driver.Witnesses
import DigitalObjects.Relayer.Db
set_option autoImplicit false

/-!
What the mock network answers when it is read, beside what the HTTP client reads of a synchronizer that has
derived the chain of the mock network's blocks.
-/

namespace DigitalObjects.Driver.MockDon

open Pod2 Txlib Synchronizer Objects

variable {V : Type} [Values V]

/-! ## Reads -/

structure JobStatusResponse (V : Type) where
  jobId : String
  status : Relayer.JobStatus
  txHash : Option String
  blockNumber : Option Nat
  attemptCount : Nat
  lastError : Option String
  updatedAt : Int
  createdAt : Int
  txFinal : V
  stateRoot : V

namespace MockDonState

def fetchHead (m : MockDonState V) : Client.SynchronizerHead V := ⟨m.head.hash, m.head.blockNumber⟩

def fetchTxStatus (m : MockDonState V) (txFinal : V) : Option SynchronizerTxStatus := m.txStatuses.lookup txFinal

/-- The loop over the commitments. -/
def proveCreated (P : ArrayProofs V) (m : MockDonState V) : (Finmap fun _ : V => Nat × P.Proof) → List V →
    Except String (Finmap fun _ : V => Nat × P.Proof)
  | createdProofs, [] => .ok createdProofs
  | createdProofs, commitment :: rest =>
    match m.createdIndex.lookup commitment with
    | none => .error "no entry found for key"
    | some index => do
      let (_, proof) ← P.prove m.created index.toNat
      proveCreated P m (createdProofs.insert commitment (index.toNat, proof)) rest

def groundingWitness (texts : Client.Texts V) (P : ArrayProofs V) (m : MockDonState V) (objectCommitments : List V) :
    Except String (Client.GroundingWitness P) :=
  let missing := objectCommitments.filter fun commitment => (m.createdIndex.lookup commitment).isNone
  if missing ≠ [] then
    .error ("input not yet synchronized; wait and retry: " ++ ", ".intercalate (missing.map texts.showHash))
  else do
    let createdProofs ← m.proveCreated P ∅ objectCommitments
    .ok ⟨m.head, createdProofs⟩

def fetchMembershipWithNullifiers (m : MockDonState V) (objectCommitments nullifiers : List V) :
    SynchronizerMembership V where
  createdObjects := objectCommitments.filter fun commitment => (m.createdIndex.lookup commitment).isSome
  onChainNullifiers := nullifiers.filter fun nullifier => decide (nullifier ∈ m.nullifierHashes)
  blockNumber := m.head.blockNumber

def fetchStateAt (m : MockDonState V) (blockNumber : Int) : Option (StateHeadResponse V) :=
  m.derivedStates.lookup blockNumber

def fetchJobStatus (m : MockDonState V) (jobId : String) : Except String (JobStatusResponse V) :=
  match m.jobs.lookup jobId with
  | none => .error s!"mock relayer job {jobId} not found"
  | some job => .ok {
      jobId := jobId
      status := .confirmed
      txHash := some job.txHash
      blockNumber := some (job.blockNumber % 2 ^ 64).toNat
      attemptCount := 1
      lastError := none
      updatedAt := job.createdAt
      createdAt := job.createdAt
      txFinal := job.txFinal
      stateRoot := job.stateRoot }

end MockDonState

/-! ## The membership of one head -/

/-- Batches that are all answered alike come to the answer for everything. -/
theorem fetchBatches_alike {H : Type} (reply : Nat → (q : Query H) → q.Answer) (p p' : H → Bool) (block : Int)
    (hreply : ∀ k request, request.objectCommitments.length + request.nullifiers.length ≤ hashBatchLimit →
      reply k (.membership request) = (.ok ⟨request.objectCommitments.map fun h => (h, p h),
      request.nullifiers.map fun h => (h, p' h), block⟩ : Except String (Objects.MembershipResponse H)))
    (objectCommitments nullifiers : List H) (objCursor nullCursor : Nat) (b : Batches H)
    (hb : b.blockNumber = none ∨ b.blockNumber = some block) (k : Nat) :
    ((fetchBatches objectCommitments nullifiers objCursor nullCursor b).serve reply k).1 =
      .ok ⟨b.createdObjects ++ (objectCommitments.drop objCursor).filter p,
        b.onChainNullifiers ++ (nullifiers.drop nullCursor).filter p', some block⟩ := by
  obtain ⟨hobjects, hnullifiers⟩ := batchRequest_append objectCommitments nullifiers objCursor nullCursor
  have hpresent : ∀ (f : H → Bool) (l : List H), ((l.map fun h => (h, f h)).filter (·.2)).map (·.1) = l.filter f := by
    intro f l
    induction l with
    | nil => rfl
    | cons x l ih => cases hx : f x <;> simp [hx, ih]
  have hadd : ∀ objs nulls : List H, b.add ⟨objs.map fun h => (h, p h), nulls.map fun h => (h, p' h), block⟩ =
      ⟨b.createdObjects ++ objs.filter p, b.onChainNullifiers ++ nulls.filter p', some block⟩ := by
    intro objs nulls
    rcases hb with hb | hb <;> simp [Batches.add, hb, hpresent]
  have hlimit : (batchRequest objectCommitments nullifiers objCursor nullCursor).objectCommitments.length +
      (batchRequest objectCommitments nullifiers objCursor nullCursor).nullifiers.length ≤ hashBatchLimit := by
    simp only [batchRequest, List.length_take, objTake, nullTake]
    omega
  rw [fetchBatches_serve]
  dsimp only
  rw [hreply k _ hlimit]
  dsimp only
  split
  next hdone =>
    rw [hadd, ← hobjects, ← hnullifiers, List.drop_eq_nil_of_le hdone.1, List.drop_eq_nil_of_le hdone.2, List.append_nil,
      List.append_nil]
  next hmore =>
    rw [hadd, fetchBatches_alike reply p p' block hreply _ _ _ _ _ (.inr rfl) (k + 1), ← hobjects, ← hnullifiers,
      List.filter_append, List.filter_append, List.append_assoc, List.append_assoc]
termination_by objectCommitments.length - objCursor + (nullifiers.length - nullCursor)
decreasing_by
  simp only [objTake, nullTake, hashBatchLimit] at *
  omega

/-! ## The head -/

variable {net : BlockHashes V} {m : MockDonState V} {n : Node V} {l hl : List V} {state : DonState V}

/-- The node, with nothing going on while it is read. -/
def readsOf (n : Node V) : Reads V := ⟨n.stateLog, n.containers, n.containers⟩

theorem Mirrors.fetchHead (h : Mirrors net m n l hl state) (texts : Client.Texts V) :
    Client.fetchHead texts (readsOf n) = .ok m.fetchHead := by
  obtain ⟨top, htop, rfl⟩ := Option.map_eq_some_iff.mp ((Client.slotStateAtHead_state n.stateLog).trans h.head)
  have hroot := h.root
  have hnumber := h.block_number
  simp [Client.fetchHead, Client.getStateHead, readsOf, htop, Client.decodeJsonResponse, Client.stateHeadResponse, hroot, hnumber,
    MockDonState.fetchHead, bind, Except.bind]

theorem Mirrors.hasCreated (h : Mirrors net m n l hl state) (x : V) :
    state.HasCreated x ↔ (m.createdIndex.lookup x).isSome = true := by
  rw [h.index.isSome_iff, List.mem_iff_getElem?, DonState.HasCreated, h.created_root]
  simp only [arrayContains_ofArray, h.created _]

theorem Mirrors.hasNullifier (h : Mirrors net m n l hl state) (x : V) :
    state.HasNullifier x ↔ decide (x ∈ m.nullifierHashes) = true := by
  rw [DonState.HasNullifier, h.nullifiers_root, setContains_ofSet, h.hashes, decide_eq_true_iff]

theorem Mirrors.fetchMembership (h : Mirrors net m n l hl state) (texts : Client.Texts V)
    (objectCommitments nullifiers : List V) :
    ((Objects.fetchMembershipWithNullifiers objectCommitments nullifiers).serve
      (Client.responses texts fun _ => .ok (readsOf n)) 0).1 =
        .ok (m.fetchMembershipWithNullifiers objectCommitments nullifiers) := by
  have hhead : (readsOf n).stateLog.donStateAtHead = some state := h.head
  have hbacked := h.below.stocked.backed state h.head
  have hreply : ∀ k request, request.objectCommitments.length + request.nullifiers.length ≤ hashBatchLimit →
      Client.responses texts (fun _ => .ok (readsOf n)) k (.membership request) =
        (.ok ⟨request.objectCommitments.map fun x => (x, (m.createdIndex.lookup x).isSome),
          request.nullifiers.map fun x => (x, decide (x ∈ m.nullifierHashes)), m.head.blockNumber⟩ :
            Except String (Objects.MembershipResponse V)) := by
    intro k request hlimit
    obtain ⟨⟨payload, hpost⟩, -⟩ := AnswersOneHead.of_backed (P := openProofs) hhead hbacked hbacked hlimit
    have hpayload := hpost
    obtain ⟨membership, hm, hpost⟩ := bind_eq_ok hpost
    cases hpost
    obtain ⟨hloaded, hcreated, hnullifiers⟩ := loadMembership_spec h.below.tally hm
    obtain rfl : state = membership.head := Option.some.inj (h.head.symm.trans hloaded)
    have hnumber := h.block_number
    simp only [Client.responses, hpayload, Client.decodeJsonResponse, bind, Except.bind]
    rw [Client.ResultsFor.pairs hcreated h.hasCreated, Client.ResultsFor.pairs hnullifiers h.hasNullifier, hnumber]
  have hserve := fetchBatches_alike _ _ _ _ hreply objectCommitments nullifiers 0 0 ⟨[], [], none⟩ (.inl rfl) 0
  rw [Objects.fetchMembershipWithNullifiers, Lib.Dialogue.serve_bind, hserve]
  rfl

/-! ## Grounding witnesses -/

variable {P : ArrayProofs V}

/-- Each commitment is proved at its place in the list. -/
structure Proved (P : ArrayProofs V) (root : V) (l done : List V) (proofs : Finmap fun _ : V => Nat × P.Proof) : Prop where
  requested : ∀ c, (proofs.lookup c).isSome = true ↔ c ∈ done
  verified : ∀ c i proof, proofs.lookup c = some (i, proof) → l[i]? = some c ∧ P.verify root i c proof = true

theorem MockDonState.proveCreated_spec (hP : P.Lawful) (hcreated : Represents m.created l)
    (hindex : Indexed m.createdIndex l) {rest done : List V} {proofs : Finmap fun _ : V => Nat × P.Proof}
    (h : Proved P (ofArray m.created) l done proofs) (hrest : ∀ c ∈ rest, c ∈ l) :
    ∃ proofs', m.proveCreated P proofs rest = .ok proofs' ∧ Proved P (ofArray m.created) l (done ++ rest) proofs' := by
  induction rest generalizing done proofs with
  | nil => exact ⟨proofs, rfl, by simpa using h⟩
  | cons d rest ih =>
    obtain ⟨j, hj⟩ := Option.isSome_iff_exists.mp ((hindex.isSome_iff d).mpr (hrest d List.mem_cons_self))
    obtain ⟨i, hi, rfl⟩ := (hindex.lookup d j).mp hj
    obtain ⟨proof, hproof⟩ := hP.complete m.created i d (by rw [hcreated, hi])
    have hverify := hP.honest m.created i d proof hproof
    have hnext : Proved P (ofArray m.created) l (done ++ [d]) (proofs.insert d (i, proof)) := by
      constructor
      · intro c
        rw [lookup_insert_ite]
        by_cases hcd : c = d
        · simp [hcd]
        · simp [hcd, h.requested c]
      · intro c i' proof' hp
        rw [lookup_insert_ite] at hp
        by_cases hcd : c = d
        · rw [if_pos hcd, Option.some.injEq, Prod.mk.injEq] at hp
          obtain ⟨rfl, rfl⟩ := hp
          rw [hcd]
          exact ⟨hi, hverify⟩
        · rw [if_neg hcd] at hp
          exact h.verified c i' proof' hp
    obtain ⟨proofs', hrun, hproved⟩ := ih hnext fun c hc => hrest c (List.mem_cons_of_mem d hc)
    refine ⟨proofs', ?_, by simpa using hproved⟩
    rw [MockDonState.proveCreated, hj]
    simp only [Int.toNat_natCast, hproof, bind, Except.bind]
    exact hrun

/-- Two answers to a request for a witness: witnesses over the state that prove the same places, or one error. -/
inductive SameOutcome (s : DonState V) (requested : List V) :
    Except String (Client.GroundingWitness P) → Except String (Client.GroundingWitness P) → Prop
  | witness (w w' : Client.GroundingWitness P) (h : Client.WitnessFor s requested w) (h' : Client.WitnessFor s requested w')
    (hindex : ∀ c, (w.createdProofs.lookup c).map Prod.fst = (w'.createdProofs.lookup c).map Prod.fst) :
    SameOutcome s requested (.ok w) (.ok w')
  | refused (e : String) : SameOutcome s requested (.error e) (.error e)

omit [Values V] in
/-- A part of a list without repetitions is told by its members. -/
theorem sublist_eq_filter {L l' : List V} {p : V → Bool} (hsub : l'.Sublist L) (hnodup : L.Nodup)
    (hmem : ∀ c, c ∈ l' ↔ c ∈ L ∧ p c = true) : l' = L.filter p := by
  have hall : l'.filter p = l' := List.filter_eq_self.mpr fun c hc => ((hmem c).mp hc).2
  have hfilter : l'.Sublist (L.filter p) := by
    have hsub' := hsub.filter p
    rwa [hall] at hsub'
  have hperm : l'.Perm (L.filter p) := by
    refine (List.perm_ext_iff_of_nodup (hsub.nodup hnodup) (hnodup.filter p)).mpr fun c => ?_
    rw [hmem, List.mem_filter]
  exact hfilter.eq_of_length hperm.length_eq

theorem Mirrors.fetchGroundingWitness (h : Mirrors net m n l hl state) (hP : P.Lawful) (texts : Client.Texts V)
    {requested : List V} (hnodup : requested.Nodup) (hlimit : requested.length ≤ maxHashQueryItems) :
    SameOutcome state requested (m.groundingWitness texts P requested)
      (Client.fetchGroundingWitness texts P (readsOf n) requested) := by
  have hbacked : ∀ s, n.stateLog.donStateAtHead = some s → s.Backed n.containers := fun s hs => h.below.stocked.backed s hs
  have houtcome : Client.WitnessOutcome texts n.stateLog.donStateAtHead requested
      (Client.fetchGroundingWitness texts P (readsOf n) requested) :=
    Client.fetchGroundingWitness_outcome hP (readsOf n) h.below.tally h.below.rooted hbacked requested
  have hmissing : ∀ c, c ∈ requested.filter (fun c => (m.createdIndex.lookup c).isNone) ↔
      c ∈ requested ∧ ¬ state.HasCreated c := by
    intro c
    rw [List.mem_filter, h.hasCreated, Bool.not_eq_true, Option.isSome_eq_false_iff]
  generalize hfetched : Client.fetchGroundingWitness texts P (readsOf n) requested = fetched at houtcome
  cases houtcome with
  | witness s w hhead hlimit hw =>
    obtain rfl : state = s := Option.some.inj (h.head.symm.trans hhead)
    have hnone : requested.filter (fun c => (m.createdIndex.lookup c).isNone) = [] := by
      refine List.eq_nil_iff_forall_not_mem.mpr fun c hc => ?_
      obtain ⟨hreq, hnot⟩ := (hmissing c).mp hc
      exact hnot (hw.created c hreq)
    have hlisted : ∀ c ∈ requested, c ∈ l := by
      intro c hc
      exact (h.index.isSome_iff c).mp ((h.hasCreated c).mp (hw.created c hc))
    have hempty : Proved P (ofArray m.created) l [] ∅ := ⟨by simp, by simp⟩
    obtain ⟨proofs, hrun, hproved⟩ := MockDonState.proveCreated_spec hP h.created h.index hempty hlisted
    rw [List.nil_append] at hproved
    have hmock : m.groundingWitness texts P requested = .ok ⟨m.head, proofs⟩ := by
      simp [MockDonState.groundingWitness, hnone, hrun, bind, Except.bind]
    rw [hmock]
    have hroot : m.head.createdRoot = ofArray m.created := by
      rw [← h.header, ← h.created_root]
      rfl
    refine .witness _ _ ⟨h.header.symm, h.root.symm, hw.created, hproved.requested, fun c i proof hp => ?_⟩ hw fun c => ?_
    · show P.verify m.head.createdRoot i c proof = true
      rw [hroot]
      exact (hproved.verified c i proof hp).2
    · by_cases hc : c ∈ requested
      · obtain ⟨⟨i, proof⟩, hp⟩ := Option.isSome_iff_exists.mp ((hproved.requested c).mpr hc)
        obtain ⟨⟨i', proof'⟩, hp'⟩ := Option.isSome_iff_exists.mp ((hw.requested c).mpr hc)
        have hplace := (hproved.verified c i proof hp).1
        have hverify := hw.verified c i' proof' hp'
        rw [hw.header, h.header, hroot] at hverify
        have hplace' := hP.sound m.created i' c proof' hverify
        rw [h.created] at hplace'
        obtain ⟨hi, hic⟩ := List.getElem?_eq_some_iff.mp hplace
        obtain ⟨hi', hic'⟩ := List.getElem?_eq_some_iff.mp hplace'
        have hsame : i = i' := (h.below.tally.nodup.getElem_inj_iff).mp (hic.trans hic'.symm)
        simp [hp, hp', hsame]
      · have hout : proofs.lookup c = none := by
          rw [← Option.not_isSome_iff_eq_none, hproved.requested]
          exact hc
        have hout' : w.createdProofs.lookup c = none := by
          rw [← Option.not_isSome_iff_eq_none, hw.requested]
          exact hc
        simp [hout, hout']
  | unavailable s missing hhead hlimit hne hl =>
    obtain rfl : state = s := Option.some.inj (h.head.symm.trans hhead)
    have hsame : missing = requested.filter fun c => (m.createdIndex.lookup c).isNone := by
      refine sublist_eq_filter hl.sublist hnodup fun c => ?_
      rw [hl.mem, ← hmissing, List.mem_filter]
    have hmock : m.groundingWitness texts P requested =
        .error ("input not yet synchronized; wait and retry: " ++ ", ".intercalate (missing.map texts.showHash)) := by
      unfold MockDonState.groundingWitness
      rw [← hsame]
      simp [hne]
    rw [hmock]
    exact .refused _
  | refused e hwhy =>
    exfalso
    rcases hwhy with hnone | hover
    · rw [h.head] at hnone
      cases hnone
    · omega

/-! ## Records -/

/-- What the containers are inserted into is kept apart from the records. -/
structure SameRecords (m m' : MockDonState V) : Prop where
  head : m'.head = m.head
  derivedStates : m'.derivedStates = m.derivedStates
  txStatuses : m'.txStatuses = m.txStatuses
  jobs : m'.jobs = m.jobs
  jobIdsByTxFinal : m'.jobIdsByTxFinal = m.jobIdsByTxFinal

theorem SameRecords.trans {m₁ m₂ m₃ : MockDonState V} (h : SameRecords m₁ m₂) (h' : SameRecords m₂ m₃) :
    SameRecords m₁ m₃ :=
  ⟨h'.head.trans h.head, h'.derivedStates.trans h.derivedStates, h'.txStatuses.trans h.txStatuses, h'.jobs.trans h.jobs,
    h'.jobIdsByTxFinal.trans h.jobIdsByTxFinal⟩

theorem MockDonState.insertCreated_records {m m' : MockDonState V} {objs : List V} (h : m.insertCreated objs = .ok m') :
    SameRecords m m' := by
  induction objs generalizing m with
  | nil =>
    cases h
    exact ⟨rfl, rfl, rfl, rfl, rfl⟩
  | cons c objs ih =>
    rw [insertCreated] at h
    split at h
    · cases h
    · have hrest := ih h
      exact ⟨hrest.head, hrest.derivedStates, hrest.txStatuses, hrest.jobs, hrest.jobIdsByTxFinal⟩

theorem MockDonState.insertNullifiers_records {m m' : MockDonState V} {ns : List V}
    (h : m.insertNullifiers ns = .ok m') : SameRecords m m' := by
  induction ns generalizing m with
  | nil =>
    cases h
    exact ⟨rfl, rfl, rfl, rfl, rfl⟩
  | cons c ns ih =>
    rw [insertNullifiers] at h
    split at h
    · cases h
    · have hrest := ih h
      exact ⟨hrest.head, hrest.derivedStates, hrest.txStatuses, hrest.jobs, hrest.jobIdsByTxFinal⟩

/-- A payload that is applied adds the state of its block and changes no other record. -/
structure Recording (m m' : MockDonState V) : Prop where
  number : m'.head.blockNumber = m.head.blockNumber + 1
  txStatuses : m'.txStatuses = m.txStatuses
  jobs : m'.jobs = m.jobs
  jobIdsByTxFinal : m'.jobIdsByTxFinal = m.jobIdsByTxFinal
  older : ∀ b, b ≠ m'.head.blockNumber → m'.derivedStates.lookup b = m.derivedStates.lookup b

theorem MockDonState.apply_recording {m m' : MockDonState V} {p : MockPayload V} {now : Nat}
    (h : m.apply net p now = .ok m') : Recording m m' := by
  obtain ⟨m₁, hcreated, h⟩ := bind_eq_ok h
  obtain ⟨m₂, hnullifiers, h⟩ := bind_eq_ok h
  obtain ⟨hhead, hstates, hstatuses, hjobs, hids⟩ :=
    (insertCreated_records hcreated).trans (insertNullifiers_records hnullifiers)
  unfold nextHead at h
  dsimp only at h
  split at h
  · cases h
  · cases h
    refine ⟨by rw [← hhead]; rfl, hstatuses, hjobs, hids, fun b hb => ?_⟩
    rw [← hstates]
    exact Finmap.lookup_insert_of_ne _ hb

/-- The row of a transaction that was applied, and the block of its slot. -/
structure RowOf (n : Node V) (t : V) (st : SynchronizerTxStatus) (r : TxStatusRow V) (block : ExecutionBlock) : Prop where
  rows : n.stateLog.txStatuses.filter (fun r => r.txFinal = some t) = [r]
  error : r.error = none
  derived : Client.blockOfSlot n.stateLog r.slot = some block
  number : (block.number : Int) = st.blockNumber

/-- The mock network's records beside the tables of the node. Rejected transactions get no block. -/
structure Recorded (m : MockDonState V) (n : Node V) : Prop where
  states : ∀ b : Nat, m.derivedStates.lookup (b : Int) =
    (Client.slotStateAtElBlock n.stateLog b).map Client.stateHeadResponse
  applied : ∀ t st, m.txStatuses.lookup t = some st → st.error = none → ∃ r block, RowOf n t st r block
  unapplied : ∀ t, (∀ st, m.txStatuses.lookup t = some st → st.error ≠ none) →
    n.stateLog.txStatuses.filter (fun r => r.txFinal = some t) = []
  keys : ∀ t, m.jobIdsByTxFinal.lookup t = none → m.txStatuses.lookup t = none
  jobs : ∀ id job, m.jobs.lookup id = some job → ∃ st, m.txStatuses.lookup job.txFinal = some st ∧
    st.txHash = job.txHash ∧ st.blockNumber = job.blockNumber

theorem stateHeadResponse_of_mirrors (h : Mirrors net m n l hl state) :
    m.derivedStates.lookup m.head.blockNumber =
      some (Client.stateHeadResponse ⟨state.metadata.block.number, state⟩) :=
  h.agrees.response

omit [Values V] in
theorem slotStateAtElBlock_cons {log log' : StateLogDb V} {slot : Nat} {s : DonState V}
    (hslots : log'.slots = ⟨slot, some s⟩ :: log.slots) (b : Nat) : Client.slotStateAtElBlock log' b =
      if s.metadata.block.number = b then some ⟨slot, s⟩ else Client.slotStateAtElBlock log b := by
  unfold Client.slotStateAtElBlock
  rw [hslots]
  by_cases hb : s.metadata.block.number = b <;> simp [hb]

theorem Recorded.genesis (now : Nat) {as : List (Attempt V)}
    (hcommit : Node.genesis.commitBlock ((MockDonState.genesis net now).block net) none = .ok (n, as))
    (h : Mirrors net (MockDonState.genesis net now) n [] [] state) : Recorded (MockDonState.genesis net now) n := by
  rcases Node.commitSlotAt_cases Node.genesis_tally hcommit with ⟨hnone, -⟩ | ⟨block, hblock, w, w', s, history, hc⟩
  · cases hnone
  · cases hblock
    obtain ⟨sts, hout, hstatuses⟩ := hc.statuses
    have hempty : n.stateLog.txStatuses = [] := by
      have hnil : TxOutcomes [] as sts := hout
      cases hnil
      exact hstatuses
    obtain rfl : state = s := by
      have hhead := h.head
      rw [StateLogDb.donStateAtHead, hc.slots] at hhead
      exact (Option.some.inj hhead).symm
    have hnumber : state.metadata.block.number = 1 := by
      have hone : (state.metadata.block.number : Int) = 1 := h.block_number
      omega
    refine ⟨fun b => ?_, fun t st hst => ?_, fun t _ => by rw [hempty]; rfl, fun t _ => rfl, fun id job hjob => ?_⟩
    · rw [slotStateAtElBlock_cons hc.slots]
      by_cases hb : b = 1
      · subst hb
        rw [if_pos hnumber]
        have hresponse := stateHeadResponse_of_mirrors h
        rw [hnumber] at hresponse
        exact hresponse
      · rw [if_neg (by omega)]
        have hne : (b : Int) ≠ 1 := by omega
        exact Finmap.lookup_insert_of_ne _ hne
    · cases hst
    · cases hjob

/-! ## Records of a submission -/

theorem accepts_eq_some {s : Submission V} {p : MockPayload V} (h : m.accepts s = some p) :
    s.payload = .ok p ∧ m.jobIdsByTxFinal.lookup p.txFinal = none ∧ m.rejection p = none := by
  unfold MockDonState.accepts at h
  cases hpayload : s.payload with
  | error err => simp [hpayload] at h
  | ok q =>
    simp only [hpayload] at h
    split at h
    next hfree =>
      cases h
      exact ⟨rfl, hfree⟩
    next => cases h

omit [Values V] in
theorem blockOfSlot_cons {log log' : StateLogDb V} {slot : Nat} {s : Option (DonState V)}
    (hslots : log'.slots = ⟨slot, s⟩ :: log.slots) {k : Nat} (hk : k ≠ slot) :
    Client.blockOfSlot log' k = Client.blockOfSlot log k := by
  unfold Client.blockOfSlot
  rw [hslots, List.find?_cons_of_neg]
  simpa using Ne.symm hk

omit [Values V] in
/-- The status rows of a block with one payload. -/
theorem statusRows_one {block : ExecutionBlock} {q : Synchronizer.Payload V} {as : List (Attempt V)}
    {sts : List (TxStatus V)} (h : TxOutcomes (blockTxs block (some q)) as sts) :
    ∃ (a : Attempt V) (r : TxStatusRow V), as = [a] ∧ statusRows block.number sts = [r] ∧ r.slot = block.number ∧
      r.txFinal = some q.txFinal ∧ r.error = (a.rejection <|> none).map capError := by
  have hone : TxOutcomes [⟨[some (0, q)], ⟨block.number, [⟨some q.txFinal, none⟩]⟩⟩] as sts := h
  cases hone with
  | cons hblobs hrest =>
    cases hrest
    cases hblobs with
    | tried i st a hblobs =>
      cases hblobs
      exact ⟨a, _, rfl, rfl, rfl, rfl, rfl⟩

/-- An accepted payload leaves one row, in its block's slot. -/
theorem Mirrors.commit_row (h : Mirrors net m n l hl state) {p : MockPayload V} (hnone : m.rejection p = none)
    {proof : List Nat} {block : ExecutionBlock} (hblock : block.number = m.head.blockNumber.toNat + 1) {n' : Node V}
    {as : List (Attempt V)} (hcommit : n.commitBlock block (some (p.toPayload proof)) = .ok (n', as)) :
    ∃ (s : DonState V) (r : TxStatusRow V), n'.stateLog.slots = ⟨block.number, some s⟩ :: n.stateLog.slots ∧
      s.metadata.block = block ∧ n'.stateLog.txStatuses = r :: n.stateLog.txStatuses ∧ r.slot = block.number ∧
      r.txFinal = some p.txFinal ∧ r.error = none := by
  rcases Node.commitSlotAt_cases h.below.tally hcommit with ⟨hempty, -⟩ | ⟨b, hb, w, w', s, history, hc⟩
  · cases hempty
  · cases hb
    obtain ⟨sts, hout, hstatuses⟩ := hc.statuses
    obtain ⟨a, r, has, hrows, hslot, hfinal, herror⟩ := statusRows_one hout
    have hcalls : applyPayloads (n.stateLog.createdIndices (candidatesOf (blockTxs block (some (p.toPayload proof)))))
        block.number w [p.toPayload proof] = .ok (w', as) := hc.calls
    have hcover : (p.toPayload proof).created ⊆ candidatesOf (blockTxs block (some (p.toPayload proof))) := by
      rw [candidatesOf_blockTxs]
      exact fun x hx => hx
    obtain ⟨rejection, w₁, hstep, hiff, -, -⟩ := applyPayload_exact block.number (startWorking_tally h.below.tally hc.start)
      fun x hx => h.below.tally.index.prefetched _ w l (startWorking_tally h.below.tally hc.start) x (hcover hx)
    have hacc := (h.rejection_eq_none hc.start p proof).mp hnone
    rw [← hblock] at hacc
    obtain rfl := hiff.mpr hacc
    rw [applyPayloads] at hcalls
    simp only [hstep, bind, Except.bind, applyPayloads] at hcalls
    cases hcalls
    obtain rfl := List.singleton_inj.mp has
    refine ⟨s, r, hc.slots, (finishState_history hc.finish).2.2.1, ?_, hslot, hfinal, herror⟩
    rw [hstatuses, hrows]
    rfl

section Records

variable [EncodeHex V]

/-- What a submission that was tried leaves in the records. -/
theorem record_lookup (m : MockDonState V) (p : MockPayload V) (error : Option String) (createdAt : Nat) (t : V) :
    (m.record p error createdAt).txStatuses.lookup t =
      if t = p.txFinal then some ⟨EncodeHex.encodeHex p.txFinal, m.head.blockNumber, error⟩ else m.txStatuses.lookup t := by
  rw [MockDonState.record]
  exact lookup_insert_ite _ _ _ _

theorem Recorded.job_status {m : MockDonState V} (h : Recorded m n) {p : MockPayload V}
    (hfree : m.jobIdsByTxFinal.lookup p.txFinal = none) {m' : MockDonState V} (hstatuses : m'.txStatuses = m.txStatuses)
    (hjobs : m'.jobs = m.jobs) (error : Option String) (createdAt : Nat) :
    ∀ id job, (m'.record p error createdAt).jobs.lookup id = some job →
      ∃ st, (m'.record p error createdAt).txStatuses.lookup job.txFinal = some st ∧ st.txHash = job.txHash ∧
        st.blockNumber = job.blockNumber := by
  intro id job hjob
  rw [record_lookup]
  rw [MockDonState.record] at hjob
  simp only [lookup_insert_ite] at hjob
  split at hjob
  next =>
    cases hjob
    exact ⟨_, if_pos rfl, rfl, rfl⟩
  next =>
    rw [hjobs] at hjob
    obtain ⟨st, hst, hrest⟩ := h.jobs id job hjob
    have hne : job.txFinal ≠ p.txFinal := by
      intro heq
      rw [heq, h.keys p.txFinal hfree] at hst
      cases hst
    rw [if_neg hne, hstatuses]
    exact ⟨st, hst, hrest⟩

theorem Recorded.job_keys {m m' : MockDonState V} (h : Recorded m n) {p : MockPayload V}
    (hstatuses : m'.txStatuses = m.txStatuses) (hids : m'.jobIdsByTxFinal = m.jobIdsByTxFinal)
    (error : Option String) (createdAt : Nat) :
    ∀ t, (m'.record p error createdAt).jobIdsByTxFinal.lookup t = none →
      (m'.record p error createdAt).txStatuses.lookup t = none := by
  intro t ht
  rw [record_lookup]
  rw [MockDonState.record] at ht
  simp only [lookup_insert_ite] at ht
  split at ht
  next => cases ht
  next hne =>
    rw [hids] at ht
    rw [if_neg hne, hstatuses]
    exact h.keys t ht

/-- A submission that gets no block leaves no row, only an error. -/
theorem Recorded.unaccepted (h : Recorded m n) {s : Submission V} (hnone : m.accepts s = none) :
    Recorded (m.submit net s).1 n := by
  cases hpayload : s.payload with
  | error err =>
    have hsubmit : (m.submit net s).1 = m := by simp [MockDonState.submit, hpayload]
    rw [hsubmit]
    exact h
  | ok p =>
    cases hjob : m.jobIdsByTxFinal.lookup p.txFinal with
    | some jobId =>
      have hsubmit : (m.submit net s).1 = m := by simp [MockDonState.submit, hpayload, hjob]
      rw [hsubmit]
      exact h
    | none =>
      cases hreject : m.rejection p with
      | none => simp [MockDonState.accepts, hpayload, hjob, hreject] at hnone
      | some reason =>
        have hsubmit : (m.submit net s).1 = m.record p (some reason) s.createdAt := by
          simp [MockDonState.submit, hpayload, hjob, hreject]
        rw [hsubmit]
        refine ⟨h.states, fun t st hst herror => ?_, fun t ht => ?_, h.job_keys rfl rfl _ _, h.job_status hjob rfl rfl _ _⟩
        · rw [record_lookup] at hst
          split at hst
          next =>
            cases hst
            cases herror
          next => exact h.applied t st hst herror
        · refine h.unapplied t fun st hst => ?_
          have hne : t ≠ p.txFinal := by
            intro heq
            rw [heq, h.keys p.txFinal hjob] at hst
            cases hst
          refine ht st ?_
          rw [record_lookup, if_neg hne]
          exact hst

/-- An accepted submission leaves the row of its block. -/
theorem Recorded.accepted (h : Recorded m n) (hm : Mirrors net m n l hl state) {s : Submission V} {p : MockPayload V}
    (haccepts : m.accepts s = some p) {proof : List Nat} {n' : Node V} {as : List (Attempt V)} {l' hl' : List V}
    {state' : DonState V}
    (hcommit : n.commitBlock ((m.submit net s).1.block net) (some (p.toPayload proof)) = .ok (n', as))
    (hm' : Mirrors net (m.submit net s).1 n' l' hl' state') : Recorded (m.submit net s).1 n' := by
  obtain ⟨hpayload, hfree, hnone⟩ := accepts_eq_some haccepts
  obtain ⟨m', -, -, -, happly, -, -⟩ := hm.apply hnone s.now proof
  have hsubmit : (m.submit net s).1 = m'.record p none s.createdAt := by
    simp [MockDonState.submit, hpayload, hfree, hnone, happly]
  rw [hsubmit] at hcommit hm' ⊢
  have hrecording := MockDonState.apply_recording happly
  have hnext := hrecording.number
  have hone := hm.number
  have hblock : (m'.block net).number = m.head.blockNumber.toNat + 1 := by
    show m'.head.blockNumber.toNat = _
    omega
  have hnumber : ((m'.block net).number : Int) = m'.head.blockNumber := by omega
  obtain ⟨s', r, hslots, hderived, hstatuses, hslot, hfinal, herror⟩ := hm.commit_row hnone hblock hcommit
  obtain rfl : state' = s' := by
    have hhead := hm'.head
    rw [StateLogDb.donStateAtHead, hslots] at hhead
    exact (Option.some.inj hhead).symm
  have hown : state'.metadata.block.number = (m'.block net).number := congrArg ExecutionBlock.number hderived
  have hunseen : n.stateLog.txStatuses.filter (fun r => r.txFinal = some p.txFinal) = [] := by
    refine h.unapplied p.txFinal fun st hst => ?_
    rw [h.keys p.txFinal hfree] at hst
    cases hst
  have hrows : ∀ t, t ≠ p.txFinal → n'.stateLog.txStatuses.filter (fun r => r.txFinal = some t) =
      n.stateLog.txStatuses.filter fun r => r.txFinal = some t := by
    intro t ht
    rw [hstatuses, List.filter_cons_of_neg]
    simpa [hfinal] using Ne.symm ht
  refine ⟨fun b => ?_, fun t st hst hnoerror => ?_, fun t ht => ?_,
    h.job_keys hrecording.txStatuses hrecording.jobIdsByTxFinal _ _,
    h.job_status hfree hrecording.txStatuses hrecording.jobs _ _⟩
  · rw [slotStateAtElBlock_cons hslots, hown]
    by_cases hb : (m'.block net).number = b
    · have hresponse := stateHeadResponse_of_mirrors hm'
      rw [hown] at hresponse
      rw [if_pos hb, ← hb, hnumber]
      exact hresponse
    · rw [if_neg hb, ← h.states b]
      exact hrecording.older b (by omega)
  · rw [record_lookup] at hst
    split at hst
    next heq =>
      cases hst
      subst heq
      refine ⟨r, m'.block net, ?_, herror, ?_, hnumber⟩
      · rw [hstatuses, List.filter_cons_of_pos (by simp [hfinal]), hunseen]
      · unfold Client.blockOfSlot
        rw [hslots, hslot, List.find?_cons_of_pos (by simp)]
        simp [hderived]
    next hne =>
      rw [hrecording.txStatuses] at hst
      obtain ⟨r', block', hrow, herror', hat, hnumber'⟩ := h.applied t st hst hnoerror
      refine ⟨r', block', by rw [hrows t hne, hrow], herror', ?_, hnumber'⟩
      rw [blockOfSlot_cons hslots, hat]
      obtain ⟨row, hrow', -⟩ := Option.bind_eq_some_iff.mp hat
      have hlt := (hm.below.slots row (List.mem_of_find?_eq_some hrow')).1
      have hsame : row.slot = r'.slot := by simpa using List.find?_some hrow'
      show r'.slot ≠ (m'.block net).number
      omega
  · have hne : t ≠ p.txFinal := by
      intro heq
      have hnot := ht ⟨EncodeHex.encodeHex p.txFinal, m'.head.blockNumber, none⟩ (by rw [record_lookup, if_pos heq])
      exact hnot rfl
    rw [hrows t hne]
    refine h.unapplied t fun st hst => ht st ?_
    rw [record_lookup, if_neg hne, hrecording.txStatuses]
    exact hst

/-- The records through all submissions. -/
theorem Recorded.submitAll (h : Recorded m n) (proofOf : MockPayload V → List Nat) {chain : Chain V}
    (hchain : Node.genesis.commitBlocks chain = .ok n) (hm : Mirrors net m n l hl state)
    (submissions : List (Submission V)) :
    ∃ n' l' hl' state', Node.genesis.commitBlocks (MockDon.submitAll net proofOf (m, chain) submissions).2 = .ok n' ∧
      Mirrors net (MockDon.submitAll net proofOf (m, chain) submissions).1 n' l' hl' state' ∧
      Recorded (MockDon.submitAll net proofOf (m, chain) submissions).1 n' := by
  induction submissions generalizing m n l hl state chain with
  | nil => exact ⟨n, l, hl, state, hchain, hm, h⟩
  | cons s submissions ih =>
    rw [MockDon.submitAll]
    cases haccepts : m.accepts s with
    | none => exact ih (h.unaccepted haccepts) hchain (hm.unchanged (MockDonState.submit_unchanged net haccepts))
    | some p =>
      obtain ⟨n', as, state', hcommit, hmirrors⟩ := hm.submit_accepted haccepts (proofOf p)
      refine ih (h.accepted hm haccepts hcommit hmirrors) ?_ hmirrors
      rw [Node.commitBlocks_append hchain, Node.commitBlocks, hcommit]
      rfl

/-! ## All reads -/

omit [EncodeHex V] in
theorem Recorded.fetchStateAt (hr : Recorded m n) (texts : Client.Texts V) {b : Int} (hnonneg : 0 ≤ b) (hlt : b < 2 ^ 63) :
    Client.fetchStateAt texts (readsOf n) b = .ok (m.fetchStateAt b) := by
  have hstates := hr.states b.toNat
  rw [Int.toNat_of_nonneg hnonneg] at hstates
  unfold Client.fetchStateAt Client.getStateByEl
  rw [if_neg (by omega), if_neg (by omega), MockDonState.fetchStateAt, hstates]
  rfl

omit [EncodeHex V] in
/-- The client is told the block of an applied transaction. A rejected one has no block, so it is told nothing. -/
theorem Recorded.fetchTxStatus (hr : Recorded m n) (t : V) :
    (Client.fetchTxStatus (readsOf n) t).map (fun st => (st.blockNumber, st.error)) =
      ((m.fetchTxStatus t).filter fun st => st.error = none).map fun st => (st.blockNumber, st.error) := by
  unfold Client.fetchTxStatus Client.getTxStatusByTxFinal MockDonState.fetchTxStatus
  show Option.map _ (Option.map _ ((n.stateLog.txStatusByTxFinal t).bind _)) = _
  unfold StateLogDb.txStatusByTxFinal
  cases hst : m.txStatuses.lookup t with
  | none =>
    rw [hr.unapplied t (by simp [hst])]
    simp [TxStatusRow.first]
  | some st =>
    by_cases herror : st.error = none
    · obtain ⟨r, block, hrows, hnone, hat, hnumber⟩ := hr.applied t st hst herror
      rw [hrows]
      simp [TxStatusRow.first, hat, hnone, herror, hnumber, readsOf]
    · rw [hr.unapplied t (by simp [hst, herror])]
      simp [TxStatusRow.first, herror]

omit [EncodeHex V] in
theorem Recorded.fetchJobStatus (hr : Recorded m n) {jobId : String} {job : JobStatusResponse V}
    (h : m.fetchJobStatus jobId = .ok job) :
    ∃ st, m.fetchTxStatus job.txFinal = some st ∧ job.txHash = some st.txHash ∧
      job.blockNumber = some (st.blockNumber % 2 ^ 64).toNat := by
  unfold MockDonState.fetchJobStatus at h
  cases hjob : m.jobs.lookup jobId with
  | none => simp [hjob] at h
  | some stored =>
    simp only [hjob, Except.ok.injEq] at h
    subst h
    obtain ⟨st, hst, hhash, hblock⟩ := hr.jobs jobId stored hjob
    exact ⟨st, hst, by rw [hhash], by rw [hblock]⟩

/-- What the mock network answers beside what the HTTP client reads of the node. -/
structure SameReads (texts : Client.Texts V) (P : ArrayProofs V) (m : MockDonState V) (n : Node V) (state : DonState V) :
    Prop where
  derived : n.stateLog.donStateAtHead = some state
  head : Client.fetchHead texts (readsOf n) = .ok m.fetchHead
  membership : ∀ objectCommitments nullifiers, ((Objects.fetchMembershipWithNullifiers objectCommitments nullifiers).serve
    (Client.responses texts fun _ => .ok (readsOf n)) 0).1 = .ok (m.fetchMembershipWithNullifiers objectCommitments nullifiers)
  witness : ∀ requested : List V, requested.Nodup → requested.length ≤ maxHashQueryItems → SameOutcome state requested
    (m.groundingWitness texts P requested) (Client.fetchGroundingWitness texts P (readsOf n) requested)
  stateAt : ∀ b : Int, 0 ≤ b → b < 2 ^ 63 → Client.fetchStateAt texts (readsOf n) b = .ok (m.fetchStateAt b)
  txStatus : ∀ t, (Client.fetchTxStatus (readsOf n) t).map (fun st => (st.blockNumber, st.error)) =
    ((m.fetchTxStatus t).filter fun st => st.error = none).map fun st => (st.blockNumber, st.error)
  jobStatus : ∀ jobId job, m.fetchJobStatus jobId = .ok job → ∃ st, m.fetchTxStatus job.txFinal = some st ∧
    job.txHash = some st.txHash ∧ job.blockNumber = some (st.blockNumber % 2 ^ 64).toNat

/-- After any submissions the mock network is read as the synchronizer of its chain is, through every call of the client. -/
theorem mock_reads_agree {P : ArrayProofs V} (hP : P.Lawful) (texts : Client.Texts V) (net : BlockHashes V)
    (proofOf : MockPayload V → List Nat) (now : Nat) (submissions : List (Submission V)) :
    ∃ n state, Node.genesis.commitBlocks (runFrom net proofOf now submissions).2 = .ok n ∧
      SameReads texts P (runFrom net proofOf now submissions).1 n state := by
  obtain ⟨n, as, state, hcommit, hm⟩ := Mirrors.genesis net now
  have hchain : Node.genesis.commitBlocks [((MockDonState.genesis net now).block net, none)] = .ok n := by
    simp only [Node.commitBlocks, hcommit, bind, Except.bind]
  have hr := Recorded.genesis now hcommit hm
  obtain ⟨n', l', hl', state', hchain', hm', hr'⟩ := hr.submitAll proofOf hchain hm submissions
  exact ⟨n', state', hchain', {
    derived := hm'.head
    head := hm'.fetchHead texts
    membership := hm'.fetchMembership texts
    witness := fun requested hnodup hlimit => hm'.fetchGroundingWitness hP texts hnodup hlimit
    stateAt := fun b hnonneg hlt => hr'.fetchStateAt texts hnonneg hlt
    txStatus := hr'.fetchTxStatus
    jobStatus := fun jobId job h => hr'.fetchJobStatus h }⟩

end Records

theorem mock_reads_agree_twice : (openProofs : ArrayProofs Term).Lawful ∧
    ∃ n state, Node.genesis.commitBlocks (runFrom rawHashes (fun _ => []) 0 twice).2 = .ok n ∧
      SameReads ⟨"", fun _ => "", fun _ => "", fun _ => "", ""⟩ openProofs (runFrom rawHashes (fun _ => []) 0 twice).1 n state :=
  ⟨openProofs_lawful, mock_reads_agree openProofs_lawful ⟨"", fun _ => "", fun _ => "", fun _ => "", ""⟩ rawHashes (fun _ => [])
    0 twice⟩

end DigitalObjects.Driver.MockDon
