import DigitalObjects.Driver.Membership
import DigitalObjects.Driver.MockDonAgreement
import DigitalObjects.Driver.SynchronizerClient
import DigitalObjects.Lib.Bytes
import DigitalObjects.Synchronizer.CommittedSlot
import DigitalObjects.Txlib.Grounding
set_option autoImplicit false

/-!
What the driver has from the synchronizer to prove things with: grounding witnesses for the inputs of a
transaction, and creation proofs that travel with an object.
-/

namespace DigitalObjects.Driver.Client

open Pod2 Txlib Synchronizer MockDon Objects

variable {V : Type} [Values V] {texts : Texts V} {P : ArrayProofs V}

/-! ## Grounding witnesses -/

/-- A witness over the state, with a proof of every commitment that was requested and of no other. -/
structure WitnessFor (s : DonState V) (requested : List V) (w : GroundingWitness P) : Prop where
  header : w.stateHeader = s.stateHeader
  root : w.stateHeader.hash = s.metadata.stateRoot
  created : ∀ c ∈ requested, s.HasCreated c
  requested : ∀ c, (w.createdProofs.lookup c).isSome = true ↔ c ∈ requested
  verified : ∀ c index proof, w.createdProofs.lookup c = some (index, proof) →
    P.verify w.stateHeader.createdRoot index c proof = true

/-- The response of the handler, or why there is none. -/
theorem postGroundingWitness_cases (hP : P.Lawful) {app : Reads V} {l : List V} (hlog : app.stateLog.Tally l)
    (hbacked : ∀ s, app.stateLog.donStateAtHead = some s → s.Backed app.first) (requested : List V) :
    (∃ s proofs, app.stateLog.donStateAtHead = some s ∧ requested.length ≤ maxHashQueryItems ∧
      postGroundingWitness P app requested = .ok ⟨s.metadata.stateRoot, s.stateHeader, proofs⟩ ∧
      List.Forall₂ (ProofFor P s) requested proofs) ∨
    ((app.stateLog.donStateAtHead = none ∨ maxHashQueryItems < requested.length) ∧
      ∃ e, postGroundingWitness P app requested = .error e) := by
  by_cases hlimit : requested.length > maxHashQueryItems
  · right
    have herror : ∃ e, ensureHashQueryLimit "objectCommitments" requested.length = .error e := by
      simp [ensureHashQueryLimit, if_pos hlimit]
    obtain ⟨e, he⟩ := herror
    refine ⟨.inr hlimit, e, ?_⟩
    simp only [postGroundingWitness, he, bind, Except.bind]
  · cases hs : app.stateLog.donStateAtHead with
    | none =>
      right
      refine ⟨.inl rfl, notInitialized, ?_⟩
      simp [postGroundingWitness, ensureHashQueryLimit, if_neg hlimit, StateLogDb.slotStateAtHeadWithCreatedIndices, hs,
        bind, Except.bind]
    | some s =>
      left
      obtain ⟨a, ha⟩ := (hbacked s hs).created
      have hproves : ∃ witnesses, app.first.proveCreatedFor P s.roots requested (app.stateLog.createdIndices requested) =
          .ok witnesses := by
        simp [ContainerDb.proveCreatedFor, ha, bind, Except.bind]
      obtain ⟨witnesses, hwitnesses⟩ := hproves
      refine ⟨s, _, rfl, by omega, ?_, proveCreatedFor_spec hP hlog hs hwitnesses⟩
      simp [postGroundingWitness, ensureHashQueryLimit, if_neg hlimit, StateLogDb.slotStateAtHeadWithCreatedIndices, hs,
        hwitnesses, bind, Except.bind, Except.mapError]

/-- The entry that the client makes of a proof response. -/
theorem entryFor {s : DonState V} {c : V} {r : ObjectProofResponse V P.Proof} (h : ProofFor P s c r) :
    EntryFor s.HasCreated (fun c (q : Nat × P.Proof) => P.verify s.roots.created q.1 c q.2 = true) c
      (r.commitment, r.present, r.index.bind fun index => r.proof.map (Prod.mk index)) := by
  refine ⟨h.commitment, h.present, fun hpresent => ?_⟩
  obtain ⟨i, proof, hi, hproof, -, hverify⟩ := h.proven hpresent
  exact ⟨(i, proof), by simp [hi, hproof], hverify⟩

/-- What a request for a witness comes to. -/
inductive WitnessOutcome (texts : Texts V) (head : Option (DonState V)) (requested : List V) :
    Except String (GroundingWitness P) → Prop
  | witness (s : DonState V) (w : GroundingWitness P) (hhead : head = some s)
    (hlimit : requested.length ≤ maxHashQueryItems) (hw : WitnessFor s requested w) :
    WitnessOutcome texts head requested (.ok w)
  | unavailable (s : DonState V) (l : List V) (hhead : head = some s) (hlimit : requested.length ≤ maxHashQueryItems)
    (hne : l ≠ []) (hl : Unavailable s.HasCreated requested l) :
    WitnessOutcome texts head requested
      (.error ("input not yet synchronized; wait and retry: " ++ ", ".intercalate (l.map texts.showHash)))
  | refused (e : String) (h : head = none ∨ maxHashQueryItems < requested.length) :
    WitnessOutcome texts head requested (.error e)

theorem fetchGroundingWitness_outcome (hP : P.Lawful) (app : Reads V) {l : List V} (hlog : app.stateLog.Tally l)
    (hrooted : ∀ row ∈ app.stateLog.slots, ∀ s, row.state = some s → s.metadata.stateRoot = s.stateHeader.hash)
    (hbacked : ∀ s, app.stateLog.donStateAtHead = some s → s.Backed app.first) (requested : List V) :
    WitnessOutcome texts app.stateLog.donStateAtHead requested (fetchGroundingWitness texts P app requested) := by
  rcases postGroundingWitness_cases hP hlog hbacked requested with ⟨s, proofs, hs, hlimit, hpost, hproofs⟩ | ⟨hwhy, e, he⟩
  · obtain ⟨row, hrow, hstate⟩ := List.exists_of_findSome?_eq_some hs
    have hroot := hrooted row hrow s hstate
    have hentries : List.Forall₂ (EntryFor s.HasCreated
        (fun c (q : Nat × P.Proof) => P.verify s.roots.created q.1 c q.2 = true)) requested
        (proofs.map fun entry => (entry.commitment, entry.present,
          entry.index.bind fun index => entry.proof.map (Prod.mk index))) := by
      rw [List.forall₂_map_right_iff]
      exact hproofs.imp fun c r hr => entryFor hr
    unfold fetchGroundingWitness
    rw [hpost]
    simp only [decodeJsonResponse, bind, Except.bind, hroot, ne_eq, not_true_eq_false, if_false]
    rcases collectCreatedProofs_spec texts hentries with ⟨created, hcreated, hall, hkeys, hverify⟩ |
      ⟨missing, hne, hmissing, herror⟩
    · simp only [hcreated]
      exact .witness s _ hs hlimit ⟨rfl, hroot.symm, hall, hkeys, fun c index proof h => hverify c (index, proof) h⟩
    · simp only [herror]
      exact .unavailable s missing hs hlimit hne hmissing
  · unfold fetchGroundingWitness
    rw [he]
    exact .refused _ hwhy

/-- A tally and a header root at every node that commits and rollbacks lead to. -/
theorem reachable_spec (parser : BlobParser V) (initStartSlot : Nat) (ops : List (NodeOp V)) :
    ∃ l, (Node.genesis.applyAll parser initStartSlot ops).stateLog.Tally l ∧
      (Node.genesis.applyAll parser initStartSlot ops).Rooted ∧
      (Node.genesis.applyAll parser initStartSlot ops).Stocked := by
  obtain ⟨h, htracks⟩ := (Node.Tracks.genesis parser initStartSlot).applyAll ops
  obtain ⟨l, htally⟩ := htracks.tally
  have hgenesis : (Node.genesis : Node V).Rooted := by
    intro row hrow
    cases hrow
  exact ⟨l, htally, hgenesis.applyAll parser initStartSlot ops, Node.genesis_stocked.applyAll parser initStartSlot ops⟩

/-- The witness as the builder takes it. -/
def GroundingWitness.opened (w : GroundingWitness (openProofs : ArrayProofs V)) : Txlib.GroundingWitness V :=
  ⟨w.stateHeader, w.createdProofs⟩

/-- The witness grounds what was requested, and a synchronizer that has derived its state takes its root until it is
too old. -/
structure Grounds (requested : List V) (w : GroundingWitness (openProofs : ArrayProofs V)) : Prop where
  builds : ∀ inputs : List (Dictionary V), inputs.Nodup → (∀ obj ∈ inputs, ofDict obj ∈ requested) →
    ∃ r, buildInputsGrounded inputs w.opened = .ok r ∧ r.inputsSet = (inputs.map ofDict).toFinset
  accepted : ∀ (parser : BlobParser V) (initStartSlot : Nat) (ops : List (NodeOp V)),
    let n := Node.genesis.applyAll parser initStartSlot ops
    (∃ row ∈ n.stateLog.slots, ∃ s, row.state = some s ∧ s.metadata.stateRoot = w.stateHeader.hash) →
    ∀ blockNumber candidates u, (∀ s, n.stateLog.donStateAtHead = some s → s.metadata.block.number < blockNumber) →
      n.Deriving n.window blockNumber candidates u →
      (groundingCheck u w.stateHeader.hash blockNumber = none ↔
        (blockNumber : Int) - w.stateHeader.blockNumber ≤ maxStateRootAgeBlocks)

theorem WitnessFor.proves {s : DonState V} {requested : List V} {w : GroundingWitness (openProofs : ArrayProofs V)}
    (h : WitnessFor s requested w) {obj : Dictionary V} (hobj : ofDict obj ∈ requested) : w.opened.Proves obj := by
  obtain ⟨⟨index, proof⟩, hlookup⟩ := Option.isSome_iff_exists.mp ((h.requested (ofDict obj)).mpr hobj)
  have hverify := h.verified (ofDict obj) index proof hlookup
  simp only [openProofs, decide_eq_true_eq] at hverify
  exact ⟨index, proof, hlookup, hverify.1.symm, hverify.2⟩

theorem WitnessFor.grounds {s : DonState V} {requested : List V} {w : GroundingWitness (openProofs : ArrayProofs V)}
    (h : WitnessFor s requested w) : Grounds requested w := by
  constructor
  · intro inputs hnodup hinputs
    obtain ⟨r, hr⟩ := buildInputsGrounded_ok hnodup fun obj hobj => h.proves (hinputs obj hobj)
    exact ⟨r, hr, buildInputsGrounded_eq hr⟩
  · intro parser initStartSlot ops n hkept blockNumber candidates u hnext hu
    obtain ⟨l, htally, hrooted, -⟩ := reachable_spec parser initStartSlot ops
    obtain ⟨row, hrow, s', hs', hroot⟩ := hkept
    -- every state of this root is of the witness's block
    have hblock : ∀ row ∈ n.stateLog.slots, ∀ t, row.state = some t → t.metadata.stateRoot = w.stateHeader.hash →
        (t.metadata.block.number : Int) = w.stateHeader.blockNumber := by
      intro row hrow t ht heq
      rw [hrooted row hrow t ht] at heq
      exact StateHeader.blockNumber_of_hash heq
    rw [groundingCheck_window hrooted htally hnext hu]
    constructor
    · rintro ⟨row, hrow, t, ht, heq, hyoung⟩
      have hsame := hblock row hrow t ht heq
      omega
    · intro hyoung
      have hsame := hblock row hrow s' hs' hroot
      refine ⟨row, hrow, s', hs', hroot, ?_⟩
      omega

/-- A request gets a witness for the head just when all of its commitments are created there, and the witness grounds
them; whatever the sync loop does before the request and while it is answered. -/
theorem grounding_witness_exact (texts : Texts V) (parser : BlobParser V) (initStartSlot : Nat)
    (ops ops₁ ops₂ : List (NodeOp V)) (requested : List V) :
    let n := Node.genesis.applyAll parser initStartSlot ops
    let n₁ := n.applyAll parser initStartSlot ops₁
    let n₂ := n₁.applyAll parser initStartSlot ops₂
    let fetched := fetchGroundingWitness texts openProofs ⟨n.stateLog, n₁.containers, n₂.containers⟩ requested
    WitnessOutcome texts n.stateLog.donStateAtHead requested fetched ∧ ∀ w, fetched = .ok w → Grounds requested w := by
  intro n n₁ n₂ fetched
  obtain ⟨l, htally, hrooted, hstocked⟩ := reachable_spec parser initStartSlot ops
  have houtcome : WitnessOutcome texts n.stateLog.donStateAtHead requested fetched := by
    refine fetchGroundingWitness_outcome openProofs_lawful ⟨n.stateLog, n₁.containers, n₂.containers⟩ htally hrooted (fun s hs => ?_) requested
    exact (hstocked.backed s hs).mono (n.applyAll_within parser initStartSlot ops₁)
  refine ⟨houtcome, fun w hw => ?_⟩
  rw [hw] at houtcome
  cases houtcome with
  | witness s w hhead hlimit hfor => exact hfor.grounds

/-! ## Creation proofs -/

/-- Proof that a commitment is at `index` of the created array of the header. -/
structure CreationProof (P : ArrayProofs V) where
  stateHeader : StateHeader V
  index : Int
  proof : P.Proof

/-- The state root of the header, if the proof places the commitment in its created array. -/
def CreationProof.verify (texts : Texts V) (p : CreationProof P) (commitment : V) : Except String V :=
  if p.index < 0 then .error s!"creation proof has a negative index {p.index}"
  else if P.verify p.stateHeader.createdRoot p.index.toNat commitment p.proof then .ok p.stateHeader.hash
  else .error s!"creation proof does not prove the object's creation: {texts.merkleError}"

/-- The keys of a witness's proofs are commitments of its batch. -/
def addProofs (w : GroundingWitness P) (proofs : Finmap fun _ : V => CreationProof P) :
    List V → Finmap fun _ : V => CreationProof P
  | [] => proofs
  | commitment :: rest =>
    match w.createdProofs.lookup commitment with
    | none => addProofs w proofs rest
    | some (index, proof) => addProofs w (proofs.insert commitment ⟨w.stateHeader, index, proof⟩) rest

/-- The loop over the batches; the request `k` is answered by `app k`, or fails. -/
def fetchCreationBatches (texts : Texts V) (app : Nat → Except String (Reads V)) :
    Nat → Finmap (fun _ : V => CreationProof P) → List (List V) → Except String (Finmap fun _ : V => CreationProof P)
  | _, proofs, [] => .ok proofs
  | k, proofs, batch :: batches => do
    let app' ← app k
    let witness ← fetchGroundingWitness texts P app' batch
    fetchCreationBatches texts app (k + 1) (addProofs witness proofs batch) batches

def fetchCreationProofs (texts : Texts V) (app : Nat → Except String (Reads V)) (commitments : List V) :
    Except String (Finmap fun _ : V => CreationProof P) :=
  fetchCreationBatches texts app 0 ∅ (Lib.chunks Objects.hashBatchLimit commitments)

/-- The state root of the header has to be the one that the synchronizer derived at its block. -/
def checkCreationProof [EncodeHex V] (texts : Texts V) (app : Reads V) (p : CreationProof P) (commitment : V) :
    Except String Unit := do
  let stateRoot ← p.verify texts commitment
  let blockNumber := p.stateHeader.blockNumber
  match fetchStateAt texts app blockNumber with
  | .error e => .error s!"could not check the creation proof's state root: {e}"
  | .ok derived =>
    if derived.map StateHeadResponse.stateRoot = some stateRoot then .ok ()
    else .error s!"creation proof's state root {EncodeHex.encodeHex stateRoot} is not the synchronizer's at block {blockNumber}"

theorem StateHeader.createdRoot_of_hash {h h' : StateHeader V} (heq : h.hash = h'.hash) :
    h.createdRoot = h'.createdRoot := by
  have harray : h.array = h'.array := ofArray_inj.mp heq
  have hroot := h.lookup_created
  rw [harray, h'.lookup_created, Option.some.injEq] at hroot
  exact hroot.symm

/-! ## The created arrays of the log -/

/-- The created array of every committed state is a beginning of the list. -/
def Older (log : StateLogDb V) (l : List V) : Prop :=
  ∀ row ∈ log.slots, ∀ s, row.state = some s → ∃ a l₀, l₀ <+: l ∧ Represents a l₀ ∧ s.roots.created = ofArray a

theorem Older.commitAll {parser : BlobParser V} {h : List (Nat × Slot)} {n n' : Node V} {l : List V}
    {as : List (Attempt V)} (hold : Older n.stateLog l) (htally : n.stateLog.Tally l)
    (hrun : n.commitAll parser h = .ok (n', as)) : Older n'.stateLog (l ++ createdBy as) := by
  induction h generalizing n l as with
  | nil =>
    cases hrun
    simpa [createdBy] using hold
  | cons e h ih =>
    obtain ⟨number, slot⟩ := e
    rw [Node.commitAll] at hrun
    obtain ⟨⟨n₁, as₁⟩, hstep, hrun⟩ := bind_eq_ok hrun
    obtain ⟨⟨n₂, as₂⟩, hrest, hrun⟩ := bind_eq_ok hrun
    cases hrun
    have htally₁ := Node.commitSlotAt_tally htally hstep
    have hold₁ : Older n₁.stateLog (l ++ createdBy as₁) := by
      obtain ⟨state, hslots⟩ := (Node.commitSlotAt_writes hstep).slots
      intro row hrow s hs
      rw [hslots] at hrow
      rcases List.mem_cons.mp hrow with rfl | hrow
      · obtain rfl : state = some s := hs
        have hhead : n₁.stateLog.donStateAtHead = some s := by
          rw [StateLogDb.donStateAtHead, hslots, List.findSome?_cons]
        have hlist := htally₁.head
        rw [hhead] at hlist
        obtain ⟨⟨a, ha, hroot⟩, -⟩ := hlist
        exact ⟨a, _, List.prefix_refl _, ha, hroot⟩
      · obtain ⟨a, l₀, hprefix, hrest⟩ := hold row hrow s hs
        exact ⟨a, l₀, hprefix.trans (List.prefix_append _ _), hrest⟩
    have hlast := ih hold₁ htally₁ hrest
    simpa [createdBy, List.append_assoc] using hlast

/-- What was created at some committed state is created at the head. -/
theorem reachable_older (parser : BlobParser V) (initStartSlot : Nat) (ops : List (NodeOp V)) :
    ∃ l, (Node.genesis.applyAll parser initStartSlot ops).stateLog.Tally l ∧
      Older (Node.genesis.applyAll parser initStartSlot ops).stateLog l := by
  obtain ⟨h, ⟨⟨base, as, hrun, hlog⟩, -, -⟩⟩ := (Node.Tracks.genesis parser initStartSlot).applyAll ops
  have hold : Older (Node.genesis : Node V).stateLog [] := by
    intro row hrow
    cases hrow
  rw [← hlog]
  exact ⟨_, Node.commitAll_tally Node.genesis_tally hrun, hold.commitAll Node.genesis_tally hrun⟩

/-! ## Fetched and checked -/

theorem CreationProof.verify_eq_ok (texts : Texts V) {p : CreationProof P} {c root : V} :
    p.verify texts c = .ok root ↔ 0 ≤ p.index ∧
      P.verify p.stateHeader.createdRoot p.index.toNat c p.proof = true ∧ root = p.stateHeader.hash := by
  unfold CreationProof.verify
  by_cases hindex : p.index < 0
  · simp [hindex]
  · by_cases hproof : P.verify p.stateHeader.createdRoot p.index.toNat c p.proof = true
    · simp [hindex, hproof, Int.not_lt.mp hindex, eq_comm]
    · simp [hindex, hproof]

omit [Values V] in
theorem fetchStateAt_eq_some {app : Reads V} {block : Int} {r : StateHeadResponse V} :
    fetchStateAt texts app block = .ok (some r) ↔ (0 ≤ block ∧ block < 2 ^ 63) ∧
      ∃ s, slotStateAtElBlock app.stateLog block.toNat = some s ∧ r = stateHeadResponse s := by
  unfold fetchStateAt getStateByEl
  by_cases hneg : block < 0
  · simp only [if_pos hneg, decodeJsonResponse, reduceCtorEq, false_iff]
    rintro ⟨⟨hle, -⟩, -⟩
    omega
  · by_cases hbig : 2 ^ 63 ≤ block
    · simp only [if_neg hneg, if_pos hbig, decodeJsonResponse, reduceCtorEq, false_iff]
      rintro ⟨⟨-, hlt⟩, -⟩
      omega
    · have hin : 0 ≤ block ∧ block < 2 ^ 63 := by omega
      simp only [if_neg hneg, if_neg hbig, decodeJsonResponse, Except.ok.injEq, Option.map_eq_some_iff]
      constructor
      · rintro ⟨s, hs, rfl⟩
        exact ⟨hin, s, hs, rfl⟩
      · rintro ⟨-, s, hs, rfl⟩
        exact ⟨s, hs, rfl⟩

omit [Values V] in
theorem slotStateAtElBlock_mem {log : StateLogDb V} {number : Nat} {s : SlotState V}
    (h : slotStateAtElBlock log number = some s) :
    ∃ row ∈ log.slots, row.state = some s.state ∧ s.state.metadata.block.number = number := by
  have hmem := List.mem_of_find?_eq_some h
  have hnumber := List.find?_some h
  obtain ⟨row, hrow, hs⟩ := List.mem_filterMap.mp hmem
  obtain ⟨t, ht, rfl⟩ := Option.map_eq_some_iff.mp hs
  exact ⟨row, hrow, ht, by simpa using hnumber⟩

omit [Values V] in
theorem slotStateAtElBlock_isSome {log : StateLogDb V} {row : SlotRow V} (hrow : row ∈ log.slots) {t : DonState V}
    (ht : row.state = some t) : ∃ s, slotStateAtElBlock log t.metadata.block.number = some s := by
  rw [← Option.isSome_iff_exists, slotStateAtElBlock, List.find?_isSome]
  refine ⟨⟨row.slot, t⟩, List.mem_filterMap.mpr ⟨row, hrow, by simp [ht]⟩, by simp⟩

/-- The proof is for the created array of the state. -/
structure CreationProof.Of (p : CreationProof P) (s : DonState V) (c : V) : Prop where
  header : p.stateHeader = s.stateHeader
  created : s.HasCreated c
  index : 0 ≤ p.index
  verified : P.verify p.stateHeader.createdRoot p.index.toNat c p.proof = true

/-- The reads of one request at a synchronizer that commits and rolls back. -/
def ReadAt (parser : BlobParser V) (initStartSlot : Nat) (app : Reads V) : Prop :=
  ∃ ops ops₁ ops₂ : List (NodeOp V),
    app = ⟨(Node.genesis.applyAll parser initStartSlot ops).stateLog,
      ((Node.genesis.applyAll parser initStartSlot ops).applyAll parser initStartSlot ops₁).containers,
      (((Node.genesis.applyAll parser initStartSlot ops).applyAll parser initStartSlot ops₁).applyAll parser
        initStartSlot ops₂).containers⟩

theorem ReadAt.outcome {parser : BlobParser V} {initStartSlot : Nat} {app : Reads V}
    (h : ReadAt parser initStartSlot app) (hP : P.Lawful) (texts : Texts V) (requested : List V) :
    WitnessOutcome texts app.stateLog.donStateAtHead requested (fetchGroundingWitness texts P app requested) := by
  obtain ⟨ops, ops₁, ops₂, rfl⟩ := h
  obtain ⟨l, htally, hrooted, hstocked⟩ := reachable_spec parser initStartSlot ops
  have hbacked : ∀ s, (Node.genesis.applyAll parser initStartSlot ops).stateLog.donStateAtHead = some s →
      s.Backed ((Node.genesis.applyAll parser initStartSlot ops).applyAll parser initStartSlot ops₁).containers :=
    fun s hs => (hstocked.backed s hs).mono ((Node.genesis.applyAll parser initStartSlot ops).applyAll_within parser initStartSlot ops₁)
  exact fetchGroundingWitness_outcome hP ⟨_, _, _⟩ htally hrooted hbacked requested

/-- Proofs, for the states `S`, of the commitments that were requested and of no other. -/
structure ProofsFor (S : DonState V → Prop) (requested : List V) (proofs : Finmap fun _ : V => CreationProof P) :
    Prop where
  requested : ∀ c, (proofs.lookup c).isSome = true ↔ c ∈ requested
  proves : ∀ c p, proofs.lookup c = some p → ∃ s, S s ∧ p.Of s c

theorem ProofsFor.nil (S : DonState V → Prop) : ProofsFor (P := P) S [] ∅ := by
  constructor <;> simp

/-- The proofs of a witness are added, whatever was there for its commitments. -/
theorem ProofsFor.addProofs {S : DonState V → Prop} {s : DonState V} (hS : S s) {batch : List V}
    {w : GroundingWitness P} (hw : WitnessFor s batch w) {done rest : List V}
    {proofs : Finmap fun _ : V => CreationProof P} (h : ProofsFor S done proofs) (hrest : rest ⊆ batch) :
    ProofsFor S (done ++ rest) (addProofs w proofs rest) := by
  induction rest generalizing done proofs with
  | nil => simpa [Client.addProofs] using h
  | cons d rest ih =>
    obtain ⟨hd, hrest⟩ := List.cons_subset.mp hrest
    obtain ⟨⟨index, proof⟩, hlookup⟩ := Option.isSome_iff_exists.mp ((hw.requested d).mpr hd)
    have hproof : CreationProof.Of (⟨w.stateHeader, index, proof⟩ : CreationProof P) s d :=
      ⟨hw.header, hw.created d hd, Int.natCast_nonneg index, hw.verified d index proof hlookup⟩
    have hone : ProofsFor S (done ++ [d]) (proofs.insert d ⟨w.stateHeader, index, proof⟩) := by
      constructor
      · intro c
        rw [lookup_insert_ite]
        by_cases hcd : c = d
        · simp [hcd]
        · simp [hcd, h.requested c]
      · intro c p hp
        rw [lookup_insert_ite] at hp
        by_cases hcd : c = d
        · rw [if_pos hcd, Option.some.injEq] at hp
          subst hp hcd
          exact ⟨s, hS, hproof⟩
        · rw [if_neg hcd] at hp
          exact h.proves c p hp
    have hrec := ih hone hrest
    rw [Client.addProofs, hlookup]
    simpa using hrec

/-- The states at the heads of the requests. -/
def Answering (app : Nat → Except String (Reads V)) (s : DonState V) : Prop :=
  ∃ k a, app k = .ok a ∧ a.stateLog.donStateAtHead = some s

theorem fetchCreationBatches_spec (hP : P.Lawful) {parser : BlobParser V} {initStartSlot : Nat}
    {app : Nat → Except String (Reads V)} (happ : ∀ k a, app k = .ok a → ReadAt parser initStartSlot a)
    {k : Nat} {done : List V} {proofs proofs' : Finmap fun _ : V => CreationProof P} {batches : List (List V)}
    (h : ProofsFor (Answering app) done proofs) (hrun : fetchCreationBatches texts app k proofs batches = .ok proofs') :
    ProofsFor (Answering app) (done ++ batches.flatten) proofs' := by
  induction batches generalizing k done proofs with
  | nil =>
    cases hrun
    simpa using h
  | cons batch batches ih =>
    rw [fetchCreationBatches] at hrun
    obtain ⟨a, ha, hrun⟩ := bind_eq_ok hrun
    obtain ⟨w, hw, hrun⟩ := bind_eq_ok hrun
    have houtcome := (happ k a ha).outcome hP texts batch
    rw [hw] at houtcome
    cases houtcome with
    | witness s w hhead hlimit hfor =>
      have hrec := ih (h.addProofs ⟨k, a, ha, hhead⟩ hfor (List.Subset.refl batch)) hrun
      simpa [List.append_assoc] using hrec

/-- The request `k` is answered by a synchronizer whose head has created the commitments. -/
def HaveCreated (parser : BlobParser V) (initStartSlot : Nat) (app : Nat → Except String (Reads V))
    (commitments : List V) : Prop :=
  ∀ k, ∃ a s, app k = .ok a ∧ ReadAt parser initStartSlot a ∧ a.stateLog.donStateAtHead = some s ∧
    ∀ c ∈ commitments, s.HasCreated c

theorem fetchCreationBatches_ok (hP : P.Lawful) {parser : BlobParser V} {initStartSlot : Nat}
    {app : Nat → Except String (Reads V)} {commitments : List V} (happ : HaveCreated parser initStartSlot app commitments)
    {k : Nat} {proofs : Finmap fun _ : V => CreationProof P} {batches : List (List V)}
    (hbatches : ∀ batch ∈ batches, batch.length ≤ maxHashQueryItems ∧ batch ⊆ commitments) :
    ∃ proofs', fetchCreationBatches texts app k proofs batches = .ok proofs' := by
  induction batches generalizing k proofs with
  | nil => exact ⟨proofs, rfl⟩
  | cons batch batches ih =>
    obtain ⟨a, s, ha, hread, hs, hcreated⟩ := happ k
    obtain ⟨hlength, hsub⟩ := hbatches batch List.mem_cons_self
    have houtcome := hread.outcome hP texts batch
    rw [hs] at houtcome
    rw [fetchCreationBatches, ha]
    cases hfetched : fetchGroundingWitness texts P a batch with
    | ok w =>
      obtain ⟨proofs', hproofs⟩ := ih fun b hb => hbatches b (List.mem_cons_of_mem batch hb)
      exact ⟨proofs', by simpa only [bind, Except.bind, hfetched] using hproofs⟩
    | error e =>
      exfalso
      rw [hfetched] at houtcome
      generalize hresult : (Except.error e : Except String (GroundingWitness P)) = result at houtcome
      cases houtcome with
      | witness s w hhead hlimit hfor => cases hresult
      | unavailable s' l hhead hlimit hne hl =>
        obtain ⟨c, hc⟩ := List.exists_mem_of_ne_nil l hne
        obtain ⟨hreq, hnot⟩ := (hl.mem c).mp hc
        obtain rfl : s = s' := Option.some.inj hhead
        exact hnot (hcreated c (hsub hreq))
      | refused e h =>
        rcases h with h | h
        · cases h
        · omega

/-- A committed state has the root, and the commitment was created by then. -/
def Synchronized (log : StateLogDb V) (root c : V) : Prop :=
  (∃ row ∈ log.slots, ∃ s, row.state = some s ∧ s.metadata.stateRoot = root ∧ s.HasCreated c) ∧
    ∀ head, log.donStateAtHead = some head → head.HasCreated c

/-- Of the states in the log no two are of one execution block. -/
def OneStatePerBlock (log : StateLogDb V) : Prop :=
  ∀ row ∈ log.slots, ∀ row' ∈ log.slots, ∀ s s', row.state = some s → row'.state = some s' →
    s.metadata.block.number = s'.metadata.block.number → s = s'

theorem checkCreationProof_sound [EncodeHex V] (hP : P.Lawful) (texts : Texts V) (app : Reads V) {l : List V}
    (htally : app.stateLog.Tally l) (hold : Older app.stateLog l)
    (hrooted : ∀ row ∈ app.stateLog.slots, ∀ s, row.state = some s → s.metadata.stateRoot = s.stateHeader.hash)
    {p : CreationProof P} {c : V} (h : checkCreationProof texts app p c = .ok ()) :
    Synchronized app.stateLog p.stateHeader.hash c := by
  obtain ⟨root, hverify, h⟩ := bind_eq_ok h
  obtain ⟨-, hproof, rfl⟩ := (CreationProof.verify_eq_ok texts).mp hverify
  cases hfetched : fetchStateAt texts app p.stateHeader.blockNumber with
  | error e => simp [hfetched] at h
  | ok derived =>
    have hderived : derived.map StateHeadResponse.stateRoot = some p.stateHeader.hash := by
      by_contra hnot
      simp [hfetched, hnot] at h
    obtain ⟨r, rfl, hr⟩ := Option.map_eq_some_iff.mp hderived
    obtain ⟨-, s, hs, rfl⟩ := fetchStateAt_eq_some.mp hfetched
    obtain ⟨row, hrow, hstate, -⟩ := slotStateAtElBlock_mem hs
    -- the derived root is of the proof's header, so the proof is for the derived array
    have hhash : s.state.stateHeader.hash = p.stateHeader.hash := by
      rw [← hrooted row hrow s.state hstate]
      exact hr
    have hcreated : s.state.roots.created = p.stateHeader.createdRoot := StateHeader.createdRoot_of_hash hhash
    obtain ⟨a, l₀, hprefix, ha, hroot⟩ := hold row hrow s.state hstate
    rw [← hcreated, hroot] at hproof
    have hlookup := hP.sound a p.index.toNat c p.proof hproof
    refine ⟨⟨row, hrow, s.state, hstate, hr, p.index.toNat, ?_⟩, fun head hhead => ?_⟩
    · rw [hroot]
      exact arrayContains_ofArray.mpr hlookup
    · have hlist := htally.head
      rw [hhead] at hlist
      obtain ⟨⟨b, hb, hheadroot⟩, -⟩ := hlist
      rw [ha] at hlookup
      refine ⟨p.index.toNat, ?_⟩
      rw [hheadroot]
      refine arrayContains_ofArray.mpr ?_
      obtain ⟨rest, rfl⟩ := hprefix
      rw [hb, List.getElem?_append_left (List.getElem?_eq_some_iff.mp hlookup).1]
      exact hlookup

/-- A proof of a state is accepted wherever that state is the one derived at its block. -/
theorem CreationProof.Of.accepted [EncodeHex V] {app : Reads V} {p : CreationProof P} {s : DonState V} {c : V}
    (h : p.Of s c)
    (hrooted : ∀ row ∈ app.stateLog.slots, ∀ s, row.state = some s → s.metadata.stateRoot = s.stateHeader.hash)
    (hone : OneStatePerBlock app.stateLog) (hblock : p.stateHeader.blockNumber < 2 ^ 63)
    {row : SlotRow V} (hrow : row ∈ app.stateLog.slots) {t : DonState V} (ht : row.state = some t)
    (hroot : t.metadata.stateRoot = p.stateHeader.hash) : checkCreationProof texts app p c = .ok () := by
  have hverify := (CreationProof.verify_eq_ok texts).mpr ⟨h.index, h.verified, rfl⟩
  have hnumber : (t.metadata.block.number : Int) = p.stateHeader.blockNumber := by
    rw [hrooted row hrow t ht] at hroot
    exact StateHeader.blockNumber_of_hash hroot
  obtain ⟨s', hs'⟩ := slotStateAtElBlock_isSome hrow ht
  obtain ⟨row', hrow', hstate', hnumber'⟩ := slotStateAtElBlock_mem hs'
  have hsame : s'.state = t := hone row' hrow' row hrow s'.state t hstate' ht hnumber'
  have hnat : p.stateHeader.blockNumber.toNat = t.metadata.block.number := by omega
  have hfetched : fetchStateAt texts app p.stateHeader.blockNumber = .ok (some (stateHeadResponse s')) := by
    refine fetchStateAt_eq_some.mpr ⟨⟨by omega, hblock⟩, s', ?_, rfl⟩
    rw [hnat]
    exact hs'
  have hmap : (stateHeadResponse s').stateRoot = p.stateHeader.hash := by
    rw [← hroot, ← hsame]
    rfl
  unfold checkCreationProof
  simp [hverify, hfetched, hmap, bind, Except.bind]

/-- Creation proofs are fetched for what is created, and a synchronizer accepts them while it has their state. What is
accepted was created. -/
theorem creation_proof_exact [EncodeHex V] (hP : P.Lawful) (texts : Texts V) (parser : BlobParser V)
    (initStartSlot : Nat) (reads : Reads V) (hreads : ReadAt parser initStartSlot reads) :
    (∀ (p : CreationProof P) c, checkCreationProof texts reads p c = .ok () →
      Synchronized reads.stateLog p.stateHeader.hash c) ∧
    ∀ (app : Nat → Except String (Reads V)) (commitments : List V),
      (HaveCreated parser initStartSlot app commitments →
        ∃ proofs, fetchCreationProofs (P := P) texts app commitments = .ok proofs) ∧
      ((∀ k a, app k = .ok a → ReadAt parser initStartSlot a) →
        ∀ proofs, fetchCreationProofs (P := P) texts app commitments = .ok proofs →
          ProofsFor (Answering app) commitments proofs ∧
          (OneStatePerBlock reads.stateLog → ∀ c p, proofs.lookup c = some p → p.stateHeader.blockNumber < 2 ^ 63 →
            (checkCreationProof texts reads p c = .ok () ↔
              ∃ row ∈ reads.stateLog.slots, ∃ s, row.state = some s ∧
                s.metadata.stateRoot = p.stateHeader.hash))) := by
  obtain ⟨ops, ops₁, ops₂, rfl⟩ := hreads
  obtain ⟨-, -, hrooted, -⟩ := reachable_spec parser initStartSlot ops
  obtain ⟨l, htally, hold⟩ := reachable_older parser initStartSlot ops
  have hpositive : 0 < Objects.hashBatchLimit := by decide
  have hsound := fun (p : CreationProof P) (c : V) => checkCreationProof_sound (p := p) (c := c) hP texts
    ⟨_, ((Node.genesis.applyAll parser initStartSlot ops).applyAll parser initStartSlot ops₁).containers,
      (((Node.genesis.applyAll parser initStartSlot ops).applyAll parser initStartSlot ops₁).applyAll parser
        initStartSlot ops₂).containers⟩ htally hold hrooted
  refine ⟨hsound, fun app commitments => ⟨fun happ => ?_, fun happ proofs hrun => ?_⟩⟩
  · refine fetchCreationBatches_ok hP happ fun batch hbatch => ⟨Lib.length_of_mem_chunks hbatch, fun c hc => ?_⟩
    rw [← Lib.chunks_flatten hpositive commitments]
    exact List.mem_flatten.mpr ⟨batch, hbatch, hc⟩
  · have hproofs := fetchCreationBatches_spec hP happ (.nil _) hrun
    rw [List.nil_append, Lib.chunks_flatten hpositive] at hproofs
    refine ⟨hproofs, fun hone c p hlookup hblock => ⟨fun h => ?_, ?_⟩⟩
    · obtain ⟨⟨row, hrow, s, hs, hroot, -⟩, -⟩ := hsound p c h
      exact ⟨row, hrow, s, hs, hroot⟩
    · rintro ⟨row, hrow, t, ht, hroot⟩
      obtain ⟨s, -, hof⟩ := hproofs.proves c p hlookup
      exact hof.accepted hrooted hone hblock hrow ht hroot

/-- A synchronizer that has derived two blocks, the second of them with a new object. -/
theorem sample_created : ∃ (n : Node Term) (s : DonState Term),
    Node.genesis.applyAll (sampleParser staleMine freshMine) 1 [.commit 0 (sampleSlot 0), .commit 0 (sampleSlot 1)] = n ∧
      n.stateLog.slots = [⟨2, some s⟩, ⟨1, some sampleState⟩] ∧ s.metadata.block = sampleBlock 1 ∧
      s.HasCreated (stamped sampleObject) := by
  obtain ⟨n, a, hfirst, ha, hrejected, hsecond, -⟩ := sample_run (p := (staleMine : Synchronizer.Payload Term)) (q := freshMine) rfl rfl rfl
  have hcommit : Node.genesis.commitSlotAt (sampleParser (staleMine : Synchronizer.Payload Term) freshMine)
      ((Node.genesis : Node Term).nextSlot 1 + 0) (sampleSlot 0) = .ok (sampleNode [rejectedRow staleMine.txFinal], [a]) :=
    hfirst
  have hnext : (sampleNode [rejectedRow staleMine.txFinal]).commitSlotAt (sampleParser (staleMine : Synchronizer.Payload Term) freshMine)
      ((sampleNode [rejectedRow (staleMine : Synchronizer.Payload Term).txFinal]).nextSlot 1 + 0) (sampleSlot 1) =
        .ok (n, [⟨sampleWorking, freshMine, none⟩]) := hsecond
  have hnode : Node.genesis.applyAll (sampleParser (staleMine : Synchronizer.Payload Term) freshMine) 1
      [.commit 0 (sampleSlot 0), .commit 0 (sampleSlot 1)] = n := by
    simp only [Node.applyAll, List.foldl_cons, List.foldl_nil, Node.apply, hcommit, hnext]
  have htally := Node.commitSlotAt_tally (Node.commitSlotAt_tally Node.genesis_tally hcommit) hnext
  have hlist : [] ++ createdBy [a] ++ createdBy [⟨sampleWorking, freshMine, none⟩] = [stamped (sampleObject : Dictionary Term)] := by
    simp [createdBy, Attempt.created, hrejected, freshMine, minedPayload]
  rw [hlist] at htally
  obtain ⟨state, hslots, hblock⟩ := Node.commitSlotAt_row (Node.commitSlotAt_tally Node.genesis_tally hcommit) hnext
  obtain ⟨s, rfl, hs⟩ := Option.map_eq_some_iff.mp hblock
  have hhead := htally.head
  have hheadState : n.stateLog.donStateAtHead = some s := by
    rw [StateLogDb.donStateAtHead, hslots, List.findSome?_cons]
  rw [hheadState] at hhead
  obtain ⟨⟨b, hb, hroot⟩, -⟩ := hhead
  refine ⟨n, s, hnode, hslots, hs, 0, ?_⟩
  rw [hroot]
  exact arrayContains_ofArray.mpr (hb 0)

/-- The creation proof of the new object, fetched and checked. -/
theorem creation_proof_exact_sample : (openProofs : ArrayProofs Term).Lawful ∧
    ∃ (reads : Reads Term) (p : CreationProof (openProofs : ArrayProofs Term)),
      ReadAt (sampleParser staleMine freshMine) 1 reads ∧
      checkCreationProof ⟨"", fun _ => "", fun _ => "", fun _ => "", ""⟩ reads p (stamped sampleObject) = .ok () ∧
      Synchronized reads.stateLog p.stateHeader.hash (stamped sampleObject) := by
  obtain ⟨n, s, hnode, hslots, hblock, hcreated⟩ := sample_created
  have hread : ReadAt (sampleParser (staleMine : Synchronizer.Payload Term) freshMine) 1 ⟨n.stateLog, n.containers, n.containers⟩ :=
    ⟨[.commit 0 (sampleSlot 0), .commit 0 (sampleSlot 1)], [], [], by rw [hnode]; rfl⟩
  have hhead : n.stateLog.donStateAtHead = some s := by
    rw [StateLogDb.donStateAtHead, hslots, List.findSome?_cons]
  obtain ⟨hsound, hfetch⟩ := creation_proof_exact (openProofs_lawful (V := Term)) ⟨"", fun _ => "", fun _ => "", fun _ => "", ""⟩
    (sampleParser staleMine freshMine) 1 ⟨n.stateLog, n.containers, n.containers⟩ hread
  obtain ⟨hok, hexact⟩ := hfetch (fun _ => .ok ⟨n.stateLog, n.containers, n.containers⟩) [stamped sampleObject]
  obtain ⟨proofs, hproofs⟩ := hok fun k => ⟨_, s, rfl, hread, hhead, fun c hc => by
    obtain rfl := List.mem_singleton.mp hc
    exact hcreated⟩
  obtain ⟨hfor, haccepted⟩ := hexact (fun k a ha => by
    cases ha
    exact hread) proofs hproofs
  obtain ⟨p, hp⟩ := Option.isSome_iff_exists.mp ((hfor.requested (stamped sampleObject)).mpr (by simp))
  obtain ⟨t, ⟨k, a, ha, ht⟩, hof⟩ := hfor.proves _ p hp
  cases ha
  obtain rfl : s = t := Option.some.inj (hhead.symm.trans ht)
  have hone : OneStatePerBlock n.stateLog := by
    intro row hrow row' hrow' s₁ s₂ hs₁ hs₂ heq
    simp only [hslots, List.mem_cons, List.not_mem_nil, or_false] at hrow hrow'
    rcases hrow with rfl | rfl <;> rcases hrow' with rfl | rfl <;> cases hs₁ <;> cases hs₂
    · rfl
    · simp [hblock, sampleState, sampleBlock] at heq
    · simp [hblock, sampleState, sampleBlock] at heq
    · rfl
  have hnumber : p.stateHeader.blockNumber < 2 ^ 63 := by
    rw [hof.header]
    simp [DonState.stateHeader, Synchronizer.stateHeader, hblock, sampleBlock]
  obtain ⟨-, -, hrooted, -⟩ := reachable_spec (sampleParser (staleMine : Synchronizer.Payload Term) freshMine) 1
    [.commit 0 (sampleSlot 0), .commit 0 (sampleSlot 1)]
  rw [hnode] at hrooted
  have hrow : (⟨2, some s⟩ : SlotRow Term) ∈ n.stateLog.slots := by simp [hslots]
  have hcheck := (haccepted hone _ p hp hnumber).mpr ⟨_, hrow, s, rfl, by rw [hof.header]; exact hrooted _ hrow s rfl⟩
  exact ⟨openProofs_lawful, _, p, hread, hcheck, hsound p _ hcheck⟩

end DigitalObjects.Driver.Client
