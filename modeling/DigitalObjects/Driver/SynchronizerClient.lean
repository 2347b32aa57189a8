import DigitalObjects.Driver.MockDon
import DigitalObjects.Synchronizer.ReadApi
set_option autoImplicit false

/-!
The driver's HTTP client of the synchronizer. Every request is answered by a handler of the read
API over the tables and the containers as they are then.
-/

namespace DigitalObjects.Driver.Client

open Pod2 Txlib Synchronizer MockDon

variable {V : Type} [Values V]

/-! ## Handlers -/

/-- A slot with an execution block, and the state derived there. -/
structure SlotState (V : Type) where
  slot : Nat
  state : DonState V

omit [Values V] in
def slotStateAtHead (log : StateLogDb V) : Option (SlotState V) :=
  log.slots.findSome? fun row => row.state.map fun s => ⟨row.slot, s⟩

def slotStateAtElBlock (log : StateLogDb V) (number : Nat) : Option (SlotState V) :=
  (log.slots.filterMap fun row => row.state.map (SlotState.mk row.slot)).find? fun s =>
    s.state.metadata.block.number = number

/-- A slot is stored as an `i32` and read as a `u32`. -/
def stateHeadResponse (s : SlotState V) : StateHeadResponse V :=
  let metadata := s.state.metadata
  ⟨s.slot % 2 ^ 32, metadata.stateRoot, metadata.block.number, metadata.block.hash, metadata.createdCount,
    metadata.nullifierCount, metadata.stateRootCount⟩

def getStateHead (log : StateLogDb V) : Except ReadError (StateHeadResponse V) :=
  match slotStateAtHead log with
  | none => .error notInitialized
  | some s => .ok (stateHeadResponse s)

/-- Without a state the answer is a 404. A negative number does not parse. -/
def getStateByEl (parseError : Int → String) (log : StateLogDb V) (blockId : Int) :
    Except ReadError (Option (StateHeadResponse V)) :=
  if blockId < 0 then .error (.badRequest s!"invalid execution block id: {parseError blockId}")
  else if 2 ^ 63 ≤ blockId then .error (.badRequest s!"execution block number {blockId} is out of range")
  else .ok ((slotStateAtElBlock log blockId.toNat).map stateHeadResponse)

structure TxBlobStatus (V : Type) where
  txHash : Nat
  txBlobIndex : Nat
  txFinal : Option V
  error : Option String
  blockNumber : Int
  blockHash : List Nat

/-- The block of a slot, from the join with `slots`. -/
def blockOfSlot (log : StateLogDb V) (slot : Nat) : Option ExecutionBlock :=
  (log.slots.find? fun row => row.slot = slot).bind fun row => row.state.map fun s => s.metadata.block

def getTxStatusByTxFinal (log : StateLogDb V) (txFinal : V) : Option (TxBlobStatus V) := do
  let r ← log.txStatusByTxFinal txFinal
  let block ← blockOfSlot log r.slot
  pure ⟨r.txHash, r.txBlobIndex, r.txFinal, r.error, block.number, block.hash⟩

/-! ## Responses -/

/-- What error texts are made of. -/
structure Texts (V : Type) where
  syncApiUrl : String
  /-- The alternate form of a hash. -/
  showHash : V → String
  fault : Fault → String
  parseError : Int → String
  merkleError : String

variable (texts : Texts V)

def trimEndMatches (url : String) (c : Char) : String :=
  String.ofList (url.toList.reverse.dropWhile (· = c)).reverse

def endpoint (path : String) : String := trimEndMatches texts.syncApiUrl '/' ++ path

def statusText : ReadError → String
  | .badRequest _ => "400 400 Bad Request"
  | .serviceUnavailable _ => "503 503 Service Unavailable"
  | .internal _ => "500 500 Internal Server Error"

def bodyText : ReadError → String
  | .badRequest message => message
  | .serviceUnavailable message => message
  | .internal fault => texts.fault fault

/-- An error response is told with the first characters of its body. -/
def decodeJsonResponse {α : Type} (path decodeContext : String) : Except ReadError α → Except String α
  | .ok a => .ok a
  | .error e =>
    let detail := String.ofList ((bodyText texts e).trimAscii.toString.toList.take 2048)
    .error s!"{decodeContext} at {endpoint texts path} failed with {statusText e}: {detail}"

structure SynchronizerHead (V : Type) where
  stateRoot : V
  blockNumber : Int

def fetchHead (app : Reads V) : Except String (SynchronizerHead V) := do
  let payload ← decodeJsonResponse texts "/v1/state/head" "synchronizer head response" (getStateHead app.stateLog)
  .ok ⟨payload.stateRoot, payload.blockNumber⟩

/-- An Ethereum hash in hex. -/
def showTxHash (txHash : Nat) : String :=
  let digits := Nat.toDigits 16 txHash
  String.ofList (['0', 'x'] ++ List.replicate (64 - digits.length) '0' ++ digits)

def fetchTxStatus (app : Reads V) (txFinal : V) : Option SynchronizerTxStatus :=
  (getTxStatusByTxFinal app.stateLog txFinal).map fun blob => ⟨showTxHash blob.txHash, blob.blockNumber, blob.error⟩

def fetchStateAt (app : Reads V) (blockNumber : Int) : Except String (Option (StateHeadResponse V)) :=
  decodeJsonResponse texts s!"/v1/state/by_el/{blockNumber}" "synchronizer state response"
    (getStateByEl texts.parseError app.stateLog blockNumber)

/-! ## Grounding witness -/

section Collect

variable {V : Type} [DecidableEq V] (texts : Texts V)

/-- The presence and the proofs of the entries so far. -/
structure Collected (V P : Type) where
  responsePresence : Finmap fun _ : V => Bool
  createdProofs : Finmap fun _ : V => P

/-- One turn of the loop over the entries of the response. -/
def collectEntry {P : Type} (requested : List V) (x : Collected V P) (e : V × Bool × Option P) :
    Except String (Collected V P) :=
  let commitment := e.1
  let present := e.2.1
  let responsePresence := x.responsePresence.insert commitment present
  if commitment ∉ requested then
    .error s!"synchronizer grounding witness response contained unexpected object proof: {texts.showHash commitment}"
  else if (x.responsePresence.lookup commitment).any (fun previous => decide (previous ≠ present)) then
    .error s!"synchronizer grounding witness response contained conflicting entries for object {texts.showHash commitment}"
  else if present then
    match e.2.2 with
    | none => .error s!"synchronizer reported object {texts.showHash commitment} present but omitted its array proof"
    | some proof => .ok ⟨responsePresence, x.createdProofs.insert commitment proof⟩
  else .ok { x with responsePresence := responsePresence }

def collectEntries {P : Type} (requested : List V) :
    Collected V P → List (V × Bool × Option P) → Except String (Collected V P)
  | x, [] => .ok x
  | x, e :: entries => do
    let x ← collectEntry texts requested x e
    collectEntries requested x entries

/-- The commitments that meet the test, each once. -/
def renderRequestedHashes (included : V → Bool) : List V → List V → List String
  | _, [] => []
  | seen, commitment :: rest =>
    if commitment ∈ seen then renderRequestedHashes included seen rest
    else if included commitment then
      texts.showHash commitment :: renderRequestedHashes included (commitment :: seen) rest
    else renderRequestedHashes included (commitment :: seen) rest

/-- Index the proofs of the response by the commitments that were requested. -/
def collectCreatedProofs {P : Type} (requested : List V) (entries : List (V × Bool × Option P)) :
    Except String (Finmap fun _ : V => P) := do
  let x ← collectEntries texts requested ⟨∅, ∅⟩ entries
  let omitted := renderRequestedHashes texts (fun c => (x.responsePresence.lookup c).isNone) [] requested
  if omitted ≠ [] then
    .error ("synchronizer grounding witness response omitted requested object proofs: " ++ ", ".intercalate omitted)
  else
    let unavailable := renderRequestedHashes texts (fun c => x.responsePresence.lookup c = some false) [] requested
    if unavailable ≠ [] then
      .error ("input not yet synchronized; wait and retry: " ++ ", ".intercalate unavailable)
    else .ok x.createdProofs

/-! ## What is collected -/

variable {Q : Type} {requested done : List V} {created : V → Prop} {proves : V → Q → Prop}

/-- An entry for the commitment tells whether it is created, with a proof if so. -/
structure EntryFor (created : V → Prop) (proves : V → Q → Prop) (c : V) (e : V × Bool × Option Q) : Prop where
  commitment : e.1 = c
  present : e.2.1 = true ↔ created c
  proof : e.2.1 = true → ∃ proof, e.2.2 = some proof ∧ proves c proof

/-- What the entries for the commitments `done` have told. -/
structure Collected.For (created : V → Prop) (proves : V → Q → Prop) (done : List V) (x : Collected V Q) : Prop where
  presence : ∀ c b, x.responsePresence.lookup c = some b ↔ c ∈ done ∧ (b = true ↔ created c)
  proofs : ∀ c proof, x.createdProofs.lookup c = some proof → c ∈ done ∧ created c ∧ proves c proof
  proven : ∀ c ∈ done, created c → (x.createdProofs.lookup c).isSome = true

theorem Collected.For.nil : Collected.For created proves [] ⟨∅, ∅⟩ := by
  constructor <;> simp

theorem collectEntry_for {x : Collected V Q} (h : x.For created proves done) {c : V} {e : V × Bool × Option Q}
    (he : EntryFor created proves c e) (hc : c ∈ requested) :
    ∃ x', collectEntry texts requested x e = .ok x' ∧ x'.For created proves (done ++ [c]) := by
  obtain ⟨d, present, proof⟩ := e
  obtain rfl : d = c := he.commitment
  have hpresent : present = true ↔ created d := he.present
  have hconflict : (x.responsePresence.lookup d).any (fun previous => decide (previous ≠ present)) = false := by
    cases hold : x.responsePresence.lookup d with
    | none => rfl
    | some b =>
      have hb := ((h.presence d b).mp hold).2
      have hsame : b = present := by rw [Bool.eq_iff_iff, hb, hpresent]
      simp [hsame]
  have hpresence : ∀ k b, (x.responsePresence.insert d present).lookup k = some b ↔
      k ∈ done ++ [d] ∧ (b = true ↔ created k) := by
    intro k b
    rw [lookup_insert_ite]
    by_cases hk : k = d
    · subst hk
      simp only [if_true, Option.some.injEq, List.mem_append, List.mem_singleton, or_true, true_and, ← hpresent]
      rw [← Bool.eq_iff_iff, eq_comm]
    · simp [hk, h.presence k b]
  unfold collectEntry
  simp only [hc, not_true_eq_false, if_false, hconflict]
  cases hp : present with
  | false =>
    rw [hp] at hpresence hpresent
    refine ⟨_, rfl, hpresence, fun k proof hk => ?_, fun k hk hcreated => ?_⟩
    · obtain ⟨hdone, hrest⟩ := h.proofs k proof hk
      exact ⟨List.mem_append_left _ hdone, hrest⟩
    · rcases List.mem_append.mp hk with hk | hk
      · exact h.proven k hk hcreated
      · obtain rfl := List.mem_singleton.mp hk
        simp [hcreated] at hpresent
  | true =>
    obtain ⟨q, hq, hproves⟩ := he.proof hp
    obtain rfl : proof = some q := hq
    rw [hp] at hpresence hpresent
    refine ⟨_, rfl, hpresence, fun k proof hk => ?_, fun k hk hcreated => ?_⟩
    · rw [lookup_insert_ite] at hk
      by_cases hkd : k = d
      · subst hkd
        simp only [if_true, Option.some.injEq] at hk
        subst hk
        exact ⟨List.mem_append_right _ (List.mem_singleton.mpr rfl), hpresent.mp rfl, hproves⟩
      · rw [if_neg hkd] at hk
        obtain ⟨hdone, hrest⟩ := h.proofs k proof hk
        exact ⟨List.mem_append_left _ hdone, hrest⟩
    · rw [lookup_insert_ite]
      by_cases hkd : k = d
      · simp [hkd]
      · rw [if_neg hkd]
        refine h.proven k ?_ hcreated
        simpa [hkd] using hk

theorem collectEntries_for {x : Collected V Q} (h : x.For created proves done) {rest : List V}
    {entries : List (V × Bool × Option Q)} (hentries : List.Forall₂ (EntryFor created proves) rest entries)
    (hrest : rest ⊆ requested) :
    ∃ x', collectEntries texts requested x entries = .ok x' ∧ x'.For created proves (done ++ rest) := by
  induction hentries generalizing x done with
  | nil => exact ⟨x, rfl, by simpa using h⟩
  | @cons c e rest entries he _ ih =>
    obtain ⟨x₁, hstep, hx₁⟩ := collectEntry_for texts h he (hrest List.mem_cons_self)
    obtain ⟨x', hrun, hx'⟩ := ih hx₁ fun d hd => hrest (List.mem_cons_of_mem c hd)
    refine ⟨x', ?_, by simpa using hx'⟩
    simp only [collectEntries, hstep, bind, Except.bind]
    exact hrun

/-- Each commitment that meets the test is rendered once, in the order of the request. -/
theorem renderRequestedHashes_spec (included : V → Bool) (seen requested : List V) :
    ∃ l : List V, renderRequestedHashes texts included seen requested = l.map texts.showHash ∧ l.Sublist requested ∧ l.Nodup ∧
      ∀ c, c ∈ l ↔ c ∈ requested ∧ c ∉ seen ∧ included c = true := by
  induction requested generalizing seen with
  | nil => exact ⟨[], rfl, List.Sublist.slnil, List.nodup_nil, by simp⟩
  | cons d rest ih =>
    by_cases hseen : d ∈ seen
    · obtain ⟨l, hl, hsub, hnodup, hmem⟩ := ih seen
      refine ⟨l, by rw [renderRequestedHashes, if_pos hseen, hl], hsub.cons d, hnodup, fun c => ?_⟩
      rw [hmem c, List.mem_cons]
      constructor
      · rintro ⟨hc, hrest⟩
        exact ⟨.inr hc, hrest⟩
      · rintro ⟨rfl | hc, hnot, hinc⟩
        · exact absurd hseen hnot
        · exact ⟨hc, hnot, hinc⟩
    · obtain ⟨l, hl, hsub, hnodup, hmem⟩ := ih (d :: seen)
      by_cases hinc : included d = true
      · refine ⟨d :: l, by rw [renderRequestedHashes, if_neg hseen, if_pos hinc, hl]; rfl, hsub.cons_cons d, ?_,
          fun c => ?_⟩
        · rw [List.nodup_cons, hmem]
          exact ⟨by simp, hnodup⟩
        · rw [List.mem_cons, hmem c, List.mem_cons]
          by_cases hcd : c = d
          · simp [hcd, hseen, hinc]
          · simp [hcd]
      · refine ⟨l, by rw [renderRequestedHashes, if_neg hseen, if_neg hinc, hl], hsub.cons d, hnodup, fun c => ?_⟩
        rw [hmem c, List.mem_cons]
        by_cases hcd : c = d
        · simp [hcd, hinc]
        · simp [hcd]

/-- The commitments of the request without a created object, each once. -/
structure Unavailable (created : V → Prop) (requested l : List V) : Prop where
  sublist : l.Sublist requested
  nodup : l.Nodup
  mem : ∀ c, c ∈ l ↔ c ∈ requested ∧ ¬ created c

/-- Entries for what was requested give the proofs, if all of it is created. -/
theorem collectCreatedProofs_spec {entries : List (V × Bool × Option Q)}
    (h : List.Forall₂ (EntryFor created proves) requested entries) :
    (∃ proofs, collectCreatedProofs texts requested entries = .ok proofs ∧ (∀ c ∈ requested, created c) ∧
      (∀ c, (proofs.lookup c).isSome = true ↔ c ∈ requested) ∧ ∀ c q, proofs.lookup c = some q → proves c q) ∨
    ∃ l, l ≠ [] ∧ Unavailable created requested l ∧ collectCreatedProofs texts requested entries =
      .error ("input not yet synchronized; wait and retry: " ++ ", ".intercalate (l.map texts.showHash)) := by
  obtain ⟨x, hrun, hx⟩ := collectEntries_for texts Collected.For.nil h (List.Subset.refl requested)
  rw [List.nil_append] at hx
  have hpresence : ∀ c ∈ requested, ∃ b, x.responsePresence.lookup c = some b ∧ (b = true ↔ created c) := by
    intro c hc
    by_cases hcreated : created c
    · exact ⟨true, (hx.presence c true).mpr ⟨hc, by simp [hcreated]⟩, by simp [hcreated]⟩
    · exact ⟨false, (hx.presence c false).mpr ⟨hc, by simp [hcreated]⟩, by simp [hcreated]⟩
  obtain ⟨omitted, homitted, -, -, hmem⟩ := renderRequestedHashes_spec texts
    (fun c => (x.responsePresence.lookup c).isNone) [] requested
  have hnone : omitted = [] := by
    refine List.eq_nil_iff_forall_not_mem.mpr fun c hc => ?_
    obtain ⟨hreq, -, hout⟩ := (hmem c).mp hc
    obtain ⟨b, hb, -⟩ := hpresence c hreq
    simp [hb] at hout
  obtain ⟨l, hl, hsub, hnodup, hmissing⟩ := renderRequestedHashes_spec texts
    (fun c => x.responsePresence.lookup c = some false) [] requested
  have hunavailable : ∀ c, c ∈ l ↔ c ∈ requested ∧ ¬ created c := by
    intro c
    simp only [hmissing c, hx.presence, List.not_mem_nil, not_false_eq_true, true_and, decide_eq_true_eq]
    simp
  subst hnone
  by_cases hall : l = []
  · subst hall
    left
    have hcreated : ∀ c ∈ requested, created c := by
      intro c hc
      by_contra hnot
      exact absurd ((hunavailable c).mpr ⟨hc, hnot⟩) (by simp)
    refine ⟨x.createdProofs, ?_, hcreated, fun c => ⟨fun hc => ?_, fun hc => hx.proven c hc (hcreated c hc)⟩,
      fun c q hq => (hx.proofs c q hq).2.2⟩
    · unfold collectCreatedProofs
      simp [hrun, homitted, hl, bind, Except.bind]
    · obtain ⟨q, hq⟩ := Option.isSome_iff_exists.mp hc
      exact (hx.proofs c q hq).1
  · right
    refine ⟨l, hall, ⟨hsub, hnodup, hunavailable⟩, ?_⟩
    unfold collectCreatedProofs
    simp [hrun, homitted, hl, hall, bind, Except.bind]

end Collect

/-! ## The request -/

/-- The witness that `TxBuilder` takes, over pod2's Merkle proofs. -/
structure GroundingWitness (P : ArrayProofs V) where
  stateHeader : StateHeader V
  createdProofs : Finmap fun _ : V => Nat × P.Proof

variable (P : ArrayProofs V)

def fetchGroundingWitness (app : Reads V) (objectCommitments : List V) : Except String (GroundingWitness P) := do
  let payload ← decodeJsonResponse texts "/v1/txlib/grounding-witness" "synchronizer grounding witness response"
    (postGroundingWitness P app objectCommitments)
  let derived := payload.header.hash
  if payload.stateRoot ≠ derived then
    .error s!"synchronizer grounding witness hash mismatch: remote={texts.showHash payload.stateRoot} derived={texts.showHash derived}"
  else do
    let createdProofs ← collectCreatedProofs texts objectCommitments (payload.createdProofs.map fun entry =>
      (entry.commitment, entry.present, entry.index.bind fun index => entry.proof.map (Prod.mk index)))
    .ok ⟨payload.header, createdProofs⟩

end DigitalObjects.Driver.Client
