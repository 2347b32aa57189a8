import DigitalObjects.Lib.Machine
import DigitalObjects.Relayer.Worker
set_option autoImplicit false

/-!
The relayer as a whole: requests to its API come in while the worker runs, and the process may
stop at any call. What was answered to a request is kept, with the table as it was then.
-/

namespace DigitalObjects.Relayer

open Lib
open Wire (Bytes Hash)

/-! ## The API -/

structure SubmitProofRequest where
  payloadBase64 : String
  clientRef : Option String
deriving DecidableEq

structure SubmitProofResponse where
  jobId : String
  status : JobStatus
  txFinal : Hash
  stateRoot : Hash
  attemptCount : UInt32
  createdAt : Int64
deriving DecidableEq

inductive StatusCode where
  | accepted
  | ok
deriving DecidableEq, Repr

inductive ApiError where
  | badRequest (message : String)
  | notFound (message : String)
  | internal (message : String)
deriving DecidableEq, Repr

def toSubmitResponse (job : RelayJob) : SubmitProofResponse :=
  ⟨job.jobId, job.status, job.txFinal, job.stateRoot, job.attemptCount, job.createdAt⟩

/-- The base64 decoder and the proof parser that the handlers call. -/
structure AppState (Proof : Type) where
  decode : String → Option Bytes
  parseBlob : Bytes → Outcome String (Option (Wire.Payload Proof))

variable {Proof : Type}

/-- The job that a request for `payload` asks for. -/
def newJob (jobId : String) (now : Int64) (payloadBytes : Bytes) (payload : Wire.Payload Proof)
    (clientRef : Option String) : RelayJob where
  jobId := jobId
  status := .queued
  payloadBytes := payloadBytes
  txFinal := payload.txFinal
  stateRoot := payload.stateRoot
  clientRef := clientRef
  attemptCount := 0
  txHash := none
  submittedAt := none
  blockNumber := none
  lastError := none
  nextAttemptAt := some now
  nonce := none
  bumpCount := 0
  prevTxHashes := []
  createdAt := now
  updatedAt := now

def submitProof (api : AppState Proof) (db : Db) (req : SubmitProofRequest) (uuid : String)
    (now : Int64) : Outcome ApiError ((StatusCode × SubmitProofResponse) × Db) :=
  match api.decode req.payloadBase64 with
  | none => .err (.badRequest "payload_base64 is invalid base64")
  | some payloadBytes =>
    if payloadBytes.length > Wire.maxSimpleBlobPayloadBytes then
      .err (.badRequest s!"payload exceeds single-blob limit: {payloadBytes.length} > {Wire.maxSimpleBlobPayloadBytes}")
    else match api.parseBlob payloadBytes with
      | .panic message => .panic message
      | .err err => .err (.badRequest s!"payload verification failed: {err}")
      | .ok none => .err (.badRequest "payload did not decode into a valid proof payload")
      | .ok (some payload) =>
        let job := newJob uuid now payloadBytes payload req.clientRef
        match db.insertJob job with
        | .error e => .err (.internal e)
        | .ok (.inserted, db) => .ok ((.accepted, toSubmitResponse job), db)
        | .ok (.existing existing, db) => .ok ((.ok, toSubmitResponse existing), db)

/-- The payload of a request that the handler does not refuse. -/
def Accepts (api : AppState Proof) (req : SubmitProofRequest) (payloadBytes : Bytes)
    (payload : Wire.Payload Proof) : Prop :=
  api.decode req.payloadBase64 = some payloadBytes ∧
  payloadBytes.length ≤ Wire.maxSimpleBlobPayloadBytes ∧
  api.parseBlob payloadBytes = .ok (some payload)

/-- An answered request put in a new job, or found the job of its `tx_final`. -/
theorem submitProof_cases {api : AppState Proof} {db db' : Db} {req : SubmitProofRequest}
    {uuid : String} {now : Int64} {code : StatusCode} {response : SubmitProofResponse}
    (h : submitProof api db req uuid now = .ok ((code, response), db')) :
    ∃ payloadBytes payload, Accepts api req payloadBytes payload ∧
      ((code = .accepted ∧
        response = toSubmitResponse (newJob uuid now payloadBytes payload req.clientRef) ∧
        db' = db ++ [newJob uuid now payloadBytes payload req.clientRef] ∧
        (∀ row ∈ db, row.jobId ≠ uuid) ∧ ∀ row ∈ db, row.txFinal ≠ payload.txFinal) ∨
      (code = .ok ∧ db' = db ∧
        ∃ row ∈ db, row.txFinal = payload.txFinal ∧ response = toSubmitResponse row)) := by
  unfold submitProof at h
  split at h
  · cases h
  next payloadBytes hdecode =>
    split at h
    · cases h
    next hlength =>
      split at h
      · cases h
      · cases h
      · cases h
      next payload hparse =>
        refine ⟨payloadBytes, payload, ⟨hdecode, by omega, hparse⟩, ?_⟩
        dsimp only at h
        split at h
        · cases h
        next hinsert =>
          cases h
          obtain ⟨-, hdb, hid, hfinal⟩ | ⟨row, -, hresult, -⟩ := Db.insertJob_cases hinsert
          · exact .inl ⟨rfl, rfl, hdb, hid, hfinal⟩
          · cases hresult
        next existing _ hinsert =>
          cases h
          obtain ⟨hresult, -⟩ | ⟨row, hmem, hresult, hfinal, hdb⟩ := Db.insertJob_cases hinsert
          · cases hresult
          · cases hresult
            exact .inr ⟨rfl, hdb, existing, hmem, hfinal, rfl⟩

/-! ## The system -/

/-- A request as it arrives, with the id and the time its handler draws and what the database
makes of its statements. -/
structure Submission where
  req : SubmitProofRequest
  uuid : String
  now : Int64
  stored : Stored

/-- A request that was answered, and the table it was answered from. -/
structure Answered where
  req : SubmitProofRequest
  code : StatusCode
  response : SubmitProofResponse
  before : Db

/-- The receipts that the gateway shows. -/
abbrev Receipts := List (String × ReceiptOutcome)

structure System where
  db : Db
  answered : List Answered
  receipts : Receipts

def System.start : System := ⟨[], [], []⟩

def System.receive (api : AppState Proof) (s : System) (r : Submission) : System :=
  match r.stored, submitProof api s.db r.req r.uuid r.now with
  | .stored, .ok ((code, response), db) =>
    { s with db := db, answered := s.answered ++ [⟨r.req, code, response, s.db⟩] }
  -- the statement went through, but its answer did not reach the handler
  | .lost, .ok (_, db) => { s with db := db }
  | _, _ => s

/-- A request leaves the rows as they are and adds at most a new one. -/
theorem System.receive_rows (api : AppState Proof) (s : System) (r : Submission) :
    (∀ row ∈ s.db, row ∈ (s.receive api r).db) ∧ (s.receive api r).receipts = s.receipts ∧
      ∀ row ∈ (s.receive api r).db, row ∈ s.db ∨ ∃ bytes payload,
        row = newJob r.uuid r.now bytes (payload : Wire.Payload Proof) r.req.clientRef := by
  have hsubmit : ∀ {code response db}, submitProof api s.db r.req r.uuid r.now =
      .ok ((code, response), db) → (∀ row ∈ s.db, row ∈ db) ∧
        ∀ row ∈ db, row ∈ s.db ∨ ∃ bytes payload,
          row = newJob r.uuid r.now bytes (payload : Wire.Payload Proof) r.req.clientRef := by
    intro code response db h
    obtain ⟨bytes, payload, -, hcases⟩ := submitProof_cases h
    obtain ⟨-, -, rfl, -⟩ | ⟨-, rfl, -⟩ := hcases
    · refine ⟨fun row hrow => List.mem_append_left _ hrow, fun row hrow => ?_⟩
      obtain hrow | hrow := List.mem_append.mp hrow
      · exact .inl hrow
      · exact .inr ⟨bytes, payload, List.mem_singleton.mp hrow⟩
    · exact ⟨fun row hrow => hrow, fun row hrow => .inl hrow⟩
  unfold System.receive
  split
  next hanswer => exact ⟨(hsubmit hanswer).1, rfl, (hsubmit hanswer).2⟩
  next hanswer => exact ⟨(hsubmit hanswer).1, rfl, (hsubmit hanswer).2⟩
  next => exact ⟨fun row hrow => hrow, rfl, fun row hrow => .inl hrow⟩

def System.effects (api : AppState Proof) :
    Dialogue.Effects System Submission Call Call.Answer where
  answered s q a := match q, a with
    | .putJob job, .stored | .putJob job, .lost => { s with db := s.db.putJob job }
    | _, _ => s
  outside := System.receive api

/-- The worker changes the table by its updates only. -/
theorem System.effects_answered (api : AppState Proof) (s : System) (q : Call) (answer : q.Answer) :
    (System.effects api).answered s q answer = s ∨ ∃ job, q = .putJob job ∧
      (System.effects api).answered s q answer = { s with db := s.db.putJob job } := by
  cases q with
  | putJob job =>
    cases answer with
    | stored => exact .inr ⟨job, rfl, rfl⟩
    | lost => exact .inr ⟨job, rfl, rfl⟩
    | refused => exact .inl rfl
  | _ => exact .inl rfl

inductive Action where
  | receive (r : Submission)
  /-- One turn of the worker loop; receipts in `revealed` become visible during it. -/
  | work (jobId : String) (now : Int64)
      (events : List (Dialogue.Event Submission Call Call.Answer))
      (revealed : Receipts)
  | restart (now : Int64)
  | reveal (revealed : Receipts)

def System.step (api : AppState Proof) (cfg : WorkerConfig) (s : System) : Action → Option System
  | .receive r => some (s.receive api r)
  | .work jobId now events revealed =>
    match s.db.getRow jobId with
    | none => none
    | some row =>
      if s.db.isNextDue now row ∧ (Db.rowToJob row).isOk then
        let s := (processDueJob cfg row).exec (System.effects api) s events
        some { s with receipts := s.receipts ++ revealed }
      else none
  | .restart now => some { s with db := s.db.recoverInflightJobs now }
  | .reveal revealed => some { s with receipts := s.receipts ++ revealed }

/-! ## What an answer promises -/

def Db.identities (db : Db) : List Identity := db.map RelayJob.identity

/-- The answered request has its job among `jobs`: its own if it was accepted, the one that was
there before if it was found. -/
def Kept (api : AppState Proof) (jobs : List Identity) (a : Answered) : Prop :=
  ∃ payloadBytes payload, Accepts api a.req payloadBytes payload ∧
    ∃ job ∈ jobs, job.jobId = a.response.jobId ∧ job.txFinal = payload.txFinal ∧
      (a.code = .accepted → job.payloadBytes = payloadBytes ∧ a.response.status = .queued ∧
        ∀ row ∈ a.before, row.txFinal ≠ payload.txFinal) ∧
      (a.code = .ok → ∃ row ∈ a.before, row.identity = job ∧ a.response = toSubmitResponse row)

/-- The bytes of a job are those of a payload with its `tx_final`. -/
def Carries (api : AppState Proof) (job : Identity) : Prop :=
  ∃ payload, api.parseBlob job.payloadBytes = .ok (some payload) ∧ payload.txFinal = job.txFinal

/-- The keys of the table, and the promises made so far. -/
structure Sound (api : AppState Proof) (jobs : List Identity) (answered : List Answered) : Prop where
  ids : (jobs.map Identity.jobId).Nodup
  finals : (jobs.map Identity.txFinal).Nodup
  carries : ∀ job ∈ jobs, Carries api job
  kept : ∀ a ∈ answered, Kept api jobs a

def System.Sound (api : AppState Proof) (s : System) : Prop :=
  Relayer.Sound api s.db.identities s.answered

variable {api : AppState Proof} {cfg : WorkerConfig}

theorem Kept.mono {jobs jobs' : List Identity} {a : Answered} (h : Kept api jobs a)
    (hsub : jobs ⊆ jobs') : Kept api jobs' a := by
  obtain ⟨payloadBytes, payload, haccepts, job, hjob, hrest⟩ := h
  exact ⟨payloadBytes, payload, haccepts, job, hsub hjob, hrest⟩

theorem Db.mem_identities {db : Db} {row : RelayJob} (h : row ∈ db) : row.identity ∈ db.identities :=
  List.mem_map_of_mem h

theorem Db.identities_append (db : Db) (job : RelayJob) :
    Db.identities (db ++ [job]) = db.identities ++ [job.identity] := by
  simp [Db.identities]

/-- A key stays a key when the new job has a new value of it. -/
theorem nodup_map_snoc {κ : Type} {key : Identity → κ} {db : Db} {job : RelayJob}
    (h : (db.identities.map key).Nodup) (hnew : ∀ row ∈ db, key row.identity ≠ key job.identity) :
    ((Db.identities (db ++ [job])).map key).Nodup := by
  rw [Db.identities_append, List.map_append]
  refine h.append (by simp) ?_
  simp only [List.map_cons, List.map_nil, List.disjoint_singleton, Db.identities, List.map_map,
    List.mem_map, not_exists, not_and]
  exact hnew

theorem System.sound_start : System.start.Sound api :=
  ⟨by simp [start, Db.identities], by simp [start, Db.identities],
    by simp [start, Db.identities], by simp [start]⟩

/-- The table after an answered request, and the promise of the answer. -/
theorem Sound.submitProof {db db' : Db} {answered : List Answered} {req : SubmitProofRequest}
    {uuid : String} {now : Int64} {code : StatusCode} {response : SubmitProofResponse}
    (hs : Sound api db.identities answered)
    (h : submitProof api db req uuid now = .ok ((code, response), db')) :
    Sound api db'.identities answered ∧ Kept api db'.identities ⟨req, code, response, db⟩ ∧
      db.identities ⊆ db'.identities := by
  obtain ⟨payloadBytes, payload, haccepts, hcases⟩ := submitProof_cases h
  obtain ⟨rfl, rfl, rfl, hid, hfinal⟩ | ⟨rfl, rfl, row, hrow, htx, rfl⟩ := hcases
  · have hsub : db.identities ⊆
        Db.identities (db ++ [newJob uuid now payloadBytes payload req.clientRef]) := by
      simp [Db.identities]
    refine ⟨⟨?_, ?_, ?_, fun a ha => (hs.kept a ha).mono hsub⟩, ?_, hsub⟩
    · exact nodup_map_snoc hs.ids hid
    · exact nodup_map_snoc hs.finals hfinal
    · intro job hjob
      rw [Db.identities_append, List.mem_append, List.mem_singleton] at hjob
      obtain hjob | rfl := hjob
      · exact hs.carries job hjob
      · exact ⟨payload, haccepts.2.2, rfl⟩
    · refine ⟨payloadBytes, payload, haccepts, _, Db.mem_identities (by simp), rfl, rfl, ?_, ?_⟩
      · exact fun _ => ⟨rfl, rfl, hfinal⟩
      · exact fun hcode => by cases hcode
  · refine ⟨hs, ⟨payloadBytes, payload, haccepts, _, Db.mem_identities hrow, rfl, htx, ?_, ?_⟩,
      List.Subset.refl _⟩
    · exact fun hcode => by cases hcode
    · exact fun _ => ⟨row, hrow, rfl, rfl⟩

theorem System.Sound.receive {s : System} (hs : s.Sound api) (r : Submission) :
    (s.receive api r).Sound api ∧ s.db.identities ⊆ (s.receive api r).db.identities := by
  unfold System.receive
  split
  next code response db hanswer =>
    obtain ⟨hdb, hkept, hsub⟩ := Sound.submitProof hs hanswer
    refine ⟨⟨hdb.ids, hdb.finals, hdb.carries, ?_⟩, hsub⟩
    intro a ha
    rcases List.mem_append.mp ha with ha | ha
    · exact hdb.kept a ha
    · rw [List.mem_singleton.mp ha]
      exact hkept
  next answer db hanswer =>
    obtain ⟨hdb, -, hsub⟩ := Sound.submitProof hs hanswer
    exact ⟨hdb, hsub⟩
  next => exact ⟨hs, List.Subset.refl _⟩

/-- An update that keeps the identity of its job leaves the identities as they are. -/
theorem Db.identities_putJob {db : Db} {job : RelayJob} (hids : (db.identities.map Identity.jobId).Nodup)
    (hjob : job.identity ∈ db.identities) : (db.putJob job).identities = db.identities := by
  simp only [Db.identities, Db.putJob, List.map_map]
  refine List.map_congr_left fun row hrow => ?_
  dsimp only [Function.comp]
  split
  next heq => exact List.inj_on_of_nodup_map hids hjob (Db.mem_identities hrow) heq.symm
  next => rfl

theorem Db.identities_recoverInflightJobs (db : Db) (now : Int64) :
    (db.recoverInflightJobs now).identities = db.identities := by
  simp only [Db.identities, Db.recoverInflightJobs, List.map_map]
  refine List.map_congr_left fun row _ => ?_
  dsimp only [Function.comp]
  split <;> rfl

/-- `job_id` is a key. -/
theorem System.Sound.eq_of_jobId {s : System} (hs : s.Sound api) {a b : RelayJob} (ha : a ∈ s.db)
    (hb : b ∈ s.db) (h : a.jobId = b.jobId) : a = b := by
  have hids := hs.ids
  rw [Db.identities, List.map_map] at hids
  exact List.inj_on_of_nodup_map hids ha hb h

/-- An update of a job that keeps its identity. -/
theorem System.Sound.putJob {s : System} (hs : s.Sound api) {job : RelayJob}
    (hjob : job.identity ∈ s.db.identities) :
    System.Sound api { s with db := s.db.putJob job } ∧
      (s.db.putJob job).identities = s.db.identities := by
  have hids := Db.identities_putJob hs.ids hjob
  refine ⟨?_, hids⟩
  rw [System.Sound]
  dsimp only
  rw [hids]
  exact hs

/-- One turn of the worker, whatever is answered and whoever else writes meanwhile. -/
theorem System.Sound.exec {s : System} (hs : s.Sound api) {row : RelayJob} (hrow : row ∈ s.db)
    (events : List (Dialogue.Event Submission Call Call.Answer)) :
    ((processDueJob cfg row).exec (System.effects api) s events).Sound api := by
  have hstart : s.Sound api ∧ row.identity ∈ s.db.identities := ⟨hs, Db.mem_identities hrow⟩
  have hfollows : (processDueJob cfg row).Follows (fun _ _ => True) events :=
    Dialogue.follows_of_forall fun _ _ => trivial
  refine (Dialogue.Sat.exec (I := fun s : System => s.Sound api ∧ row.identity ∈ s.db.identities) ?_ ?_
    processDueJob_writes hfollows hstart).1
  · intro s q answer hs hq _
    obtain heq | ⟨job, rfl, heq⟩ := System.effects_answered api s q answer
    · rw [heq]
      exact hs
    · have hjob : job.identity = row.identity := Written.identity_eq hq
      obtain ⟨hsound, hids⟩ := hs.1.putJob (hjob ▸ hs.2)
      rw [heq]
      exact ⟨hsound, hids ▸ hs.2⟩
  · intro s r hs
    obtain ⟨hsound, hsub⟩ := hs.1.receive r
    exact ⟨hsound, hsub hs.2⟩

theorem System.Sound.step {s s' : System} (hs : s.Sound api) {a : Action}
    (h : s.step api cfg a = some s') : s'.Sound api := by
  cases a with
  | receive r =>
    cases h
    exact (hs.receive r).1
  | work jobId now events revealed =>
    simp only [System.step] at h
    split at h
    · cases h
    next row hrow =>
      split at h
      · cases h
        exact hs.exec (Db.getRow_eq_some hrow).1 events
      · cases h
  | restart now =>
    cases h
    rw [System.Sound, Db.identities_recoverInflightJobs]
    exact hs
  | reveal revealed =>
    cases h
    exact hs

theorem System.Sound.run {as : List Action} {s : System}
    (h : runSteps (System.step api cfg) System.start as = some s) : s.Sound api :=
  runSteps_preserves (fun _ _ _ hs hstep => System.Sound.step hs hstep) System.sound_start h

/-- What an answer of `submit_proof` says of the job it names, then and ever after. -/
theorem System.answered_kept {as : List Action} {s : System}
    (hrun : runSteps (System.step api cfg) System.start as = some s) {a : Answered}
    (ha : a ∈ s.answered) :
    ∃ payloadBytes payload, Accepts api a.req payloadBytes payload ∧ ∃ job ∈ s.db,
      job.jobId = a.response.jobId ∧ job.txFinal = payload.txFinal ∧
      (∀ other ∈ s.db, other.txFinal = payload.txFinal → other.identity = job.identity) ∧
      (a.code = .accepted → job.payloadBytes = payloadBytes ∧ a.response.status = .queued ∧
        ∀ row ∈ a.before, row.txFinal ≠ payload.txFinal) ∧
      (a.code = .ok →
        (∃ row ∈ a.before, row.identity = job.identity ∧ a.response = toSubmitResponse row) ∧
        ∃ created, api.parseBlob job.payloadBytes = .ok (some created) ∧
          created.txFinal = payload.txFinal) := by
  have hs := System.Sound.run hrun
  obtain ⟨payloadBytes, payload, haccepts, job, hjob, hid, hfinal, haccepted, hok⟩ := hs.kept a ha
  obtain ⟨row, hrow, rfl⟩ := List.mem_map.mp hjob
  refine ⟨payloadBytes, payload, haccepts, row, hrow, hid, hfinal, ?_, haccepted, ?_⟩
  · intro other hother htx
    exact List.inj_on_of_nodup_map hs.finals (Db.mem_identities hother) hjob (htx.trans hfinal.symm)
  · intro hcode
    obtain ⟨created, hcreated, htx⟩ := hs.carries _ hjob
    exact ⟨hok hcode, created, hcreated, htx.trans hfinal⟩

/-! ## A transaction proved twice -/

namespace Sample

open Wire.Sample (codec hash)

/-- One transaction, grounded in two state roots. -/
def first : Wire.Payload Wire.F := ⟨7, hash 1, hash 2, [], []⟩

def again : Wire.Payload Wire.F := ⟨8, hash 1, hash 9, [], []⟩

def firstBase64 : String :=
  "C9EABwAAAAAAAAABAAAAAAAAAAAAAAAAAAAAAAAAAAAAAAAAAAAAAAAAAAIAAAAAAAAAAAAAAAAAAAAAAAAAAAAAAAAAAAAAAAAAAAA="

def againBase64 : String :=
  "C9EACAAAAAAAAAABAAAAAAAAAAAAAAAAAAAAAAAAAAAAAAAAAAAAAAAAAAkAAAAAAAAAAAAAAAAAAAAAAAAAAAAAAAAAAAAAAAAAAAA="

def appState : AppState Wire.F where
  decode text :=
    if text = firstBase64 then some (first.encode codec)
    else if text = againBase64 then some (again.encode codec)
    else none
  parseBlob bytes := match Wire.Payload.fromBytes codec bytes with
    | .ok payload => .ok (some payload)
    | .err e => .err e
    | .panic m => .panic m

def config : WorkerConfig where
  maxAttempts := 8
  retryInitialSecs := 4
  retryMaxSecs := 300
  receiptPollSecs := 6
  receiptTimeoutSecs := none
  feeBumpAfterSecs := some 12
  feeBumpMultiplierPct := 100
  feeBumpMax := 5

def requests : List Action :=
  [.receive ⟨⟨firstBase64, none⟩, "job-1", 100, .stored⟩,
    .receive ⟨⟨againBase64, none⟩, "job-2", 160, .stored⟩]

def firstJob : RelayJob := newJob "job-1" 100 (first.encode codec) first none

def accepted : Answered := ⟨⟨firstBase64, none⟩, .accepted, toSubmitResponse firstJob, []⟩

def found : Answered := ⟨⟨againBase64, none⟩, .ok, toSubmitResponse firstJob, [firstJob]⟩

theorem accepts_first : Accepts appState ⟨firstBase64, none⟩ (first.encode codec) first := by
  refine ⟨rfl, by decide, ?_⟩
  rfl

theorem accepts_again : Accepts appState ⟨againBase64, none⟩ (again.encode codec) again := by
  refine ⟨by simp [appState, firstBase64, againBase64], by decide, ?_⟩
  rfl

theorem requests_run :
    runSteps (System.step appState config) System.start requests =
      some ⟨[firstJob], [accepted, found], []⟩ := by
  rfl

end Sample

theorem System.answered_kept_found : Sample.found ∈ [Sample.accepted, Sample.found] ∧
    ∃ job ∈ [Sample.firstJob], job.jobId = Sample.found.response.jobId ∧
      ∃ created, Sample.appState.parseBlob job.payloadBytes = .ok (some created) ∧
        created.txFinal = Sample.again.txFinal := by
  have hmem : Sample.found ∈ [Sample.accepted, Sample.found] := by simp
  obtain ⟨payloadBytes, payload, haccepts, job, hjob, hid, -, -, -, hok⟩ :=
    System.answered_kept Sample.requests_run hmem
  obtain ⟨-, created, hcreated, htx⟩ := hok rfl
  have hbytes := Sample.accepts_again.1.symm.trans haccepts.1
  cases hbytes
  have hpayload := Sample.accepts_again.2.2.symm.trans haccepts.2.2
  cases hpayload
  exact ⟨hmem, job, hjob, hid, created, hcreated, htx⟩

/-- The second proof is answered with the job of the first, whose bytes are not its own. -/
theorem System.found_carries_other : ∃ s a,
    runSteps (System.step Sample.appState Sample.config) System.start Sample.requests = some s ∧
    a ∈ s.answered ∧
    Accepts Sample.appState a.req (Sample.again.encode Wire.Sample.codec) Sample.again ∧
    ∀ job ∈ s.db, job.jobId = a.response.jobId →
      job.payloadBytes ≠ Sample.again.encode Wire.Sample.codec := by
  refine ⟨_, Sample.found, Sample.requests_run, by simp, Sample.accepts_again, ?_⟩
  intro job hjob _
  rw [List.mem_singleton.mp hjob]
  decide

end DigitalObjects.Relayer
