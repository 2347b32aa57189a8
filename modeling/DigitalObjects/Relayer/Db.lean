import DigitalObjects.Wire.Payload
set_option autoImplicit false

/-! The relayer's table of jobs. No statement deletes a row. -/

namespace DigitalObjects.Relayer

open Wire (Bytes Hash)

inductive JobStatus where
  | queued
  | sending
  | submitted
  | confirmed
  | failed
deriving DecidableEq, Repr

def JobStatus.isTerminal : JobStatus → Bool
  | .confirmed | .failed => true
  | .queued | .sending | .submitted => false

/-- A row of `relay_jobs`; times are in unix seconds. -/
structure RelayJob where
  jobId : String
  status : JobStatus
  payloadBytes : Bytes
  txFinal : Hash
  stateRoot : Hash
  clientRef : Option String
  attemptCount : UInt32
  txHash : Option String
  submittedAt : Option Int64
  blockNumber : Option UInt64
  lastError : Option String
  nextAttemptAt : Option Int64
  nonce : Option Int64
  bumpCount : Int32
  prevTxHashes : List String
  createdAt : Int64
  updatedAt : Int64
deriving DecidableEq

/-- What a job is for: set when it is inserted. -/
structure Identity where
  jobId : String
  payloadBytes : Bytes
  txFinal : Hash
  stateRoot : Hash
  clientRef : Option String
  createdAt : Int64
deriving DecidableEq

def RelayJob.identity (job : RelayJob) : Identity :=
  ⟨job.jobId, job.payloadBytes, job.txFinal, job.stateRoot, job.clientRef, job.createdAt⟩

/-- Every transaction the job was sent as. -/
def RelayJob.hashes (job : RelayJob) : List String := job.txHash.toList ++ job.prevTxHashes

abbrev Db := List RelayJob

inductive InsertJobResult where
  | inserted
  | existing (job : RelayJob)

namespace Db

/-- `row_to_job`: the counters are stored as signed integers of their width. -/
def rowToJob (row : RelayJob) : Except String RelayJob :=
  if row.attemptCount.toInt32 < 0 then .error s!"invalid attempt_count: {row.attemptCount.toInt32}"
  else match row.blockNumber with
    | some n => if n.toInt64 < 0 then .error s!"invalid block_number: {n.toInt64}" else .ok row
    | none => .ok row

def getRow (db : Db) (jobId : String) : Option RelayJob := db.find? fun row => row.jobId = jobId

def getRowByTxFinal (db : Db) (txFinal : Hash) : Option RelayJob :=
  db.find? fun row => row.txFinal = txFinal

def getJob (db : Db) (jobId : String) : Except String (Option RelayJob) :=
  match getRow db jobId with
  | some row => (rowToJob row).map some
  | none => .ok none

def getJobByTxFinal (db : Db) (txFinal : Hash) : Except String (Option RelayJob) :=
  match getRowByTxFinal db txFinal with
  | some row => (rowToJob row).map some
  | none => .ok none

/-- `ON CONFLICT (tx_final) DO NOTHING`; a second row of one `job_id` violates the primary key. -/
def insertJob (db : Db) (job : RelayJob) : Except String (InsertJobResult × Db) :=
  match getRowByTxFinal db job.txFinal with
  | none =>
    match getRow db job.jobId with
    | none => .ok (.inserted, db ++ [job])
    | some _ => .error "duplicate key value violates unique constraint"
  | some _ => match getJobByTxFinal db job.txFinal with
    | .ok (some existing) => .ok (.existing existing, db)
    | .ok none => .error "idempotent insert conflict but existing job not found"
    | .error e => .error e

/-- The `UPDATE` of `put_job`. -/
def putJob (db : Db) (job : RelayJob) : Db :=
  db.map fun row => if row.jobId = job.jobId then job else row

def recoverInflightJobs (db : Db) (now : Int64) : Db :=
  db.map fun row =>
    if row.status = .sending ∨ (row.status = .submitted ∧ row.txHash = none) then
      { row with status := .queued, nextAttemptAt := some now, updatedAt := now }
    else row

def due (now : Int64) (row : RelayJob) : Prop :=
  row.status.isTerminal = false ∧ ∀ t ∈ row.nextAttemptAt, t ≤ now

instance (now : Int64) (row : RelayJob) : Decidable (due now row) :=
  -- given by name: times are finitely many, and a search may find the test of them all
  have : Decidable (∀ t ∈ row.nextAttemptAt, t ≤ now) := Option.decidableForallMem _
  inferInstanceAs (Decidable (_ ∧ _))

/-- The sort keys of `next_due_job`. -/
def schedule (row : RelayJob) : Int64 × Int64 := (row.nextAttemptAt.getD row.createdAt, row.createdAt)

def dueBefore (a b : RelayJob) : Prop :=
  (schedule a).1 < (schedule b).1 ∨ ((schedule a).1 = (schedule b).1 ∧ (schedule a).2 ≤ (schedule b).2)

instance (a b : RelayJob) : Decidable (dueBefore a b) := inferInstanceAs (Decidable (_ ∨ _))

/-- `row` may be the answer of `next_due_job`: rows of equal keys come in any order. -/
def isNextDue (db : Db) (now : Int64) (row : RelayJob) : Prop :=
  due now row ∧ ∀ other ∈ db, due now other → dueBefore row other

instance (db : Db) (now : Int64) (row : RelayJob) : Decidable (isNextDue db now row) :=
  inferInstanceAs (Decidable (_ ∧ _))

/-! ## Facts -/

theorem getRow_eq_some {db : Db} {jobId : String} {row : RelayJob} (h : db.getRow jobId = some row) :
    row ∈ db ∧ row.jobId = jobId := by
  have hid := List.find?_some h
  simp only [decide_eq_true_eq] at hid
  exact ⟨List.mem_of_find?_eq_some h, hid⟩

theorem getRowByTxFinal_eq_some {db : Db} {txFinal : Hash} {row : RelayJob}
    (h : db.getRowByTxFinal txFinal = some row) : row ∈ db ∧ row.txFinal = txFinal := by
  have hfinal := List.find?_some h
  simp only [decide_eq_true_eq] at hfinal
  exact ⟨List.mem_of_find?_eq_some h, hfinal⟩

theorem rowToJob_eq_ok {row job : RelayJob} (h : rowToJob row = .ok job) : job = row := by
  unfold rowToJob at h
  split at h
  · cases h
  · split at h
    · split at h
      · cases h
      · cases h
        rfl
    · cases h
      rfl

theorem getJobByTxFinal_eq_some {db : Db} {txFinal : Hash} {job : RelayJob}
    (h : db.getJobByTxFinal txFinal = .ok (some job)) : job ∈ db ∧ job.txFinal = txFinal := by
  unfold getJobByTxFinal at h
  split at h
  next row hrow =>
    cases hjob : rowToJob row with
    | error e => simp [hjob, Except.map] at h
    | ok job' =>
      simp only [hjob, Except.map, Except.ok.injEq, Option.some.injEq] at h
      obtain rfl := h
      rw [rowToJob_eq_ok hjob]
      exact getRowByTxFinal_eq_some hrow
  next => cases h

/-- An accepted insert adds a job of a new id and a new `tx_final`, or finds the one that is there. -/
theorem insertJob_cases {db db' : Db} {job : RelayJob} {result : InsertJobResult}
    (h : db.insertJob job = .ok (result, db')) :
    (result = .inserted ∧ db' = db ++ [job] ∧ (∀ row ∈ db, row.jobId ≠ job.jobId) ∧
      ∀ row ∈ db, row.txFinal ≠ job.txFinal) ∨
    ∃ row ∈ db, result = .existing row ∧ row.txFinal = job.txFinal ∧ db' = db := by
  unfold insertJob at h
  split at h
  next hfinal =>
    have hnoFinal := List.find?_eq_none.mp hfinal
    split at h
    next hid =>
      have hnoId := List.find?_eq_none.mp hid
      cases h
      refine .inl ⟨rfl, rfl, fun row hrow => ?_, fun row hrow => ?_⟩
      · simpa using hnoId row hrow
      · simpa using hnoFinal row hrow
    next => cases h
  next =>
    split at h
    next existing hexisting =>
      cases h
      obtain ⟨hmem, htx⟩ := getJobByTxFinal_eq_some hexisting
      exact .inr ⟨existing, hmem, rfl, htx, rfl⟩
    next => cases h
    next => cases h

theorem mem_putJob {db : Db} {job row : RelayJob} (h : row ∈ db.putJob job) :
    row = job ∨ (row ∈ db ∧ row.jobId ≠ job.jobId) := by
  obtain ⟨old, hold, hrow⟩ := List.mem_map.mp h
  split at hrow
  · exact .inl hrow.symm
  next hne =>
    subst hrow
    exact .inr ⟨hold, hne⟩

theorem mem_putJob_self {db : Db} {job row : RelayJob} (h : row ∈ db) (hid : row.jobId = job.jobId) :
    job ∈ db.putJob job :=
  List.mem_map.mpr ⟨row, h, if_pos hid⟩

theorem mem_putJob_other {db : Db} {job row : RelayJob} (h : row ∈ db) (hid : row.jobId ≠ job.jobId) :
    row ∈ db.putJob job :=
  List.mem_map.mpr ⟨row, h, if_neg hid⟩

end Db

end DigitalObjects.Relayer
