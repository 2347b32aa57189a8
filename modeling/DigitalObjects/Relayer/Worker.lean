import DigitalObjects.Lib.Dialogue
import DigitalObjects.Relayer.Db
set_option autoImplicit false

/-!
The worker: it broadcasts queued jobs as blob transactions and polls the receipts of those it
sent. Every call of the clock, the database and the gateway is a question of its own.
-/

namespace DigitalObjects.Relayer

open Lib
open Wire (Bytes)

structure WorkerConfig where
  maxAttempts : UInt32
  retryInitialSecs : UInt64
  retryMaxSecs : UInt64
  receiptPollSecs : UInt64
  receiptTimeoutSecs : Option UInt64
  feeBumpAfterSecs : Option UInt64
  feeBumpMultiplierPct : UInt64
  feeBumpMax : UInt32
deriving DecidableEq, Repr

/-- What `load_config` admits. -/
structure WorkerConfig.Admitted (cfg : WorkerConfig) : Prop where
  maxAttempts : 1 ≤ cfg.maxAttempts
  retryInitialSecs : 1 ≤ cfg.retryInitialSecs
  retryMaxSecs : cfg.retryInitialSecs ≤ cfg.retryMaxSecs
  receiptPollSecs : 1 ≤ cfg.receiptPollSecs
  receiptTimeoutSecs : ∀ t ∈ cfg.receiptTimeoutSecs, 0 < t
  feeBumpAfterSecs : ∀ t ∈ cfg.feeBumpAfterSecs, 0 < t ∧ cfg.receiptPollSecs ≤ t
  feeBumpMultiplierPct : 100 ≤ cfg.feeBumpMultiplierPct
  feeBumpMax : 1 ≤ cfg.feeBumpMax

/-! ## The gateway -/

structure ReceiptOutcome where
  success : Bool
  blockNumber : Option UInt64
deriving DecidableEq, Repr

structure FeeEstimate where
  baseFeePerGas : Nat
  maxPriorityFeePerGas : Nat

/-- The fee caps of a pending transaction, and those that a replacement overrides. -/
structure Fees where
  maxFeePerGas : Nat
  maxPriorityFeePerGas : Nat
  maxFeePerBlobGas : Option Nat

/-- How a `put_job` ends: the worker hears of an error both when the update was not carried out
and when the answer to it was lost. -/
inductive Stored where
  | stored
  | lost
  | refused
deriving DecidableEq, Repr

inductive Call where
  | nowTs
  | putJob (job : RelayJob)
  | getNextNonce
  | submitPayload (payloadBytes : Bytes) (nonce : UInt64)
  | pollReceipt (txHash : String)
  | getCurrentFees
  | getPendingTxFees (txHash : String)
  | submitPayloadWithFees (payloadBytes : Bytes) (nonce : UInt64) (fees : Fees)

def Call.Answer : Call → Type
  | nowTs => Int64
  | putJob _ => Stored
  | getNextNonce => Except String UInt64
  | submitPayload _ _ => Except String String
  | pollReceipt _ => Except String (Option ReceiptOutcome)
  | getCurrentFees => Except String FeeEstimate
  | getPendingTxFees _ => Except String (Option Fees)
  | submitPayloadWithFees _ _ _ => Except String String

abbrev Task (α : Type) := Dialogue Call Call.Answer String α

def nowTs : Task Int64 := .ask .nowTs .ret

def putJob (job : RelayJob) : Task Unit := .ask (.putJob job) fun
  | .stored => .ret ()
  | .lost => .throw "put_job: connection lost"
  | .refused => .throw "put_job: refused"

def getNextNonce : Task UInt64 := .ask .getNextNonce Dialogue.lift

def pollReceipt (txHash : String) : Task (Option ReceiptOutcome) :=
  .ask (.pollReceipt txHash) Dialogue.lift

def getCurrentFees : Task FeeEstimate := .ask .getCurrentFees Dialogue.lift

def getPendingTxFees (txHash : String) : Task (Option Fees) :=
  .ask (.getPendingTxFees txHash) Dialogue.lift

def submitPayload (payloadBytes : Bytes) (nonce : UInt64) : Task String :=
  .ask (.submitPayload payloadBytes nonce) Dialogue.lift

def submitPayloadWithFees (payloadBytes : Bytes) (nonce : UInt64) (fees : Fees) : Task String :=
  .ask (.submitPayloadWithFees payloadBytes nonce fees) Dialogue.lift

/-! ## Retries -/

/-- `i64::saturating_sub`. -/
def saturatingSub (a b : Int64) : Int64 :=
  if a.toInt - b.toInt < Int64.minValue.toInt then .minValue
  else if Int64.maxValue.toInt < a.toInt - b.toInt then .maxValue
  else a - b

def isPermanentError (err : String) : Bool :=
  err.toList.tails.any fun rest => "invalid tx hash".toList.isPrefixOf rest

def backoffSecs (attemptCount : UInt32) (initial max : UInt64) : UInt64 :=
  let shift := min (attemptCount.toNat - 1) 20
  min (.ofNat (min (initial.toNat * 2 ^ shift) (2 ^ 64 - 1))) max

def failJobWithBlock (job : RelayJob) (now : Int64) (blockNumber : Option UInt64)
    (reason : String) : Task Unit :=
  putJob { job with
    status := .failed, blockNumber := blockNumber, nextAttemptAt := none, lastError := some reason,
    updatedAt := now }

def scheduleRetryOrFail (cfg : WorkerConfig) (job : RelayJob) (now : Int64) (err : String) :
    Task Unit :=
  if job.attemptCount ≥ cfg.maxAttempts then
    putJob { job with
      status := .failed, nextAttemptAt := none, lastError := some err, updatedAt := now }
  else
    let backoff := backoffSecs job.attemptCount cfg.retryInitialSecs cfg.retryMaxSecs
    putJob { job with
      status := .queued, nextAttemptAt := some (now + backoff.toInt64), lastError := some err,
      updatedAt := now }

/-! ## Sending -/

/-- `u32::saturating_add(1)`. -/
def nextAttempt (n : UInt32) : UInt32 := if n.toNat + 1 < 2 ^ 32 then n + 1 else n

def sendQueuedJob (cfg : WorkerConfig) (job : RelayJob) : Task Unit := do
  let now ← nowTs
  let job := { job with
    status := .sending, attemptCount := nextAttempt job.attemptCount, updatedAt := now }
  putJob job
  let nonce ← getNextNonce
  match ← (submitPayload job.payloadBytes nonce).attempt with
  | .ok txHash =>
    putJob { job with
      status := .submitted, txHash := some txHash, submittedAt := some now,
      nextAttemptAt := some (now + cfg.receiptPollSecs.toInt64), lastError := none,
      nonce := some nonce.toInt64, bumpCount := 0, updatedAt := now }
  | .error err => scheduleRetryOrFail cfg job now err

/-! ## Fee bumps -/

/-- `u128::saturating_mul` by the bump, then the division. -/
def applyBump (multiplierPct : UInt64) (base : Nat) : Nat :=
  min (base * (100 + multiplierPct.toNat)) (2 ^ 128 - 1) / 100

/-- `Ok(None)`: the transaction is no longer in the mempool. -/
def tryFeeBump (cfg : WorkerConfig) (payloadBytes : Bytes) (nonce : UInt64) (currentTxHash : String) :
    Task (Option String) := do
  let network ← getCurrentFees
  match ← getPendingTxFees currentTxHash with
  | none => pure none
  | some original =>
    let applyBump := applyBump cfg.feeBumpMultiplierPct
    let basePriority := max original.maxPriorityFeePerGas network.maxPriorityFeePerGas
    let baseMaxFee :=
      max original.maxFeePerGas ((network.baseFeePerGas + basePriority) % 2 ^ 128)
    let fees := {
      maxFeePerGas := applyBump baseMaxFee
      maxPriorityFeePerGas := applyBump basePriority
      maxFeePerBlobGas := original.maxFeePerBlobGas.map applyBump }
    let txHash ← submitPayloadWithFees payloadBytes nonce fees
    pure (some txHash)

/-- The first of the hashes with a receipt of success, and its block. -/
def scanReceipts : List String → Task (Option (String × Option UInt64))
  | [] => pure none
  | hash :: hashes => do
    match ← (pollReceipt hash).attempt with
    | .ok (some receipt) =>
      if receipt.success then pure (some (hash, receipt.blockNumber)) else scanReceipts hashes
    | .ok none => scanReceipts hashes
    | .error _ => scanReceipts hashes

/-! ## Polling -/

def receiptTimeout (cfg : WorkerConfig) (job : RelayJob) (now : Int64) : Option UInt64 :=
  match cfg.receiptTimeoutSecs, job.submittedAt with
  | some timeoutSecs, some submittedAt =>
    if saturatingSub now submittedAt ≥ timeoutSecs.toInt64 then some timeoutSecs else none
  | _, _ => none

/-- The nonce of a bump that is due, if the budget still allows one. -/
def bumpDue (cfg : WorkerConfig) (job : RelayJob) (now : Int64) : Option UInt64 :=
  match cfg.feeBumpAfterSecs, job.submittedAt, job.nonce with
  | some bumpAfter, some submittedAt, some nonce =>
    let bumpThreshold := bumpAfter.toInt64 * (job.bumpCount.toInt64 + 1)
    let elapsed := saturatingSub now submittedAt
    if elapsed ≥ bumpThreshold ∧ job.bumpCount.toUInt32 < cfg.feeBumpMax then some nonce.toUInt64
    else none
  | _, _, _ => none

/-- No receipt yet: the job is polled again. -/
def pollAgain (cfg : WorkerConfig) (job : RelayJob) (now : Int64) : Task Unit :=
  putJob { job with
    status := .submitted, nextAttemptAt := some (now + cfg.receiptPollSecs.toInt64),
    updatedAt := now }

/-- The transaction is gone from the mempool: was its nonce consumed by an earlier one? -/
def txGone (cfg : WorkerConfig) (job : RelayJob) (now : Int64) (nonce : UInt64) : Task Unit := do
  let exhausted := { job with bumpCount := cfg.feeBumpMax.toInt32, updatedAt := now }
  -- the nonce is not consumed, or its lookup failed: stop bumping
  let dropped : Task Unit := do
    putJob exhausted
    pollAgain cfg exhausted now
  match ← getNextNonce.attempt with
  | .ok currentNonce =>
    if currentNonce > nonce then
      match ← scanReceipts job.prevTxHashes.reverse with
      | some (hash, minedBlock) =>
        putJob { job with
          txHash := some hash, status := .confirmed, blockNumber := minedBlock.or job.blockNumber,
          nextAttemptAt := none, lastError := none, updatedAt := now }
      | none =>
        putJob { exhausted with nextAttemptAt := some (now + cfg.receiptPollSecs.toInt64) }
    else dropped
  | .error _ => dropped

def pollSubmittedJob (cfg : WorkerConfig) (job : RelayJob) : Task Unit := do
  let now ← nowTs
  match job.txHash with
  | none => .throw "submitted job missing tx_hash"
  | some txHash =>
    match receiptTimeout cfg job now with
    | some timeoutSecs =>
      failJobWithBlock job now job.blockNumber s!"receipt timeout after {timeoutSecs}s"
    | none =>
      let job := { job with updatedAt := now }
      putJob job
      match ← (pollReceipt txHash).attempt with
      | .ok (some ⟨true, blockNumber⟩) =>
        putJob { job with
          status := .confirmed, blockNumber := blockNumber, nextAttemptAt := none, lastError := none,
          updatedAt := now }
      | .ok (some ⟨false, blockNumber⟩) =>
        failJobWithBlock job now blockNumber "transaction reverted on-chain"
      | .ok none =>
        match bumpDue cfg job now with
        | none => pollAgain cfg job now
        | some nonce =>
          match ← (tryFeeBump cfg job.payloadBytes nonce txHash).attempt with
          | .ok (some newTxHash) =>
            putJob { job with
              prevTxHashes := job.prevTxHashes ++ [txHash], txHash := some newTxHash,
              bumpCount := job.bumpCount + 1,
              nextAttemptAt := some (now + cfg.receiptPollSecs.toInt64), updatedAt := now }
          | .ok none => txGone cfg job now nonce
          | .error _ => pollAgain cfg job now
      | .error err =>
        if isPermanentError err then failJobWithBlock job now job.blockNumber err
        else scheduleRetryOrFail cfg job now err

def processDueJob (cfg : WorkerConfig) (job : RelayJob) : Task Unit :=
  if job.status.isTerminal then pure ()
  else if job.txHash.isSome then pollSubmittedJob cfg job
  else sendQueuedJob cfg job

/-! ## What the worker writes -/

/-- A hash whose receipt the gateway did not report as a success. -/
def Unconfirmed (G : (q : Call) → q.Answer → Prop) (hash : String) : Prop :=
  ∃ answer : Except String (Option ReceiptOutcome), G (.pollReceipt hash) answer ∧
    ∀ block, answer ≠ .ok (some ⟨true, block⟩)

/-- The rows that `process_due_job` writes for `job` under answers that meet `G`. -/
inductive Written (cfg : WorkerConfig) (G : (q : Call) → q.Answer → Prop) (job : RelayJob) :
    RelayJob → Prop
  | sending (now : Int64) (hhash : job.txHash = none) : Written cfg G job { job with
      status := .sending, attemptCount := nextAttempt job.attemptCount, updatedAt := now }
  | sent (now : Int64) (nonce : UInt64) (hash : String) (hhash : job.txHash = none)
      (hanswer : G (.submitPayload job.payloadBytes nonce) (Except.ok hash : Except String String)) :
      Written cfg G job { job with
        status := .submitted, attemptCount := nextAttempt job.attemptCount, txHash := some hash,
        submittedAt := some now, nextAttemptAt := some (now + cfg.receiptPollSecs.toInt64),
        lastError := none, nonce := some nonce.toInt64, bumpCount := 0, updatedAt := now }
  | sendFailed (now : Int64) (err : String) (hhash : job.txHash = none) :
      Written cfg G job { job with
        status := .failed, attemptCount := nextAttempt job.attemptCount, nextAttemptAt := none,
        lastError := some err, updatedAt := now }
  | sendRetried (now time : Int64) (err : String) (hhash : job.txHash = none) :
      Written cfg G job { job with
        status := .queued, attemptCount := nextAttempt job.attemptCount, nextAttemptAt := some time,
        lastError := some err, updatedAt := now }
  | timedOut (now : Int64) (reason : String) (timeoutSecs : UInt64) (hash : String)
      (hhash : job.txHash = some hash) (hnow : G .nowTs now)
      (htimeout : receiptTimeout cfg job now = some timeoutSecs) : Written cfg G job { job with
        status := .failed, nextAttemptAt := none, lastError := some reason, updatedAt := now }
  | polling (now : Int64) (hash : String) (hhash : job.txHash = some hash) :
      Written cfg G job { job with updatedAt := now }
  | confirmed (now : Int64) (hash : String) (block : Option UInt64) (hhash : job.txHash = some hash)
      (hanswer : G (.pollReceipt hash)
        (Except.ok (some ⟨true, block⟩) : Except String (Option ReceiptOutcome))) :
      Written cfg G job { job with
        status := .confirmed, blockNumber := block, nextAttemptAt := none, lastError := none,
        updatedAt := now }
  | reverted (now : Int64) (hash reason : String) (block : Option UInt64)
      (hhash : job.txHash = some hash)
      (hanswer : G (.pollReceipt hash)
        (Except.ok (some ⟨false, block⟩) : Except String (Option ReceiptOutcome))) :
      Written cfg G job { job with
        status := .failed, blockNumber := block, nextAttemptAt := none, lastError := some reason,
        updatedAt := now }
  | pollFailed (now : Int64) (hash err : String) (hhash : job.txHash = some hash)
      (hanswer : G (.pollReceipt hash) (Except.error err : Except String (Option ReceiptOutcome)))
      (hgivesUp : isPermanentError err = true ∨ cfg.maxAttempts ≤ job.attemptCount) :
      Written cfg G job { job with
        status := .failed, nextAttemptAt := none, lastError := some err, updatedAt := now }
  | pollRetried (now time : Int64) (hash err : String) (hhash : job.txHash = some hash) :
      Written cfg G job { job with
        status := .queued, nextAttemptAt := some time, lastError := some err, updatedAt := now }
  | pollAgain (now : Int64) (hash : String) (hhash : job.txHash = some hash) :
      Written cfg G job { job with
        status := .submitted, nextAttemptAt := some (now + cfg.receiptPollSecs.toInt64),
        updatedAt := now }
  | bumped (now : Int64) (hash new : String) (nonce : UInt64) (fees : Fees)
      (hhash : job.txHash = some hash) (hdue : bumpDue cfg job now = some nonce)
      (hunmined : Unconfirmed G hash)
      (hanswer : G (.submitPayloadWithFees job.payloadBytes nonce fees)
        (Except.ok new : Except String String)) :
      Written cfg G job { job with
        prevTxHashes := job.prevTxHashes ++ [hash], txHash := some new,
        bumpCount := job.bumpCount + 1,
        nextAttemptAt := some (now + cfg.receiptPollSecs.toInt64), updatedAt := now }
  | minedEarlier (now : Int64) (hash mined : String) (block : Option UInt64)
      (hhash : job.txHash = some hash) (hmined : mined ∈ job.prevTxHashes)
      (hanswer : G (.pollReceipt mined)
        (Except.ok (some ⟨true, block⟩) : Except String (Option ReceiptOutcome))) :
      Written cfg G job { job with
        txHash := some mined, status := .confirmed, blockNumber := block.or job.blockNumber,
        nextAttemptAt := none, lastError := none, updatedAt := now }
  | exhausted (now : Int64) (hash : String) (nonce : UInt64)
      (hhash : job.txHash = some hash) (hdue : bumpDue cfg job now = some nonce)
      (hunmined : ∀ prev ∈ job.prevTxHashes, Unconfirmed G prev) :
      Written cfg G job { job with
        bumpCount := cfg.feeBumpMax.toInt32,
        nextAttemptAt := some (now + cfg.receiptPollSecs.toInt64), updatedAt := now }
  | dropping (now : Int64) (hash : String) (nonce : UInt64) (answer : Except String UInt64)
      (hhash : job.txHash = some hash) (hdue : bumpDue cfg job now = some nonce)
      (hanswer : G .getNextNonce answer)
      (hunused : ∀ currentNonce, answer = .ok currentNonce → currentNonce ≤ nonce) :
      Written cfg G job { job with bumpCount := cfg.feeBumpMax.toInt32, updatedAt := now }
  | dropped (now : Int64) (hash : String) (nonce : UInt64) (answer : Except String UInt64)
      (hhash : job.txHash = some hash) (hdue : bumpDue cfg job now = some nonce)
      (hanswer : G .getNextNonce answer)
      (hunused : ∀ currentNonce, answer = .ok currentNonce → currentNonce ≤ nonce) :
      Written cfg G job { job with
        status := .submitted, bumpCount := cfg.feeBumpMax.toInt32,
        nextAttemptAt := some (now + cfg.receiptPollSecs.toInt64), updatedAt := now }

/-- Every row that is written meets `W`. -/
def Puts (W : RelayJob → Prop) : Call → Prop
  | .putJob job => W job
  | _ => True

section Writes

variable {cfg : WorkerConfig} {G : (q : Call) → q.Answer → Prop} {W : RelayJob → Prop}
  {job : RelayJob} {α β : Type}

/-- The routine only writes rows that meet `W`. -/
def Writes (G : (q : Call) → q.Answer → Prop) (W : RelayJob → Prop) (m : Task α) : Prop :=
  m.Sat G (Puts W) fun _ => True

theorem Writes.putJob (h : W job) : Writes G W (putJob job) := by
  refine ⟨h, fun answer _ => ?_⟩
  cases answer with
  | stored => exact trivial
  | lost => exact trivial
  | refused => exact trivial

theorem Writes.bind {m : Task α} {f : α → Task β} (hm : Writes G W m) (hf : ∀ a, Writes G W (f a)) :
    Writes G W (m >>= f) :=
  Dialogue.Sat.bind hm (fun _ _ => trivial) fun a _ => hf a

theorem Writes.nowTs_bind {f : Int64 → Task β} (hf : ∀ now, G .nowTs now → Writes G W (f now)) :
    Writes G W (nowTs >>= f) :=
  ⟨trivial, hf⟩

theorem Writes.sat_bind {m : Task α} {f : α → Task β} {R : Except String α → Prop}
    (hm : m.Sat G (Puts W) R) (hf : ∀ a, R (.ok a) → Writes G W (f a)) : Writes G W (m >>= f) :=
  Dialogue.Sat.bind hm (fun _ _ => trivial) hf

/-- A `match` on the result of a routine. -/
theorem Writes.attempt_bind {m : Task α} {f : Except String α → Task β} {R : Except String α → Prop}
    (hm : m.Sat G (Puts W) R) (hf : ∀ o, R o → Writes G W (f o)) : Writes G W (m.attempt >>= f) := by
  have hattempt : m.attempt.Sat G (Puts W) fun o => ∀ o', o = .ok o' → R o' := by
    refine Dialogue.Sat.attempt hm fun o ho o' heq => ?_
    cases heq
    exact ho
  exact Dialogue.Sat.bind hattempt (fun _ _ => trivial) fun o ho => hf o (ho o rfl)

theorem sat_getNextNonce : getNextNonce.Sat G (Puts W) (G .getNextNonce) := by
  refine ⟨trivial, fun answer hanswer => ?_⟩
  cases answer with
  | ok n => exact hanswer
  | error e => exact hanswer

theorem sat_pollReceipt (hash : String) :
    (pollReceipt hash).Sat G (Puts W) (G (.pollReceipt hash)) := by
  refine ⟨trivial, fun answer hanswer => ?_⟩
  cases answer with
  | ok receipt => exact hanswer
  | error e => exact hanswer

theorem sat_submitPayload (bytes : Bytes) (nonce : UInt64) :
    (submitPayload bytes nonce).Sat G (Puts W) (G (.submitPayload bytes nonce)) := by
  refine ⟨trivial, fun answer hanswer => ?_⟩
  cases answer with
  | ok hash => exact hanswer
  | error e => exact hanswer

/-- A replacement that was broadcast was broadcast at the nonce of the job. -/
theorem sat_tryFeeBump (bytes : Bytes) (nonce : UInt64) (hash : String) :
    (tryFeeBump cfg bytes nonce hash).Sat G (Puts W) fun o => ∀ new, o = .ok (some new) →
      ∃ fees, G (.submitPayloadWithFees bytes nonce fees) (Except.ok new : Except String String) := by
  refine ⟨trivial, fun network _ => ?_⟩
  cases network with
  | error e => simp [Dialogue.lift, Dialogue.bind, Dialogue.Sat]
  | ok network =>
    refine ⟨trivial, fun original _ => ?_⟩
    cases original with
    | error e => simp [Dialogue.lift, Dialogue.bind, Dialogue.Sat]
    | ok original =>
      cases original with
      | none => simp [Dialogue.lift, Dialogue.bind, Dialogue.Sat, pure]
      | some original =>
        refine ⟨trivial, fun answer hanswer => ?_⟩
        cases answer with
        | error e => simp [Dialogue.lift, Dialogue.bind, Dialogue.Sat]
        | ok new =>
          intro new' heq
          cases heq
          exact ⟨_, hanswer⟩

theorem unconfirmed_of_answer {hash : String} {answer : Except String (Option ReceiptOutcome)}
    (hanswer : G (.pollReceipt hash) answer)
    (h : ∀ block, answer ≠ .ok (some ⟨true, block⟩)) : Unconfirmed G hash := ⟨answer, hanswer, h⟩

/-- The scan finds a hash with a receipt, or no hash has one. -/
theorem sat_scanReceipts (hashes : List String) :
    (scanReceipts hashes).Sat G (Puts W) fun o => match o with
      | .ok (some (hash, block)) => hash ∈ hashes ∧ G (.pollReceipt hash)
          (Except.ok (some ⟨true, block⟩) : Except String (Option ReceiptOutcome))
      | .ok none => ∀ hash ∈ hashes, Unconfirmed G hash
      | .error _ => True := by
  induction hashes with
  | nil =>
    intro hash hmem
    cases hmem
  | cons hash hashes ih =>
    have hrest : Unconfirmed G hash → (scanReceipts hashes).Sat G (Puts W) fun o => match o with
        | .ok (some (h, block)) => h ∈ hash :: hashes ∧ G (.pollReceipt h)
            (Except.ok (some ⟨true, block⟩) : Except String (Option ReceiptOutcome))
        | .ok none => ∀ h ∈ hash :: hashes, Unconfirmed G h
        | .error _ => True := by
      intro hhead
      refine ih.mono fun o ho => ?_
      match o, ho with
      | .ok (some (h, block)), ho => exact ⟨List.mem_cons_of_mem hash ho.1, ho.2⟩
      | .ok none, ho => exact List.forall_mem_cons.mpr ⟨hhead, ho⟩
      | .error _, _ => exact trivial
    refine ⟨trivial, fun answer hanswer => ?_⟩
    match answer, hanswer with
    | .error e, hanswer =>
      exact hrest (unconfirmed_of_answer hanswer fun _ h => by cases h)
    | .ok none, hanswer =>
      exact hrest (unconfirmed_of_answer hanswer fun _ h => by cases h)
    | .ok (some ⟨true, block⟩), hanswer => exact ⟨List.mem_cons_self, hanswer⟩
    | .ok (some ⟨false, block⟩), hanswer =>
      exact hrest (unconfirmed_of_answer hanswer fun _ h => by cases h)

theorem scheduleRetryOrFail_writes {now : Int64} {err : String}
    (hfail : cfg.maxAttempts ≤ job.attemptCount → W { job with
      status := .failed, nextAttemptAt := none, lastError := some err, updatedAt := now })
    (hretry : ∀ t, W { job with
      status := .queued, nextAttemptAt := some t, lastError := some err, updatedAt := now }) :
    Writes G W (scheduleRetryOrFail cfg job now err) := by
  unfold scheduleRetryOrFail
  split
  next h => exact Writes.putJob (hfail h)
  next => exact Writes.putJob (hretry _)

theorem sendQueuedJob_writes (hhash : job.txHash = none) :
    Writes G (Written cfg G job) (sendQueuedJob cfg job) := by
  refine Writes.nowTs_bind fun now _ => ?_
  refine Writes.bind (Writes.putJob (.sending now hhash)) fun _ => ?_
  refine Writes.sat_bind sat_getNextNonce fun nonce _ => ?_
  refine Writes.attempt_bind (sat_submitPayload job.payloadBytes nonce) fun o ho => ?_
  cases o with
  | ok hash => exact Writes.putJob (.sent now nonce hash hhash ho)
  | error err =>
    exact scheduleRetryOrFail_writes (fun _ => .sendFailed now err hhash)
      fun t => .sendRetried now t err hhash

theorem txGone_writes {now now' : Int64} {hash : String} {nonce : UInt64}
    (hhash : job.txHash = some hash) (hdue : bumpDue cfg job now = some nonce) :
    Writes G (Written cfg G job) (txGone cfg { job with updatedAt := now' } now nonce) := by
  refine Writes.attempt_bind sat_getNextNonce fun o ho => ?_
  have hdropped : (∀ currentNonce, o = .ok currentNonce → currentNonce ≤ nonce) →
      Writes G (Written cfg G job) (do
        putJob { job with bumpCount := cfg.feeBumpMax.toInt32, updatedAt := now }
        pollAgain cfg { job with bumpCount := cfg.feeBumpMax.toInt32, updatedAt := now } now) := by
    intro hunused
    exact Writes.bind (Writes.putJob (.dropping now hash nonce o hhash hdue ho hunused)) fun _ =>
      Writes.putJob (.dropped now hash nonce o hhash hdue ho hunused)
  cases o with
  | error e => exact hdropped fun _ h => by cases h
  | ok currentNonce =>
    dsimp only
    split
    next =>
      refine Writes.sat_bind (sat_scanReceipts _) fun found hfound => ?_
      match found, hfound with
      | some (mined, block), hfound =>
        exact Writes.putJob (.minedEarlier now hash mined block hhash
          (List.mem_reverse.mp hfound.1) hfound.2)
      | none, hfound =>
        refine Writes.putJob (.exhausted now hash nonce hhash hdue fun prev hprev => ?_)
        exact hfound prev (List.mem_reverse.mpr hprev)
    next hle =>
      refine hdropped fun n hn => ?_
      cases hn
      exact UInt64.not_lt.mp hle

theorem pollSubmittedJob_writes {hash : String} (hhash : job.txHash = some hash) :
    Writes G (Written cfg G job) (pollSubmittedJob cfg job) := by
  refine Writes.nowTs_bind fun now hnow => ?_
  obtain ⟨jobId, status, payloadBytes, txFinal, stateRoot, clientRef, attemptCount, txHash,
    submittedAt, blockNumber, lastError, nextAttemptAt, nonce, bumpCount, prevTxHashes, createdAt,
    updatedAt⟩ := job
  obtain rfl : txHash = some hash := hhash
  dsimp only
  split
  next timeoutSecs htimeout =>
    exact Writes.putJob (.timedOut now _ timeoutSecs hash rfl hnow htimeout)
  next =>
    refine Writes.bind (Writes.putJob (.polling now hash rfl)) fun _ => ?_
    refine Writes.attempt_bind (sat_pollReceipt hash) fun o ho => ?_
    match o, ho with
    | .ok (some ⟨true, block⟩), ho => exact Writes.putJob (.confirmed now hash block rfl ho)
    | .ok (some ⟨false, block⟩), ho => exact Writes.putJob (.reverted now hash _ block rfl ho)
    | .error err, ho =>
      dsimp only
      split
      next hpermanent => exact Writes.putJob (.pollFailed now hash err rfl ho (.inl hpermanent))
      next =>
        exact scheduleRetryOrFail_writes (fun h => .pollFailed now hash err rfl ho (.inr h))
          fun t => .pollRetried now t hash err rfl
    | .ok none, ho =>
      have hunmined : Unconfirmed G hash := unconfirmed_of_answer ho fun _ h => by cases h
      dsimp only
      split
      next => exact Writes.putJob (.pollAgain now hash rfl)
      next due hdue =>
        refine Writes.attempt_bind (sat_tryFeeBump _ due hash) fun o ho => ?_
        match o, ho with
        | .ok (some new), ho =>
          obtain ⟨fees, hanswer⟩ := ho new rfl
          exact Writes.putJob (.bumped now hash new due fees rfl hdue hunmined hanswer)
        | .ok none, _ => exact txGone_writes rfl hdue
        | .error e, _ => exact Writes.putJob (.pollAgain now hash rfl)

/-- Every row that `process_due_job` writes is one of `Written`. -/
theorem processDueJob_writes : Writes G (Written cfg G job) (processDueJob cfg job) := by
  unfold processDueJob
  split
  · exact trivial
  · cases hhash : job.txHash with
    | none => exact sendQueuedJob_writes hhash
    | some hash => exact pollSubmittedJob_writes hhash

theorem Written.identity_eq {row : RelayJob} (h : Written cfg G job row) :
    row.identity = job.identity := by
  cases h <;> rfl

end Writes

end DigitalObjects.Relayer
