import DigitalObjects.Relayer.Mined
set_option autoImplicit false

/-!
How often and how soon a job is taken up again: the attempts are counted, and every pass leaves
a schedule behind it.
-/

namespace DigitalObjects.Relayer

open Lib
open Wire (Bytes)

/-! ## Schedules -/

/-- The job is done with, or waits for a later time. -/
def RelayJob.Paced (row : RelayJob) (now : Int64) : Prop :=
  row.status.isTerminal = true ∨ ∃ next, row.nextAttemptAt = some next ∧ now < next

/-- A paced job is not due. -/
theorem RelayJob.Paced.not_due {row : RelayJob} {now : Int64} (h : row.Paced now) {t : Int64}
    (ht : t ≤ now) : ¬ Db.due t row := by
  intro hdue
  rcases h with hterminal | ⟨next, hnext, hlater⟩
  · simp [hdue.1] at hterminal
  · have hle := hdue.2 next hnext
    rw [Int64.le_iff_toInt_le] at hle ht
    rw [Int64.lt_iff_toInt_lt] at hlater
    omega

/-- The time after `secs` is one that the clock has. -/
def Fits (now : Int64) (secs : UInt64) : Prop := now.toInt + secs.toNat < 2 ^ 63

instance (now : Int64) (secs : UInt64) : Decidable (Fits now secs) :=
  inferInstanceAs (Decidable (_ < _))

theorem Fits.lt_add {now : Int64} {secs : UInt64} (h : Fits now secs) (hpos : 1 ≤ secs) :
    now < now + secs.toInt64 := by
  have hlow := now.le_toInt
  have hbmod : (now + secs.toInt64).toInt = (now.toInt + secs.toNat).bmod (2 ^ 64) := by
    rw [Int64.toInt_add, ← secs.toInt64.toInt_toBitVec, UInt64.toBitVec_toInt64,
      BitVec.toInt_eq_toNat_bmod, UInt64.toNat_toBitVec, Int.add_bmod_bmod]
  have hexact : (now.toInt + secs.toNat).bmod (2 ^ 64) = now.toInt + secs.toNat := by
    unfold Fits at h
    apply Int.bmod_eq_of_le <;> omega
  rw [UInt64.le_iff_toNat_le] at hpos
  rw [Int64.lt_iff_toInt_lt, hbmod, hexact]
  have hone : (1 : UInt64).toNat = 1 := rfl
  omega

theorem one_le_backoffSecs {cfg : WorkerConfig} (h : cfg.Admitted) (attemptCount : UInt32) :
    1 ≤ backoffSecs attemptCount cfg.retryInitialSecs cfg.retryMaxSecs := by
  have hinitial := UInt64.le_iff_toNat_le.mp h.retryInitialSecs
  have hmax := UInt64.le_iff_toNat_le.mp h.retryMaxSecs
  have hone : (1 : UInt64).toNat = 1 := rfl
  have hexp : 1 ≤ 2 ^ min (attemptCount.toNat - 1) 20 := Nat.one_le_two_pow
  have hmul : cfg.retryInitialSecs.toNat * 1 ≤
      cfg.retryInitialSecs.toNat * 2 ^ min (attemptCount.toNat - 1) 20 := Nat.mul_le_mul_left _ hexp
  have hgrown : 1 ≤ UInt64.ofNat (min (cfg.retryInitialSecs.toNat *
      2 ^ min (attemptCount.toNat - 1) 20) (2 ^ 64 - 1)) := by
    rw [UInt64.le_iff_toNat_le, UInt64.toNat_ofNat']
    omega
  unfold backoffSecs
  dsimp only
  rw [UInt64.min_def]
  split
  · exact hgrown
  · rw [UInt64.le_iff_toNat_le]
    omega

/-! ## The row that a pass leaves -/

/-- The attempts that a pass over the job counts. -/
def attemptsOf (job : RelayJob) : UInt32 :=
  if job.txHash = none then nextAttempt job.attemptCount else job.attemptCount

/-- Attempts are within their bound, and a job still to be sent has one left. -/
structure RelayJob.Counted (cfg : WorkerConfig) (row : RelayJob) : Prop where
  bounded : row.attemptCount ≤ cfg.maxAttempts
  left : row.status.isTerminal = false → row.txHash = none → row.attemptCount < cfg.maxAttempts

/-- A broadcast job stays so, at its nonce; `fresh` is the nonce of one that is broadcast now. -/
def KeepsNonce (fresh : UInt64) (job row : RelayJob) : Prop :=
  (job.txHash ≠ none → row.txHash ≠ none ∧ row.nonce = job.nonce) ∧
    (job.txHash = none → row.txHash ≠ none → row.nonce = some fresh.toInt64)

structure Settled (cfg : WorkerConfig) (job : RelayJob) (now : Int64) (fresh : UInt64)
    (row : RelayJob) : Prop where
  paced : row.Paced now
  counted : row.Counted cfg
  keeps : KeepsNonce fresh job row

/-- The delays before the next poll and the next attempt. -/
def PollFits (cfg : WorkerConfig) (now : Int64) : Prop := Fits now cfg.receiptPollSecs

def RetryFits (cfg : WorkerConfig) (job : RelayJob) (now : Int64) : Prop :=
  attemptsOf job < cfg.maxAttempts →
    Fits now (backoffSecs (attemptsOf job) cfg.retryInitialSecs cfg.retryMaxSecs)

/-- The database and the clock work, the nonce `fresh` of a job that is still to be sent is
known, and the schedule that is due after an answer fits the clock. -/
def Answers (cfg : WorkerConfig) (job : RelayJob) (now : Int64) (fresh : UInt64) :
    (q : Call) → q.Answer → Prop
  | .putJob _, answer => answer = .stored
  | .nowTs, time => time = now
  | .getNextNonce, answer => job.txHash = none → answer = .ok fresh
  | .submitPayload _ _, .ok _ => PollFits cfg now
  | .submitPayload _ _, .error _ => RetryFits cfg job now
  | .pollReceipt hash, .ok none => job.txHash = some hash → PollFits cfg now
  | .pollReceipt hash, .error err =>
    job.txHash = some hash → isPermanentError err = false → RetryFits cfg job now
  | _, _ => True

instance (cfg : WorkerConfig) (job : RelayJob) (now : Int64) : Decidable (RetryFits cfg job now) :=
  inferInstanceAs (Decidable (_ → Fits _ _))

instance (cfg : WorkerConfig) (job : RelayJob) (now : Int64) (fresh : UInt64) : (q : Call) →
    (answer : q.Answer) → Decidable (Answers cfg job now fresh q answer)
  | .putJob _, answer => instDecidableEqStored answer .stored
  | .nowTs, time => instDecidableEqInt64 time now
  | .getNextNonce, .ok nonce => decidable_of_iff (job.txHash = none → nonce = fresh)
      ⟨fun h hhash => congrArg Except.ok (h hhash), fun h hhash => Except.ok.inj (h hhash)⟩
  | .getNextNonce, .error _ => decidable_of_iff (job.txHash ≠ none)
      ⟨fun h hhash => absurd hhash h, fun h hhash => by cases h hhash⟩
  | .submitPayload _ _, .ok _ => inferInstanceAs (Decidable (Fits _ _))
  | .submitPayload _ _, .error _ => inferInstanceAs (Decidable (RetryFits cfg job now))
  | .pollReceipt _, .ok none => inferInstanceAs (Decidable (_ → Fits _ _))
  | .pollReceipt _, .ok (some _) => .isTrue trivial
  | .pollReceipt _, .error _ => inferInstanceAs (Decidable (_ → _ → RetryFits cfg job now))
  | .getCurrentFees, _ => .isTrue trivial
  | .getPendingTxFees _, _ => .isTrue trivial
  | .submitPayloadWithFees _ _ _, _ => .isTrue trivial

/-- The row of the job as it is stored. -/
def storedRow (row : RelayJob) : (q : Call) → q.Answer → RelayJob
  | .putJob job, .stored => job
  | .putJob job, .lost => job
  | _, _ => row

/-- The scan passes over what it cannot read. -/
theorem sat_scanReceipts_ok {G : (q : Call) → q.Answer → Prop} {W : RelayJob → Prop}
    (hashes : List String) :
    (scanReceipts hashes).Sat G (Puts W) fun o => match o with
      | .ok _ => True
      | .error _ => False := by
  induction hashes with
  | nil => exact trivial
  | cons hash hashes ih =>
    refine ⟨trivial, fun answer _ => ?_⟩
    match answer with
    | .error e => exact ih
    | .ok none => exact ih
    | .ok (some ⟨true, block⟩) => exact trivial
    | .ok (some ⟨false, block⟩) => exact ih

section Pass

variable {cfg : WorkerConfig} {job row : RelayJob} {now : Int64} {fresh : UInt64} {α : Type}
  {R : Except String α → RelayJob → Prop}

theorem wp_nowTs_bind {f : Int64 → Task α}
    (h : (f now).Wp storedRow (Answers cfg job now fresh) R row) :
    (nowTs >>= f).Wp storedRow (Answers cfg job now fresh) R row := by
  intro time htime
  obtain rfl : time = now := htime
  exact h

theorem wp_putJob {w : RelayJob} {R : Except String Unit → RelayJob → Prop} (h : R (.ok ()) w) :
    (putJob w).Wp storedRow (Answers cfg job now fresh) R row := by
  intro answer hanswer
  obtain rfl : answer = .stored := hanswer
  exact h

theorem wp_putJob_bind {w : RelayJob} {f : Unit → Task α}
    (h : (f ()).Wp storedRow (Answers cfg job now fresh) R w) :
    (putJob w >>= f).Wp storedRow (Answers cfg job now fresh) R row :=
  Dialogue.wp_bind (wp_putJob h)

/-- A question of the gateway leaves the stored row as it is. -/
theorem wp_quiet_bind {β : Type} {m : Task β} {f : β → Task α} {P : Except String β → Prop}
    (hm : m.Sat (Answers cfg job now fresh) (Puts fun _ => False) P)
    (herr : ∀ e, ¬ P (.error e))
    (hf : ∀ b, P (.ok b) → (f b).Wp storedRow (Answers cfg job now fresh) R row) :
    (m >>= f).Wp storedRow (Answers cfg job now fresh) R row := by
  refine Dialogue.wp_bind ((hm.wp (x := row) fun q a hq => ?_).mono fun o x' ho => ?_)
  · cases q with
    | putJob w => exact hq.elim
    | _ => rfl
  · obtain ⟨rfl, ho⟩ := ho
    cases o with
    | ok b => exact hf b ho
    | error e => exact absurd ho (herr e)

/-- A question whose error is handled. -/
theorem wp_attempt_bind {β : Type} {m : Task β} {f : Except String β → Task α}
    {P : Except String β → Prop}
    (hm : m.Sat (Answers cfg job now fresh) (Puts fun _ => False) P)
    (hf : ∀ o, P o → (f o).Wp storedRow (Answers cfg job now fresh) R row) :
    (m.attempt >>= f).Wp storedRow (Answers cfg job now fresh) R row := by
  have hattempt : m.attempt.Sat (Answers cfg job now fresh) (Puts fun _ => False)
      fun o => match o with | .ok o' => P o' | .error _ => False :=
    hm.attempt fun o ho => ho
  exact wp_quiet_bind hattempt (fun _ h => h) hf

theorem Settled.failed (hstatus : row.status = .failed) (hbound : row.attemptCount ≤ cfg.maxAttempts)
    (hkeeps : KeepsNonce fresh job row) : Settled cfg job now fresh row := by
  have hterminal : row.status.isTerminal = true := by simp [hstatus, JobStatus.isTerminal]
  exact ⟨.inl hterminal, ⟨hbound, fun h => by simp [hterminal] at h⟩, hkeeps⟩

theorem Settled.confirmed (hstatus : row.status = .confirmed)
    (hbound : row.attemptCount ≤ cfg.maxAttempts) (hkeeps : KeepsNonce fresh job row) :
    Settled cfg job now fresh row := by
  have hterminal : row.status.isTerminal = true := by simp [hstatus, JobStatus.isTerminal]
  exact ⟨.inl hterminal, ⟨hbound, fun h => by simp [hterminal] at h⟩, hkeeps⟩

/-- A job with a transaction is polled after `receipt_poll_secs`. -/
theorem Settled.polled (hadmitted : cfg.Admitted) (hfits : PollFits cfg now)
    (hnext : row.nextAttemptAt = some (now + cfg.receiptPollSecs.toInt64))
    (hhash : row.txHash ≠ none) (hbound : row.attemptCount ≤ cfg.maxAttempts)
    (hkeeps : KeepsNonce fresh job row) : Settled cfg job now fresh row :=
  ⟨.inr ⟨_, hnext, hfits.lt_add hadmitted.receiptPollSecs⟩, ⟨hbound, fun _ h => absurd h hhash⟩, hkeeps⟩

theorem scheduleRetryOrFail_settles (hadmitted : cfg.Admitted)
    (hcount : row.attemptCount = attemptsOf job) (hfits : RetryFits cfg job now)
    (hbound : row.attemptCount ≤ cfg.maxAttempts) (hkeeps : KeepsNonce fresh job row)
    (err : String) :
    (scheduleRetryOrFail cfg row now err).Wp storedRow (Answers cfg job now fresh)
      (fun _ => Settled cfg job now fresh) row := by
  unfold scheduleRetryOrFail
  split
  next => exact wp_putJob (Settled.failed rfl hbound hkeeps)
  next hmore =>
    have hless : row.attemptCount < cfg.maxAttempts := UInt32.not_le.mp hmore
    rw [RetryFits, ← hcount] at hfits
    have hlater := (hfits hless).lt_add (one_le_backoffSecs hadmitted row.attemptCount)
    exact wp_putJob ⟨.inr ⟨_, rfl, hlater⟩, ⟨hbound, fun _ _ => hless⟩, hkeeps⟩

theorem nextAttempt_le (h : row.attemptCount < cfg.maxAttempts) :
    nextAttempt row.attemptCount ≤ cfg.maxAttempts := by
  have hlt := UInt32.lt_iff_toNat_lt.mp h
  have hmax := cfg.maxAttempts.toNat_lt
  have hone : (1 : UInt32).toNat = 1 := rfl
  rw [UInt32.le_iff_toNat_le, nextAttempt, if_pos (by omega), UInt32.toNat_add]
  omega

theorem sendQueuedJob_settles (hadmitted : cfg.Admitted) (hhash : job.txHash = none)
    (hleft : job.attemptCount < cfg.maxAttempts) :
    (sendQueuedJob cfg job).Wp storedRow (Answers cfg job now fresh)
      (fun _ => Settled cfg job now fresh) job := by
  have hbound := nextAttempt_le hleft
  refine wp_nowTs_bind (wp_putJob_bind ?_)
  refine wp_quiet_bind sat_getNextNonce (fun e he => ?_) fun nonce hnonce => ?_
  · cases he hhash
  · obtain rfl : nonce = fresh := Except.ok.inj (hnonce hhash)
    refine wp_attempt_bind (sat_submitPayload job.payloadBytes nonce) fun o ho => ?_
    cases o with
    | ok hash =>
      refine wp_putJob (Settled.polled hadmitted ho rfl (Option.some_ne_none hash) hbound ?_)
      exact ⟨fun h => absurd hhash h, fun _ _ => rfl⟩
    | error err =>
      refine scheduleRetryOrFail_settles hadmitted ?_ ho hbound ?_ err
      · rw [attemptsOf, if_pos hhash]
      · exact ⟨fun h => absurd hhash h, fun _ h => absurd hhash h⟩

theorem txGone_settles (hadmitted : cfg.Admitted) (hfits : PollFits cfg now)
    (hbound : job.attemptCount ≤ cfg.maxAttempts) (hsent : job.txHash ≠ none)
    (nonce : UInt64) : (txGone cfg { job with updatedAt := now } now nonce).Wp storedRow
      (Answers cfg job now fresh) (fun _ => Settled cfg job now fresh) row := by
  have hsame : ∀ row : RelayJob, row.txHash ≠ none → row.nonce = job.nonce →
      KeepsNonce fresh job row := fun row hrow hnonce => ⟨fun _ => ⟨hrow, hnonce⟩, fun h => absurd h hsent⟩
  have hdropped : ∀ x : RelayJob, (do
      putJob { job with bumpCount := cfg.feeBumpMax.toInt32, updatedAt := now }
      pollAgain cfg { job with bumpCount := cfg.feeBumpMax.toInt32, updatedAt := now } now : Task Unit).Wp
        storedRow (Answers cfg job now fresh) (fun _ => Settled cfg job now fresh) x := by
    intro x
    exact wp_putJob_bind (wp_putJob
      (Settled.polled hadmitted hfits rfl hsent hbound (hsame _ hsent rfl)))
  refine wp_attempt_bind sat_getNextNonce fun o _ => ?_
  cases o with
  | error e => exact hdropped row
  | ok currentNonce =>
    dsimp only
    split
    next =>
      refine wp_quiet_bind (sat_scanReceipts_ok _) (fun _ h => h) fun found _ => ?_
      cases found with
      | some found =>
        refine wp_putJob (Settled.confirmed rfl hbound (hsame _ ?_ rfl))
        exact Option.some_ne_none found.1
      | none =>
        exact wp_putJob (Settled.polled hadmitted hfits rfl hsent hbound (hsame _ hsent rfl))
    next => exact hdropped row

theorem pollSubmittedJob_settles (hadmitted : cfg.Admitted)
    (hbound : job.attemptCount ≤ cfg.maxAttempts) (hsent : job.txHash ≠ none) :
    (pollSubmittedJob cfg job).Wp storedRow (Answers cfg job now fresh)
      (fun _ => Settled cfg job now fresh) job := by
  have hsame : ∀ row : RelayJob, row.txHash ≠ none → row.nonce = job.nonce →
      KeepsNonce fresh job row := fun row hrow hnonce => ⟨fun _ => ⟨hrow, hnonce⟩, fun h => absurd h hsent⟩
  refine wp_nowTs_bind ?_
  split
  next hnone => exact absurd hnone hsent
  next hash hhash =>
    split
    next => exact wp_putJob (Settled.failed rfl hbound (hsame _ hsent rfl))
    next =>
      refine wp_putJob_bind (wp_attempt_bind (sat_pollReceipt hash) fun o ho => ?_)
      match o, ho with
      | .ok (some ⟨true, block⟩), _ => exact wp_putJob (Settled.confirmed rfl hbound (hsame _ hsent rfl))
      | .ok (some ⟨false, block⟩), _ => exact wp_putJob (Settled.failed rfl hbound (hsame _ hsent rfl))
      | .error err, ho =>
        dsimp only
        split
        next => exact wp_putJob (Settled.failed rfl hbound (hsame _ hsent rfl))
        next hpermanent =>
          have hfits : RetryFits cfg job now := ho hhash (by simpa using hpermanent)
          refine scheduleRetryOrFail_settles hadmitted ?_ hfits ?_ ?_ err
          · exact (if_neg hsent).symm
          · exact hbound
          · exact hsame _ hsent rfl
      | .ok none, ho =>
        have hfits : PollFits cfg now := ho hhash
        have hagain : ∀ x : RelayJob, (pollAgain cfg { job with updatedAt := now } now).Wp storedRow
            (Answers cfg job now fresh) (fun _ => Settled cfg job now fresh) x := fun x =>
          wp_putJob (Settled.polled hadmitted hfits rfl hsent hbound (hsame _ hsent rfl))
        dsimp only
        split
        next => exact hagain _
        next nonce _ =>
          refine wp_attempt_bind (sat_tryFeeBump _ nonce hash) fun o _ => ?_
          match o with
          | .ok (some new) =>
            refine wp_putJob (Settled.polled hadmitted hfits rfl ?_ hbound (hsame _ ?_ rfl)) <;>
              exact Option.some_ne_none new
          | .ok none => exact txGone_settles hadmitted hfits hbound hsent nonce
          | .error e => exact hagain _

/-- A pass over a job that is due leaves it settled. -/
theorem processDueJob_settles (hadmitted : cfg.Admitted) (hcounted : job.Counted cfg)
    (hflight : job.status.isTerminal = false) :
    (processDueJob cfg job).Wp storedRow (Answers cfg job now fresh)
      (fun _ => Settled cfg job now fresh) job := by
  unfold processDueJob
  rw [if_neg (by simp [hflight])]
  cases hhash : job.txHash with
  | none => exact sendQueuedJob_settles hadmitted hhash (hcounted.left hflight hhash)
  | some hash => exact pollSubmittedJob_settles hadmitted hcounted.bounded (by simp [hhash])

end Pass

/-! ## What a pass broadcasts -/

/-- What is broadcast for a job: it is sent at `fresh` when it has no transaction yet, and
replaced at its own nonce when it has. -/
def Broadcasts (job : RelayJob) (fresh : UInt64) : Call → Prop
  | .submitPayload _ nonce => job.txHash = none ∧ nonce = fresh
  | .submitPayloadWithFees _ nonce _ => job.txHash ≠ none ∧ job.nonce = some nonce.toInt64
  | _ => True

section Broadcast

variable {cfg : WorkerConfig} {job : RelayJob} {now : Int64} {fresh : UInt64} {α β : Type}

/-- The routine broadcasts for `job` only. -/
def Sends (cfg : WorkerConfig) (job : RelayJob) (now : Int64) (fresh : UInt64) (m : Task α) : Prop :=
  m.Sat (Answers cfg job now fresh) (Broadcasts job fresh) fun _ => True

theorem Sends.bind {m : Task α} {f : α → Task β} (hm : Sends cfg job now fresh m)
    (hf : ∀ a, Sends cfg job now fresh (f a)) : Sends cfg job now fresh (m >>= f) :=
  Dialogue.Sat.bind hm (fun _ _ => trivial) fun a _ => hf a

theorem Sends.attempt {m : Task α} (hm : Sends cfg job now fresh m) :
    Sends cfg job now fresh m.attempt :=
  Dialogue.Sat.attempt hm fun _ _ => trivial

theorem sends_lift (o : Except String α) : Sends cfg job now fresh (Dialogue.lift o) := by
  cases o <;> exact trivial

theorem sends_putJob (row : RelayJob) : Sends cfg job now fresh (putJob row) := by
  refine ⟨trivial, fun answer _ => ?_⟩
  cases answer <;> exact trivial

theorem sends_getNextNonce : Sends cfg job now fresh getNextNonce :=
  ⟨trivial, fun answer _ => sends_lift answer⟩

theorem sends_pollReceipt (hash : String) : Sends cfg job now fresh (pollReceipt hash) :=
  ⟨trivial, fun answer _ => sends_lift answer⟩

theorem sends_scheduleRetryOrFail (row : RelayJob) (t : Int64) (err : String) :
    Sends cfg job now fresh (scheduleRetryOrFail cfg row t err) := by
  unfold scheduleRetryOrFail
  split
  · exact sends_putJob _
  · exact sends_putJob _

theorem sends_scanReceipts (hashes : List String) :
    Sends cfg job now fresh (scanReceipts hashes) := by
  induction hashes with
  | nil => exact trivial
  | cons hash hashes ih =>
    refine (sends_pollReceipt hash).attempt.bind fun o => ?_
    match o with
    | .error e => exact ih
    | .ok none => exact ih
    | .ok (some ⟨true, block⟩) => exact trivial
    | .ok (some ⟨false, block⟩) => exact ih

theorem sends_tryFeeBump (hsent : job.txHash ≠ none) {nonce : UInt64}
    (hnonce : job.nonce = some nonce.toInt64) (hash : String) :
    Sends cfg job now fresh (tryFeeBump cfg job.payloadBytes nonce hash) := by
  refine Sends.bind ⟨trivial, fun answer _ => sends_lift answer⟩ fun network => ?_
  refine Sends.bind ⟨trivial, fun answer _ => sends_lift answer⟩ fun original => ?_
  cases original with
  | none => exact trivial
  | some original =>
    exact Sends.bind ⟨⟨hsent, hnonce⟩, fun answer _ => sends_lift answer⟩ fun _ => trivial

theorem sends_txGone (row : RelayJob) (t : Int64) (nonce : UInt64) :
    Sends cfg job now fresh (txGone cfg row t nonce) := by
  refine sends_getNextNonce.attempt.bind fun o => ?_
  have hdropped : ∀ w w' : RelayJob, Sends cfg job now fresh (do putJob w; pollAgain cfg w' t) :=
    fun w w' => (sends_putJob w).bind fun _ => sends_putJob _
  cases o with
  | error e => exact hdropped _ _
  | ok currentNonce =>
    dsimp only
    split
    · refine (sends_scanReceipts _).bind fun found => ?_
      cases found with
      | none => exact sends_putJob _
      | some found => exact sends_putJob _
    · exact hdropped _ _

theorem sends_sendQueuedJob (hhash : job.txHash = none) :
    Sends cfg job now fresh (sendQueuedJob cfg job) := by
  refine Sends.bind ⟨trivial, fun _ _ => trivial⟩ fun time => (sends_putJob _).bind fun _ => ?_
  refine ⟨trivial, fun answer hanswer => ?_⟩
  obtain rfl : answer = .ok fresh := hanswer hhash
  have hsubmit : Sends cfg job now fresh (submitPayload job.payloadBytes fresh) :=
    ⟨⟨hhash, rfl⟩, fun answer _ => sends_lift answer⟩
  refine hsubmit.attempt.bind fun o => ?_
  cases o with
  | ok hash => exact sends_putJob _
  | error err => exact sends_scheduleRetryOrFail _ _ _

theorem sends_pollSubmittedJob (hsent : job.txHash ≠ none) :
    Sends cfg job now fresh (pollSubmittedJob cfg job) := by
  refine Sends.bind ⟨trivial, fun _ _ => trivial⟩ fun time => ?_
  split
  next hnone => exact absurd hnone hsent
  next hash _ =>
    split
    next => exact sends_putJob _
    next =>
      refine (sends_putJob _).bind fun _ => (sends_pollReceipt hash).attempt.bind fun o => ?_
      match o with
      | .ok (some ⟨true, block⟩) => exact sends_putJob _
      | .ok (some ⟨false, block⟩) => exact sends_putJob _
      | .error err =>
        dsimp only
        split
        next => exact sends_putJob _
        next => exact sends_scheduleRetryOrFail _ _ _
      | .ok none =>
        dsimp only
        split
        next => exact sends_putJob _
        next nonce hdue =>
          obtain ⟨n, hn, rfl⟩ := (bumpDue_eq_some hdue).2.2
          have hnonce : job.nonce = some n.toUInt64.toInt64 := by simpa using hn
          refine (sends_tryFeeBump hsent hnonce hash).attempt.bind fun o => ?_
          match o with
          | .ok (some new) => exact sends_putJob _
          | .ok none => exact sends_txGone _ _ _
          | .error e => exact sends_putJob _

theorem processDueJob_sends : Sends cfg job now fresh (processDueJob cfg job) := by
  unfold processDueJob
  split
  · exact trivial
  · cases hhash : job.txHash with
    | none => exact sends_sendQueuedJob hhash
    | some hash => exact sends_pollSubmittedJob (by simp [hhash])

end Broadcast

/-! ## Runs -/

section Runs

variable {Proof : Type} {api : AppState Proof} {cfg : WorkerConfig} {job : RelayJob} {now : Int64} {fresh : UInt64}
  {events : List (Dialogue.Event Submission Call Call.Answer)}

theorem Written.attemptCount_le {G : (q : Call) → q.Answer → Prop} {row : RelayJob}
    (h : Written cfg G job row) (hcounted : job.Counted cfg)
    (hflight : job.status.isTerminal = false) : row.attemptCount ≤ cfg.maxAttempts := by
  have hnext : job.txHash = none → nextAttempt job.attemptCount ≤ cfg.maxAttempts :=
    fun hhash => nextAttempt_le (hcounted.left hflight hhash)
  cases h with
  | sending _ hhash => exact hnext hhash
  | sent _ _ _ hhash => exact hnext hhash
  | sendFailed _ _ hhash => exact hnext hhash
  | sendRetried _ _ _ hhash => exact hnext hhash
  | _ => exact hcounted.bounded

theorem counted_newJob (hadmitted : cfg.Admitted) (uuid : String) (time : Int64) (bytes : Bytes)
    (payload : Wire.Payload Proof) (clientRef : Option String) :
    (newJob uuid time bytes payload clientRef).Counted cfg := by
  have hpos : (0 : UInt32) < cfg.maxAttempts := by
    have hone := hadmitted.maxAttempts
    rw [UInt32.le_iff_toNat_le] at hone
    rw [UInt32.lt_iff_toNat_lt]
    exact hone
  exact ⟨UInt32.le_of_lt hpos, fun _ _ => hpos⟩

/-- The table while the job is worked on, with `row` stored for it: the rows of `before` that are
of other jobs are untouched, and every row is counted but perhaps its own. -/
structure Working (api : AppState Proof) (cfg : WorkerConfig) (before : Db) (job : RelayJob)
    (s : System) (row : RelayJob) : Prop where
  sound : s.Sound api
  identity : row.identity = job.identity
  stored : row ∈ s.db
  others : ∀ other ∈ before, other.jobId ≠ job.jobId → other ∈ s.db
  counted : ∀ other ∈ s.db, other.jobId ≠ job.jobId → other.Counted cfg

theorem Working.put {before : Db} {s : System} {row w : RelayJob}
    (h : Working api cfg before job s row) (hw : w.identity = job.identity) :
    Working api cfg before job { s with db := s.db.putJob w } w := by
  have hid : w.jobId = job.jobId := congrArg Identity.jobId hw
  have hsame : row.jobId = w.jobId := (congrArg Identity.jobId h.identity).trans hid.symm
  have hmem : w.identity ∈ s.db.identities := hw ▸ h.identity ▸ Db.mem_identities h.stored
  refine ⟨(h.sound.putJob hmem).1, hw, Db.mem_putJob_self h.stored hsame, ?_, ?_⟩
  · intro other hother hne
    exact Db.mem_putJob_other (h.others other hother hne) (hid ▸ hne)
  · intro other hother hne
    obtain rfl | ⟨hold, -⟩ := Db.mem_putJob hother
    · exact absurd hid hne
    · exact h.counted other hold hne

theorem Working.receive (hadmitted : cfg.Admitted) {before : Db} {s : System} {row : RelayJob}
    (h : Working api cfg before job s row) (r : Submission) :
    Working api cfg before job (s.receive api r) row := by
  obtain ⟨hkept, -, hnew⟩ := System.receive_rows api s r
  refine ⟨(h.sound.receive r).1, h.identity, hkept row h.stored, ?_, ?_⟩
  · intro other hother hne
    exact hkept other (h.others other hother hne)
  · intro other hother hne
    obtain hold | ⟨bytes, payload, rfl⟩ := hnew other hother
    · exact h.counted other hold hne
    · exact counted_newJob hadmitted _ _ _ _ _

/-- The table after a pass over a job that was due. -/
theorem processDueJob_works (hadmitted : cfg.Admitted) {s : System} (hs : s.Sound api)
    (hjob : job ∈ s.db) (hcounted : ∀ row ∈ s.db, row.Counted cfg)
    (hflight : job.status.isTerminal = false)
    (hfollows : (processDueJob cfg job).Follows (Answers cfg job now fresh) events)
    (hfinishes : (processDueJob cfg job).Finishes events) :
    ∃ row, Settled cfg job now fresh row ∧
      Working api cfg s.db job ((processDueJob cfg job).exec (System.effects api) s events) row := by
  have hsettles : (processDueJob cfg job).Wp storedRow (Answers cfg job now fresh)
      (fun _ => Settled cfg job now fresh) job :=
    processDueJob_settles hadmitted (hcounted job hjob) hflight
  have hstart : Working api cfg s.db job s job :=
    ⟨hs, rfl, hjob, fun _ h _ => h, fun other h _ => hcounted other h⟩
  have hanswered : ∀ (x : System) row (q : Call) answer, Working api cfg s.db job x row →
      Puts (Written cfg (Answers cfg job now fresh) job) q → Answers cfg job now fresh q answer →
      Working api cfg s.db job ((System.effects api).answered x q answer)
        (storedRow row q answer) := by
    intro x row q answer hworks hq hanswer
    cases q with
    | putJob w =>
      obtain rfl : answer = .stored := hanswer
      exact hworks.put (Written.identity_eq hq)
    | _ => exact hworks
  have hreceived : ∀ (x : System) row (r : Submission), Working api cfg s.db job x row →
      Working api cfg s.db job (x.receive api r) row :=
    fun x row r hworks => hworks.receive hadmitted r
  obtain ⟨-, row, hrow, hworks⟩ := Dialogue.Wp.exec (d := System.effects api) hanswered hreceived
    hsettles processDueJob_writes hfollows hfinishes hstart
  exact ⟨row, hrow, hworks⟩

/-- The steps of a run that is not restarted, whose passes come to an end with such answers. -/
def System.Steady (cfg : WorkerConfig) (s : System) : Action → Prop
  | .work jobId _ events _ => ∀ job ∈ s.db.getRow jobId, (processDueJob cfg job).Finishes events ∧
    ∃ now fresh, (processDueJob cfg job).Follows (Answers cfg job now fresh) events
  | .restart _ => False
  | _ => True

/-- What becomes of a job in one step. -/
def RelayJob.Becomes (job row : RelayJob) : Prop :=
  row.jobId = job.jobId ∧ (job.status.isTerminal = true → row = job) ∧
    (job.txHash ≠ none → row.txHash ≠ none ∧ row.nonce = job.nonce)

/-- What a pass over `job` that began at `now` leaves in the table, and what it broadcasts. -/
structure PassedOver (cfg : WorkerConfig) (job : RelayJob) (now : Int64) (fresh : UInt64)
    (asked : List Call) (db : Db) : Prop where
  paced : ∃ row ∈ db, row.jobId = job.jobId ∧ row.Paced now ∧ (∀ t ≤ now, ¬ Db.due t row) ∧
    (job.txHash = none → row.txHash ≠ none → row.nonce = some fresh.toInt64)
  broadcasts : ∀ q ∈ asked, Broadcasts job fresh q
  counted : ∀ row, .putJob row ∈ asked → row.attemptCount ≤ cfg.maxAttempts

theorem System.Steady.step (hadmitted : cfg.Admitted) {s s' : System} (hs : s.Sound api)
    (hcounted : ∀ row ∈ s.db, row.Counted cfg) {a : Action} (hsteady : s.Steady cfg a)
    (h : s.step api cfg a = some s') :
    (∀ row ∈ s'.db, row.Counted cfg) ∧ (∀ job ∈ s.db, ∃ row ∈ s'.db, job.Becomes row) ∧
      ∀ jobId time events revealed, a = .work jobId time events revealed →
        ∀ job ∈ s.db.getRow jobId, ∀ now fresh,
          (processDueJob cfg job).Follows (Answers cfg job now fresh) events →
          PassedOver cfg job now fresh ((processDueJob cfg job).asked events) s'.db := by
  cases a with
  | receive r =>
    cases h
    obtain ⟨hkept, -, hnew⟩ := System.receive_rows api s r
    refine ⟨fun row hrow => ?_, fun job hjob => ?_, fun _ _ _ _ h => by cases h⟩
    · obtain hold | ⟨bytes, payload, rfl⟩ := hnew row hrow
      · exact hcounted row hold
      · exact counted_newJob hadmitted _ _ _ _ _
    · exact ⟨job, hkept job hjob, rfl, fun _ => rfl, fun h => ⟨h, rfl⟩⟩
  | work jobId time events revealed =>
    simp only [System.step] at h
    split at h
    · cases h
    next job hjob =>
      obtain ⟨hmem, hid⟩ := Db.getRow_eq_some hjob
      split at h
      next hdue =>
        cases h
        have hflight : job.status.isTerminal = false := hdue.1.1.1
        obtain ⟨hfinishes, now, fresh, hfollows⟩ := hsteady job hjob
        obtain ⟨row, hsettled, hworks⟩ :=
          processDueJob_works hadmitted hs hmem hcounted hflight hfollows hfinishes
        have hrowId : row.jobId = job.jobId := congrArg Identity.jobId hworks.identity
        refine ⟨fun other hother => ?_, fun other hother => ?_, ?_⟩
        · by_cases hsame : other.jobId = job.jobId
          · obtain rfl := hworks.sound.eq_of_jobId hother hworks.stored (hsame.trans hrowId.symm)
            exact hsettled.counted
          · exact hworks.counted other hother hsame
        · by_cases hsame : other.jobId = job.jobId
          · obtain rfl := hs.eq_of_jobId hother hmem hsame
            refine ⟨row, hworks.stored, hrowId, fun hterminal => ?_, hsettled.keeps.1⟩
            simp [hflight] at hterminal
          · exact ⟨other, hworks.others other hother hsame, rfl, fun _ => rfl, fun h => ⟨h, rfl⟩⟩
        · intro jobId' _ events' _ ha job' hjob' now' fresh' hfollows'
          cases ha
          obtain rfl : job = job' := Option.some.inj (hjob.symm.trans hjob')
          obtain ⟨row', hsettled', hworks'⟩ :=
            processDueJob_works hadmitted hs hmem hcounted hflight hfollows' hfinishes
          refine ⟨⟨row', hworks'.stored, congrArg Identity.jobId hworks'.identity, hsettled'.paced,
            fun t ht => hsettled'.paced.not_due ht, hsettled'.keeps.2⟩, ?_, ?_⟩
          · exact Dialogue.Sat.asked processDueJob_sends hfollows'
          · intro w hw
            have hwritten := Dialogue.Sat.asked processDueJob_writes hfollows' _ hw
            exact Written.attemptCount_le hwritten (hcounted job hmem) hflight
      · cases h
  | restart now => exact hsteady.elim
  | reveal revealed =>
    cases h
    refine ⟨hcounted, fun job hjob => ?_, fun _ _ _ _ h => by cases h⟩
    exact ⟨job, hjob, rfl, fun _ => rfl, fun h => ⟨h, rfl⟩⟩

/-- In a run whose steps are steady the attempts of every job stay within their bound, terminal
jobs and the nonces of broadcast ones stay as they are, and every pass leaves its job done with
or scheduled for later, having broadcast it for the first time or replaced it at its nonce. -/
theorem System.retries_paced (hadmitted : cfg.Admitted) {as : List Action} {a : Action}
    {s s' : System}
    (hsteady : RunMeets (System.step api cfg) (System.Steady cfg) System.start (as ++ [a]))
    (hs : runSteps (System.step api cfg) System.start as = some s)
    (hs' : s.step api cfg a = some s') :
    (∀ row ∈ s'.db, row.attemptCount ≤ cfg.maxAttempts) ∧
      (∀ job ∈ s.db, ∃ row ∈ s'.db, job.Becomes row) ∧
      ∀ jobId time events revealed, a = .work jobId time events revealed →
        ∀ job ∈ s.db.getRow jobId, ∀ now fresh,
          (processDueJob cfg job).Follows (Answers cfg job now fresh) events →
          PassedOver cfg job now fresh ((processDueJob cfg job).asked events) s'.db := by
  obtain ⟨hbefore, hlast⟩ := hsteady.append hs
  have hstart : System.start.Sound api ∧ ∀ row ∈ System.start.db, row.Counted cfg :=
    ⟨System.sound_start, by simp [System.start]⟩
  have hinv : s.Sound api ∧ ∀ row ∈ s.db, row.Counted cfg := by
    refine runSteps_invariant (I := fun x : System => x.Sound api ∧ ∀ row ∈ x.db, row.Counted cfg)
      (fun x b x' hx hguard h => ?_) hstart hbefore hs
    exact ⟨hx.1.step h, (System.Steady.step hadmitted hx.1 hx.2 hguard h).1⟩
  obtain ⟨hcounted, hfollows, hpassed⟩ :=
    System.Steady.step hadmitted hinv.1 hinv.2 hlast.1 hs'
  exact ⟨fun row hrow => (hcounted row hrow).bounded, hfollows, hpassed⟩

end Runs

/-! ## A nonce that is not known -/

namespace Sample

/-- The gateway does not answer for the nonce. -/
def noNonce (g : Gateway) : (q : Call) → q.Answer
  | .getNextNonce => Except.error "connection refused"
  | q => g.answer q

def unsent : Action :=
  .work "job-1" 100 (List.replicate 12 (.answer (noNonce ⟨100, .ok "0xaa", .ok none, 0, []⟩))) []

def oneAttempt : WorkerConfig := { config with maxAttempts := 1 }

theorem oneAttempt_admitted : oneAttempt.Admitted :=
  { config_admitted with maxAttempts := by decide }

/-- A working database and a clock that stands at `now`. -/
def StoredAt (now : Int64) : (q : Call) → q.Answer → Prop
  | .putJob _, answer => answer = .stored
  | .nowTs, time => time = now
  | _, _ => True

instance (now : Int64) : (q : Call) → (answer : q.Answer) → Decidable (StoredAt now q answer)
  | .putJob _, answer => instDecidableEqStored answer .stored
  | .nowTs, time => instDecidableEqInt64 time now
  | .getNextNonce, _ => .isTrue trivial
  | .submitPayload _ _, _ => .isTrue trivial
  | .pollReceipt _, _ => .isTrue trivial
  | .getCurrentFees, _ => .isTrue trivial
  | .getPendingTxFees _, _ => .isTrue trivial
  | .submitPayloadWithFees _ _ _, _ => .isTrue trivial

/-- Every pass of the run comes to its end, at `now` and with its updates stored. -/
def PassesAt (cfg : WorkerConfig) (now : Int64) (s : System) : Action → Prop
  | .work jobId _ events _ => ∀ job ∈ s.db.getRow jobId, (processDueJob cfg job).Finishes events ∧
    (processDueJob cfg job).Follows (StoredAt now) events
  | .restart _ => False
  | _ => True

instance (cfg : WorkerConfig) (now : Int64) (s : System) : (a : Action) →
    Decidable (PassesAt cfg now s a)
  | .work jobId _ _ _ => inferInstanceAs (Decidable (∀ job ∈ s.db.getRow jobId, _ ∧ _))
  | .restart _ => .isFalse id
  | .receive _ => .isTrue trivial
  | .reveal _ => .isTrue trivial

theorem send_steady : RunMeets (System.step appState config) (System.Steady config) System.start
    ([submit] ++ [send]) := by
  refine ⟨trivial, fun s hs => ⟨fun job hjob => ?_, fun _ _ => trivial⟩⟩
  cases hs
  cases hjob
  exact ⟨by decide +kernel, 100, 0, by decide +kernel⟩

end Sample

theorem System.retries_paced_send : Sample.config.Admitted ∧
    RunMeets (System.step Sample.appState Sample.config) (System.Steady Sample.config) System.start
      ([Sample.submit] ++ [Sample.send]) ∧
    (∀ row ∈ (Sample.final Sample.config [Sample.submit, Sample.send]).db,
      row.attemptCount ≤ Sample.config.maxAttempts) ∧
    ∃ row ∈ (Sample.final Sample.config [Sample.submit, Sample.send]).db,
      row.jobId = "job-1" ∧ row.Paced 100 := by
  have hsubmit : runSteps (System.step Sample.appState Sample.config) System.start [Sample.submit] =
      some (Sample.final Sample.config [Sample.submit]) := Sample.run_final (by decide +kernel)
  have hsend : runSteps (System.step Sample.appState Sample.config)
      (Sample.final Sample.config [Sample.submit]) [Sample.send] =
      some (Sample.final Sample.config [Sample.submit, Sample.send]) :=
    Sample.run_final_rest (by decide +kernel) (by decide +kernel)
  obtain ⟨hcounted, -, hpassed⟩ :=
    System.retries_paced Sample.config_admitted Sample.send_steady hsubmit hsend
  have hjob : Sample.firstJob ∈
      (Sample.final Sample.config [Sample.submit]).db.getRow "job-1" := by decide +kernel
  obtain ⟨row, hrow, hid, hpaced, -⟩ :=
    (hpassed _ _ _ _ rfl Sample.firstJob hjob 100 0 (by decide +kernel)).paced
  exact ⟨Sample.config_admitted, Sample.send_steady, hcounted, row, hrow, hid, hpaced⟩

/-- Two passes that did not learn the nonce: the job was taken up again at once, and more often
than its configuration allows. -/
theorem System.attempts_unbounded : Sample.oneAttempt.Admitted ∧
    RunMeets (System.step Sample.appState Sample.oneAttempt) (Sample.PassesAt Sample.oneAttempt 100)
      System.start [Sample.submit, Sample.unsent, Sample.unsent] ∧
    ∃ s, runSteps (System.step Sample.appState Sample.oneAttempt) System.start
        [Sample.submit, Sample.unsent, Sample.unsent] = some s ∧
      ∃ row ∈ s.db, Sample.oneAttempt.maxAttempts < row.attemptCount ∧ ¬ row.Paced 100 ∧
        Db.due 100 row := by
  have hdue : Db.due 100
      (Sample.finalJob Sample.oneAttempt [Sample.submit, Sample.unsent, Sample.unsent]) := by
    decide +kernel
  refine ⟨Sample.oneAttempt_admitted, by decide +kernel,
    Sample.final Sample.oneAttempt [Sample.submit, Sample.unsent, Sample.unsent],
    Sample.run_final (by decide +kernel),
    Sample.finalJob Sample.oneAttempt [Sample.submit, Sample.unsent, Sample.unsent],
    by decide +kernel, by decide +kernel, fun hpaced => ?_, hdue⟩
  exact hpaced.not_due (Int64.le_refl 100) hdue

end DigitalObjects.Relayer
