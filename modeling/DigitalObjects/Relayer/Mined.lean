import DigitalObjects.Relayer.Api
set_option autoImplicit false

/-!
What becomes of a job one of whose transactions was mined. The chain shows each receipt from
some moment on, and no two receipts of one nonce.
-/

namespace DigitalObjects.Relayer

open Lib

def Receipts.Mined (rs : Receipts) (hash : String) : Prop :=
  ∃ block, rs.lookup hash = some ⟨true, block⟩

/-- A nonce is consumed by at most one transaction. -/
def Receipts.OneEach (nonceOf : String → UInt64) (rs : Receipts) : Prop :=
  ∀ a ∈ rs, ∀ b ∈ rs, nonceOf a.1 = nonceOf b.1 → a.1 = b.1

/-- The gateway may fail, but what it shows is the chain: receipts in `before` are there already,
those in `after` are there by the end of the poll, and a broadcast transaction has the nonce it
was sent with. -/
def Agrees (nonceOf : String → UInt64) (before after : Receipts) : (q : Call) → q.Answer → Prop
  | .pollReceipt hash, .ok (some receipt) => after.lookup hash = some receipt
  | .pollReceipt hash, .ok none => before.lookup hash = none
  | .submitPayload _ nonce, .ok hash => nonceOf hash = nonce
  | .submitPayloadWithFees _ nonce _, .ok hash => nonceOf hash = nonce
  | _, _ => True

instance (rs : Receipts) (hash : String) : Decidable (rs.Mined hash) :=
  decidable_of_iff ((rs.lookup hash).any ReceiptOutcome.success = true) <| by
    unfold Receipts.Mined
    cases rs.lookup hash with
    | none => simp
    | some receipt =>
      obtain ⟨success, block⟩ := receipt
      simp

instance (nonceOf : String → UInt64) (rs : Receipts) : Decidable (rs.OneEach nonceOf) :=
  inferInstanceAs (Decidable (∀ a ∈ rs, ∀ b ∈ rs, _))

instance (nonceOf : String → UInt64) (before after : Receipts) : (q : Call) → (answer : q.Answer) →
    Decidable (Agrees nonceOf before after q answer)
  | .pollReceipt _, .ok (some _) => inferInstanceAs (Decidable (_ = _))
  | .pollReceipt _, .ok none => inferInstanceAs (Decidable (_ = _))
  | .pollReceipt _, .error _ => .isTrue trivial
  | .submitPayload _ _, .ok _ => inferInstanceAs (Decidable (_ = _))
  | .submitPayload _ _, .error _ => .isTrue trivial
  | .submitPayloadWithFees _ _ _, .ok _ => inferInstanceAs (Decidable (_ = _))
  | .submitPayloadWithFees _ _ _, .error _ => .isTrue trivial
  | .nowTs, _ => .isTrue trivial
  | .putJob _, _ => .isTrue trivial
  | .getNextNonce, _ => .isTrue trivial
  | .getCurrentFees, _ => .isTrue trivial
  | .getPendingTxFees _, _ => .isTrue trivial

/-- One of the job's transactions was mined. -/
def RelayJob.SomeMined (job : RelayJob) (rs : Receipts) : Prop := ∃ m ∈ job.hashes, rs.Mined m

/-- One of the job's replaced transactions was mined. -/
def RelayJob.PrevMined (job : RelayJob) (rs : Receipts) : Prop := ∃ m ∈ job.prevTxHashes, rs.Mined m

instance (job : RelayJob) (rs : Receipts) : Decidable (job.SomeMined rs) :=
  inferInstanceAs (Decidable (∃ m ∈ job.hashes, _))

instance (job : RelayJob) (rs : Receipts) : Decidable (job.PrevMined rs) :=
  inferInstanceAs (Decidable (∃ m ∈ job.prevTxHashes, _))

/-- The answers under which a poll does not lose sight of a mined transaction: the timeout is not
reached, a failed poll leaves attempts, the last bump is not spent, and once a replaced
transaction was mined its nonce shows as consumed and its receipt as there. -/
def Patient (cfg : WorkerConfig) (job : RelayJob) (rs : Receipts) : (q : Call) → q.Answer → Prop
  | .nowTs, now => job.SomeMined rs → receiptTimeout cfg job now = none
  | .pollReceipt hash, .error err =>
    (job.txHash = some hash → job.SomeMined rs →
      isPermanentError err = false ∧ job.attemptCount < cfg.maxAttempts) ∧
    (hash ∈ job.prevTxHashes → ¬ rs.Mined hash)
  | .pollReceipt hash, .ok none => hash ∈ job.prevTxHashes → ¬ rs.Mined hash
  | .getNextNonce, .ok current => job.PrevMined rs → ∀ nonce ∈ job.nonce, nonce.toUInt64 < current
  | .getNextNonce, .error _ => ¬ job.PrevMined rs
  | .submitPayloadWithFees _ _ _, .ok _ => job.SomeMined rs →
    job.bumpCount.toUInt32 + 1 < cfg.feeBumpMax
  | _, _ => True

instance (cfg : WorkerConfig) (job : RelayJob) (rs : Receipts) : (q : Call) → (answer : q.Answer) →
    Decidable (Patient cfg job rs q answer)
  | .nowTs, _ => inferInstanceAs (Decidable (_ → _ = _))
  | .pollReceipt _, .error _ => inferInstanceAs (Decidable ((_ = _ → _ → _ ∧ _) ∧ (_ → ¬ _)))
  | .pollReceipt _, .ok none => inferInstanceAs (Decidable (_ → ¬ _))
  | .pollReceipt _, .ok (some _) => .isTrue trivial
  | .getNextNonce, .ok current =>
    -- given by name: nonces are finitely many, and a search may find the test of them all
    have : Decidable (∀ nonce ∈ job.nonce, nonce.toUInt64 < current) := Option.decidableForallMem _
    inferInstanceAs (Decidable (_ → _))
  | .getNextNonce, .error _ => inferInstanceAs (Decidable (¬ _))
  | .submitPayloadWithFees _ _ _, .ok _ => inferInstanceAs (Decidable (_ → _ < _))
  | .submitPayloadWithFees _ _ _, .error _ => .isTrue trivial
  | .submitPayload _ _, _ => .isTrue trivial
  | .putJob _, _ => .isTrue trivial
  | .getCurrentFees, _ => .isTrue trivial
  | .getPendingTxFees _, _ => .isTrue trivial

/-- The bump budget of a job in flight lasts while a replaced transaction of it is mined. -/
def BudgetLeft (cfg : WorkerConfig) (db : Db) (rs : Receipts) : Prop :=
  ∀ job ∈ db, job.status.isTerminal = false → job.PrevMined rs →
    job.bumpCount.toUInt32 < cfg.feeBumpMax

instance (cfg : WorkerConfig) (db : Db) (rs : Receipts) : Decidable (BudgetLeft cfg db rs) :=
  inferInstanceAs (Decidable (∀ job ∈ db, _ → _ → _))

/-- The receipts after an action. -/
def System.receiptsAfter (s : System) : Action → Receipts
  | .work _ _ _ revealed => s.receipts ++ revealed
  | .reveal revealed => s.receipts ++ revealed
  | _ => s.receipts

/-- What the chain promises of an action. -/
def System.Honest (nonceOf : String → UInt64) (cfg : WorkerConfig) (s : System) (a : Action) : Prop :=
  (s.receiptsAfter a).OneEach nonceOf ∧ match a with
  | .work jobId _ events _ => ∀ job ∈ s.db.getRow jobId,
    (processDueJob cfg job).Follows (Agrees nonceOf s.receipts (s.receiptsAfter a)) events
  | _ => True

def System.Spared (cfg : WorkerConfig) (s : System) (a : Action) : Prop :=
  BudgetLeft cfg s.db (s.receiptsAfter a) ∧ match a with
  | .work jobId _ events _ => ∀ job ∈ s.db.getRow jobId,
    (processDueJob cfg job).Follows (Patient cfg job (s.receiptsAfter a)) events
  | _ => True

instance (nonceOf : String → UInt64) (cfg : WorkerConfig) (s : System) : (a : Action) →
    Decidable (s.Honest nonceOf cfg a)
  | .work _ _ _ _ => inferInstanceAs (Decidable (_ ∧ ∀ job ∈ s.db.getRow _, _))
  | .receive _ => inferInstanceAs (Decidable (_ ∧ True))
  | .restart _ => inferInstanceAs (Decidable (_ ∧ True))
  | .reveal _ => inferInstanceAs (Decidable (_ ∧ True))

instance (cfg : WorkerConfig) (s : System) : (a : Action) → Decidable (s.Spared cfg a)
  | .work _ _ _ _ => inferInstanceAs (Decidable (_ ∧ ∀ job ∈ s.db.getRow _, _))
  | .receive _ => inferInstanceAs (Decidable (_ ∧ True))
  | .restart _ => inferInstanceAs (Decidable (_ ∧ True))
  | .reveal _ => inferInstanceAs (Decidable (_ ∧ True))

/-- A poll of the job asks for the receipt of `m`, now or once a bump is due. -/
def Polls (cfg : WorkerConfig) (job : RelayJob) (m : String) : Prop :=
  job.txHash = some m ∨ (m ∈ job.prevTxHashes ∧ cfg.feeBumpAfterSecs.isSome ∧
    job.submittedAt.isSome ∧ job.nonce.isSome ∧ job.bumpCount.toUInt32 < cfg.feeBumpMax)

/-- The job is confirmed by `m`, or scheduled to be polled for it. -/
def Tracked (cfg : WorkerConfig) (job : RelayJob) (m : String) : Prop :=
  (job.status = .confirmed ∧ job.txHash = some m) ∨
    (job.status.isTerminal = false ∧ job.nextAttemptAt.isSome ∧ Polls cfg job m)

instance (cfg : WorkerConfig) (job : RelayJob) (m : String) : Decidable (Polls cfg job m) :=
  inferInstanceAs (Decidable (_ ∨ _))

instance (cfg : WorkerConfig) (job : RelayJob) (m : String) : Decidable (Tracked cfg job m) :=
  inferInstanceAs (Decidable (_ ∨ _))

/-! ## Rows -/

/-- The transactions of a job: all at its nonce, and replaced only by fee bumps. -/
structure Chained (cfg : WorkerConfig) (nonceOf : String → UInt64) (job : RelayJob) : Prop where
  fresh : job.txHash = none → job.prevTxHashes = []
  nonce : ∀ hash ∈ job.hashes, ∃ nonce, job.nonce = some nonce ∧ nonceOf hash = nonce.toUInt64
  dated : job.txHash.isSome → job.submittedAt.isSome
  bumped : job.prevTxHashes ≠ [] → cfg.feeBumpAfterSecs.isSome

/-- A row as the worker leaves it: no mined transaction is lost, unless the job had failed. -/
structure Good (cfg : WorkerConfig) (nonceOf : String → UInt64) (rs : Receipts) (job : RelayJob) :
    Prop where
  chained : Chained cfg nonceOf job
  scheduled : job.status.isTerminal = false → job.nextAttemptAt.isSome
  confirmed : job.status = .confirmed → ∃ hash, job.txHash = some hash ∧ rs.Mined hash
  tracked : ∀ m ∈ job.hashes, rs.Mined m → job.status ≠ .failed → Tracked cfg job m

variable {cfg : WorkerConfig} {nonceOf : String → UInt64} {rs rs' before : Receipts}
  {job row : RelayJob} {m hash : String}

theorem Receipts.Mined.append (h : rs.Mined m) (more : Receipts) : (rs ++ more).Mined m := by
  obtain ⟨block, hblock⟩ := h
  exact ⟨block, by simp [List.lookup_append, hblock]⟩

theorem mem_hashes : m ∈ job.hashes ↔ job.txHash = some m ∨ m ∈ job.prevTxHashes := by
  simp [RelayJob.hashes]

/-- Two receipts of transactions of one job are of one transaction. -/
theorem Chained.eq_of_receipts (h : Chained cfg nonceOf job) (hone : rs.OneEach nonceOf)
    {a b : String} (ha : a ∈ job.hashes) (hb : b ∈ job.hashes) {o o' : ReceiptOutcome}
    (hao : rs.lookup a = some o) (hbo : rs.lookup b = some o') : a = b := by
  obtain ⟨n, hn, hna⟩ := h.nonce a ha
  obtain ⟨n', hn', hnb⟩ := h.nonce b hb
  obtain rfl : n = n' := by
    rw [hn] at hn'
    exact Option.some.inj hn'
  obtain ⟨l, r, hrs, -⟩ := List.lookup_eq_some_iff.mp hao
  obtain ⟨l', r', hrs', -⟩ := List.lookup_eq_some_iff.mp hbo
  exact hone (a, o) (by simp [hrs]) (b, o') (by simp [hrs']) (hna.trans hnb.symm)

theorem Chained.eq_of_mined (h : Chained cfg nonceOf job) (hone : rs.OneEach nonceOf)
    {a b : String} (ha : a ∈ job.hashes) (hb : b ∈ job.hashes) (hma : rs.Mined a) (hmb : rs.Mined b) :
    a = b := by
  obtain ⟨block, hblock⟩ := hma
  obtain ⟨block', hblock'⟩ := hmb
  exact h.eq_of_receipts hone ha hb hblock hblock'

/-- Rows that differ in nothing that the transactions of the job depend on. -/
theorem Chained.congr (h : Chained cfg nonceOf job) (hhash : row.txHash = job.txHash)
    (hprev : row.prevTxHashes = job.prevTxHashes) (hnonce : row.nonce = job.nonce)
    (hdate : row.submittedAt = job.submittedAt) : Chained cfg nonceOf row := by
  obtain ⟨hfresh, hnonces, hdated, hbumped⟩ := h
  constructor
  · rwa [hhash, hprev]
  · rwa [RelayJob.hashes, hhash, hprev, hnonce]
  · rwa [hhash, hdate]
  · rwa [hprev]

/-- A mined transaction of a job in flight is polled while the budget lasts. -/
theorem Chained.polls (h : Chained cfg nonceOf job) (hm : m ∈ job.hashes)
    (hbudget : m ∈ job.prevTxHashes → job.bumpCount.toUInt32 < cfg.feeBumpMax) : Polls cfg job m := by
  obtain hhash | hprev := mem_hashes.mp hm
  · exact .inl hhash
  · obtain ⟨n, hn, -⟩ := h.nonce m hm
    have hne : job.prevTxHashes ≠ [] := List.ne_nil_of_mem hprev
    have hsome : job.txHash.isSome := by
      cases hhash : job.txHash with
      | none => exact absurd (h.fresh hhash) hne
      | some hash => rfl
    exact .inr ⟨hprev, h.bumped hne, h.dated hsome, by simp [hn], hbudget hprev⟩

/-- More receipts: rows in flight need their budget. -/
theorem Good.reveal (h : Good cfg nonceOf rs job) {more : Receipts}
    (hone : (rs ++ more).OneEach nonceOf)
    (hbudget : job.status.isTerminal = false → job.PrevMined (rs ++ more) →
      job.bumpCount.toUInt32 < cfg.feeBumpMax) : Good cfg nonceOf (rs ++ more) job := by
  refine ⟨h.chained, h.scheduled, ?_, ?_⟩
  · intro hstatus
    obtain ⟨hash, hhash, hmined⟩ := h.confirmed hstatus
    exact ⟨hash, hhash, hmined.append more⟩
  · intro m hm hmined hfailed
    cases hterminal : job.status.isTerminal with
    | false =>
      have hpolls := h.chained.polls hm fun hprev => hbudget hterminal ⟨m, hprev, hmined⟩
      exact .inr ⟨hterminal, h.scheduled hterminal, hpolls⟩
    | true =>
      have hconfirmed : job.status = .confirmed := by
        cases hstatus : job.status <;> simp_all [JobStatus.isTerminal]
      obtain ⟨hash, hhash, hhashMined⟩ := h.confirmed hconfirmed
      have hsame := h.chained.eq_of_mined hone hm (mem_hashes.mpr (.inl hhash)) hmined
        (hhashMined.append more)
      exact .inl ⟨hconfirmed, hsame ▸ hhash⟩

theorem Chained.good_inFlight (h : Chained cfg nonceOf row) (hstatus : row.status.isTerminal = false)
    (hnext : row.nextAttemptAt.isSome)
    (hbudget : row.PrevMined rs → row.bumpCount.toUInt32 < cfg.feeBumpMax) :
    Good cfg nonceOf rs row := by
  refine ⟨h, fun _ => hnext, ?_, ?_⟩
  · intro hconfirmed
    simp [hconfirmed, JobStatus.isTerminal] at hstatus
  · intro m hm hmined _
    exact .inr ⟨hstatus, hnext, h.polls hm fun hprev => hbudget ⟨m, hprev, hmined⟩⟩

theorem Chained.good_failed (h : Chained cfg nonceOf row) (hstatus : row.status = .failed) :
    Good cfg nonceOf rs row := by
  refine ⟨h, ?_, ?_, fun m _ _ hfailed => absurd hstatus hfailed⟩
  · simp [hstatus, JobStatus.isTerminal]
  · simp [hstatus]

theorem Chained.good_confirmed (h : Chained cfg nonceOf row) (hone : rs.OneEach nonceOf)
    (hstatus : row.status = .confirmed) (hhash : row.txHash = some hash) (hmined : rs.Mined hash) :
    Good cfg nonceOf rs row := by
  refine ⟨h, ?_, fun _ => ⟨hash, hhash, hmined⟩, ?_⟩
  · simp [hstatus, JobStatus.isTerminal]
  · intro m hm hm' _
    have hsame := h.eq_of_mined hone hm (mem_hashes.mpr (.inl hhash)) hm' hmined
    exact .inl ⟨hstatus, hsame ▸ hhash⟩

/-- The mined transactions of `job` are still transactions of `row`, which has not failed. -/
def Keeps (rs : Receipts) (job row : RelayJob) : Prop :=
  ∀ m ∈ job.hashes, rs.Mined m → row.status ≠ .failed ∧ m ∈ row.hashes

/-! ## What a poll keeps -/

theorem bumpDue_eq_some {now : Int64} {nonce : UInt64} (h : bumpDue cfg job now = some nonce) :
    cfg.feeBumpAfterSecs.isSome ∧ job.submittedAt.isSome ∧
      ∃ n, job.nonce = some n ∧ nonce = n.toUInt64 := by
  unfold bumpDue at h
  split at h
  next bumpAfter submittedAt n hafter hdate hn =>
    dsimp only at h
    split at h
    · cases h
      exact ⟨by simp [hafter], by simp [hdate], n, hn, rfl⟩
    · cases h
  next => cases h

section Poll

variable {G : (q : Call) → q.Answer → Prop}

/-- A mined transaction does not show as unconfirmed. -/
theorem not_unconfirmed (hagrees : ∀ q a, G q a → Agrees nonceOf before rs q a)
    (hpatient : ∀ q a, G q a → Patient cfg job rs q a) (hm : m ∈ job.prevTxHashes)
    (hmined : rs.Mined m) : ¬ Unconfirmed G m := by
  rintro ⟨answer, hanswer, hnot⟩
  obtain ⟨block, hblock⟩ := hmined
  have hshows := hagrees _ _ hanswer
  have hthere := hpatient _ _ hanswer
  match answer, hshows, hthere, hnot with
  | .error e, _, hthere, _ => exact hthere.2 hm ⟨block, hblock⟩
  | .ok none, _, hthere, _ => exact hthere hm ⟨block, hblock⟩
  | .ok (some receipt), hshows, _, hnot =>
    have hreceipt : some receipt = some ⟨true, block⟩ := hshows.symm.trans hblock
    cases hreceipt
    exact hnot block rfl

/-- While the nonce counts as unused no replaced transaction of the job was mined. -/
theorem not_prevMined_of_unused (hpatient : ∀ q a, G q a → Patient cfg job rs q a) {now : Int64}
    {nonce : UInt64} (hdue : bumpDue cfg job now = some nonce) {answer : Except String UInt64}
    (hanswer : G .getNextNonce answer)
    (hunused : ∀ current, answer = .ok current → current ≤ nonce) : ¬ job.PrevMined rs := by
  intro hmined
  obtain ⟨-, -, n, hn, rfl⟩ := bumpDue_eq_some hdue
  have hshows := hpatient _ _ hanswer
  match answer, hshows, hunused with
  | .error e, hshows, _ => exact hshows hmined
  | .ok current, hshows, hunused =>
    have hle := hunused current rfl
    have hgt := hshows hmined n hn
    exact UInt64.not_lt.mpr hle hgt

theorem Written.keeps (hgood : Good cfg nonceOf rs job) (hflight : job.status.isTerminal = false)
    (hone : rs.OneEach nonceOf)
    (hbudget : job.PrevMined rs → job.bumpCount.toUInt32 < cfg.feeBumpMax)
    (hagrees : ∀ q a, G q a → Agrees nonceOf before rs q a)
    (hpatient : ∀ q a, G q a → Patient cfg job rs q a) (h : Written cfg G job row) :
    Good cfg nonceOf rs row ∧ Keeps rs job row := by
  have hchained := hgood.chained
  have hnext := hgood.scheduled hflight
  have hempty : job.txHash = none → job.hashes = [] := by
    intro hhash
    simp [RelayJob.hashes, hhash, hchained.fresh hhash]
  have halive : job.status ≠ .failed := by
    intro hfailed
    rw [hfailed] at hflight
    cases hflight
  have hnone : job.txHash = none → ∀ row, Keeps rs job row := by
    intro hhash row m hm
    simp [hempty hhash] at hm
  cases h with
  | sending now hhash =>
    exact ⟨Chained.good_inFlight (hchained.congr rfl rfl rfl rfl) rfl hnext hbudget, hnone hhash _⟩
  | sent now nonce hash hhash hanswer =>
    have hprev := hchained.fresh hhash
    have hnonce : nonceOf hash = nonce := hagrees _ _ hanswer
    refine ⟨Chained.good_inFlight ⟨?_, ?_, ?_, ?_⟩ rfl rfl ?_, hnone hhash _⟩
    · simp
    · simp [RelayJob.hashes, hprev, hnonce]
    · simp
    · simp [hprev]
    · rintro ⟨m, hm, -⟩
      simp [hprev] at hm
  | sendFailed now err hhash =>
    exact ⟨Chained.good_failed (hchained.congr rfl rfl rfl rfl) rfl, hnone hhash _⟩
  | sendRetried now time err hhash =>
    exact ⟨Chained.good_inFlight (hchained.congr rfl rfl rfl rfl) rfl rfl hbudget, hnone hhash _⟩
  | timedOut now reason timeoutSecs hash hhash hnow htimeout =>
    refine ⟨Chained.good_failed (hchained.congr rfl rfl rfl rfl) rfl, ?_⟩
    intro m hm hmined
    have hlate : receiptTimeout cfg job now = none := hpatient _ _ hnow ⟨m, hm, hmined⟩
    rw [hlate] at htimeout
    cases htimeout
  | polling now hash hhash =>
    exact ⟨Chained.good_inFlight (hchained.congr rfl rfl rfl rfl) hflight hnext hbudget,
      fun m hm _ => ⟨halive, hm⟩⟩
  | confirmed now hash block hhash hanswer =>
    have hmined : rs.Mined hash := ⟨block, hagrees _ _ hanswer⟩
    exact ⟨Chained.good_confirmed (hchained.congr rfl rfl rfl rfl) hone rfl hhash hmined,
      fun m hm _ => ⟨by simp, hm⟩⟩
  | reverted now hash reason block hhash hanswer =>
    refine ⟨Chained.good_failed (hchained.congr rfl rfl rfl rfl) rfl, ?_⟩
    intro m hm hmined
    obtain ⟨block', hblock'⟩ := hmined
    have hreverted : rs.lookup hash = some ⟨false, block⟩ := hagrees _ _ hanswer
    obtain rfl := hchained.eq_of_receipts hone hm (mem_hashes.mpr (.inl hhash)) hblock' hreverted
    simp [hreverted] at hblock'
  | pollFailed now hash err hhash hanswer hgivesUp =>
    refine ⟨Chained.good_failed (hchained.congr rfl rfl rfl rfl) rfl, ?_⟩
    intro m hm hmined
    obtain ⟨htransient, hleft⟩ := (hpatient _ _ hanswer).1 hhash ⟨m, hm, hmined⟩
    obtain hpermanent | hspent := hgivesUp
    · simp [htransient] at hpermanent
    · exact absurd hleft (UInt32.not_lt.mpr hspent)
  | pollRetried now time hash err hhash =>
    exact ⟨Chained.good_inFlight (hchained.congr rfl rfl rfl rfl) rfl rfl hbudget,
      fun m hm _ => ⟨by simp, hm⟩⟩
  | pollAgain now hash hhash =>
    exact ⟨Chained.good_inFlight (hchained.congr rfl rfl rfl rfl) rfl rfl hbudget,
      fun m hm _ => ⟨by simp, hm⟩⟩
  | bumped now hash new nonce fees hhash hdue hunmined hanswer =>
    obtain ⟨hafter, hdate, n, hn, rfl⟩ := bumpDue_eq_some hdue
    have hnew : nonceOf new = n.toUInt64 := hagrees _ _ hanswer
    have hleft : job.SomeMined rs → job.bumpCount.toUInt32 + 1 < cfg.feeBumpMax :=
      hpatient _ _ hanswer
    have hold : ∀ m, m ∈ job.prevTxHashes ++ [hash] ↔ m ∈ job.hashes := by
      intro m
      simp [mem_hashes, hhash, or_comm, eq_comm]
    refine ⟨Chained.good_inFlight ⟨?_, ?_, ?_, ?_⟩ hflight rfl ?_, ?_⟩
    · simp
    · intro m hm
      obtain hm | hm := mem_hashes.mp hm
      · cases hm
        exact ⟨n, hn, hnew⟩
      · exact hchained.nonce m ((hold m).mp hm)
    · exact fun _ => hdate
    · exact fun _ => hafter
    · rintro ⟨m, hm, hmined⟩
      exact hleft ⟨m, (hold m).mp hm, hmined⟩
    · exact fun m hm _ => ⟨halive, mem_hashes.mpr (.inr ((hold m).mpr hm))⟩
  | minedEarlier now hash mined block hhash hmem hanswer =>
    have hmined : rs.Mined mined := ⟨block, hagrees _ _ hanswer⟩
    have hin : mined ∈ job.hashes := mem_hashes.mpr (.inr hmem)
    have hsub : ∀ m, some mined = some m ∨ m ∈ job.prevTxHashes → m ∈ job.hashes := by
      rintro m (hm | hm)
      · cases hm
        exact hin
      · exact mem_hashes.mpr (.inr hm)
    refine ⟨Chained.good_confirmed ⟨?_, ?_, ?_, ?_⟩ hone rfl rfl hmined, ?_⟩
    · simp
    · exact fun m hm => hchained.nonce m (hsub m (mem_hashes.mp hm))
    · exact fun _ => hchained.dated (by simp [hhash])
    · exact hchained.bumped
    · intro m hm hm'
      obtain rfl := hchained.eq_of_mined hone hm hin hm' hmined
      exact ⟨by simp, mem_hashes.mpr (.inl rfl)⟩
  | exhausted now hash nonce hhash hdue hunmined =>
    refine ⟨Chained.good_inFlight (hchained.congr rfl rfl rfl rfl) hflight rfl ?_,
      fun m hm _ => ⟨halive, hm⟩⟩
    rintro ⟨m, hm, hmined⟩
    exact absurd (hunmined m hm) (not_unconfirmed hagrees hpatient hm hmined)
  | dropping now hash nonce answer hhash hdue hanswer hunused =>
    have hnot := not_prevMined_of_unused hpatient hdue hanswer hunused
    exact ⟨Chained.good_inFlight (hchained.congr rfl rfl rfl rfl) hflight hnext
      fun hmined => absurd hmined hnot, fun m hm _ => ⟨halive, hm⟩⟩
  | dropped now hash nonce answer hhash hdue hanswer hunused =>
    have hnot := not_prevMined_of_unused hpatient hdue hanswer hunused
    exact ⟨Chained.good_inFlight (hchained.congr rfl rfl rfl rfl) rfl rfl
      fun hmined => absurd hmined hnot, fun m hm _ => ⟨by simp, hm⟩⟩

end Poll

/-! ## Runs -/

variable {Proof : Type} {api : AppState Proof}

/-- The keys of the table are sound and every row is good. -/
structure System.Inv (api : AppState Proof) (cfg : WorkerConfig) (nonceOf : String → UInt64)
    (s : System) : Prop where
  sound : s.Sound api
  good : ∀ row ∈ s.db, Good cfg nonceOf s.receipts row

theorem good_newJob (jobId : String) (now : Int64) (bytes : Wire.Bytes)
    (payload : Wire.Payload Proof) (clientRef : Option String) :
    Good cfg nonceOf rs (newJob jobId now bytes payload clientRef) := by
  refine Chained.good_inFlight ⟨?_, ?_, ?_, ?_⟩ rfl rfl ?_
  · simp [newJob]
  · simp [newJob, RelayJob.hashes]
  · simp [newJob]
  · simp [newJob]
  · simp [newJob, RelayJob.PrevMined]

/-- What the worker writes for `job`. -/
def Turn (cfg : WorkerConfig) (nonceOf : String → UInt64) (rs : Receipts) (job row : RelayJob) :
    Prop :=
  row.jobId = job.jobId ∧ Good cfg nonceOf rs row ∧ Keeps rs job row

theorem processDueJob_turn (before : Receipts) (hgood : Good cfg nonceOf rs job) (hflight : job.status.isTerminal = false)
    (hone : rs.OneEach nonceOf)
    (hbudget : job.PrevMined rs → job.bumpCount.toUInt32 < cfg.feeBumpMax) :
    Writes (fun q a => Agrees nonceOf before rs q a ∧ Patient cfg job rs q a)
      (Turn cfg nonceOf rs job) (processDueJob cfg job) := by
  refine Dialogue.Sat.imp processDueJob_writes (fun _ _ h => h) fun q hq => ?_
  cases q with
  | putJob row =>
    have hkeeps := Written.keeps hgood hflight hone hbudget (fun _ _ h => h.1) (fun _ _ h => h.2) hq
    exact ⟨congrArg Identity.jobId (Written.identity_eq hq), hkeeps⟩
  | _ => trivial

/-- The rows after a turn of the worker are good, and every row that had not failed is kept. -/
theorem System.exec_keeps (api : AppState Proof) {s : System} {job : RelayJob} {G : (q : Call) → q.Answer → Prop}
    {events : List (Dialogue.Event Submission Call Call.Answer)}
    (hgood : ∀ row ∈ s.db, Good cfg nonceOf rs row)
    (honly : ∀ row ∈ s.db, row.jobId = job.jobId → row = job)
    (hwrites : Writes G (Turn cfg nonceOf rs job) (processDueJob cfg job))
    (hfollows : (processDueJob cfg job).Follows G events) :
    ((processDueJob cfg job).exec (System.effects api) s events).receipts = s.receipts ∧
    (∀ row ∈ ((processDueJob cfg job).exec (System.effects api) s events).db,
      Good cfg nonceOf rs row) ∧
    ∀ row ∈ s.db, row.status ≠ .failed →
      ∃ row' ∈ ((processDueJob cfg job).exec (System.effects api) s events).db,
        row'.jobId = row.jobId ∧ Keeps rs row row' := by
  refine Dialogue.Sat.exec (I := fun s' : System => s'.receipts = s.receipts ∧
    (∀ row ∈ s'.db, Good cfg nonceOf rs row) ∧ ∀ row ∈ s.db, row.status ≠ .failed →
      ∃ row' ∈ s'.db, row'.jobId = row.jobId ∧ Keeps rs row row') ?_ ?_ hwrites hfollows
    ⟨rfl, hgood, fun row hrow hfailed => ⟨row, hrow, rfl, fun m hm _ => ⟨hfailed, hm⟩⟩⟩
  · intro s' q answer hs' hq _
    obtain heq | ⟨w, rfl, heq⟩ := System.effects_answered api s' q answer
    · rw [heq]
      exact hs'
    · obtain ⟨hid, hgoodw, hkeeps⟩ : Turn cfg nonceOf rs job w := hq
      rw [heq]
      refine ⟨hs'.1, fun row hrow => ?_, fun row hrow hfailed => ?_⟩
      · obtain rfl | ⟨hmem, -⟩ := Db.mem_putJob hrow
        · exact hgoodw
        · exact hs'.2.1 row hmem
      · obtain ⟨row', hrow', hsame, hkept⟩ := hs'.2.2 row hrow hfailed
        by_cases hjob : row.jobId = job.jobId
        · obtain rfl := honly row hrow hjob
          exact ⟨w, Db.mem_putJob_self hrow' (hsame.trans hid.symm), hid, hkeeps⟩
        · have hother : row'.jobId ≠ w.jobId := by
            rw [hsame, hid]
            exact hjob
          exact ⟨row', Db.mem_putJob_other hrow' hother, hsame, hkept⟩
  · intro s' r hs'
    obtain ⟨hsub, hreceipts, hnew⟩ := System.receive_rows api s' r
    refine ⟨hreceipts.trans hs'.1, fun row hrow => ?_, fun row hrow hfailed => ?_⟩
    · obtain hmem | ⟨bytes, payload, rfl⟩ := hnew row hrow
      · exact hs'.2.1 row hmem
      · exact good_newJob _ _ _ _ _
    · obtain ⟨row', hrow', hsame, hkept⟩ := hs'.2.2 row hrow hfailed
      exact ⟨row', hsub row' hrow', hsame, hkept⟩

/-- A recovered row: the transactions of the job are left as they are. -/
theorem recover_row (hgood : Good cfg nonceOf rs job)
    (hbudget : job.status.isTerminal = false → job.PrevMined rs →
      job.bumpCount.toUInt32 < cfg.feeBumpMax) (now : Int64)
    (h : row = if job.status = .sending ∨ (job.status = .submitted ∧ job.txHash = none) then
      { job with status := .queued, nextAttemptAt := some now, updatedAt := now } else job) :
    row.jobId = job.jobId ∧ Good cfg nonceOf rs row ∧ (job.status ≠ .failed → Keeps rs job row) := by
  split at h
  next hcase =>
    subst h
    have hflight : job.status.isTerminal = false := by
      obtain hstatus | ⟨hstatus, -⟩ := hcase <;> simp [hstatus, JobStatus.isTerminal]
    exact ⟨rfl, Chained.good_inFlight (hgood.chained.congr rfl rfl rfl rfl) rfl rfl
      (hbudget hflight), fun _ m hm _ => ⟨by simp, hm⟩⟩
  next =>
    subst h
    exact ⟨rfl, hgood, fun hfailed m hm _ => ⟨hfailed, hm⟩⟩

theorem System.Inv.start : System.start.Inv api cfg nonceOf := by
  refine ⟨System.sound_start, ?_⟩
  simp [System.start]

/-- One step of an honest run that spares its mined transactions. -/
theorem System.Inv.step {s s' : System} (hs : s.Inv api cfg nonceOf) {a : Action}
    (hhonest : s.Honest nonceOf cfg a) (hspared : s.Spared cfg a) (h : s.step api cfg a = some s') :
    s'.Inv api cfg nonceOf ∧ s'.receipts = s.receiptsAfter a ∧
      ∀ row ∈ s.db, row.status ≠ .failed →
        ∃ row' ∈ s'.db, row'.jobId = row.jobId ∧ Keeps s'.receipts row row' := by
  have hsound := hs.sound.step h
  cases a with
  | receive r =>
    cases h
    obtain ⟨hsub, hreceipts, hnew⟩ := System.receive_rows api s r
    refine ⟨⟨hsound, fun row hrow => ?_⟩, hreceipts, fun row hrow hfailed => ?_⟩
    · rw [hreceipts]
      obtain hmem | ⟨bytes, payload, rfl⟩ := hnew row hrow
      · exact hs.good row hmem
      · exact good_newJob _ _ _ _ _
    · exact ⟨row, hsub row hrow, rfl, fun m hm _ => ⟨hfailed, hm⟩⟩
  | work jobId now events revealed =>
    have hgood : ∀ row ∈ s.db, Good cfg nonceOf (s.receipts ++ revealed) row := fun row hrow =>
      (hs.good row hrow).reveal hhonest.1 (hspared.1 row hrow)
    simp only [System.step] at h
    split at h
    · cases h
    next job hjob =>
      obtain ⟨hmem, hid⟩ := Db.getRow_eq_some hjob
      split at h
      next hdue =>
        cases h
        have hflight : job.status.isTerminal = false := hdue.1.1.1
        have hfollows := (hhonest.2 job hjob).and (hspared.2 job hjob)
        have hwrites := processDueJob_turn s.receipts (hgood job hmem) hflight hhonest.1
          (hspared.1 job hmem hflight)
        have honly : ∀ row ∈ s.db, row.jobId = job.jobId → row = job := fun row hrow heq =>
          hs.sound.eq_of_jobId hrow hmem heq
        obtain ⟨hreceipts, hrows, hkept⟩ := System.exec_keeps api hgood honly hwrites hfollows
        refine ⟨⟨hsound, ?_⟩, ?_, ?_⟩
        · dsimp only
          rw [hreceipts]
          exact hrows
        · dsimp only
          rw [hreceipts]
          rfl
        · dsimp only
          rw [hreceipts]
          exact hkept
      · cases h
  | restart now =>
    cases h
    refine ⟨⟨hsound, fun row hrow => ?_⟩, rfl, fun row hrow hfailed => ?_⟩
    · obtain ⟨job, hjob, hrow⟩ := List.mem_map.mp hrow
      exact (recover_row (hs.good job hjob) (hspared.1 job hjob) now hrow.symm).2.1
    · obtain ⟨hid, -, hkeeps⟩ := recover_row (hs.good row hrow) (hspared.1 row hrow) now rfl
      exact ⟨_, List.mem_map_of_mem hrow, hid, hkeeps hfailed⟩
  | reveal revealed =>
    cases h
    refine ⟨⟨hsound, fun row hrow => ?_⟩, rfl, fun row hrow hfailed => ?_⟩
    · exact (hs.good row hrow).reveal hhonest.1 (hspared.1 row hrow)
    · exact ⟨row, hrow, rfl, fun m hm _ => ⟨hfailed, hm⟩⟩

/-- The job `jobId` has not failed, and its transaction `m` was mined. -/
structure System.Holds (api : AppState Proof) (cfg : WorkerConfig) (nonceOf : String → UInt64)
    (jobId m : String) (s : System) : Prop where
  inv : s.Inv api cfg nonceOf
  mined : s.receipts.Mined m
  row : ∃ row ∈ s.db, row.jobId = jobId ∧ m ∈ row.hashes ∧ row.status ≠ .failed

theorem System.mined_receiptsAfter {s : System} (h : s.receipts.Mined m) (a : Action) :
    (s.receiptsAfter a).Mined m := by
  cases a with
  | receive r => exact h
  | work jobId now events revealed => exact h.append revealed
  | restart now => exact h
  | reveal revealed => exact h.append revealed

theorem System.Holds.step {jobId : String} {s s' : System} (hs : s.Holds api cfg nonceOf jobId m)
    {a : Action} (hhonest : s.Honest nonceOf cfg a) (hspared : s.Spared cfg a)
    (h : s.step api cfg a = some s') : s'.Holds api cfg nonceOf jobId m := by
  obtain ⟨hinv, hreceipts, hkept⟩ := hs.inv.step hhonest hspared h
  obtain ⟨row, hrow, hid, hm, hfailed⟩ := hs.row
  obtain ⟨row', hrow', hid', hkeeps⟩ := hkept row hrow hfailed
  have hmined : s'.receipts.Mined m := by
    rw [hreceipts]
    exact mined_receiptsAfter hs.mined a
  obtain ⟨hfailed', hm'⟩ := hkeeps m hm hmined
  exact ⟨hinv, hmined, row', hrow', hid'.trans hid, hm', hfailed'⟩

/-- A job with a mined transaction, once it is visible, is confirmed by it or scheduled to be
polled for it, in every state of a run whose steps spare it. -/
theorem System.mined_tracked {as bs : List Action} {s s' : System}
    (hhonest : RunMeets (System.step api cfg) (System.Honest nonceOf cfg) System.start (as ++ bs))
    (hspared : RunMeets (System.step api cfg) (System.Spared cfg) System.start (as ++ bs))
    (hs : runSteps (System.step api cfg) System.start as = some s)
    (hs' : runSteps (System.step api cfg) s bs = some s') {row : RelayJob} (hrow : row ∈ s.db)
    {m : String} (hm : m ∈ row.hashes) (hmined : s.receipts.Mined m)
    (hfailed : row.status ≠ .failed) :
    ∃ row' ∈ s'.db, row'.jobId = row.jobId ∧ row'.status ≠ .failed ∧ Tracked cfg row' m := by
  obtain ⟨hhonest₁, hhonest₂⟩ := hhonest.append hs
  obtain ⟨hspared₁, hspared₂⟩ := hspared.append hs
  have hinv : s.Inv api cfg nonceOf := by
    refine runSteps_invariant (fun _ _ _ hs hguard h => ?_) System.Inv.start
      (hhonest₁.and hspared₁) hs
    exact (System.Inv.step hs hguard.1 hguard.2 h).1
  have hstart : s.Holds api cfg nonceOf row.jobId m := ⟨hinv, hmined, row, hrow, rfl, hm, hfailed⟩
  have hholds : s'.Holds api cfg nonceOf row.jobId m := by
    refine runSteps_invariant (fun _ _ _ hs hguard h => ?_) hstart (hhonest₂.and hspared₂) hs'
    exact System.Holds.step hs hguard.1 hguard.2 h
  obtain ⟨row', hrow', hid, hm', hfailed'⟩ := hholds.row
  exact ⟨row', hrow', hid, hfailed', (hholds.inv.good row' hrow').tracked m hm' hholds.mined hfailed'⟩

/-! ## A replaced transaction is mined -/

namespace Sample

/-- The gateway for the length of one turn; every update is stored. -/
structure Gateway where
  now : Int64
  sent : Except String String
  pending : Except String (Option Fees)
  nonce : UInt64
  receipts : Receipts

def Gateway.answer (g : Gateway) : (q : Call) → q.Answer
  | .nowTs => g.now
  | .putJob _ => Stored.stored
  | .getNextNonce => Except.ok g.nonce
  | .submitPayload _ _ => g.sent
  | .pollReceipt hash => Except.ok (g.receipts.lookup hash)
  | .getCurrentFees => Except.ok ⟨10, 1⟩
  | .getPendingTxFees _ => g.pending
  | .submitPayloadWithFees _ _ _ => g.sent

/-- A turn of the worker with time for twelve calls. -/
def turn (g : Gateway) : Action := .work "job-1" g.now (List.replicate 12 (.answer g.answer)) []

def mined : Receipts := [("0xaa", ⟨true, some 7⟩)]

def submit : Action := .receive ⟨⟨firstBase64, none⟩, "job-1", 100, .stored⟩

def send : Action := turn ⟨100, .ok "0xaa", .ok none, 0, []⟩

/-- The fees of "0xaa" are bumped, and "0xbb" replaces it. -/
def bump : Action := turn ⟨112, .ok "0xbb", .ok (some ⟨11, 1, some 1⟩), 0, []⟩

/-- "0xbb" is gone from the mempool and the nonce is consumed. -/
def gone (now : Int64) (receipts : Receipts) : Action :=
  turn ⟨now, .error "nonce too low", .ok none, 1, receipts⟩

/-- "0xaa" had been mined all along, but its receipt shows only after that. -/
def late : List Action := [submit, send, bump, gone 124 [], .reveal mined, gone 130 mined]

/-- The receipt of "0xaa" shows, and the worker is late for its next poll. -/
def slow : List Action := [submit, send, .reveal mined, gone 700 mined]

def timeoutConfig : WorkerConfig := { config with receiptTimeoutSecs := some 600 }

def oneNonce : String → UInt64 := fun _ => 0

def bumped : List Action := [submit, send, bump, .reveal mined]

/-- The state a run ends in. -/
def final (cfg : WorkerConfig) (as : List Action) : System :=
  (runSteps (System.step appState cfg) System.start as).getD System.start

def finalJob (cfg : WorkerConfig) (as : List Action) : RelayJob :=
  ((final cfg as).db.getRow "job-1").getD firstJob

theorem run_final {cfg : WorkerConfig} {as : List Action}
    (h : (runSteps (System.step appState cfg) System.start as).isSome = true) :
    runSteps (System.step appState cfg) System.start as = some (final cfg as) := by
  obtain ⟨s, hs⟩ := Option.isSome_iff_exists.mp h
  rw [final, hs]
  rfl

/-- A run goes on from the state its first part ends in. -/
theorem run_final_rest {cfg : WorkerConfig} {as bs : List Action}
    (has : (runSteps (System.step appState cfg) System.start as).isSome = true)
    (h : (runSteps (System.step appState cfg) System.start (as ++ bs)).isSome = true) :
    runSteps (System.step appState cfg) (final cfg as) bs = some (final cfg (as ++ bs)) := by
  have hrun := run_final h
  rw [runSteps_append, run_final has] at hrun
  exact hrun

theorem config_admitted : config.Admitted where
  maxAttempts := by decide
  retryInitialSecs := by decide
  retryMaxSecs := by decide
  receiptPollSecs := by decide
  receiptTimeoutSecs := by
    intro t ht
    cases ht
  feeBumpAfterSecs := by
    intro t ht
    cases ht
    decide
  feeBumpMultiplierPct := by decide
  feeBumpMax := by decide

theorem timeoutConfig_admitted : timeoutConfig.Admitted :=
  { config_admitted with
    receiptTimeoutSecs := by
      intro t ht
      cases ht
      decide }

end Sample

theorem System.mined_tracked_bumped :
    RunMeets (System.step Sample.appState Sample.config) (System.Honest Sample.oneNonce Sample.config)
      System.start (Sample.bumped ++ [Sample.gone 124 Sample.mined]) ∧
    RunMeets (System.step Sample.appState Sample.config) (System.Spared Sample.config)
      System.start (Sample.bumped ++ [Sample.gone 124 Sample.mined]) ∧
    ∃ row ∈ (Sample.final Sample.config (Sample.bumped ++ [Sample.gone 124 Sample.mined])).db,
      row.jobId = "job-1" ∧ row.status ≠ .failed ∧ Tracked Sample.config row "0xaa" := by
  have hhonest : RunMeets (System.step Sample.appState Sample.config)
      (System.Honest Sample.oneNonce Sample.config) System.start
      (Sample.bumped ++ [Sample.gone 124 Sample.mined]) := by decide +kernel
  have hspared : RunMeets (System.step Sample.appState Sample.config)
      (System.Spared Sample.config) System.start
      (Sample.bumped ++ [Sample.gone 124 Sample.mined]) := by decide +kernel
  have hrow : Sample.finalJob Sample.config Sample.bumped ∈
      (Sample.final Sample.config Sample.bumped).db := by decide +kernel
  have hbumped : runSteps (System.step Sample.appState Sample.config) System.start Sample.bumped =
      some (Sample.final Sample.config Sample.bumped) := Sample.run_final (by decide +kernel)
  have hgone : runSteps (System.step Sample.appState Sample.config)
      (Sample.final Sample.config Sample.bumped) [Sample.gone 124 Sample.mined] =
      some (Sample.final Sample.config (Sample.bumped ++ [Sample.gone 124 Sample.mined])) :=
    Sample.run_final_rest (by decide +kernel) (by decide +kernel)
  exact ⟨hhonest, hspared, System.mined_tracked hhonest hspared hbumped hgone hrow
    (by decide +kernel) (by decide +kernel) (by decide +kernel)⟩

/-- The receipt of "0xaa" is there, but the job is not polled for it any more: its bump budget was
spent when the nonce showed as consumed and the receipt did not. With a timeout, a job whose
receipt is there is failed without a look at it. -/
theorem System.mined_lost :
    (Sample.config.Admitted ∧
      RunMeets (System.step Sample.appState Sample.config)
        (System.Honest Sample.oneNonce Sample.config) System.start Sample.late ∧
      runSteps (System.step Sample.appState Sample.config) System.start Sample.late =
        some (Sample.final Sample.config Sample.late) ∧
      ∃ row ∈ (Sample.final Sample.config Sample.late).db, "0xaa" ∈ row.hashes ∧
        (Sample.final Sample.config Sample.late).receipts.Mined "0xaa" ∧
        row.status = .submitted ∧ ¬ Tracked Sample.config row "0xaa") ∧
    (Sample.timeoutConfig.Admitted ∧
      RunMeets (System.step Sample.appState Sample.timeoutConfig)
        (System.Honest Sample.oneNonce Sample.timeoutConfig) System.start Sample.slow ∧
      runSteps (System.step Sample.appState Sample.timeoutConfig) System.start Sample.slow =
        some (Sample.final Sample.timeoutConfig Sample.slow) ∧
      ∃ row ∈ (Sample.final Sample.timeoutConfig Sample.slow).db, "0xaa" ∈ row.hashes ∧
        (Sample.final Sample.timeoutConfig Sample.slow).receipts.Mined "0xaa" ∧
        row.status = .failed) := by
  refine ⟨⟨Sample.config_admitted, by decide +kernel, Sample.run_final (by decide +kernel), ?_⟩,
    Sample.timeoutConfig_admitted, by decide +kernel, Sample.run_final (by decide +kernel), ?_⟩
  · exact ⟨Sample.finalJob Sample.config Sample.late, by decide +kernel⟩
  · exact ⟨Sample.finalJob Sample.timeoutConfig Sample.slow, by decide +kernel⟩

end DigitalObjects.Relayer
