import DigitalObjects.Lib.Machine
import DigitalObjects.Driver.Pipeline
set_option autoImplicit false

/-!
`submit` against everything that may happen to its transaction meanwhile. The directory of a
transaction is cut into its files and their writes; what holds the store lock is cut at every
file operation, for `submit` reads without the lock.
-/

namespace DigitalObjects.Driver.Submission

open Txlib Lib

variable {H : Type} [DecidableEq H]

abbrev Bytes := List Nat

/-- The fields of a record that submission, settlement and pruning read or write. -/
structure Record where
  state : TransactionState
  groundingBlock : Int
  recordedAtMs : Nat
  submitAttemptedAtMs : Option Nat
  relayerJobId : Option Nat
  submittedAtMs : Option Nat
  relayerFailure : Option String
  settledAtMs : Option Nat
deriving DecidableEq, Repr

namespace Record

def recorded (groundingBlock : Int) (now : Nat) : Record :=
  ⟨.recorded, groundingBlock, now, none, none, none, none, none⟩

def isOpen (r : Record) : Bool := !r.state.isTerminal

def needsTxStatus (r : Record) : Bool :=
  r.isOpen && (r.submitAttemptedAtMs.isSome || r.state = .submitted)

end Record

/-- Where a running `submit` stands: after its read of the record, the head check, its read
of the payload, the first `update_record` and the answer of the relayer. -/
inductive Stage where
  | read (groundingBlock : Int)
  | checked
  | loaded (bytes : Bytes)
  | attempted (bytes : Bytes)
  | accepted (bytes : Bytes) (jobId : Nat) (failed : Bool)
deriving DecidableEq, Repr

/-- The payload that a running `submit` has in memory. -/
def Stage.bytes : Stage → Option Bytes
  | .loaded b | .attempted b | .accepted b _ _ => some b
  | .read _ | .checked => none

/-- What goes on in the directory under the store lock: `record` with its payload file
truncated and then written, and `remove_transaction`, for a `delete_transaction` or not. -/
inductive Section where
  | writing (bytes : Bytes) (groundingBlock : Int)
  | written (bytes : Bytes) (groundingBlock : Int)
  | removing (deleting : Bool)
deriving DecidableEq, Repr

def Section.bytes : Section → Option Bytes
  | .writing b _ | .written b _ => some b
  | .removing _ => none

/-- One transaction: its two files, its running `submit`, the section that is busy with it,
the jobs that the relayer opened for it, whether the relayer got it since it was last
recorded, and whether it was deleted since. -/
structure Tx where
  record : Option Record
  payload : Option Bytes
  submit : Option Stage
  busy : Option Section
  jobs : List (Nat × Bytes)
  offered : Bool
  deleted : Bool
deriving DecidableEq, Repr

inductive RelayerAnswer where
  | accepted (jobId : Nat) (failed : Bool)
  | lost (jobId : Nat)
  | unavailable
deriving DecidableEq, Repr

inductive TxAction where
  | recordStart (bytes : Bytes) (groundingBlock : Int)
  | recordWrite
  | recordCommit (now : Nat)
  | recordFail
  | delete
  | prune (now : Nat)
  | removePayload
  | removeRecord
  | removeEnd
  | removeFail
  | submitStart
  | submitHead (head : Int)
  | submitPayload
  | submitMark (now : Nat)
  | submitSend (answer : RelayerAnswer)
  | submitFinish (now : Nat)
  | submitFail
  | settle (now : Nat) (head : Int) (status : Option (Option (Option String)))
      (failure : Option String)
deriving DecidableEq, Repr

def transactionRetentionMs : Nat := 600000

namespace Tx

def fresh : Tx := ⟨none, none, none, none, [], false, false⟩

/-- `record`: refused for a transaction that is there; `fs::write` truncates first. -/
def recordStart (tx : Tx) (bytes : Bytes) (groundingBlock : Int) : Option Tx :=
  if tx.record = none then
    some { tx with payload := some [], busy := some (.writing bytes groundingBlock) }
  else none

def recordWrite (tx : Tx) : Option Tx :=
  match tx.busy with
  | some (.writing b g) => some { tx with payload := some b, busy := some (.written b g) }
  | _ => none

/-- The record is renamed into place. -/
def recordCommit (tx : Tx) (now : Nat) : Option Tx :=
  match tx.busy with
  | some (.written _ g) =>
    some { tx with record := some (.recorded g now), busy := none, offered := false, deleted := false }
  | _ => none

def recordFail (tx : Tx) : Option Tx :=
  match tx.busy with
  | some (.writing _ _) | some (.written _ _) => some { tx with busy := some (.removing false) }
  | _ => none

def delete (tx : Tx) : Option Tx :=
  match tx.record with
  | some r =>
    if r.state = .recorded ∧ r.submitAttemptedAtMs = none then
      some { tx with busy := some (.removing true) }
    else none
  | none => none

def prune (tx : Tx) (now : Nat) : Option Tx :=
  match tx.record with
  | some r =>
    if r.state.isTerminal ∧ r.settledAtMs.getD r.recordedAtMs + transactionRetentionMs ≤ now then
      some { tx with busy := some (.removing false) }
    else none
  | none => none

/-- The entries of the directory go one by one, in any order. -/
def removePayload (tx : Tx) : Option Tx :=
  match tx.busy with
  | some (.removing _) => some { tx with payload := none }
  | _ => none

def removeRecord (tx : Tx) : Option Tx :=
  match tx.busy with
  | some (.removing _) => some { tx with record := none }
  | _ => none

def removeEnd (tx : Tx) : Option Tx :=
  match tx.busy with
  | some (.removing deleting) =>
    if tx.payload = none ∧ tx.record = none then
      some { tx with busy := none, deleted := tx.deleted || deleting }
    else none
  | _ => none

/-- An entry that cannot be removed ends the removal. -/
def removeFail (tx : Tx) : Option Tx :=
  match tx.busy with
  | some (.removing _) => some { tx with busy := none }
  | _ => none

/-- The submission lock lets one `submit` of a transaction run at a time. -/
def submitStart (tx : Tx) : Option Tx :=
  match tx.submit, tx.record with
  | none, some r =>
    if r.state = .recorded then some { tx with submit := some (.read r.groundingBlock) } else none
  | _, _ => none

def submitHead (tx : Tx) (head : Int) : Option Tx :=
  match tx.submit with
  | some (.read g) =>
    some { tx with submit := if groundingAgedOut head g then none else some .checked }
  | _ => none

def submitPayload (tx : Tx) : Option Tx :=
  match tx.submit with
  | some .checked => some { tx with submit := tx.payload.map .loaded }
  | _ => none

def submitMark (tx : Tx) (now : Nat) : Option Tx :=
  match tx.submit with
  | some (.loaded b) =>
    match tx.record with
    | none => some { tx with submit := none }
    | some r =>
      if r.state = .recorded then
        some { tx with
          record := some { r with submitAttemptedAtMs := some (r.submitAttemptedAtMs.getD now) }
          submit := some (.attempted b) }
      else some { tx with submit := none }
  | _ => none

/-- The call of the relayer with the payload in memory. -/
def submitSend (tx : Tx) (answer : RelayerAnswer) : Option Tx :=
  match tx.submit with
  | some (.attempted b) =>
    match answer with
    | .accepted jobId failed =>
      some { tx with
        submit := some (.accepted b jobId failed), jobs := (jobId, b) :: tx.jobs, offered := true }
    | .lost jobId => some { tx with submit := none, jobs := (jobId, b) :: tx.jobs, offered := true }
    | .unavailable => some { tx with submit := none }
  | _ => none

def submitFinish (tx : Tx) (now : Nat) : Option Tx :=
  match tx.submit with
  | some (.accepted _ jobId failed) =>
    match tx.record with
    | none => some { tx with submit := none }
    | some r =>
      if r.state = .recorded then
        some { tx with
          record := some { r with
            state := .submitted
            relayerJobId := some jobId
            submittedAtMs := some now
            relayerFailure := if failed then some "relayer job failed" else r.relayerFailure }
          submit := none }
      else some { tx with submit := none }
  | _ => none

def submitFail (tx : Tx) : Option Tx :=
  match tx.submit with
  | some _ => some { tx with submit := none }
  | none => none

/-- The decision of `settle_with` about an open record, by the status it has read: none was
asked for, none is there, or one with or without an error. -/
def settleRecord (now : Nat) (head : Int) (status : Option (Option (Option String)))
    (failure : Option String) (r : Record) : Record :=
  let r := { r with relayerFailure := failure <|> r.relayerFailure }
  match status.join with
  | some none => { r with state := .landed, settledAtMs := some now }
  | some (some _) => { r with state := .expired, settledAtMs := some now }
  | none =>
    if groundingAgedOut head r.groundingBlock then
      { r with state := .expired, settledAtMs := some now }
    else r

def settle (tx : Tx) (now : Nat) (head : Int) (status : Option (Option (Option String)))
    (failure : Option String) : Option Tx :=
  match tx.record with
  | some r =>
    if r.isOpen then
      if r.needsTxStatus ∧ status = none then some tx
      else some { tx with record := some (settleRecord now head status failure r) }
    else none
  | none => none

def step (tx : Tx) : TxAction → Option Tx
  | .recordStart bytes g => tx.recordStart bytes g
  | .recordWrite => tx.recordWrite
  | .recordCommit now => tx.recordCommit now
  | .recordFail => tx.recordFail
  | .delete => tx.delete
  | .prune now => tx.prune now
  | .removePayload => tx.removePayload
  | .removeRecord => tx.removeRecord
  | .removeEnd => tx.removeEnd
  | .removeFail => tx.removeFail
  | .submitStart => tx.submitStart
  | .submitHead head => tx.submitHead head
  | .submitPayload => tx.submitPayload
  | .submitMark now => tx.submitMark now
  | .submitSend answer => tx.submitSend answer
  | .submitFinish now => tx.submitFinish now
  | .submitFail => tx.submitFail
  | .settle now head status failure => tx.settle now head status failure

end Tx

/-- How an action uses the store lock: it takes it, goes on under it, or does without. -/
inductive Locking where
  | takes
  | within
  | without
deriving DecidableEq, Repr

def TxAction.locking : TxAction → Locking
  | .recordStart _ _ | .delete | .prune _ | .submitMark _ | .submitFinish _ | .settle _ _ _ _ => .takes
  | .recordWrite | .recordCommit _ | .recordFail | .removePayload | .removeRecord | .removeEnd
  | .removeFail => .within
  | .submitStart | .submitHead _ | .submitPayload | .submitSend _ | .submitFail => .without

/-- All transactions, and the one whose section holds the store lock between two steps. -/
structure Store (H : Type) where
  txs : H → Tx
  lock : Option H

inductive Action (H : Type) where
  | on (t : H) (a : TxAction)
  | crash
deriving DecidableEq

namespace Store

def init : Store H := ⟨fun _ => .fresh, none⟩

def allowed (s : Store H) (t : H) (a : TxAction) : Bool :=
  match a.locking with
  | .takes => s.lock = none
  | .within => s.lock = some t
  | .without => true

/-- A crash keeps the files and what the relayer has. -/
def crash (s : Store H) : Store H :=
  ⟨fun t => { s.txs t with submit := none, busy := none }, none⟩

def step (s : Store H) : Action H → Option (Store H)
  | .crash => some s.crash
  | .on t a =>
    if s.allowed t a then
      match (s.txs t).step a with
      | some tx => some ⟨Function.update s.txs t tx,
          if a.locking = .without then s.lock else tx.busy.map fun _ => t⟩
      | none => none
    else none

end Store

/-! ## What holds of a transaction -/

namespace Tx

/-- The payload `b` in the memory of a running `submit` is the one on disk, once there is a
record again, or the one that is being written. -/
structure Carries (tx : Tx) (b : Bytes) : Prop where
  stored : tx.record ≠ none → ∀ b', tx.payload = some b' → b' = b
  coming : ∀ sec ∈ tx.busy, ∀ b' ∈ sec.bytes, b' = b

/-- The record of a call that is under way. -/
structure Called (tx : Tx) (b : Bytes) : Prop where
  marked : ∃ r, tx.record = some r ∧ r.submitAttemptedAtMs ≠ none
  payload : tx.payload = some b
  idle : tx.busy = none

structure Inv (tx : Tx) : Prop where
  writing : ∀ b g, tx.busy = some (.writing b g) → tx.record = none
  written : ∀ b g, tx.busy = some (.written b g) → tx.record = none ∧ tx.payload = some b
  live : tx.record ≠ none → tx.deleted = false
  offered : ∀ r, tx.record = some r → tx.offered = true → r.submitAttemptedAtMs ≠ none
  job : ∀ r j b, tx.record = some r → r.relayerJobId = some j → tx.payload = some b → (j, b) ∈ tx.jobs
  carries : ∀ st b, tx.submit = some st → st.bytes = some b → tx.Carries b
  present : ∀ b r, tx.submit = some (.loaded b) → tx.record = some r → r.state = .recorded →
    (∀ d, tx.busy ≠ some (.removing d)) → tx.payload ≠ none
  calling : ∀ b, tx.submit = some (.attempted b) → tx.Called b
  accepted : ∀ b j f, tx.submit = some (.accepted b j f) → (j, b) ∈ tx.jobs

theorem Inv.fresh : Tx.fresh.Inv := by
  constructor <;> simp [Tx.fresh]

/-- A step of `submit` that leaves the files alone. -/
theorem Inv.setSubmit {tx : Tx} {st : Option Stage} {jobs : List (Nat × Bytes)} {offered : Bool}
    (h : tx.Inv) (hjobs : tx.jobs ⊆ jobs)
    (hoffered : ∀ r, tx.record = some r → offered = true → r.submitAttemptedAtMs ≠ none)
    (hcarries : ∀ st' b, st = some st' → st'.bytes = some b → tx.Carries b)
    (hpresent : ∀ b, st = some (.loaded b) → tx.payload ≠ none)
    (hcalling : ∀ b, st = some (.attempted b) → tx.Called b)
    (haccepted : ∀ b j f, st = some (.accepted b j f) → (j, b) ∈ jobs) :
    Inv { tx with submit := st, jobs := jobs, offered := offered } where
  writing := h.writing
  written := h.written
  live := h.live
  offered := hoffered
  job r j b hr hj hb := hjobs (h.job r j b hr hj hb)
  carries st' b hst hb := ⟨(hcarries st' b hst hb).stored, (hcarries st' b hst hb).coming⟩
  present b _ hst _ _ _ := hpresent b hst
  calling b hst := ⟨(hcalling b hst).marked, (hcalling b hst).payload, (hcalling b hst).idle⟩
  accepted := haccepted

/-- A `submit` that goes on without a payload in memory, or ends. -/
theorem Inv.setBlank {tx : Tx} {st : Option Stage} (h : tx.Inv)
    (hst : ∀ st', st = some st' → st'.bytes = none) : Inv { tx with submit := st } := by
  refine h.setSubmit (List.Subset.refl _) h.offered ?_ ?_ ?_ ?_
  · intro st' b hst' hb
    rw [hst st' hst'] at hb
    cases hb
  · intro b hb
    cases hst _ hb
  · intro b hb
    cases hst _ hb
  · intro b j f hb
    cases hst _ hb

theorem Inv.submitStart {tx tx' : Tx} (h : tx.Inv) (hs : tx.submitStart = some tx') : tx'.Inv := by
  unfold Tx.submitStart at hs
  split at hs
  · split at hs
    · cases hs
      exact h.setBlank (by simp [Stage.bytes])
    · cases hs
  · cases hs

theorem Inv.submitHead {tx tx' : Tx} {head : Int} (h : tx.Inv)
    (hs : tx.submitHead head = some tx') : tx'.Inv := by
  unfold Tx.submitHead at hs
  split at hs
  · cases hs
    refine h.setBlank fun st' hst' => ?_
    split at hst'
    · cases hst'
    · cases hst'
      rfl
  · cases hs

theorem Inv.submitFail {tx tx' : Tx} (h : tx.Inv) (hs : tx.submitFail = some tx') : tx'.Inv := by
  unfold Tx.submitFail at hs
  split at hs
  · cases hs
    exact h.setBlank (by simp)
  · cases hs

/-- The read of the payload, unless it is just being written. -/
theorem Inv.submitPayload {tx tx' : Tx} (h : tx.Inv)
    (hclean : ∀ sec ∈ tx.busy, ∀ b ∈ sec.bytes, tx.payload = some b)
    (hs : tx.submitPayload = some tx') : tx'.Inv := by
  unfold Tx.submitPayload at hs
  split at hs
  · cases hs
    refine h.setSubmit (List.Subset.refl _) h.offered ?_ ?_ ?_ ?_
    · intro st' b hst hb
      obtain ⟨b', hpay, rfl⟩ := Option.map_eq_some_iff.mp hst
      cases hb
      refine ⟨fun _ b' hb' => ?_, fun sec hsec b' hb' => ?_⟩
      · rw [hpay] at hb'
        exact (Option.some.inj hb').symm
      · have hp := hclean sec hsec b' hb'
        rw [hpay] at hp
        exact (Option.some.inj hp).symm
    · intro b hst hnone
      rw [hnone] at hst
      cases hst
    · intro b hst
      obtain ⟨b', -, hb'⟩ := Option.map_eq_some_iff.mp hst
      cases hb'
    · intro b j f hst
      obtain ⟨b', -, hb'⟩ := Option.map_eq_some_iff.mp hst
      cases hb'
  · cases hs

theorem Inv.submitSend {tx tx' : Tx} {answer : RelayerAnswer} (h : tx.Inv)
    (hs : tx.submitSend answer = some tx') : tx'.Inv := by
  unfold Tx.submitSend at hs
  split at hs
  · rename_i b hst
    have hmarked : ∀ r, tx.record = some r → true = true → r.submitAttemptedAtMs ≠ none := by
      intro r hr _
      obtain ⟨r₁, hr₁, hmark⟩ := (h.calling b hst).marked
      rw [hr] at hr₁
      cases hr₁
      exact hmark
    cases answer with
    | accepted jobId failed =>
      cases hs
      refine h.setSubmit (List.subset_cons_self _ _) hmarked ?_ (by simp) (by simp) ?_
      · intro st' b' hst' hb'
        cases hst'
        cases hb'
        exact h.carries _ b hst rfl
      · intro b' j f hacc
        cases hacc
        exact List.mem_cons_self
    | lost jobId =>
      cases hs
      exact h.setSubmit (List.subset_cons_self _ _) hmarked (by simp) (by simp) (by simp) (by simp)
    | unavailable =>
      cases hs
      exact h.setBlank (by simp)
  · cases hs

/-- A new version of a record that is there. -/
theorem Inv.setRecord {tx : Tx} {r r' : Record} {st : Option Stage} (h : tx.Inv)
    (hr : tx.record = some r)
    (hmark : r.submitAttemptedAtMs ≠ none → r'.submitAttemptedAtMs ≠ none)
    (hjob : ∀ j b, r'.relayerJobId = some j → tx.payload = some b → (j, b) ∈ tx.jobs)
    (hcarries : ∀ st' b, st = some st' → st'.bytes = some b → tx.Carries b)
    (hpresent : ∀ b, st = some (.loaded b) → r'.state = .recorded →
      (∀ d, tx.busy ≠ some (.removing d)) → tx.payload ≠ none)
    (hcalling : ∀ b, st = some (.attempted b) →
      r'.submitAttemptedAtMs ≠ none ∧ tx.payload = some b ∧ tx.busy = none)
    (haccepted : ∀ b j f, st = some (.accepted b j f) → (j, b) ∈ tx.jobs) :
    Inv { tx with record := some r', submit := st } where
  writing b g hb := by
    have hnone := h.writing b g hb
    rw [hr] at hnone
    cases hnone
  written b g hb := by
    have hnone := (h.written b g hb).1
    rw [hr] at hnone
    cases hnone
  live _ := h.live (by simp [hr])
  offered r₁ hr₁ hoff := by
    cases hr₁
    exact hmark (h.offered r hr hoff)
  job r₁ j b hr₁ hj hb := by
    cases hr₁
    exact hjob j b hj hb
  carries st' b hst hb := by
    have hc := hcarries st' b hst hb
    exact ⟨fun _ => hc.stored (by simp [hr]), hc.coming⟩
  present b r₁ hst hr₁ hrec hbusy := by
    cases hr₁
    exact hpresent b hst hrec hbusy
  calling b hst := by
    obtain ⟨hmark, hpay, hbusy⟩ := hcalling b hst
    exact ⟨⟨r', rfl, hmark⟩, hpay, hbusy⟩
  accepted := haccepted

theorem Inv.submitMark {tx tx' : Tx} {now : Nat} (h : tx.Inv) (hidle : tx.busy = none)
    (hs : tx.submitMark now = some tx') : tx'.Inv := by
  unfold Tx.submitMark at hs
  split at hs
  · rename_i b hst
    split at hs
    · cases hs
      exact h.setBlank (by simp)
    · rename_i r hr
      split at hs
      · rename_i hrec
        cases hs
        have hcar := h.carries _ b hst rfl
        have hpay : tx.payload = some b := by
          cases hp : tx.payload with
          | none => exact absurd hp (h.present b r hst hr hrec (by simp [hidle]))
          | some b' => rw [hcar.stored (by simp [hr]) b' hp]
        refine h.setRecord hr (by simp) (fun j b' hj hb' => h.job r j b' hr hj hb') ?_ (by simp) ?_
          (by simp)
        · intro st' b' hst' hb'
          cases hst'
          cases hb'
          exact hcar
        · intro b' hb'
          cases hb'
          exact ⟨by simp, hpay, hidle⟩
      · cases hs
        exact h.setBlank (by simp)
  · cases hs

theorem Inv.submitFinish {tx tx' : Tx} {now : Nat} (h : tx.Inv)
    (hs : tx.submitFinish now = some tx') : tx'.Inv := by
  unfold Tx.submitFinish at hs
  split at hs
  · rename_i b jobId failed hst
    split at hs
    · cases hs
      exact h.setBlank (by simp)
    · rename_i r hr
      split at hs
      · cases hs
        refine h.setRecord hr id ?_ (by simp) (by simp) (by simp) (by simp)
        intro j b' hj hb'
        cases hj
        rw [(h.carries _ b hst rfl).stored (by simp [hr]) b' hb']
        exact h.accepted b jobId failed hst
      · cases hs
        exact h.setBlank (by simp)
  · cases hs

theorem settleRecord_spec (now : Nat) (head : Int) (status : Option (Option (Option String)))
    (failure : Option String) (r : Record) :
    (settleRecord now head status failure r).relayerJobId = r.relayerJobId ∧
    (settleRecord now head status failure r).submitAttemptedAtMs = r.submitAttemptedAtMs ∧
    ((settleRecord now head status failure r).state = .recorded → r.state = .recorded) := by
  unfold settleRecord
  cases status.join with
  | some o => cases o <;> simp
  | none =>
    by_cases haged : groundingAgedOut head r.groundingBlock = true
    · simp [haged]
    · simp [haged]

theorem Inv.settle {tx tx' : Tx} {now : Nat} {head : Int}
    {status : Option (Option (Option String))} {failure : Option String} (h : tx.Inv)
    (hs : tx.settle now head status failure = some tx') : tx'.Inv := by
  unfold Tx.settle at hs
  split at hs
  · rename_i r hr
    split at hs
    · split at hs
      · cases hs
        exact h
      · cases hs
        obtain ⟨hjob, hmark, hstate⟩ := settleRecord_spec now head status failure r
        refine h.setRecord hr (by rw [hmark]; exact id) ?_ h.carries ?_ ?_ h.accepted
        · intro j b hj hb
          rw [hjob] at hj
          exact h.job r j b hr hj hb
        · intro b hst hrec hbusy
          exact h.present b r hst hr (hstate hrec) hbusy
        · intro b hst
          obtain ⟨⟨r₁, hr₁, hr₁m⟩, hpay, hbusy⟩ := h.calling b hst
          rw [hr] at hr₁
          cases hr₁
          exact ⟨by rw [hmark]; exact hr₁m, hpay, hbusy⟩
    · cases hs
  · cases hs

theorem Inv.recordStart {tx tx' : Tx} {bytes : Bytes} {g : Int} (h : tx.Inv)
    (hclean : ∀ st ∈ tx.submit, ∀ b ∈ st.bytes, bytes = b)
    (hs : tx.recordStart bytes g = some tx') : tx'.Inv := by
  unfold Tx.recordStart at hs
  split at hs
  · rename_i hnone
    cases hs
    refine ⟨fun _ _ _ => hnone, by simp, h.live, h.offered, by simp [hnone], ?_, by simp [hnone], ?_,
      h.accepted⟩
    · intro st b hst hb
      refine ⟨fun hne => absurd hnone hne, ?_⟩
      intro sec hsec b' hb'
      cases hsec
      cases hb'
      exact hclean st hst b hb
    · intro b hst
      obtain ⟨⟨r, hr, -⟩, -, -⟩ := h.calling b hst
      rw [hnone] at hr
      cases hr
  · cases hs

theorem Inv.recordWrite {tx tx' : Tx} (h : tx.Inv) (hs : tx.recordWrite = some tx') : tx'.Inv := by
  unfold Tx.recordWrite at hs
  split at hs
  · rename_i bytes g hbusy
    have hnone := h.writing bytes g hbusy
    cases hs
    refine ⟨by simp, ?_, h.live, h.offered, by simp [hnone], ?_, by simp [hnone], ?_, h.accepted⟩
    · intro b g' hb
      cases hb
      exact ⟨hnone, rfl⟩
    · intro st b hst hb
      refine ⟨fun hne => absurd hnone hne, ?_⟩
      intro sec hsec b' hb'
      cases hsec
      exact (h.carries st b hst hb).coming _ hbusy b' hb'
    · intro b hst
      have hidle := (h.calling b hst).idle
      rw [hbusy] at hidle
      cases hidle
  · cases hs

theorem Inv.recordCommit {tx tx' : Tx} {now : Nat} (h : tx.Inv)
    (hs : tx.recordCommit now = some tx') : tx'.Inv := by
  unfold Tx.recordCommit at hs
  split at hs
  · rename_i bytes g hbusy
    obtain ⟨-, hpay⟩ := h.written bytes g hbusy
    cases hs
    refine ⟨by simp, by simp, fun _ => rfl, by simp, ?_, ?_, ?_, ?_, h.accepted⟩
    · intro r j b hr hj
      cases hr
      cases hj
    · intro st b hst hb
      refine ⟨fun _ b' hb' => ?_, by simp⟩
      rw [hpay] at hb'
      cases hb'
      exact (h.carries st b hst hb).coming _ hbusy bytes rfl
    · intro b r _ _ _ _ hnone
      rw [hpay] at hnone
      cases hnone
    · intro b hst
      have hidle := (h.calling b hst).idle
      rw [hbusy] at hidle
      cases hidle
  · cases hs

/-- A removal begins: nothing is called meanwhile. -/
theorem Inv.startRemoval {tx : Tx} {d : Bool} (h : tx.Inv)
    (hcalling : ∀ b, tx.submit ≠ some (.attempted b)) :
    Inv { tx with busy := some (.removing d) } := by
  refine ⟨by simp, by simp, h.live, h.offered, h.job, ?_, ?_,
    fun b hst => absurd hst (hcalling b), h.accepted⟩
  · intro st b hst hb
    exact ⟨(h.carries st b hst hb).stored, by simp [Section.bytes]⟩
  · intro b r _ _ _ hbusy
    exact absurd rfl (hbusy d)

theorem Inv.recordFail {tx tx' : Tx} (h : tx.Inv) (hs : tx.recordFail = some tx') : tx'.Inv := by
  have hcalling : tx.busy ≠ none → ∀ b, tx.submit ≠ some (.attempted b) :=
    fun hbusy b hst => hbusy (h.calling b hst).idle
  unfold Tx.recordFail at hs
  split at hs
  · rename_i hbusy
    cases hs
    exact h.startRemoval (hcalling (by simp [hbusy]))
  · rename_i hbusy
    cases hs
    exact h.startRemoval (hcalling (by simp [hbusy]))
  · cases hs

theorem Inv.delete {tx tx' : Tx} (h : tx.Inv) (hs : tx.delete = some tx') : tx'.Inv := by
  unfold Tx.delete at hs
  split at hs
  · rename_i r hr
    split at hs
    · rename_i hguard
      cases hs
      refine h.startRemoval fun b hst => ?_
      obtain ⟨⟨r₁, hr₁, hmark⟩, -, -⟩ := h.calling b hst
      rw [hr] at hr₁
      cases hr₁
      exact hmark hguard.2
    · cases hs
  · cases hs

theorem Inv.prune {tx tx' : Tx} {now : Nat} (h : tx.Inv)
    (hclean : ∀ b, tx.submit ≠ some (.attempted b)) (hs : tx.prune now = some tx') : tx'.Inv := by
  unfold Tx.prune at hs
  split at hs
  · split at hs
    · cases hs
      exact h.startRemoval hclean
    · cases hs
  · cases hs

theorem Inv.removePayload {tx tx' : Tx} (h : tx.Inv) (hs : tx.removePayload = some tx') :
    tx'.Inv := by
  unfold Tx.removePayload at hs
  split at hs
  · rename_i d hbusy
    cases hs
    refine ⟨h.writing, by simp [hbusy], h.live, h.offered, by simp, ?_, ?_, ?_, h.accepted⟩
    · intro st b hst hb
      exact ⟨by simp, (h.carries st b hst hb).coming⟩
    · intro b r _ _ _ hne
      exact absurd hbusy (hne d)
    · intro b hst
      have hidle := (h.calling b hst).idle
      rw [hbusy] at hidle
      cases hidle
  · cases hs

theorem Inv.removeRecord {tx tx' : Tx} (h : tx.Inv) (hs : tx.removeRecord = some tx') :
    tx'.Inv := by
  unfold Tx.removeRecord at hs
  split at hs
  · rename_i d hbusy
    cases hs
    refine ⟨by simp, by simp [hbusy], by simp, by simp, by simp, ?_, by simp, ?_, h.accepted⟩
    · intro st b hst hb
      exact ⟨by simp, (h.carries st b hst hb).coming⟩
    · intro b hst
      have hidle := (h.calling b hst).idle
      rw [hbusy] at hidle
      cases hidle
  · cases hs

/-- A section ends with the files as they are. -/
theorem Inv.release {tx : Tx} {deleted : Bool} (h : tx.Inv) (hbusy : tx.busy ≠ none)
    (hlive : tx.record ≠ none → deleted = false)
    (hpresent : ∀ b r, tx.submit = some (.loaded b) → tx.record = some r → r.state = .recorded →
      tx.payload ≠ none) :
    Inv { tx with busy := none, deleted := deleted } := by
  refine ⟨by simp, by simp, hlive, h.offered, h.job, ?_,
    fun b r hst hr hrec _ => hpresent b r hst hr hrec, ?_, h.accepted⟩
  · intro st b hst hb
    exact ⟨(h.carries st b hst hb).stored, by simp⟩
  · intro b hst
    exact absurd (h.calling b hst).idle hbusy

theorem Inv.removeEnd {tx tx' : Tx} (h : tx.Inv) (hs : tx.removeEnd = some tx') : tx'.Inv := by
  unfold Tx.removeEnd at hs
  split at hs
  · rename_i d hbusy
    split at hs
    · rename_i hgone
      cases hs
      exact h.release (by simp [hbusy]) (by simp [hgone.2]) (by simp [hgone.2])
    · cases hs
  · cases hs

theorem Inv.removeFail {tx tx' : Tx} (h : tx.Inv)
    (hclean : ∀ b r, tx.submit = some (.loaded b) → tx.record = some r → r.state = .recorded →
      tx.payload ≠ none) (hs : tx.removeFail = some tx') : tx'.Inv := by
  unfold Tx.removeFail at hs
  split at hs
  · rename_i d hbusy
    cases hs
    exact h.release (by simp [hbusy]) h.live hclean
  · cases hs

theorem Inv.crash {tx : Tx} (h : tx.Inv) : Inv { tx with submit := none, busy := none } := by
  refine ⟨by simp, by simp, h.live, h.offered, h.job, by simp, by simp, by simp, by simp⟩

end Tx

/-! ## Whole runs -/

def Stage.isLoaded : Stage → Bool
  | .loaded _ => true
  | _ => false

def Stage.isAttempted : Stage → Bool
  | .attempted _ => true
  | _ => false

/-- The steps that leave the payload of a running `submit` the one of its record: a
transaction is recorded again only with the payload that is in memory, the payload is not
read while it is being written, a removal does not stop between the payload and a recorded
record that a `submit` is about to mark, and nothing is pruned while it is being sent. -/
def Tx.Clean (tx : Tx) : TxAction → Prop
  | .recordStart bytes _ => ∀ st ∈ tx.submit, ∀ b ∈ st.bytes, bytes = b
  | .submitPayload => ∀ sec ∈ tx.busy, ∀ b ∈ sec.bytes, tx.payload = some b
  | .removeFail => ∀ st ∈ tx.submit, st.isLoaded = true → ∀ r ∈ tx.record, r.state = .recorded →
    tx.payload ≠ none
  | .prune _ => ∀ st ∈ tx.submit, st.isAttempted = false
  | _ => True

instance (tx : Tx) : (a : TxAction) → Decidable (tx.Clean a)
  | .recordStart bytes _ => inferInstanceAs (Decidable (∀ st ∈ tx.submit, ∀ b ∈ st.bytes, bytes = b))
  | .submitPayload => inferInstanceAs (Decidable (∀ sec ∈ tx.busy, ∀ b ∈ sec.bytes, tx.payload = some b))
  | .removeFail => inferInstanceAs (Decidable (∀ st ∈ tx.submit, st.isLoaded = true →
      ∀ r ∈ tx.record, r.state = .recorded → tx.payload ≠ none))
  | .prune _ => inferInstanceAs (Decidable (∀ st ∈ tx.submit, st.isAttempted = false))
  | .recordWrite | .recordCommit _ | .recordFail | .delete | .removePayload | .removeRecord
  | .removeEnd | .submitStart | .submitHead _ | .submitMark _ | .submitSend _ | .submitFinish _
  | .submitFail | .settle _ _ _ _ => .isTrue trivial

def Store.Clean (s : Store H) : Action H → Prop
  | .crash => True
  | .on t a => (s.txs t).Clean a

instance (s : Store H) : (a : Action H) → Decidable (s.Clean a)
  | .crash => .isTrue trivial
  | .on t a => inferInstanceAs (Decidable ((s.txs t).Clean a))

theorem Tx.Inv.step {tx tx' : Tx} {a : TxAction} (h : tx.Inv) (hclean : tx.Clean a)
    (hidle : a.locking = .takes → tx.busy = none) (hs : tx.step a = some tx') : tx'.Inv := by
  cases a with
  | recordStart bytes g => exact h.recordStart hclean hs
  | recordWrite => exact h.recordWrite hs
  | recordCommit now => exact h.recordCommit hs
  | recordFail => exact h.recordFail hs
  | delete => exact h.delete hs
  | prune now =>
    refine h.prune (fun b hst => ?_) hs
    have hno := hclean _ hst
    cases hno
  | removePayload => exact h.removePayload hs
  | removeRecord => exact h.removeRecord hs
  | removeEnd => exact h.removeEnd hs
  | removeFail => exact h.removeFail (fun b r hst hr hrec => hclean _ hst rfl r hr hrec) hs
  | submitStart => exact h.submitStart hs
  | submitHead head => exact h.submitHead hs
  | submitPayload => exact h.submitPayload hclean hs
  | submitMark now => exact h.submitMark (hidle rfl) hs
  | submitSend answer => exact h.submitSend hs
  | submitFinish now => exact h.submitFinish hs
  | submitFail => exact h.submitFail hs
  | settle now head status failure => exact h.settle hs

/-- A section leaves a trace only while it holds the lock. -/
structure Store.Inv (s : Store H) : Prop where
  tx : ∀ t, (s.txs t).Inv
  lock : ∀ t, (s.txs t).busy ≠ none → s.lock = some t

omit [DecidableEq H] in
theorem Store.Inv.init : (Store.init : Store H).Inv :=
  ⟨fun _ => Tx.Inv.fresh, fun _ h => absurd rfl h⟩

/-- Without the lock no section goes on. -/
theorem Tx.step_without {tx tx' : Tx} {a : TxAction} (ha : a.locking = .without)
    (hs : tx.step a = some tx') : tx'.busy = tx.busy := by
  cases a with
  | submitStart =>
    simp only [Tx.step, Tx.submitStart] at hs
    repeat' split at hs
    all_goals cases hs
    all_goals rfl
  | submitHead head =>
    simp only [Tx.step, Tx.submitHead] at hs
    repeat' split at hs
    all_goals cases hs
    all_goals rfl
  | submitPayload =>
    simp only [Tx.step, Tx.submitPayload] at hs
    repeat' split at hs
    all_goals cases hs
    all_goals rfl
  | submitSend answer =>
    simp only [Tx.step, Tx.submitSend] at hs
    repeat' split at hs
    all_goals cases hs
    all_goals rfl
  | submitFail =>
    simp only [Tx.step, Tx.submitFail] at hs
    repeat' split at hs
    all_goals cases hs
    all_goals rfl
  | _ => cases ha

theorem Store.Inv.step {s s' : Store H} {a : Action H} (h : s.Inv) (hclean : s.Clean a)
    (hs : s.step a = some s') : s'.Inv := by
  cases a with
  | crash =>
    cases hs
    exact ⟨fun t => (h.tx t).crash, fun t hbusy => absurd rfl hbusy⟩
  | on t a =>
    simp only [Store.step] at hs
    split at hs
    · rename_i hallowed
      split at hs
      · rename_i tx htx
        cases hs
        have hidle : a.locking = .takes → (s.txs t).busy = none := by
          intro ha
          by_contra hbusy
          have hlock := h.lock t hbusy
          simp [Store.allowed, ha, hlock] at hallowed
        have hother : ∀ t', t' ≠ t → (s.txs t').busy ≠ none → a.locking = .without := by
          intro t' hne hbusy
          have hlock := h.lock t' hbusy
          cases ha : a.locking with
          | takes => simp [Store.allowed, ha, hlock] at hallowed
          | within => exact absurd (by simpa [Store.allowed, ha, hlock] using hallowed) hne
          | without => rfl
        refine ⟨fun t' => ?_, fun t' hbusy => ?_⟩
        · by_cases ht : t' = t
          · subst ht
            simp only [Function.update_self]
            exact (h.tx t').step hclean hidle htx
          · simp only [Function.update_of_ne ht]
            exact h.tx t'
        · by_cases ht : t' = t
          · subst ht
            simp only [Function.update_self] at hbusy ⊢
            by_cases ha : a.locking = .without
            · rw [if_pos ha]
              rw [Tx.step_without ha htx] at hbusy
              exact h.lock t' hbusy
            · rw [if_neg ha]
              obtain ⟨sec, hsec⟩ := Option.ne_none_iff_exists'.mp hbusy
              rw [hsec]
              rfl
          · simp only [Function.update_of_ne ht] at hbusy ⊢
            rw [if_pos (hother t' ht hbusy)]
            exact h.lock t' hbusy
      · cases hs
    · cases hs

/-- What the relayer gets is the payload of a current record that was marked before. -/
structure Store.HandsOver (s : Store H) : Prop where
  calling : ∀ t b, (s.txs t).submit = some (.attempted b) →
    (∃ r, (s.txs t).record = some r ∧ r.submitAttemptedAtMs ≠ none) ∧ (s.txs t).payload = some b
  deleted : ∀ t b, (s.txs t).submit = some (.attempted b) → (s.txs t).deleted = false
  unoffered : ∀ t r, (s.txs t).record = some r → r.submitAttemptedAtMs = none →
    (s.txs t).offered = false
  finishing : ∀ t b j f r b', (s.txs t).submit = some (.accepted b j f) →
    (s.txs t).record = some r → r.state = .recorded → (s.txs t).payload = some b' → b' = b
  job : ∀ t r j b, (s.txs t).record = some r → r.relayerJobId = some j →
    (s.txs t).payload = some b → (j, b) ∈ (s.txs t).jobs

/-- In every state of every clean run, under any interleaving of submissions, deletions,
recordings, settlements, prunings and crashes. -/
theorem Store.submits_current_payload (as : List (Action H)) (s : Store H)
    (hclean : RunMeets Store.step Store.Clean Store.init as)
    (hrun : runSteps Store.step Store.init as = some s) : s.HandsOver := by
  have h : s.Inv := runSteps_invariant (fun _ _ _ => Store.Inv.step) Store.Inv.init hclean hrun
  refine ⟨?_, ?_, ?_, ?_, fun t => (h.tx t).job⟩
  · intro t b hst
    obtain ⟨hmarked, hpay, -⟩ := (h.tx t).calling b hst
    exact ⟨hmarked, hpay⟩
  · intro t b hst
    obtain ⟨⟨r, hr, -⟩, -, -⟩ := (h.tx t).calling b hst
    exact (h.tx t).live (by simp [hr])
  · intro t r hr hnone
    by_contra hoff
    exact (h.tx t).offered r hr (by simpa using hoff) hnone
  · intro t b j f r b' hst hr _ hb'
    exact ((h.tx t).carries _ b hst rfl).stored (by simp [hr]) b' hb'

def recordTx (t : Nat) (bytes : Bytes) : List (Action Nat) :=
  [.on t (.recordStart bytes 0), .on t .recordWrite, .on t (.recordCommit 10)]

def submitRead (t : Nat) : List (Action Nat) :=
  [.on t .submitStart, .on t (.submitHead 0), .on t .submitPayload]

def deleteTx (t : Nat) : List (Action Nat) :=
  [.on t .delete, .on t .removeRecord, .on t .removePayload, .on t .removeEnd]

/-- A `submit` has read the payload when the transaction is deleted, proved anew and recorded
again: the relayer gets the old payload, and its job goes to the new record. -/
theorem Store.resubmits_deleted_payload : ∃ s s' : Store Nat,
    runSteps Store.step Store.init
      (recordTx 7 [1] ++ submitRead 7 ++ deleteTx 7 ++ recordTx 7 [2] ++
        [.on 7 (.submitMark 20)]) = some s ∧
    (s.txs 7).submit = some (.attempted [1]) ∧ (s.txs 7).payload = some [2] ∧ ¬ s.HandsOver ∧
    runSteps Store.step s [.on 7 (.submitSend (.accepted 5 false)), .on 7 (.submitFinish 30)] =
      some s' ∧
    ((s'.txs 7).record.bind Record.relayerJobId) = some 5 ∧ (s'.txs 7).payload = some [2] ∧
    (s'.txs 7).jobs = [(5, [1])] := by
  refine ⟨_, _, rfl, by decide, by decide, fun h => ?_, rfl, by decide, by decide, by decide⟩
  have hpay := (h.calling 7 [1] (by decide)).2
  revert hpay
  decide

def recordedAnew : List (Action Nat) :=
  recordTx 7 [1] ++ deleteTx 7 ++ recordTx 7 [2] ++ submitRead 7 ++ [.on 7 (.submitMark 20)]

theorem Store.submits_current_payload_anew : ∃ s : Store Nat,
    runSteps Store.step Store.init recordedAnew = some s ∧
    (s.txs 7).submit = some (.attempted [2]) ∧ s.HandsOver :=
  ⟨_, rfl, by decide, Store.submits_current_payload recordedAnew _ (by decide) rfl⟩

end DigitalObjects.Driver.Submission
