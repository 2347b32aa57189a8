import DigitalObjects.Dobjd.Events
import DigitalObjects.Lib.Broadcast
set_option autoImplicit false

/-!
Waiting for a transaction or a proof job, and runs that follow their transaction to its end. Waiters
subscribe to the event hub, read once, and go by events from then on.
-/

namespace DigitalObjects.Dobjd

open Lib Driver.Objects

variable {H : Type} [DecidableEq H] [EncodeHex H]

/-! ## Store, jobs and events -/

inductive ProofJobStatus where
  | queued
  | proving
  | recording
  | done
  | failed
deriving DecidableEq, Repr

def ProofJobStatus.isTerminal : ProofJobStatus → Bool
  | .done | .failed => true
  | _ => false

structure ProofJobState (H : Type) where
  jobId : String
  action : QualifiedName
  inputObjectPaths : List String
  status : ProofJobStatus
  message : Option String
  txFinal : Option H
  error : Option String
deriving DecidableEq, Repr

/-- What waiters read: the records, and the entries of jobs, which outlive the registry's. `removed`
tells which transactions were deleted or pruned. -/
structure Shelf (H : Type) where
  records : Records H
  jobs : String → ProofJobState H
  removed : List H

inductive HubEvent (H : Type) where
  | record (e : Event H)
  | proofJob (job : ProofJobState H)
  | other
deriving DecidableEq, Repr

/-- What a publisher does before it publishes. -/
inductive Edit (H : Type) where
  | write (r : Record H)
  | remove (t : H)
  | job (job : ProofJobState H)
deriving DecidableEq, Repr

namespace Shelf

def apply (s : Shelf H) : Edit H → Shelf H
  | .write r => { s with records := s.records.insert r.txFinal r }
  | .remove t => { s with
      records := s.records.erase t
      removed := if (s.records.lookup t).isSome then t :: s.removed else s.removed }
  | .job job => { s with jobs := Function.update s.jobs job.jobId job }

/-- The event shows the store as it is. -/
def reflects (s : Shelf H) : HubEvent H → Bool
  | .record (.transaction r) => s.records.lookup r.txFinal = some r
  | .record (.transactionDeleted t) => t ∈ s.removed && (s.records.lookup t).isNone
  | .record (.transactionPruned t) => t ∈ s.removed && (s.records.lookup t).isNone
  | .proofJob job => s.jobs job.jobId = job
  | .other => true

/-- The record is terminal, or there is none. -/
def isOver (s : Shelf H) (t : H) : Bool :=
  match s.records.lookup t with
  | some r => r.state.isTerminal
  | none => true

end Shelf

/-- Maximum buffered events per subscriber. -/
def channelCapacity : Nat := 1024

/-! ## Waiters -/

inductive FollowError (H : Type) where
  | deleted (t : H)
  | pruned (t : H)
  | notFound (t : H)
  | io (message : String)
deriving DecidableEq, Repr

def FollowError.message : FollowError H → String
  | .deleted t => "transaction " ++ EncodeHex.encodeHex t ++ " was deleted"
  | .pruned t => "transaction " ++ EncodeHex.encodeHex t ++ " is no longer retained"
  | .notFound t => "transaction not found: " ++ EncodeHex.encodeHex t
  | .io message => message

def getTransaction (t : H) (s : Shelf H) : Except (FollowError H) (Record H) :=
  match s.records.lookup t with
  | some r => .ok r
  | none => .error (.notFound t)

/-- Match transaction updates; fail when the awaited transaction is deleted. -/
def transactionEvent (t : H) : HubEvent H → Except (FollowError H) (Option (Record H))
  | .record (.transaction r) => .ok (if r.txFinal = t then some r else none)
  | .record (.transactionDeleted t') => if t' = t then .error (.deleted t) else .ok none
  | .record (.transactionPruned t') => if t' = t then .error (.pruned t) else .ok none
  | _ => .ok none

def waitForTransaction (t : H) : Watch (Shelf H) (HubEvent H) (Record H) Unit (FollowError H) where
  read := getTransaction t
  isDone r := r.state.isTerminal
  fromEvent := transactionEvent t
  note _ _ := ()
  fallible := true
  deadline := true

def waitForProofJob (jobId : String) :
    Watch (Shelf H) (HubEvent H) (ProofJobState H) Unit (FollowError H) where
  read s := .ok (s.jobs jobId)
  isDone job := job.status.isTerminal
  fromEvent
    | .proofJob job => .ok (if job.jobId = jobId then some job else none)
    | _ => .ok none
  note _ _ := ()
  fallible := false
  deadline := true

/-- A publisher's step or the waiter's. -/
inductive WaitAction (H : Type) where
  | edit (e : Edit H)
  | take (e : HubEvent H)
  | publish (i : Nat)
  | follow (step : FollowStep (FollowError H))
deriving DecidableEq, Repr

def WaitAction.on (s : Shelf H) : WaitAction H → SceneAction (Shelf H) (HubEvent H) (FollowError H)
  | .edit e => .change (s.apply e)
  | .take e => .take e
  | .publish i => .publish i
  | .follow st => .follow st

abbrev Hall (H τ κ : Type) := Scene (Shelf H) (HubEvent H) τ κ (FollowError H)

def Hall.step {τ κ : Type} (watch : Watch (Shelf H) (HubEvent H) τ κ (FollowError H)) (w : Hall H τ κ)
    (a : WaitAction H) : Option (Hall H τ κ) :=
  Scene.step watch Shelf.reflects channelCapacity w (a.on w.store)

/-- `wait_until`: without `wait` the state is read once. -/
def waitUntil {τ : Type} (wait : Bool) (s : Shelf H) : Hall H τ Unit :=
  .start s (if wait then .subscribing else .expiring) ()

/-! ## Runs -/

inductive ExecutionPhase where
  | generateProof
  | commit
deriving DecidableEq, Repr

inductive ProofProgressStatus where
  | running
  | done
  | failed
deriving DecidableEq, Repr

inductive ExecutionStage where
  | verifyingInputs
  | loadingModule
  | building
  | mining
  | solving
  | proving
  | shrinking
  | writingFiles
  | submitting
  | awaitingSynchronization
deriving DecidableEq, Repr

inductive ObjectStatus where
  | unknown
  | pending
  | live
  | nullified
deriving DecidableEq, Repr

inductive RunStatus where
  | queued
  | generateProof
  | committing
  | succeeded
  | failed
deriving DecidableEq, Repr

structure RunActionProgress where
  runId : String
  phase : ExecutionPhase
  status : ProofProgressStatus
  message : String
  outputFiles : Option (List String)
  outputStatus : Option ObjectStatus
  inputFiles : Option (List String)
  stage : Option ExecutionStage
deriving DecidableEq, Repr

structure RunActionResult where
  runId : String
  outputFiles : List String
  inputFiles : List String
deriving DecidableEq, Repr

/-- Why a run failed. -/
inductive RunFailure (H : Type) where
  | stage (message : String)
  | panicked (message : String)
  | expired (t : H) (reason : Option String)
  | lost (t : H) (err : FollowError H)
deriving DecidableEq, Repr

def RunFailure.message : RunFailure H → String
  | .stage message => message
  | .panicked message => "run worker panicked: " ++ message
  | .expired t reason => "transaction " ++ EncodeHex.encodeHex t ++ " expired without landing: " ++
      reason.getD "grounding aged out"
  | .lost t err => "lost track of transaction " ++ EncodeHex.encodeHex t ++ ": " ++ err.message

structure RunEntry (H : Type) where
  runId : String
  status : RunStatus
  progress : List RunActionProgress
  result : Option RunActionResult
  error : Option (RunFailure H)
  finished : Bool
  stageTimings : List (ExecutionStage × ProofProgressStatus)
  stageStarted : Bool
deriving DecidableEq, Repr

namespace RunEntry

def new (runId : String) : RunEntry H := ⟨runId, .queued, [], none, none, false, [], false⟩

def finishStage (e : RunEntry H) (status : ProofProgressStatus) : RunEntry H :=
  if e.stageStarted then { e with
    stageStarted := false
    stageTimings := e.stageTimings.modify (e.stageTimings.length - 1) fun timing => (timing.1, status) }
  else e

def beginStage (e : RunEntry H) (stage : ExecutionStage) : RunEntry H :=
  if e.stageStarted && e.stageTimings.getLast?.any fun timing => timing.1 = stage then e
  else
    let e := e.finishStage .done
    { e with stageTimings := e.stageTimings ++ [(stage, .running)], stageStarted := true }

def enter (e : RunEntry H) (phase : ExecutionPhase) : RunEntry H :=
  { e with status := match phase with
    | .generateProof => .generateProof
    | .commit => .committing }

def markStage (e : RunEntry H) (stage : Option ExecutionStage) (status : ProofProgressStatus) : RunEntry H :=
  let e := match stage with
    | some stage => e.beginStage stage
    | none => e
  if status ≠ .running then e.finishStage status else e

/-- Append a non-terminal progress event; `none` where the run has finished, and the assertion fires. -/
def pushProgress (e : RunEntry H) (p : RunActionProgress) : Option (RunEntry H) :=
  if e.finished then none
  else
    let e := (e.enter p.phase).markStage p.stage p.status
    some { e with progress := e.progress ++ [p] }

def succeed (e : RunEntry H) (result : RunActionResult) : Option (RunEntry H) :=
  if e.finished then none
  else
    let e := e.finishStage .done
    some { e with status := .succeeded, result := some result, finished := true }

def fail (e : RunEntry H) (failure : RunFailure H) : Option (RunEntry H) :=
  if e.finished then none
  else
    let phase : ExecutionPhase := match e.status with
      | .committing => .commit
      | _ => .generateProof
    let stage := if e.stageStarted then e.stageTimings.getLast?.map Prod.fst else none
    let e := e.finishStage .failed
    some { e with
      progress := e.progress ++ [⟨e.runId, phase, .failed, failure.message, none, none, none, stage⟩]
      status := .failed
      error := some failure
      finished := true }

end RunEntry

/-- The entry of a run, the relayer failure that it has reported, and whether an assertion fired. -/
structure RunNotes (H : Type) where
  entry : RunEntry H
  reported : Option String
  panicked : Bool
deriving DecidableEq, Repr

namespace RunNotes

def set (n : RunNotes H) : Option (RunEntry H) → RunNotes H
  | some entry => { n with entry := entry }
  | none => { n with panicked := true }

def transactionProgress (n : RunNotes H) (r : Record H) (status : ProofProgressStatus) (message : String)
    (stage : Option ExecutionStage) : RunNotes H :=
  n.set (n.entry.pushProgress ⟨n.entry.runId, .commit, status, message, some r.outputFiles,
    some (match r.state with
      | .recorded | .expired => .unknown
      | .submitted => .pending
      | .landed => .live), some r.inputFiles, stage⟩)

/-- A failed relayer job may still have reached the chain, so the run keeps following. -/
def waitingMessage (r : Record H) : String :=
  if r.relayerFailure.isSome then "Waiting for the transaction to land or its grounding to expire"
  else "Waiting for the transaction to land"

/-- Report a relayer failure that appears while the run follows its transaction. -/
def reportRelayerFailure (n : RunNotes H) (r : Record H) : RunNotes H :=
  match r.relayerFailure with
  | some failure =>
    if n.reported = some failure then n
    else { n with reported := some failure }.transactionProgress r .running
      ("Relayer job " ++ r.relayerJobId.getD "?" ++ " failed: " ++ failure ++ ". " ++ waitingMessage r)
      (some .awaitingSynchronization)
  | none => n

def finishLanded (n : RunNotes H) (r : Record H) : RunNotes H :=
  let n := n.transactionProgress r .done "Transaction landed" none
  n.set (n.entry.succeed ⟨n.entry.runId, r.outputFiles, r.inputFiles⟩)

def finishFailure (n : RunNotes H) (failure : RunFailure H) : RunNotes H := n.set (n.entry.fail failure)

/-- The end of the worker: `follow` returns only terminal records. -/
def settle (n : RunNotes H) (t : H) : Except (FollowError H) (Record H) → RunNotes H
  | .ok r =>
    match r.state with
    | .landed => n.finishLanded r
    | .expired => n.finishFailure (.expired r.txFinal r.reason)
    | .recorded | .submitted => { n with panicked := true }
  | .error err => n.finishFailure (.lost t err)

end RunNotes

/-- `follow` as a run calls it: a record that is terminal after the stage is not read again. -/
def runWatch (t : H) (staged : Option (Record H)) :
    Watch (Shelf H) (HubEvent H) (Record H) (RunNotes H) (FollowError H) where
  read s := match staged with
    | some r => if r.state.isTerminal then .ok r else getTransaction t s
    | none => getTransaction t s
  isDone r := r.state.isTerminal
  fromEvent := transactionEvent t
  note n e := match transactionEvent t e with
    | .ok (some r) => if r.isOpen then n.reportRelayerFailure r else n
    | _ => n
  fallible := !staged.any fun r => r.state.isTerminal
  deadline := false

inductive RunStage (H : Type) where
  | staging
  | following (record : Record H)
  | finished
deriving DecidableEq, Repr

def RunStage.record : RunStage H → Option (Record H)
  | .following r => some r
  | _ => none

structure RunWorld (H : Type) where
  hall : Hall H (Record H) (RunNotes H)
  stage : RunStage H

/-- A step of publishers or of `follow`, one of the stage, or the end of the worker. -/
inductive RunAction (H : Type) where
  | wait (a : WaitAction H)
  | progress (p : RunActionProgress)
  | staged (r : Record H)
  | stageFailed (message : String)
  | stagePanicked (message : String)
  | finish
deriving DecidableEq, Repr

namespace RunWorld

def notes (w : RunWorld H) : RunNotes H := w.hall.follower.notes

def withNotes (w : RunWorld H) (n : RunNotes H) : RunWorld H :=
  { w with hall := { w.hall with follower := { w.hall.follower with notes := n } } }

def spawnRun (s : Shelf H) (runId : String) : RunWorld H :=
  ⟨.start s .subscribing ⟨.new runId, none, false⟩, .staging⟩

/-- `spawn_worker`; the stage ends with a record that the store held, or fails, or panics. -/
def step (t : H) (w : RunWorld H) : RunAction H → Option (RunWorld H)
  | .wait (.follow st) =>
    match w.stage with
    | .following r => (Hall.step (runWatch t (some r)) w.hall (.follow st)).map fun hall => { w with hall := hall }
    | _ => none
  | .wait a => (Hall.step (runWatch t w.stage.record) w.hall a).map fun hall => { w with hall := hall }
  | .progress p => if w.stage = .staging then some (w.withNotes (w.notes.set (w.notes.entry.pushProgress p))) else none
  | .staged r =>
    if w.stage = .staging ∧ (w.hall.past.any fun s => s.records.lookup t = some r) = true then
      some { w.withNotes { w.notes with reported := r.relayerFailure } with stage := .following r }
    else none
  | .stageFailed message =>
    if w.stage = .staging then
      some { w.withNotes (w.notes.finishFailure (.stage message)) with stage := .finished }
    else none
  | .stagePanicked message =>
    if w.stage = .staging then
      some { w.withNotes (w.notes.finishFailure (.panicked message)) with stage := .finished }
    else none
  | .finish =>
    match w.stage, w.hall.follower.phase with
    | .following _, .returned result =>
      some { w.withNotes (w.notes.settle t result) with stage := .finished }
    | _, _ => none

end RunWorld

/-! ## The entry of a run -/

namespace RunNotes

/-- The run is in flight, and no assertion has fired. -/
structure Running (n : RunNotes H) : Prop where
  calm : n.panicked = false
  unfinished : n.entry.finished = false
  status : n.entry.status ≠ .succeeded
  error : n.entry.error = none

/-- The run has finished once, and no assertion has fired. -/
structure Over (n : RunNotes H) : Prop where
  calm : n.panicked = false
  finished : n.entry.finished = true

omit [DecidableEq H] [EncodeHex H] in
theorem finishStage_same (e : RunEntry H) (status : ProofProgressStatus) :
    (e.finishStage status).finished = e.finished ∧ (e.finishStage status).error = e.error ∧
      (e.finishStage status).status = e.status := by
  unfold RunEntry.finishStage
  split <;> exact ⟨rfl, rfl, rfl⟩

omit [DecidableEq H] [EncodeHex H] in
theorem beginStage_same (e : RunEntry H) (stage : ExecutionStage) :
    (e.beginStage stage).finished = e.finished ∧ (e.beginStage stage).error = e.error ∧
      (e.beginStage stage).status = e.status := by
  unfold RunEntry.beginStage
  split
  · exact ⟨rfl, rfl, rfl⟩
  · exact finishStage_same e .done

omit [DecidableEq H] [EncodeHex H] in
theorem markStage_same (e : RunEntry H) (stage : Option ExecutionStage) (status : ProofProgressStatus) :
    (e.markStage stage status).finished = e.finished ∧ (e.markStage stage status).error = e.error ∧
      (e.markStage stage status).status = e.status := by
  unfold RunEntry.markStage
  cases stage with
  | none =>
    dsimp only
    split
    · exact finishStage_same e status
    · exact ⟨rfl, rfl, rfl⟩
  | some stage =>
    obtain ⟨hfinished, herror, hstatus⟩ := beginStage_same e stage
    dsimp only
    split
    · obtain ⟨hfinished', herror', hstatus'⟩ := finishStage_same (e.beginStage stage) status
      exact ⟨hfinished'.trans hfinished, herror'.trans herror, hstatus'.trans hstatus⟩
    · exact ⟨hfinished, herror, hstatus⟩

omit [DecidableEq H] [EncodeHex H] in
theorem pushProgress_some {e : RunEntry H} (h : e.finished = false) (herror : e.error = none)
    (p : RunActionProgress) : ∃ e', e.pushProgress p = some e' ∧ e'.finished = false ∧
      e'.status ≠ .succeeded ∧ e'.error = none := by
  obtain ⟨hfinished, herror', hstatus⟩ := markStage_same (e.enter p.phase) p.stage p.status
  unfold RunEntry.pushProgress
  rw [h]
  refine ⟨_, rfl, hfinished.trans h, ?_, herror'.trans herror⟩
  dsimp only
  rw [hstatus]
  unfold RunEntry.enter
  cases p.phase <;> simp

omit [DecidableEq H] [EncodeHex H] in
theorem Running.push {n : RunNotes H} (h : n.Running) (p : RunActionProgress) :
    (n.set (n.entry.pushProgress p)).Running := by
  obtain ⟨e', he', hopen, hstatus, herror⟩ := pushProgress_some h.unfinished h.error p
  rw [he']
  exact ⟨h.calm, hopen, hstatus, herror⟩

omit [DecidableEq H] [EncodeHex H] in
theorem Running.progress {n : RunNotes H} (h : n.Running) (r : Record H) (status : ProofProgressStatus)
    (message : String) (stage : Option ExecutionStage) : (n.transactionProgress r status message stage).Running :=
  h.push _

omit [DecidableEq H] [EncodeHex H] in
theorem Running.report {n : RunNotes H} (h : n.Running) (r : Record H) : (n.reportRelayerFailure r).Running := by
  unfold reportRelayerFailure
  split
  · rename_i failure hfailure
    split
    · exact h
    · have hreported : ({ n with reported := some failure } : RunNotes H).Running :=
        ⟨h.calm, h.unfinished, h.status, h.error⟩
      exact hreported.progress r _ _ _
  · exact h

omit [DecidableEq H] in
theorem Running.fail {n : RunNotes H} (h : n.Running) (failure : RunFailure H) :
    (n.finishFailure failure).Over ∧ (n.finishFailure failure).entry.status ≠ .succeeded ∧
      (n.finishFailure failure).entry.error = some failure := by
  unfold finishFailure RunEntry.fail
  rw [h.unfinished]
  exact ⟨⟨h.calm, rfl⟩, by simp [set], rfl⟩

omit [DecidableEq H] [EncodeHex H] in
theorem Running.land {n : RunNotes H} (h : n.Running) (r : Record H) :
    (n.finishLanded r).Over ∧ (n.finishLanded r).entry.error = none := by
  have hpush := h.progress r .done "Transaction landed" none
  obtain ⟨-, herror, -⟩ := finishStage_same (n.transactionProgress r .done "Transaction landed" none).entry .done
  unfold finishLanded RunEntry.succeed
  dsimp only
  rw [hpush.unfinished]
  exact ⟨⟨hpush.calm, rfl⟩, herror.trans hpush.error⟩

omit [DecidableEq H] in
/-- The worker ends its run once, and as the result of `follow` says. -/
theorem Running.settle {n : RunNotes H} (h : n.Running) (t : H) {result : Except (FollowError H) (Record H)}
    (hdone : ∀ r, result = .ok r → r.state.isTerminal = true) :
    (n.settle t result).Over ∧
    ((n.settle t result).entry.status = .succeeded → ∃ r, result = .ok r ∧ r.state = .landed) ∧
    (∀ t' reason, (n.settle t result).entry.error = some (.expired t' reason) →
      ∃ r, result = .ok r ∧ r.state = .expired) ∧
    ∀ t' err, (n.settle t result).entry.error = some (.lost t' err) → result = .error err := by
  cases result with
  | error err =>
    obtain ⟨hover, hstatus, herror⟩ := h.fail (.lost t err)
    refine ⟨hover, fun hs => absurd hs hstatus, fun t' reason he => ?_, fun t' err' he => ?_⟩
    · have hsame := herror.symm.trans he
      cases hsame
    · have hsame := herror.symm.trans he
      cases hsame
      rfl
  | ok r =>
    have hterminal := hdone r rfl
    cases hstate : r.state with
    | landed =>
      obtain ⟨hover, herror⟩ := h.land r
      simp only [RunNotes.settle, hstate]
      refine ⟨hover, fun _ => ⟨r, rfl, hstate⟩, fun t' reason he => ?_, fun t' err he => ?_⟩
      · rw [herror] at he
        cases he
      · rw [herror] at he
        cases he
    | expired =>
      obtain ⟨hover, hstatus, herror⟩ := h.fail (.expired r.txFinal r.reason)
      simp only [RunNotes.settle, hstate]
      refine ⟨hover, fun hs => absurd hs hstatus, fun _ _ _ => ⟨r, rfl, hstate⟩, fun t' err he => ?_⟩
      have hsame := herror.symm.trans he
      cases hsame
    | recorded => simp [hstate, Driver.TransactionState.isTerminal] at hterminal
    | submitted => simp [hstate, Driver.TransactionState.isTerminal] at hterminal

end RunNotes

/-! ## Runs -/

namespace RunWorld

variable {t : H} {w w' : RunWorld H}

/-- The outcome of the entry is one that the store had, or that a removal or a failed read explains. -/
structure Explained (t : H) (past : List (Shelf H)) (failures : List (FollowError H)) (e : RunEntry H) : Prop where
  succeeded : e.status = .succeeded →
    ∃ s ∈ past, ∃ r, s.records.lookup t = some r ∧ r.state = .landed
  expired : ∀ t' reason, e.error = some (.expired t' reason) →
    ∃ s ∈ past, ∃ r, s.records.lookup t = some r ∧ r.state = .expired
  lost : ∀ t' err, e.error = some (.lost t' err) → err ∈ failures ∨ ∃ s ∈ past, t ∈ s.removed

structure Inv (t : H) (w : RunWorld H) : Prop where
  awake : w.stage ≠ .finished → Scene.Awake (runWatch t w.stage.record) w.hall
  backed : w.stage ≠ .finished → Scene.Backed (runWatch t w.stage.record) Shelf.reflects w.hall
  staging : w.stage = .staging → w.hall.follower.phase = .subscribing
  idle : w.stage = .finished → ∀ r, w.hall.follower.phase ≠ .waiting r
  held : ∀ r, w.stage = .following r → ∃ s ∈ w.hall.past, s.records.lookup t = some r
  running : w.stage ≠ .finished → w.notes.Running
  done : w.stage = .finished → w.notes.Over
  explained : Explained t w.hall.past w.hall.failures w.notes.entry

omit [EncodeHex H] in
theorem Explained.mono {past past' : List (Shelf H)} {failures failures' : List (FollowError H)}
    {e : RunEntry H} (h : Explained t past failures e) (hpast : past ⊆ past') (hfailures : failures ⊆ failures') :
    Explained t past' failures' e := by
  refine ⟨fun hs => ?_, fun t' reason he => ?_, fun t' err he => ?_⟩
  · obtain ⟨s, hin, hrest⟩ := h.succeeded hs
    exact ⟨s, hpast hin, hrest⟩
  · obtain ⟨s, hin, hrest⟩ := h.expired t' reason he
    exact ⟨s, hpast hin, hrest⟩
  · rcases h.lost t' err he with hin | ⟨s, hin, hremoved⟩
    · exact .inl (hfailures hin)
    · exact .inr ⟨s, hpast hin, hremoved⟩

omit [EncodeHex H] in
/-- While a run is in flight there is nothing to explain. -/
theorem Explained.running {n : RunNotes H} (h : n.Running) (past : List (Shelf H))
    (failures : List (FollowError H)) : Explained t past failures n.entry := by
  refine ⟨fun hs => absurd hs h.status, fun t' reason he => ?_, fun t' err he => ?_⟩
  · rw [h.error] at he
    cases he
  · rw [h.error] at he
    cases he

omit [EncodeHex H] in
theorem transactionEvent_ok {e : HubEvent H} {r : Record H} (h : transactionEvent t e = .ok (some r)) :
    e = .record (.transaction r) ∧ r.txFinal = t := by
  unfold transactionEvent at h
  split at h
  · split at h
    · rename_i hkey
      cases h
      exact ⟨rfl, hkey⟩
    · cases h
  · split at h <;> cases h
  · split at h <;> cases h
  · cases h

omit [EncodeHex H] in
theorem transactionEvent_error {e : HubEvent H} {err : FollowError H} (h : transactionEvent t e = .error err) :
    e = .record (.transactionDeleted t) ∨ e = .record (.transactionPruned t) := by
  unfold transactionEvent at h
  split at h
  · cases h
  · split at h
    · rename_i hkey
      exact .inl (by rw [hkey])
    · cases h
  · split at h
    · rename_i hkey
      exact .inr (by rw [hkey])
    · cases h
  · cases h

omit [EncodeHex H] in
theorem getTransaction_ok {s : Shelf H} {r : Record H} (h : getTransaction t s = .ok r) :
    s.records.lookup t = some r := by
  unfold getTransaction at h
  split at h
  · cases h
    assumption
  · cases h

omit [EncodeHex H] in
/-- A record that a run has seen was in the store. -/
theorem lookup_of_seen {staged : Option (Record H)} {past : List (Shelf H)} {failures : List (FollowError H)}
    {r : Record H} (hheld : ∀ r ∈ staged, ∃ s ∈ past, s.records.lookup t = some r)
    (h : Scene.Seen (runWatch t staged) Shelf.reflects past failures (.ok r)) :
    ∃ s ∈ past, s.records.lookup t = some r := by
  obtain ⟨s, hs, hread | ⟨e, hreflects, hevent⟩⟩ := h
  · unfold runWatch at hread
    dsimp only at hread
    cases staged with
    | none => exact ⟨s, hs, getTransaction_ok hread⟩
    | some r₀ =>
      dsimp only at hread
      split at hread
      · cases hread
        exact hheld r rfl
      · exact ⟨s, hs, getTransaction_ok hread⟩
  · obtain ⟨rfl, rfl⟩ := transactionEvent_ok hevent
    exact ⟨s, hs, by simpa [Shelf.reflects] using hreflects⟩

omit [EncodeHex H] in
theorem removed_of_seen {staged : Option (Record H)} {past : List (Shelf H)} {failures : List (FollowError H)}
    {err : FollowError H} (h : Scene.Seen (runWatch t staged) Shelf.reflects past failures (.error err)) :
    err ∈ failures ∨ ∃ s ∈ past, t ∈ s.removed := by
  rcases h with hfailed | ⟨s, hs, e, hreflects, hevent⟩
  · exact .inl hfailed
  · right
    refine ⟨s, hs, ?_⟩
    rcases transactionEvent_error hevent with rfl | rfl
    · simp only [Shelf.reflects, Bool.and_eq_true, decide_eq_true_eq] at hreflects
      exact hreflects.1
    · simp only [Shelf.reflects, Bool.and_eq_true, decide_eq_true_eq] at hreflects
      exact hreflects.1

omit [EncodeHex H] in
theorem Inv.spawnRun (s : Shelf H) (runId : String) : Inv t (RunWorld.spawnRun s runId) := by
  have hrunning : (RunWorld.spawnRun s runId).notes.Running := 
    ⟨rfl, rfl, by simp [RunWorld.spawnRun, RunEntry.new, notes, Scene.start], rfl⟩
  refine ⟨fun _ => Scene.Awake.start s _, fun _ => ?_, fun _ => rfl, fun hfinished => (by cases hfinished),
    fun r hr => (by cases hr), fun _ => hrunning, fun hfinished => (by cases hfinished),
    Explained.running hrunning _ _⟩
  exact Scene.Backed.start s _ (by simp) (by simp) (by simp)

omit [EncodeHex H] in
/-- What a scene has seen stays. -/
theorem hall_mono {τ κ : Type} {watch : Watch (Shelf H) (HubEvent H) τ κ (FollowError H)} {v v' : Hall H τ κ}
    {a : WaitAction H} (hs : Hall.step watch v a = some v') :
    v.past ⊆ v'.past ∧ v.failures ⊆ v'.failures := by
  cases a with
  | edit e =>
    cases hs
    exact ⟨fun s hin => List.mem_cons_of_mem _ hin, fun _ hin => hin⟩
  | take e =>
    simp only [Hall.step, WaitAction.on, Scene.step] at hs
    split at hs <;> cases hs
    exact ⟨fun _ hin => hin, fun _ hin => hin⟩
  | publish i =>
    simp only [Hall.step, WaitAction.on, Scene.step] at hs
    split at hs <;> cases hs
    exact ⟨fun _ hin => hin, fun _ hin => hin⟩
  | follow st =>
    simp only [Hall.step, WaitAction.on, Scene.step] at hs
    split at hs <;> cases hs
    refine ⟨fun _ hin => hin, fun err hin => ?_⟩
    dsimp only
    split
    · unfold Watch.failed
      split
      · exact List.mem_cons_of_mem _ hin
      · exact hin
    · exact hin

omit [EncodeHex H] in
/-- Publishers do not touch what the follower knows. -/
theorem hall_publisher {τ κ : Type} {watch : Watch (Shelf H) (HubEvent H) τ κ (FollowError H)} {v v' : Hall H τ κ}
    {a : WaitAction H} (hs : Hall.step watch v a = some v') (ha : ∀ st, a ≠ .follow st) :
    v'.follower.phase = v.follower.phase ∧ v'.follower.notes = v.follower.notes := by
  cases a with
  | edit e =>
    cases hs
    exact ⟨rfl, rfl⟩
  | take e =>
    simp only [Hall.step, WaitAction.on, Scene.step] at hs
    split at hs <;> cases hs
    exact ⟨rfl, rfl⟩
  | publish i =>
    simp only [Hall.step, WaitAction.on, Scene.step] at hs
    split at hs <;> cases hs
    exact ⟨rfl, rfl⟩
  | follow st => exact absurd rfl (ha st)

omit [EncodeHex H] in
/-- Events move a run in flight to one in flight. -/
theorem running_note (staged : Option (Record H)) (n : RunNotes H) (e : HubEvent H) (h : n.Running) :
    ((runWatch t staged).note n e).Running := by
  unfold runWatch
  dsimp only
  split
  · split
    · exact h.report _
    · exact h
  · exact h

omit [EncodeHex H] in
theorem Inv.wait {a : WaitAction H} {hall : Hall H (Record H) (RunNotes H)} (h : Inv t w)
    (hs : Hall.step (runWatch t w.stage.record) w.hall a = some hall)
    (ha : (∀ st, a ≠ .follow st) ∨ ∃ r, w.stage = .following r) : Inv t { w with hall := hall } := by
  obtain ⟨hpast, hfailures⟩ := hall_mono hs
  -- outside of `following` only publishers take steps
  have hsame : (∀ r, w.stage ≠ .following r) → hall.follower.phase = w.hall.follower.phase ∧
      hall.follower.notes = w.hall.follower.notes := by
    intro hstage
    rcases ha with ha | ⟨r, hr⟩
    · exact hall_publisher hs ha
    · exact absurd hr (hstage r)
  have hrunning : w.stage ≠ .finished → hall.follower.notes.Running := fun hstage =>
    Scene.notes_step (fun n e hn => running_note _ n e hn) (h.running hstage) hs
  refine ⟨fun hstage => (h.awake hstage).step hs, fun hstage => (h.backed hstage).step hs, fun hstage => ?_,
    fun hstage r => ?_, fun r hr => ?_, hrunning, fun hstage => ?_, ?_⟩
  · have hphase := (hsame (by simp_all)).1
    exact hphase.trans (h.staging hstage)
  · have hphase := (hsame (by simp_all)).1
    dsimp only
    rw [hphase]
    exact h.idle hstage r
  · obtain ⟨s, hin, hlookup⟩ := h.held r hr
    exact ⟨s, hpast hin, hlookup⟩
  · have hnotes := (hsame (by simp_all)).2
    have hover := h.done hstage
    unfold notes at hover ⊢
    dsimp only
    rw [hnotes]
    exact hover
  · by_cases hstage : w.stage = .finished
    · have hnotes := (hsame (by simp_all)).2
      have hexplained := h.explained.mono hpast hfailures
      unfold notes at hexplained ⊢
      dsimp only
      rw [hnotes]
      exact hexplained
    · exact Explained.running (hrunning hstage) _ _

omit [EncodeHex H] in
/-- What ends a wait under no record ends one under a record. -/
theorem ended_staged {s : Shelf H} (r : Record H) (h : (runWatch t none).ended s = true) :
    (runWatch t (some r)).ended s = true := by
  by_cases hterminal : r.state.isTerminal = true
  · simp [Watch.ended, Watch.settles, runWatch, hterminal]
  · simpa [Watch.ended, Watch.settles, runWatch, hterminal] using h

omit [EncodeHex H] in
/-- The stage hands its record to `follow`. -/
theorem Inv.staged {r : Record H} (h : Inv t w) (hstage : w.stage = .staging)
    (hheld : ∃ s ∈ w.hall.past, s.records.lookup t = some r) :
    Inv t { w.withNotes { w.notes with reported := r.relayerFailure } with stage := .following r } := by
  have hopen : w.stage ≠ .finished := by simp [hstage]
  have hphase := h.staging hstage
  have hrunning := h.running hopen
  have hrunning' : ({ w.notes with reported := r.relayerFailure } : RunNotes H).Running :=
    ⟨hrunning.calm, hrunning.unfinished, hrunning.status, hrunning.error⟩
  have hawake := h.awake hopen
  have hbacked := h.backed hopen
  rw [hstage] at hawake hbacked
  refine ⟨fun _ => ⟨fun hann => ?_, fun v hv => ?_⟩, fun _ => ⟨hbacked.store, hbacked.pending, hbacked.queued,
    fun v hv => ?_, fun result hresult => ?_, fun _ => ⟨?_, fun v hv => ?_⟩⟩, fun hs => ?_, fun hs => ?_,
    fun r' hr' => ?_, fun _ => hrunning', fun hs => ?_, Explained.running hrunning' _ _⟩
  · exact ended_staged r (hawake.announced hann)
  · rw [show w.hall.follower.phase = .waiting v from hv] at hphase
    cases hphase
  · rw [show w.hall.follower.phase = .waiting v from hv] at hphase
    cases hphase
  · rw [show w.hall.follower.phase = .returned result from hresult] at hphase
    cases hphase
  · rw [show ({ w.withNotes { w.notes with reported := r.relayerFailure } with
      stage := .following r } : RunWorld H).hall.follower.phase = .subscribing from hphase]
    simp
  · rw [show w.hall.follower.phase = .returned (.ok v) from hv] at hphase
    cases hphase
  · cases hs
  · cases hs
  · cases hr'
    exact hheld
  · cases hs

/-- A stage that fails or panics ends the run. -/
theorem Inv.stageFailed {failure : RunFailure H} (h : Inv t w) (hstage : w.stage = .staging)
    (hexpired : ∀ t' reason, failure ≠ .expired t' reason) (hlost : ∀ t' err, failure ≠ .lost t' err) :
    Inv t { w.withNotes (w.notes.finishFailure failure) with stage := .finished } := by
  obtain ⟨hover, hstatus, herror⟩ := (h.running (by simp [hstage])).fail failure
  have hphase := h.staging hstage
  refine ⟨fun hs => absurd rfl hs, fun hs => absurd rfl hs, fun hs => (by cases hs), fun _ r hr => ?_,
    fun r hr => (by cases hr), fun hs => absurd rfl hs, fun _ => hover, fun hs => absurd hs hstatus,
    fun t' reason he => ?_, fun t' err he => ?_⟩
  · rw [show w.hall.follower.phase = .waiting r from hr] at hphase
    cases hphase
  · have hsame := herror.symm.trans he
    cases hsame
    exact absurd rfl (hexpired t' reason)
  · have hsame := herror.symm.trans he
    cases hsame
    exact absurd rfl (hlost t' err)

/-- The worker ends its run with what `follow` returned. -/
theorem Inv.finish {r : Record H} {result : Except (FollowError H) (Record H)} (h : Inv t w)
    (hstage : w.stage = .following r) (hphase : w.hall.follower.phase = .returned result) :
    Inv t { w.withNotes (w.notes.settle t result) with stage := .finished } := by
  have hopen : w.stage ≠ .finished := by simp [hstage]
  have hbacked := h.backed hopen
  have hseen := hbacked.returned result hphase
  have hdone : ∀ v, result = .ok v → v.state.isTerminal = true := by
    intro v hv
    rw [hv] at hphase
    exact (hbacked.done rfl).2 v hphase
  obtain ⟨hover, hlanded, hexpired, hlost⟩ := (h.running hopen).settle t hdone
  have hheld : ∀ r ∈ w.stage.record, ∃ s ∈ w.hall.past, s.records.lookup t = some r := by
    intro r' hr'
    rw [hstage] at hr'
    cases hr'
    exact h.held r hstage
  refine ⟨fun hs => absurd rfl hs, fun hs => absurd rfl hs, fun hs => (by cases hs), fun _ r hr => ?_,
    fun r hr => (by cases hr), fun hs => absurd rfl hs, fun _ => hover, fun hs => ?_,
    fun t' reason he => ?_, fun t' err he => ?_⟩
  · rw [show w.hall.follower.phase = .waiting r from hr] at hphase
    cases hphase
  · obtain ⟨r', rfl, hstate⟩ := hlanded hs
    obtain ⟨s, hin, hlookup⟩ := lookup_of_seen hheld hseen
    exact ⟨s, hin, r', hlookup, hstate⟩
  · obtain ⟨r', rfl, hstate⟩ := hexpired t' reason he
    obtain ⟨s, hin, hlookup⟩ := lookup_of_seen hheld hseen
    exact ⟨s, hin, r', hlookup, hstate⟩
  · obtain rfl := hlost t' err he
    exact removed_of_seen hseen

omit [EncodeHex H] in
theorem Inv.progress {p : RunActionProgress} (h : Inv t w) (hstage : w.stage = .staging) :
    Inv t (w.withNotes (w.notes.set (w.notes.entry.pushProgress p))) := by
  have hopen : w.stage ≠ .finished := by simp [hstage]
  have hrunning := (h.running hopen).push p
  have hawake := h.awake hopen
  have hbacked := h.backed hopen
  refine ⟨fun _ => ⟨hawake.announced, hawake.waiting⟩, fun _ => ⟨hbacked.store, hbacked.pending, hbacked.queued,
    hbacked.waiting, hbacked.returned, hbacked.done⟩, h.staging, h.idle, h.held, fun _ => hrunning,
    fun hs => absurd hs hopen, Explained.running hrunning _ _⟩

/-- A step of the hall is one of `follow`, of a run that follows, or one of publishers. -/
theorem step_wait {a : WaitAction H} (hs : RunWorld.step t w (.wait a) = some w') :
    ∃ hall, Hall.step (runWatch t w.stage.record) w.hall a = some hall ∧ w' = { w with hall := hall } ∧
      ((∀ st, a ≠ .follow st) ∨ ∃ r, w.stage = .following r) := by
  by_cases ha : ∃ st, a = .follow st
  · obtain ⟨st, rfl⟩ := ha
    simp only [RunWorld.step] at hs
    split at hs
    · rename_i r hstage
      obtain ⟨hall, hhall, rfl⟩ := Option.map_eq_some_iff.mp hs
      rw [hstage]
      exact ⟨hall, hhall, rfl, .inr ⟨r, rfl⟩⟩
    · cases hs
  · have hpublisher : ∀ st, a ≠ .follow st := fun st h => ha ⟨st, h⟩
    rw [RunWorld.step] at hs
    · obtain ⟨hall, hhall, rfl⟩ := Option.map_eq_some_iff.mp hs
      exact ⟨hall, hhall, rfl, .inl hpublisher⟩
    · exact hpublisher

theorem Inv.step {a : RunAction H} (h : Inv t w) (hs : RunWorld.step t w a = some w') : Inv t w' := by
  cases a with
  | wait a =>
    obtain ⟨hall, hhall, rfl, ha⟩ := step_wait hs
    exact h.wait hhall ha
  | progress p =>
    simp only [RunWorld.step] at hs
    split at hs <;> cases hs
    rename_i hstage
    exact h.progress hstage
  | staged r =>
    simp only [RunWorld.step] at hs
    split at hs <;> cases hs
    rename_i hguard
    obtain ⟨s, hin, hlookup⟩ := List.any_eq_true.mp hguard.2
    exact h.staged hguard.1 ⟨s, hin, by simpa using hlookup⟩
  | stageFailed message =>
    simp only [RunWorld.step] at hs
    split at hs <;> cases hs
    rename_i hstage
    exact h.stageFailed hstage (by simp) (by simp)
  | stagePanicked message =>
    simp only [RunWorld.step] at hs
    split at hs <;> cases hs
    rename_i hstage
    exact h.stageFailed hstage (by simp) (by simp)
  | finish =>
    simp only [RunWorld.step] at hs
    split at hs
    · rename_i r result hstage hphase
      cases hs
      exact h.finish hstage hphase
    · cases hs

/-- A finished run keeps its entry. -/
theorem step_finished {a : RunAction H} (hstage : w.stage = .finished) (hs : RunWorld.step t w a = some w') :
    w'.stage = .finished ∧ w'.notes = w.notes := by
  cases a with
  | wait a =>
    obtain ⟨hall, hhall, rfl, ha | ⟨r, hr⟩⟩ := step_wait hs
    · exact ⟨hstage, (hall_publisher hhall ha).2⟩
    · rw [hstage] at hr
      cases hr
  | progress p => simp [RunWorld.step, hstage] at hs
  | staged r => simp [RunWorld.step, hstage] at hs
  | stageFailed message => simp [RunWorld.step, hstage] at hs
  | stagePanicked message => simp [RunWorld.step, hstage] at hs
  | finish => simp [RunWorld.step, hstage] at hs

theorem runSteps_finished {as : List (RunAction H)} (hstage : w.stage = .finished)
    (hrun : runSteps (RunWorld.step t) w as = some w') : w'.stage = .finished ∧ w'.notes = w.notes := by
  have hkeeps : ∀ (v : RunWorld H) (a : RunAction H) (v' : RunWorld H),
      v.stage = .finished ∧ v.notes = w.notes → RunWorld.step t v a = some v' →
      v'.stage = .finished ∧ v'.notes = w.notes := by
    intro v a v' hv hs
    obtain ⟨hfinished, hnotes⟩ := step_finished hv.1 hs
    exact ⟨hfinished, hnotes.trans hv.2⟩
  exact runSteps_preserves hkeeps ⟨hstage, rfl⟩ hrun

theorem reaches_inv {s : Shelf H} {runId : String} {as : List (RunAction H)}
    (hrun : runSteps (RunWorld.step t) (RunWorld.spawnRun s runId) as = some w) : Inv t w :=
  runSteps_preserves (fun _ _ _ h hs => h.step hs) (Inv.spawnRun s runId) hrun

omit [EncodeHex H] in
/-- A run that waits on an empty queue has missed no end of its transaction. -/
theorem Inv.not_sits (h : Inv t w) (hsits : w.hall.Sits) : w.hall.announced = false := by
  obtain ⟨r, hr⟩ := hsits.1
  have hopen : w.stage ≠ .finished := fun hstage => h.idle hstage r hr
  exact (h.awake hopen).not_sits hsits

omit [EncodeHex H] in
theorem Inv.finished_iff (h : Inv t w) : w.notes.entry.finished = true ↔ w.stage = .finished := by
  by_cases hstage : w.stage = .finished
  · simp [hstage, (h.done hstage).finished]
  · simp [hstage, (h.running hstage).unfinished]

omit [EncodeHex H] in
theorem Inv.calm (h : Inv t w) : w.notes.panicked = false := by
  by_cases hstage : w.stage = .finished
  · exact (h.done hstage).calm
  · exact (h.running hstage).calm

/-- Once `follow` has returned, the worker can end its run. -/
theorem Inv.can_finish (h : Inv t w) {r : Record H} {result : Except (FollowError H) (Record H)}
    (hstage : w.stage = .following r) (hphase : w.hall.follower.phase = .returned result) :
    ∃ w', RunWorld.step t w .finish = some w' ∧ w'.notes.entry.finished = true := by
  have hstep : RunWorld.step t w .finish =
      some { w.withNotes (w.notes.settle t result) with stage := .finished } := by
    simp only [RunWorld.step, hstage, hphase]
  exact ⟨_, hstep, (h.step hstep).finished_iff.mpr rfl⟩

end RunWorld

/-! ## Requests that wait -/

section Requests

variable {τ : Type} {watch : Watch (Shelf H) (HubEvent H) τ Unit (FollowError H)} {s : Shelf H} {wait : Bool}
  {as : List (WaitAction H)} {w : Hall H τ Unit}

omit [EncodeHex H] in
theorem awake_of_waits (hrun : runSteps (Hall.step watch) (waitUntil wait s) as = some w) :
    Scene.Awake watch w :=
  runSteps_preserves (fun _ _ _ h hs => Scene.Awake.step h hs) (Scene.Awake.start s ()) hrun

omit [EncodeHex H] in
theorem backed_of_waits (hdeadline : watch.deadline = true)
    (hrun : runSteps (Hall.step watch) (waitUntil wait s) as = some w) :
    Scene.Backed watch Shelf.reflects w := by
  have hstart : Scene.Backed watch Shelf.reflects (waitUntil wait s) := by
    unfold waitUntil
    refine Scene.Backed.start s () (fun v => ?_) (fun result => ?_) (fun hnone => ?_)
    · split <;> simp
    · split <;> simp
    · rw [hdeadline] at hnone
      cases hnone
  exact runSteps_preserves (fun _ _ _ h hs => Scene.Backed.step h hs) hstart hrun

omit [EncodeHex H] in
theorem failures_of_waits (hread : ∀ s failure, ∃ v, watch.readOr s failure = .ok v)
    (hrun : runSteps (Hall.step watch) (waitUntil wait s) as = some w) : w.failures = [] :=
  runSteps_preserves (I := fun w : Hall H τ Unit => w.failures = [])
    (fun _ _ _ h hs => Scene.failures_step hread h hs) rfl hrun

variable {t : H}

omit [EncodeHex H] in
/-- No end of a transaction is missed, and what the request returns was in the store or explains itself. -/
theorem waitForTransaction_spec {w : Hall H (Record H) Unit}
    (hrun : runSteps (Hall.step (waitForTransaction t)) (waitUntil wait s) as = some w) :
    (w.Sits → ¬ (w.store.isOver t = true ∧ w.announced = true)) ∧
    (∀ r, w.follower.phase = .returned (.ok r) → ∃ s ∈ w.past, s.records.lookup t = some r) ∧
    ∀ err, w.follower.phase = .returned (.error err) → err ∈ w.failures ∨ ∃ s ∈ w.past, t ∈ s.removed := by
  have hawake := awake_of_waits hrun
  have hbacked := backed_of_waits rfl hrun
  refine ⟨fun hsits hover => ?_, fun r hr => ?_, fun err herr => ?_⟩
  · have hann := hawake.not_sits hsits
    simp [hann] at hover
  · have hseen : Scene.Seen (runWatch t none) Shelf.reflects w.past w.failures (.ok r) := hbacked.returned _ hr
    exact RunWorld.lookup_of_seen (by simp) hseen
  · have hseen : Scene.Seen (runWatch t none) Shelf.reflects w.past w.failures (.error err) :=
      hbacked.returned _ herr
    exact RunWorld.removed_of_seen hseen

omit [EncodeHex H] in
/-- No end of a job is missed, and what the request returns is a state of its entry. -/
theorem waitForProofJob_spec {jobId : String} {w : Hall H (ProofJobState H) Unit}
    (hrun : runSteps (Hall.step (waitForProofJob jobId)) (waitUntil wait s) as = some w) :
    (w.Sits → ¬ ((w.store.jobs jobId).status.isTerminal = true ∧ w.announced = true)) ∧
    ∀ result, w.follower.phase = .returned result → ∃ s ∈ w.past, result = .ok (s.jobs jobId) := by
  have hawake := awake_of_waits hrun
  have hbacked := backed_of_waits rfl hrun
  have hread : ∀ (s : Shelf H) (failure : Option (FollowError H)),
      ∃ job, (waitForProofJob jobId).readOr s failure = .ok job := by
    intro s failure
    unfold Watch.readOr waitForProofJob
    cases failure <;> exact ⟨s.jobs jobId, rfl⟩
  have hfailures := failures_of_waits hread hrun
  refine ⟨fun hsits hover => ?_, fun result hresult => ?_⟩
  · have hann := hawake.not_sits hsits
    simp [hann] at hover
  · have hseen := hbacked.returned result hresult
    cases result with
    | error err =>
      rcases hseen with hfailed | ⟨s, hin, e, hreflects, hevent⟩
      · rw [hfailures] at hfailed
        cases hfailed
      · unfold waitForProofJob at hevent
        dsimp only at hevent
        split at hevent <;> cases hevent
    | ok job =>
      obtain ⟨s, hin, hread | ⟨e, hreflects, hevent⟩⟩ := hseen
      · cases hread
        exact ⟨s, hin, rfl⟩
      · unfold waitForProofJob at hevent
        dsimp only at hevent
        split at hevent
        · split at hevent
          · rename_i job' hid
            cases hevent
            refine ⟨s, hin, ?_⟩
            rw [← hid]
            simp only [Shelf.reflects, decide_eq_true_eq] at hreflects
            rw [hreflects]
          · cases hevent
        · cases hevent

end Requests

/-- Waiters neither miss nor invent an outcome, and a run ends once. -/
theorem outcomes_followed (t : H) (jobId : String) :
    (∀ s runId as w, runSteps (RunWorld.step t) (RunWorld.spawnRun s runId) as = some w →
      (w.hall.Sits → ¬ (w.hall.store.isOver t = true ∧ w.hall.announced = true)) ∧
      (w.notes.entry.status = .succeeded →
        ∃ s ∈ w.hall.past, ∃ r, s.records.lookup t = some r ∧ r.state = .landed) ∧
      (∀ t' reason, w.notes.entry.error = some (.expired t' reason) →
        ∃ s ∈ w.hall.past, ∃ r, s.records.lookup t = some r ∧ r.state = .expired) ∧
      (∀ t' err, w.notes.entry.error = some (.lost t' err) →
        err ∈ w.hall.failures ∨ ∃ s ∈ w.hall.past, t ∈ s.removed) ∧
      w.notes.panicked = false ∧
      (w.notes.entry.finished = true ↔ w.stage = .finished) ∧
      (∀ r result, w.stage = .following r → w.hall.follower.phase = .returned result →
        ∃ w', RunWorld.step t w .finish = some w' ∧ w'.notes.entry.finished = true) ∧
      (w.notes.entry.finished = true → ∀ bs w', runSteps (RunWorld.step t) w bs = some w' → w'.notes = w.notes)) ∧
    (∀ s wait as w, runSteps (Hall.step (waitForTransaction t)) (waitUntil wait s) as = some w →
      (w.Sits → ¬ (w.store.isOver t = true ∧ w.announced = true)) ∧
      (∀ r, w.follower.phase = .returned (.ok r) → ∃ s ∈ w.past, s.records.lookup t = some r) ∧
      ∀ err, w.follower.phase = .returned (.error err) → err ∈ w.failures ∨ ∃ s ∈ w.past, t ∈ s.removed) ∧
    ∀ (s : Shelf H) wait as w, runSteps (Hall.step (waitForProofJob jobId)) (waitUntil wait s) as = some w →
      (w.Sits → ¬ ((w.store.jobs jobId).status.isTerminal = true ∧ w.announced = true)) ∧
      ∀ result, w.follower.phase = .returned result → ∃ s ∈ w.past, result = .ok (s.jobs jobId) := by
  refine ⟨fun s runId as w hrun => ?_, fun s wait as w hrun => waitForTransaction_spec hrun,
    fun s wait as w hrun => waitForProofJob_spec hrun⟩
  have hinv := RunWorld.reaches_inv hrun
  refine ⟨fun hsits hover => ?_, hinv.explained.succeeded, hinv.explained.expired, hinv.explained.lost, hinv.calm,
    hinv.finished_iff, fun r result hstage hphase => hinv.can_finish hstage hphase, fun hfinished bs w' hrest => ?_⟩
  · have hann := hinv.not_sits hsits
    simp [hann] at hover
  · exact (RunWorld.runSteps_finished (hinv.finished_iff.mp hfinished) hrest).2

end DigitalObjects.Dobjd
