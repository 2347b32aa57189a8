import DigitalObjects.Driver.Operations
import DigitalObjects.Lib.Machine
set_option autoImplicit false

/-!
The daemon over one driver store: requests, runs, submission retries, settlement passes and
object synchronizations, each a thread of its own, and the events that they publish. A thread
is cut where it takes or leaves the store lock and at every event. What the synchronizer, the
relayer and the file system answer comes with the action.
-/

namespace DigitalObjects.Dobjd

open Lib Driver.Objects

variable {H : Type} [DecidableEq H]

abbrev Record (H : Type) := TransactionRecord H

abbrev Records (H : Type) := AList fun _ : H => Record H

/-! ## Events -/

/-- The events that show a transaction. -/
inductive Event (H : Type) where
  | transaction (r : Record H)
  | transactionDeleted (t : H)
  | transactionPruned (t : H)
deriving DecidableEq, Repr

def Event.txFinal : Event H → H
  | .transaction r => r.txFinal
  | .transactionDeleted t => t
  | .transactionPruned t => t

/-- Landed, expired, deleted or pruned. -/
def Event.closes : Event H → Bool
  | .transaction r => r.state.isTerminal
  | .transactionDeleted _ => true
  | .transactionPruned _ => true

/-- What has happened: an event was published, or a transaction was recorded. -/
inductive Entry (H : Type) where
  | event (e : Event H)
  | recorded (t : H)
deriving DecidableEq, Repr

/-- The last event of a transaction; the newest entry comes first. -/
def lastEvent (t : H) : List (Entry H) → Option (Event H)
  | [] => none
  | .recorded _ :: rest => lastEvent t rest
  | .event e :: rest => if e.txFinal = t then some e else lastEvent t rest

/-! ## Threads -/

/-- Who called `submit`: a request, a run on its way through `submit_record`, or a retry. -/
inductive Caller where
  | service
  | run (preflightRetries : Nat)
  | retry
deriving DecidableEq, Repr

/-- What a thread has still to do. `stamped` tells that the call has set `submit_attempted_at_ms`,
`wrote` that a settlement failed after it had written a record. -/
inductive Thread (H : Type) where
  | recording (r : Record H) (submits : Bool)
  | announcing (r : Record H) (submits : Bool)
  | submitting (t : H) (caller : Caller)
  | marking (t : H) (caller : Caller)
  | sending (t : H) (caller : Caller) (stamped : Bool)
  | finishing (t : H) (caller : Caller) (stamped : Bool) (jobId : String) (failed : Bool)
  | inspecting (t : H) (preflightRetries : Nat) (stamped : Bool)
  | updating (t : H)
  | rereading (t : H)
  | deleting (t : H)
  | announcingDeleted (t : H)
  | starting (sync : Bool)
  | querying (sync : Bool)
  | settling (sync : Bool) (queried : List H)
  | relisting (wrote : Bool)
  | collecting (records : List (Record H)) (wrote : Bool)
  | pruning (records : List (Record H))
  | publishing (records : List (Record H)) (pruned : List H)
deriving DecidableEq, Repr

/-- The submission lock of a transaction is taken. -/
def Thread.submits (t : H) : Thread H → Bool
  | .marking t' _ => t' = t
  | .sending t' _ _ => t' = t
  | .finishing t' _ _ _ _ => t' = t
  | _ => false

structure Daemon (H : Type) where
  records : Records H
  threads : AList fun _ : Nat => Thread H
  passLock : Bool
  publishedTerminal : List H
  history : List (Entry H)

/-! ## Answers -/

/-- The file names that `persist_settled_objects` puts into a record. -/
structure FileNames where
  inputFiles : List String
  outputFiles : List String
  pendingNames : List PendingName
deriving DecidableEq, Repr

def withNames (r : Record H) (n : FileNames) : Record H :=
  { r with inputFiles := n.inputFiles, outputFiles := n.outputFiles, pendingNames := n.pendingNames }

inductive Persisted where
  | failed
  | same
  | renamed (n : FileNames)
deriving DecidableEq, Repr

/-- A directory is removed, left, or left without its record. -/
inductive Removal where
  | done
  | failed
  | torn
deriving DecidableEq, Repr

/-- How pruning fares with one record; `cached` is a hit in `reconciled_transactions`. -/
structure PruneAnswer where
  cached : Bool
  persisted : Persisted
  removal : Removal
deriving DecidableEq, Repr

inductive PruneEnd where
  | unreadable
  | done
  | failed
deriving DecidableEq, Repr

inductive Action (H : Type) where
  | spawnRun (id : Nat) (proved : ProvedTransaction H) (owner : String) (names : FileNames) (now : Nat)
      (submits : Bool)
  | spawnSubmit (id : Nat) (t : H)
  | spawnRetry (id : Nat) (t : H)
  | spawnDelete (id : Nat) (t : H)
  | spawnPass (id : Nat) (sync : Bool)
  | record (id : Nat) (ok : Bool)
  | announce (id : Nat)
  | submitRead (id : Nat) (preflight : Bool)
  | submitMark (id : Nat) (now : Nat) (ok : Bool)
  | submitSend (id : Nat) (response : Option (String × Bool))
  | submitFinish (id : Nat) (now : Nat) (ok : Bool)
  | inspect (id : Nat) (readable refused : Bool)
  | lockPass (id : Nat)
  | reread (id : Nat) (readable : Bool)
  | query (id : Nat)
  | settle (id : Nat) (x : Settlement H) (now : Nat) (names : List (H × FileNames)) (stop : Option Nat)
  | relist (id : Nat) (readable : Bool)
  | collect (id : Nat) (readable : Bool)
  | prune (id : Nat) (now : Nat) (answers : List (H × PruneAnswer)) (ending : PruneEnd)
  | publish (id : Nat)
  | delete (id : Nat) (removal : Removal)
  | announceDeleted (id : Nat)
deriving DecidableEq, Repr

namespace Action

/-- The thread that takes the step. -/
def id : Action H → Nat
  | .spawnRun id _ _ _ _ _ | .spawnSubmit id _ | .spawnRetry id _ | .spawnDelete id _ => id
  | .spawnPass id _ | .record id _ | .announce id | .submitRead id _ | .submitMark id _ _ => id
  | .submitSend id _ | .submitFinish id _ _ | .inspect id _ _ | .lockPass id | .reread id _ => id
  | .query id | .settle id _ _ _ _ | .relist id _ | .collect id _ | .prune id _ _ _ => id
  | .publish id | .delete id _ | .announceDeleted id => id

end Action

/-! ## Steps -/

namespace Daemon

def thread (w : Daemon H) (id : Nat) : Option (Thread H) := w.threads.lookup id

def read (w : Daemon H) (t : H) : Option (Record H) := w.records.lookup t

def all (w : Daemon H) : List (Record H) := w.records.entries.map Sigma.snd

/-- `write_record`. -/
def write (w : Daemon H) (r : Record H) : Daemon H := { w with records := w.records.insert r.txFinal r }

def writeAll (w : Daemon H) (rs : List (Record H)) : Daemon H := rs.foldl write w

/-- A daemon that opens a store with records in it. -/
def opened (records : List (Record H)) : Daemon H := writeAll ⟨∅, ∅, false, [], []⟩ records

def remove (w : Daemon H) (t : H) : Daemon H := { w with records := w.records.erase t }

def removeAll (w : Daemon H) (ts : List H) : Daemon H := ts.foldl remove w

def become (w : Daemon H) (id : Nat) (th : Thread H) : Daemon H :=
  { w with threads := w.threads.insert id th }

def finish (w : Daemon H) (id : Nat) : Daemon H := { w with threads := w.threads.erase id }

/-- The end of a thread that has the pass lock. -/
def unlock (w : Daemon H) (id : Nat) : Daemon H := { w.finish id with passLock := false }

def emit (w : Daemon H) (e : Event H) : Daemon H := { w with history := .event e :: w.history }

def spawn (w : Daemon H) (id : Nat) (th : Thread H) : Option (Daemon H) :=
  if w.thread id = none then some (w.become id th) else none

/-- `prove_and_record` up to the call of `record`. -/
def recordedAs (proved : ProvedTransaction H) (owner : String) (names : FileNames) (now : Nat) : Record H :=
  .ofProved proved owner names.inputFiles names.outputFiles names.pendingNames now

/-- A submission has failed. -/
def submitFailed (w : Daemon H) (id : Nat) (t : H) (stamped : Bool) : Caller → Daemon H
  | .service => w.finish id
  | .retry => w.finish id
  | .run retries => w.become id (.inspecting t retries stamped)

/-- A submission has returned a record. -/
def submitOk (w : Daemon H) (id : Nat) (r : Record H) : Caller → Daemon H
  | .service => w.become id (.announcing r false)
  | .run _ => w.become id (.announcing r false)
  | .retry => w.become id (.updating r.txFinal)

def preflightRetries : Nat := 2

def stepRecord (w : Daemon H) (id : Nat) (ok : Bool) : Option (Daemon H) :=
  match w.thread id with
  | some (.recording r submits) =>
    if ok && (w.read r.txFinal).isNone then
      some (({ w.write r with history := .recorded r.txFinal :: w.history }).become id
        (.announcing r submits))
    else some (w.finish id)
  | _ => none

/-- `announce_transaction`; a run goes on to submit. -/
def stepAnnounce (w : Daemon H) (id : Nat) : Option (Daemon H) :=
  match w.thread id with
  | some (.announcing r submits) =>
    let w := w.emit (.transaction r)
    some (if submits then w.become id (.submitting r.txFinal (.run 0)) else w.finish id)
  | _ => none

/-- `submit` up to its first `update_record`, under the submission lock. -/
def stepSubmitRead (w : Daemon H) (id : Nat) (preflight : Bool) : Option (Daemon H) :=
  match w.thread id with
  | some (.submitting t caller) =>
    if w.threads.entries.any fun p => p.2.submits t then none
    else match w.read t with
      | none => some (w.submitFailed id t false caller)
      | some r =>
        match r.state with
        | .recorded =>
          if preflight then some (w.become id (.marking t caller))
          else some (w.submitFailed id t false caller)
        | .submitted => some (w.submitOk id r caller)
        | .landed => some (w.submitFailed id t false caller)
        | .expired => some (w.submitFailed id t false caller)
  | _ => none

def stepSubmitMark (w : Daemon H) (id : Nat) (now : Nat) (ok : Bool) : Option (Daemon H) :=
  match w.thread id with
  | some (.marking t caller) =>
    match w.read t with
    | none => some (w.submitFailed id t false caller)
    | some r =>
      match markSubmit now r with
      | none => some (w.submitOk id r caller)
      | some r' =>
        if ok then some ((w.write r').become id (.sending t caller (decide (r' ≠ r))))
        else some (w.submitFailed id t false caller)
  | _ => none

def stepSubmitSend (w : Daemon H) (id : Nat) (response : Option (String × Bool)) : Option (Daemon H) :=
  match w.thread id with
  | some (.sending t caller stamped) =>
    match response with
    | some (jobId, failed) => some (w.become id (.finishing t caller stamped jobId failed))
    | none => some (w.submitFailed id t stamped caller)
  | _ => none

def stepSubmitFinish (w : Daemon H) (id : Nat) (now : Nat) (ok : Bool) : Option (Daemon H) :=
  match w.thread id with
  | some (.finishing t caller stamped jobId failed) =>
    match w.read t with
    | none => some (w.submitFailed id t stamped caller)
    | some r =>
      match finishSubmit now jobId failed r with
      | none => some (w.submitOk id r caller)
      | some r' =>
        if ok then some ((w.write r').submitOk id r' caller)
        else some (w.submitFailed id t stamped caller)
  | _ => none

/-- `submit_record` after an error. -/
def stepInspect (w : Daemon H) (id : Nat) (readable refused : Bool) : Option (Daemon H) :=
  match w.thread id with
  | some (.inspecting t retries _) =>
    match w.read t with
    | none => some (w.finish id)
    | some r =>
      if !readable then some (w.finish id)
      else if r.state = .recorded ∧ r.submitAttemptedAtMs = none then
        if refused then some (w.finish id)
        else if retries < preflightRetries then
          some (w.become id (.submitting t (.run (retries + 1))))
        else some (w.finish id)
      else some (w.become id (.announcing r false))
  | _ => none

/-- The pass lock is free. -/
def stepLockPass (w : Daemon H) (id : Nat) : Option (Daemon H) :=
  if w.passLock then none
  else match w.thread id with
    | some (.updating t) => some { w.become id (.rereading t) with passLock := true }
    | some (.starting sync) => some { w.become id (.querying sync) with passLock := true }
    | _ => none

/-- `publish_updates` reads the record again. -/
def stepReread (w : Daemon H) (id : Nat) (readable : Bool) : Option (Daemon H) :=
  match w.thread id with
  | some (.rereading t) =>
    match w.read t with
    | none => some (w.become id (.publishing [] []))
    | some r => some (w.become id (.publishing (if readable then [r] else []) []))
  | _ => none

/-- The open records that `settle_with` asks about. -/
def stepQuery (w : Daemon H) (id : Nat) : Option (Daemon H) :=
  match w.thread id with
  | some (.querying sync) =>
    some (w.become id (.settling sync ((w.all.filter TransactionRecord.isOpen).map TransactionRecord.txFinal)))
  | _ => none

/-- The records that a settlement changes, as it writes them first. -/
def changed (w : Daemon H) (x : Settlement H) (now : Nat) : List (Record H) :=
  changedRecords x now w.all

/-- A terminal record once its objects are in line with it. -/
def persisted (names : List (H × FileNames)) (r : Record H) : Record H :=
  if r.state.isTerminal then
    match names.lookup r.txFinal with
    | some n => withNames r n
    | none => r
  else r

/-- The writes of a settlement: every changed record, then those with other file names. -/
def settlementWrites (w : Daemon H) (x : Settlement H) (now : Nat) (names : List (H × FileNames)) :
    List (Record H) :=
  w.changed x now ++ ((w.changed x now).map (persisted names)).filter fun r => r ∉ w.changed x now

/-- `settle_with` under the store lock. With `stop` it fails after that many writes: a pass goes
on with local cleanup, a synchronization with a listing. -/
def stepSettle (w : Daemon H) (id : Nat) (x : Settlement H) (now : Nat) (names : List (H × FileNames))
    (stop : Option Nat) : Option (Daemon H) :=
  match w.thread id with
  | some (.settling sync queried) =>
    let x := { x with queried := queried, jobs := if sync then [] else x.jobs }
    let writes := w.settlementWrites x now names
    match stop with
    | none =>
      let outcome := (w.changed x now).map (persisted names)
      some ((w.writeAll writes).become id
        (if sync then .publishing outcome [] else .collecting outcome false))
    | some n =>
      let done := w.writeAll (writes.take n)
      some (if sync then done.unlock id else done.become id (.relisting (!(writes.take n).isEmpty)))
  | _ => none

/-- The records are listed once more to count the open ones. -/
def stepRelist (w : Daemon H) (id : Nat) (readable : Bool) : Option (Daemon H) :=
  match w.thread id with
  | some (.relisting wrote) =>
    some (if readable then w.become id (.collecting [] wrote) else w.unlock id)
  | _ => none

/-- Finished records that no event announced. -/
def unpublished (w : Daemon H) (records : List (Record H)) : List (Record H) :=
  w.all.filter fun r => r.state.isTerminal && r.txFinal ∉ w.publishedTerminal &&
    records.all fun r' => r'.txFinal ≠ r.txFinal

/-- `add_unpublished_terminal`. -/
def stepCollect (w : Daemon H) (id : Nat) (readable : Bool) : Option (Daemon H) :=
  match w.thread id with
  | some (.collecting records _) =>
    if readable then
      let retained := w.publishedTerminal.filter fun t => (w.read t).isSome
      let w := { w with publishedTerminal := retained }
      some (w.become id (.pruning (records ++ w.unpublished records)))
    else some (w.become id (.pruning records))
  | _ => none

/-- What pruning makes of a terminal record: it is kept, with its names or with others, it is
removed and reported, or it is gone without a report. -/
inductive Pruned (H : Type) where
  | kept (r : Record H)
  | removed
  | lost
deriving DecidableEq, Repr

def pruneRecord (now : Nat) (answers : List (H × PruneAnswer)) (r : Record H) : Pruned H :=
  let answer := (answers.lookup r.txFinal).getD ⟨true, .same, .failed⟩
  let due := decide (cleanupAt r ≤ now)
  let named := if due || !answer.cached then answer.persisted else .same
  match named with
  | .failed => .kept r
  | .same =>
    if due then
      match answer.removal with
      | .done => .removed
      | .failed => .kept r
      | .torn => .lost
    else .kept r
  | .renamed n =>
    if due then
      match answer.removal with
      | .done => .removed
      | .failed => .kept (withNames r n)
      | .torn => .lost
    else .kept (withNames r n)

def terminal (w : Daemon H) : List (Record H) := w.all.filter fun r => r.state.isTerminal

/-- The records that `prune_transactions` reports, loses and rewrites. -/
def prunedIds (w : Daemon H) (now : Nat) (answers : List (H × PruneAnswer)) : List H :=
  (w.terminal.filter fun r => pruneRecord now answers r = .removed).map TransactionRecord.txFinal

def lostIds (w : Daemon H) (now : Nat) (answers : List (H × PruneAnswer)) : List H :=
  (w.terminal.filter fun r => pruneRecord now answers r = .lost).map TransactionRecord.txFinal

def prunedWrites (w : Daemon H) (now : Nat) (answers : List (H × PruneAnswer)) : List (Record H) :=
  w.terminal.filterMap fun r => match pruneRecord now answers r with
    | .kept r' => if r' = r then none else some r'
    | _ => none

def stepPrune (w : Daemon H) (id : Nat) (now : Nat) (answers : List (H × PruneAnswer))
    (ending : PruneEnd) : Option (Daemon H) :=
  match w.thread id with
  | some (.pruning records) =>
    let pruned := w.prunedIds now answers
    let after := (w.writeAll (w.prunedWrites now answers)).removeAll (pruned ++ w.lostIds now answers)
    match ending with
    | .unreadable => some (w.become id (.publishing records []))
    | .done => some (after.become id (.publishing records pruned))
    | .failed => some (after.become id (.publishing records []))
  | _ => none

/-- `publish`, one event at a time, then the release of the pass lock. -/
def stepPublish (w : Daemon H) (id : Nat) : Option (Daemon H) :=
  match w.thread id with
  | some (.publishing (r :: records) pruned) =>
    let published := if r.state.isTerminal then r.txFinal :: w.publishedTerminal else w.publishedTerminal
    some ({ w.emit (.transaction r) with publishedTerminal := published }.become id
      (.publishing records pruned))
  | some (.publishing [] (t :: pruned)) =>
    let published := w.publishedTerminal.filter fun t' => t' ≠ t
    some ({ w.emit (.transactionPruned t) with publishedTerminal := published }.become id
      (.publishing [] pruned))
  | some (.publishing [] []) => some (w.unlock id)
  | _ => none

def stepDelete (w : Daemon H) (id : Nat) (removal : Removal) : Option (Daemon H) :=
  match w.thread id with
  | some (.deleting t) =>
    match w.read t with
    | none => some (w.finish id)
    | some r =>
      if r.state = .recorded ∧ r.submitAttemptedAtMs = none then
        match removal with
        | .done => some ((w.remove t).become id (.announcingDeleted t))
        | .failed => some (w.finish id)
        | .torn => some ((w.remove t).finish id)
      else some (w.finish id)
  | _ => none

def stepAnnounceDeleted (w : Daemon H) (id : Nat) : Option (Daemon H) :=
  match w.thread id with
  | some (.announcingDeleted t) => some ((w.emit (.transactionDeleted t)).finish id)
  | _ => none

/-- Only records that were offered to the relayer are retried. -/
def stepSpawnRetry (w : Daemon H) (id : Nat) (t : H) : Option (Daemon H) :=
  match w.read t with
  | some r =>
    if r.state = .recorded ∧ r.submitAttemptedAtMs.isSome then w.spawn id (.submitting t .retry) else none
  | none => none

def step (w : Daemon H) : Action H → Option (Daemon H)
  | .spawnRun id proved owner names now submits =>
    w.spawn id (.recording (recordedAs proved owner names now) submits)
  | .spawnSubmit id t => w.spawn id (.submitting t .service)
  | .spawnRetry id t => w.stepSpawnRetry id t
  | .spawnDelete id t => w.spawn id (.deleting t)
  | .spawnPass id sync => w.spawn id (.starting sync)
  | .record id ok => w.stepRecord id ok
  | .announce id => w.stepAnnounce id
  | .submitRead id preflight => w.stepSubmitRead id preflight
  | .submitMark id now ok => w.stepSubmitMark id now ok
  | .submitSend id response => w.stepSubmitSend id response
  | .submitFinish id now ok => w.stepSubmitFinish id now ok
  | .inspect id readable refused => w.stepInspect id readable refused
  | .lockPass id => w.stepLockPass id
  | .reread id readable => w.stepReread id readable
  | .query id => w.stepQuery id
  | .settle id x now names stop => w.stepSettle id x now names stop
  | .relist id readable => w.stepRelist id readable
  | .collect id readable => w.stepCollect id readable
  | .prune id now answers ending => w.stepPrune id now answers ending
  | .publish id => w.stepPublish id
  | .delete id removal => w.stepDelete id removal
  | .announceDeleted id => w.stepAnnounceDeleted id

end Daemon

end DigitalObjects.Dobjd
