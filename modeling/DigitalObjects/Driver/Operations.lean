import DigitalObjects.Driver.ObjectStore
set_option autoImplicit false

/-!
The operations of the driver on its object store, each from taking the store lock to releasing
it, and the machine that runs them in any order. What an operation does before it takes the
lock reaches it as an argument: a proof, the answers of the synchronizer and the relayer.
-/

namespace DigitalObjects.Driver.Objects

open Txlib Lib

variable {H : Type} [DecidableEq H] [EncodeHex H]

/-- An input file of a running proof with the object it was resolved to. -/
structure ResolvedInput (H : Type) where
  fileName : String
  obj : Object H
deriving DecidableEq, Repr

/-- A proof: still running, or handed to `record`, which ended with a record or with none. -/
inductive ProofStage (H : Type) where
  | proving
  | recorded (t : Option H)
deriving DecidableEq, Repr

/-- A call of `prove` and what it holds until it is dropped. -/
structure Proof (H : Type) where
  owner : String
  inputs : List (ResolvedInput H)
  stage : ProofStage H
deriving DecidableEq, Repr

def Proof.files (p : Proof H) : List String := p.inputs.map ResolvedInput.fileName

/-- The `changed_files` and `removed_files` of the call that has the lock. -/
structure Report where
  changed : List String
  removed : List String
deriving DecidableEq, Repr

/-- The store, and what is lost in a crash: the hold table, the running proofs and the cache of
reconciled records. -/
structure World (H : Type) where
  store : Store H
  owners : AList fun _ : String => String
  proofs : AList fun _ : Nat => Proof H
  reconciled : List (TransactionRecord H)
  report : Report

namespace World

def init : World H := ⟨.empty, ∅, ∅, [], ⟨[], []⟩⟩

def device : Device (World H) (FsOp H) where
  done op w := { w with store := w.store.apply op }
  torn op w := { w with store := w.store.tear op }

end World

abbrev Task (H : Type) := Routine (World H) (FsOp H) DriverError

/-- A file under a name; the live one comes first. -/
def parseStored (name : String) : Task H (Option (ObjectRecord H)) := do
  let w ← Routine.get
  match w.store.stored name with
  | none => pure none
  | some none => .throw (.unreadable name)
  | some (some record) => pure (some record)

def parseLive (name : String) : Task H (Option (ObjectRecord H)) := do
  let w ← Routine.get
  match w.store.file .live name with
  | none => pure none
  | some none => .throw (.unreadable name)
  | some (some record) => pure (some record)

def reportChanged (name : String) : Task H Unit :=
  .modify fun w => { w with report := { w.report with changed := w.report.changed ++ [name] } }

def reportRemoved (name : String) : Task H Unit :=
  .modify fun w => { w with report := { w.report with removed := w.report.removed ++ [name] } }

/-! ## Single files -/

/-- The stale file in the other directory is removed if it can be. -/
def writeObjectFile (record : ObjectRecord H) (name : String) : Task H Unit := do
  Routine.perform (.write record.place name record) (.io name)
  Routine.tryPerform (.remove record.place.other name)

def nullifyObjectFile (record : ObjectRecord H) (name : String) : Task H String := do
  let spentName := record.spentName name
  writeObjectFile record spentName
  if spentName ≠ name then Routine.perform (.remove .live name) (.io name)
  pure spentName

def renameLiveObjectFile (old new : String) : Task H Unit := do
  let w ← Routine.get
  if !eqIgnoreAsciiCase new old && (w.store.file .live new).isSome then
    .throw (.conflict s!"object file {new} already exists")
  else Routine.perform (.rename old new) (.io old)

/-- Unknown outputs that are still of this record. -/
def removeUnknownOutputs (r : TransactionRecord H) : Task H Unit :=
  Routine.forList (fun name => do
    let w ← Routine.get
    match w.store.loaded .live name with
    | some record =>
      if record.status = .unknown ∧ record.txFinal = r.txFinal then do
        Routine.perform (.remove .live name) (.io name)
        reportRemoved name
      else pure ()
    | none => pure ()) r.outputFiles

/-! ## Settled objects -/

/-- An input: its name may since have passed to another object. The result is the change of
name, if the object was spent under another one. -/
def persistInput (r : TransactionRecord H) (spentNames : List (String × String)) (name : String) :
    Task H (List (String × String)) := do
  match ← parseStored name with
  | none => pure spentNames
  | some record =>
    if !r.spends record.obj || record.isNullified then pure spentNames
    else do
      let spentName ← nullifyObjectFile { record with status := .nullified } name
      if spentName ≠ name then do
        reportRemoved name
        reportChanged spentName
        pure (spentNames ++ [(name, spentName)])
      else do
        reportChanged spentName
        pure spentNames

/-- An output of a landed record as it should be. -/
def settledOutput (r : TransactionRecord H) (record : ObjectRecord H) : ObjectRecord H :=
  { record with
    status := if record.status = .unknown then .live else record.status
    txHash := r.txHash <|> record.txHash }

def persistOutput (r : TransactionRecord H) (name : String) : Task H Unit := do
  match ← parseStored name with
  | none => pure ()
  | some record =>
    if record.txFinal ≠ r.txFinal || settledOutput r record = record then pure ()
    else do
      writeObjectFile (settledOutput r record) name
      reportChanged name

def replaceName (names : List String) (old new : String) : List String :=
  names.map fun name => if name = old then new else name

/-- What becomes of one pending name: nothing yet, given up, or its final name. -/
inductive Finished where
  | kept
  | dropped
  | renamed (finalName : String)
deriving DecidableEq, Repr

def finishPendingName (r : TransactionRecord H) (locked held : List String) (pending : PendingName) :
    Task H Finished := do
  match ← parseLive pending.fileName with
  | none => pure .dropped
  | some record =>
    if record.txFinal ≠ r.txFinal then pure .dropped
    else if pending.fileName ∈ held ∨ pending.fileName ∈ locked then pure .kept
    else do
      let w ← Routine.get
      let finalName ← Routine.lift
        (uniqueFileName w.store.bound pending.finalName fun name => w.store.hasFile name)
      renameLiveObjectFile pending.fileName finalName
      reportRemoved pending.fileName
      reportChanged finalName
      pure (.renamed finalName)

def finishName (r : TransactionRecord H) (pending : PendingName) : Finished → TransactionRecord H
  | .kept => r
  | .dropped =>
    { r with pendingNames := r.pendingNames.filter fun p => p.fileName ≠ pending.fileName }
  | .renamed finalName =>
    { r with
      pendingNames := r.pendingNames.filter fun p => p.fileName ≠ pending.fileName
      outputFiles := replaceName r.outputFiles pending.fileName finalName }

def finishPendingNames (r : TransactionRecord H) (locked : List String) :
    Task H (TransactionRecord H × Bool) := do
  if r.state ≠ .landed ∨ r.pendingNames = [] then pure (r, false)
  else do
    let w ← Routine.get
    let held := w.owners.keys
    let finished ← Routine.foldList (fun finished pending => do
      let outcome ← finishPendingName r locked held pending
      pure (finished ++ [(pending, outcome)])) [] r.pendingNames
    let finished := finished.filter fun f => f.2 ≠ .kept
    pure (finished.foldl (fun r f => finishName r f.1 f.2) r, !finished.isEmpty)

/-- The files of a terminal record in line with it. The result is the record as it should now
be, and whether that is another one. -/
def persistSettledObjects (r : TransactionRecord H) (locked : List String) :
    Task H (TransactionRecord H × Bool) := do
  if r.state = .expired then do
    Routine.forList (fun name => do
      let _ ← parseLive name
      pure ()) r.outputFiles
    removeUnknownOutputs r
    pure (r, false)
  else do
    let spentNames ← Routine.foldList (persistInput r) [] r.inputFiles
    Routine.forList (persistOutput r) r.outputFiles
    let renamed := { r with
      inputFiles := spentNames.foldl (fun names n => replaceName names n.1 n.2) r.inputFiles }
    let (r', finished) ← finishPendingNames renamed locked
    pure (r', !spentNames.isEmpty || finished)

/-! ## Settlement -/

structure TxStatus where
  txHash : String
  blockNumber : Int
  error : Option String
deriving DecidableEq, Repr

structure JobStatus where
  txHash : Option String
  failed : Bool
  lastError : Option String
deriving DecidableEq, Repr

structure Membership (H : Type) where
  createdObjects : List H
  onChainNullifiers : List H
deriving DecidableEq, Repr

/-- What `settle_with` has read before it takes the lock. -/
structure Settlement (H : Type) where
  queried : List H
  head : Option Int
  statuses : List (H × Option TxStatus)
  jobs : List (H × JobStatus)
  membership : Option (Membership H)
  creationProofs : List (H × CreationProof H)
deriving DecidableEq, Repr

def noteJob (x : Settlement H) (r : TransactionRecord H) : TransactionRecord H :=
  match x.jobs.lookup r.txFinal with
  | none => r
  | some job =>
    { r with
      txHash := job.txHash <|> r.txHash
      relayerFailure :=
        if job.failed then some (job.lastError.getD "relayer job failed") else r.relayerFailure }

def settleRecord (x : Settlement H) (now : Nat) (r : TransactionRecord H) : TransactionRecord H :=
  let r := noteJob x r
  match (x.statuses.lookup r.txFinal).join with
  | some status =>
    match status.error with
    | none =>
      { r with state := .landed, txHash := some status.txHash, settledAtMs := some now }
    | some error =>
      { r with
        state := .expired
        txHash := some status.txHash
        reason := some s!"rejected by the synchronizer at block {status.blockNumber}: {error}"
        settledAtMs := some now }
  | none =>
    match x.head with
    | some head =>
      if groundingAgedOut head r.groundingBlock then
        { r with
          state := .expired
          reason := some
            s!"grounding block {r.groundingBlock} is more than {maxStateRootAgeBlocks} blocks behind the synchronizer head {head}"
          settledAtMs := some now }
      else r
    | none => r

/-- A submission attempted after the statuses were read waits for the next pass. -/
def settled (x : Settlement H) (now : Nat) (r : TransactionRecord H) : TransactionRecord H :=
  if !r.isOpen || r.txFinal ∉ x.queried ||
      (r.needsTxStatus && (x.statuses.lookup r.txFinal).isNone) then r
  else settleRecord x now r

def settleRecords (x : Settlement H) (now : Nat) (records : List (TransactionRecord H)) : Task H Unit :=
  Routine.forList (fun r =>
    if settled x now r = r then pure ()
    else Routine.perform (.commit (settled x now r)) (.io "record.json")) records

/-- The records that a pass has changed. -/
def changedRecords (x : Settlement H) (now : Nat) (records : List (TransactionRecord H)) :
    List (TransactionRecord H) :=
  (records.filter fun r => settled x now r ≠ r).map (settled x now)

def persistRecord (locked : List String) (r : TransactionRecord H) : Task H Unit :=
  if r.state.isTerminal then do
    match ← (persistSettledObjects r locked).attempt with
    | .ok (r', true) => do
      Routine.perform (.commit r') (.io "record.json")
      Routine.forList reportChanged (r'.outputFiles ++ r'.inputFiles)
    | .ok (r', false) => Routine.forList reportChanged (r'.outputFiles ++ r'.inputFiles)
    | .error _ => Routine.forList reportChanged (r.outputFiles ++ r.inputFiles)
  else pure ()

def Membership.spends (m : Membership H) (obj : Object H) : Bool :=
  match obj.nullifier with
  | some nullifier => nullifier ∈ m.onChainNullifiers
  | none => false

/-- A file only moves forward, to live and then to nullified. -/
def chainFileStatus (record : ObjectRecord H) (m : Membership H) : FileStatus :=
  match record.status with
  | .nullified => .nullified
  | .unknown =>
    if m.spends record.obj then .nullified
    else if record.obj.commitment ∈ m.createdObjects then .live else .unknown
  | .live => if m.spends record.obj then .nullified else .live

/-- An object file against the chain and the records. -/
def reconciledEntry (x : Settlement H) (records : List (TransactionRecord H))
    (record : ObjectRecord H) : ObjectRecord H :=
  let status := match x.membership with
    | some m => chainFileStatus record m
    | none => record.status
  { record with
    status := status
    txHash := ((records.find? fun r => r.txFinal = record.txFinal).bind TransactionRecord.txHash) <|>
      record.txHash
    creationProof := record.creationProof <|>
      (if status = .live then x.creationProofs.lookup record.obj.commitment else none) }

def reconcileEntry (x : Settlement H) (records : List (TransactionRecord H))
    (entry : String × ObjectRecord H) : Task H Unit :=
  let record := reconciledEntry x records entry.2
  if record = entry.2 then pure ()
  else if record.isNullified && !entry.2.isNullified then do
    let spentName ← nullifyObjectFile record entry.1
    if spentName ≠ entry.1 then reportRemoved entry.1
    reportChanged spentName
  else do
    writeObjectFile record entry.1
    reportChanged entry.1

def settleWith (x : Settlement H) (now : Nat) : Task H Unit := do
  let w ← Routine.get
  settleRecords x now w.store.records
  let records := w.store.records.map (settled x now)
  let locked := lockedInputs records
  Routine.forList (persistRecord locked) (changedRecords x now w.store.records)
  let w ← Routine.get
  let entries ← Routine.lift w.store.loadObjectFiles
  Routine.forList (reconcileEntry x records) entries

def transactionRetentionMs : Nat := 600000

def cleanupAt (r : TransactionRecord H) : Nat :=
  r.settledAtMs.getD r.recordedAtMs + transactionRetentionMs

def remember (r : TransactionRecord H) (w : World H) : World H :=
  { w with reconciled := r :: w.reconciled.filter fun r' => r'.txFinal ≠ r.txFinal }

def forget (t : H) (w : World H) : World H :=
  { w with reconciled := w.reconciled.filter fun r => r.txFinal ≠ t }

def persistAndCommit (r : TransactionRecord H) (locked : List String) :
    Task H (TransactionRecord H) := do
  let (r', changed) ← persistSettledObjects r locked
  if changed then Routine.perform (.commit r') (.io "record.json")
  pure r'

/-- A terminal record: its objects first, then, after the retention, the record itself. -/
def pruneRecord (now : Nat) (locked : List String) (r : TransactionRecord H) : Task H Unit := do
  let w ← Routine.get
  let due := decide (cleanupAt r ≤ now)
  if due || !(w.reconciled.contains r) then do
    match ← (persistAndCommit r locked).attempt with
    | .error _ => Routine.modify (forget r.txFinal)
    | .ok r' => do
      Routine.modify (remember r')
      if due then do
        match ← (Routine.perform (.removeTransaction r.txFinal) (.io "transaction")).attempt with
        | .ok () => Routine.modify (forget r.txFinal)
        | .error _ => pure ()
  else pure ()

def pruneTransactions (now : Nat) : Task H Unit := do
  let w ← Routine.get
  let records := w.store.records
  let terminal := records.filter fun r => r.state.isTerminal
  Routine.modify fun w => { w with
    reconciled := w.reconciled.filter fun r => terminal.any fun r' => r'.txFinal = r.txFinal }
  Routine.forList (pruneRecord now (lockedInputs records)) terminal

/-! ## Transactions -/

structure MutatedObjectSlots where
  inputIndex : Nat
  outputIndex : Nat
deriving DecidableEq, Repr

structure ProvedTransaction (H : Type) where
  txFinal : H
  action : QualifiedName
  groundingBlock : Int
  outputs : List (QualifiedName × Object H)
  nullifiers : List H
  mutatedObjects : List MutatedObjectSlots
deriving DecidableEq, Repr

def ProvedTransaction.outputFiles (proved : ProvedTransaction H) : Except DriverError (List String) :=
  proved.outputs.mapM fun output =>
    match objectFileName output.1 output.2 with
    | some name => .ok name
    | none => .error (.missingField "stable_identifier")

/-- The inputs of `record`: not spent by an open transaction, and live. -/
def checkInputs (entries : List (String × ObjectRecord H)) (locked : List String) :
    List String → Except DriverError Unit
  | [] => .ok ()
  | input :: rest =>
    if input ∈ locked then
      .error (.conflict s!"input {input} is spent by a transaction awaiting the chain")
    else match entries.find? fun e => e.1 = input with
      | some e =>
        if e.2.status = .live then checkInputs entries locked rest
        else .error (.conflict s!"input {input} is no longer live")
      | none => .error (.objectFileNotFound input)

/-- A mutated input with a custom name passes it on: its new version is written under a pending
name. -/
def pendingOutput (s : Store H) (entries : List (String × ObjectRecord H)) (inputs : List String)
    (acc : List String × List PendingName) (slots : MutatedObjectSlots) :
    Except DriverError (List String × List PendingName) :=
  match inputs[slots.inputIndex]? with
  | none => .ok acc
  | some input =>
    if (entries.any fun e => e.1 = input && hasCustomFileName input e.2) &&
        slots.outputIndex < acc.1.length then
      match pendingFileName (s.bound + acc.1.length) input fun name => s.hasFile name || name ∈ acc.1 with
      | .error e => .error e
      | .ok pending => .ok (acc.1.set slots.outputIndex pending, acc.2 ++ [⟨pending, input⟩])
    else .ok acc

def unknownOutput (proved : ProvedTransaction H) (output : QualifiedName × Object H) : ObjectRecord H where
  cls := output.1
  contentHash := output.2.commitment
  status := .unknown
  txFinal := proved.txFinal
  txHash := none
  creationProof := none
  obj := output.2

def TransactionRecord.ofProved (proved : ProvedTransaction H) (owner : String)
    (inputFiles outputFiles : List String) (pendingNames : List PendingName) (now : Nat) :
    TransactionRecord H where
  txFinal := proved.txFinal
  action := proved.action
  owner := owner
  inputFiles := inputFiles
  outputFiles := outputFiles
  groundingBlock := proved.groundingBlock
  nullifiers := proved.nullifiers
  state := .recorded
  relayerJobId := none
  txHash := none
  relayerFailure := none
  reason := none
  recordedAtMs := now
  submitAttemptedAtMs := none
  submittedAtMs := none
  settledAtMs := none
  pendingNames := pendingNames

/-- The outputs one by one: the names tried so far, and the error that ended it. -/
def writeOutputs (attempted : List String) :
    List (ObjectRecord H × String) → Task H (List String × Option DriverError)
  | [] => pure (attempted, none)
  | (record, name) :: rest => do
    match ← (writeObjectFile record name).attempt with
    | .ok () => writeOutputs (attempted ++ [name]) rest
    | .error e => pure (attempted ++ [name], some e)

def rollbackRecord (t : H) (attempted : List String) (e : DriverError) : Task H Unit := do
  Routine.forList (fun name => Routine.tryPerform (.remove .live name)) attempted
  Routine.tryPerform (.removeTransaction t)
  .throw e

def commitTransaction (r : TransactionRecord H) : Task H Unit := do
  Routine.perform (.writePayload r.txFinal) (.io "payload.bin")
  Routine.perform (.commit r) (.io "record.json")

def writeTransaction (r : TransactionRecord H) (outputs : List (ObjectRecord H × String)) :
    Task H Unit := do
  match ← writeOutputs [] outputs with
  | (attempted, some e) => rollbackRecord r.txFinal attempted e
  | (attempted, none) =>
    match ← (commitTransaction r).attempt with
    | .ok () => pure ()
    | .error e => rollbackRecord r.txFinal attempted e

def record (proved : ProvedTransaction H) (owner : String) (inputs : List String) (now : Nat) :
    Task H Unit := do
  let outputFiles ← Routine.lift proved.outputFiles
  let w ← Routine.get
  let entries ← Routine.lift w.store.loadObjectFiles
  Routine.lift (checkInputs entries (lockedInputs w.store.records) inputs)
  if (w.store.readRecord proved.txFinal).isSome then .throw (.conflict "transaction is already recorded")
  else if outputFiles.any fun name => (w.store.stored name).isSome then
    .throw (.conflict "output file already exists")
  else do
    let (outputFiles, pendingNames) ← Routine.lift
      (proved.mutatedObjects.foldlM (pendingOutput w.store entries inputs) (outputFiles, []))
    writeTransaction (.ofProved proved owner inputs outputFiles pendingNames now)
      ((proved.outputs.map (unknownOutput proved)).zip outputFiles)

def deleteTransaction (t : H) : Task H Unit := do
  let w ← Routine.get
  match w.store.readRecord t with
  | none => .throw .transactionNotFound
  | some r =>
    if r.state ≠ .recorded then .throw (.conflict "only recorded transactions can be deleted")
    else if r.submitAttemptedAtMs.isSome then
      .throw (.conflict "transaction was offered to the relayer and may still land")
    else do
      removeUnknownOutputs r
      Routine.perform (.removeTransaction t) (.io "transaction")

/-- `update_record`. -/
def updateRecord (t : H) (change : TransactionRecord H → Option (TransactionRecord H)) : Task H Unit := do
  let w ← Routine.get
  match w.store.readRecord t with
  | none => .throw .transactionNotFound
  | some r =>
    match change r with
    | none => pure ()
    | some r' => Routine.perform (.commit r') (.io "record.json")

/-- The two updates of `submit`: before the relayer is called and after it has answered. -/
def markSubmit (now : Nat) (r : TransactionRecord H) : Option (TransactionRecord H) :=
  if r.state = .recorded then
    some { r with submitAttemptedAtMs := some (r.submitAttemptedAtMs.getD now) }
  else none

def finishSubmit (now : Nat) (jobId : String) (failed : Bool) (r : TransactionRecord H) :
    Option (TransactionRecord H) :=
  if r.state = .recorded then
    some { r with
      state := .submitted
      relayerJobId := some jobId
      submittedAtMs := some now
      relayerFailure := if failed then some "relayer job failed" else r.relayerFailure }
  else none

/-! ## Names and imports -/

def renameObject (fileName newName : String) : Task H Unit := do
  let w ← Routine.get
  match w.store.file .live fileName with
  | none => .throw (.objectFileNotFound fileName)
  | some none => .throw (.unreadable fileName)
  | some (some record) =>
    match objectFileName record.cls record.obj with
    | none => .throw (.missingField "stable_identifier")
    | some generated => do
      let target ← Routine.lift (customFileName newName generated)
      if target = fileName then pure ()
      else if fileName ∈ w.owners then .throw (.conflict s!"{fileName} is held")
      else if fileName ∈ lockedInputs w.store.records then
        .throw (.conflict s!"{fileName} is spent by a transaction awaiting the chain")
      else if w.store.records.any fun r => r.isOpen && fileName ∈ r.outputFiles then
        .throw (.conflict s!"{fileName} is created by a transaction awaiting the chain")
      else if record.status ≠ .live then .throw (.conflict s!"{fileName} is not live")
      else if w.store.hasFile target then .throw (.conflict s!"{target} already exists")
      else renameLiveObjectFile fileName target

def wantedFileName (s : Store H) (generated : String) : Option String → Except DriverError String
  | none => .ok generated
  | some requested => importedFileName s.bound requested generated fun name => s.hasFile name

def importFileName (s : Store H) (record : ObjectRecord H) (generated : String)
    (requested : Option String) : Except DriverError String :=
  match s.loadObjectFiles with
  | .error e => .error e
  | .ok entries =>
    if entries.any fun e => e.2.contentHash = record.contentHash then
      .error (.conflict "object already present")
    else
      match wantedFileName s generated requested with
      | .error e => .error e
      | .ok fileName =>
        if entries.any fun e => e.1 = fileName then .error (.conflict "object already present")
        else .ok fileName

/-- An object that the synchronizer reports created and not spent. -/
def importObject (record : ObjectRecord H) (requested : Option String) : Task H Unit :=
  match objectFileName record.cls record.obj with
  | none => .throw (.invalidInput "imported object has no 'stable_identifier' field")
  | some generated =>
    if record.contentHash ≠ record.obj.commitment then .throw (.invalidInput "content hash mismatch")
    else if record.obj.nullifier = none then
      .throw (.invalidInput "could not derive nullifier from imported object")
    else do
      let w ← Routine.get
      let fileName ← Routine.lift (importFileName w.store record generated requested)
      writeObjectFile { record with status := .live } fileName

/-- `discard_object_unsafe`, which takes no lock and asks nobody. -/
def discardObject (fileName : String) : Task H Unit := do
  match ← parseLive fileName with
  | none => .throw (.objectFileNotFound fileName)
  | some _ => Routine.perform (.discard fileName) (.io fileName)

/-! ## Forward moves -/

/-- What tells a stored object from another one. -/
def ObjectRecord.ident (record : ObjectRecord H) : QualifiedName × Object H := (record.cls, record.obj)

/-- The same object, at the same status or a later one. -/
def ObjectRecord.Advances (r₀ r : ObjectRecord H) : Prop :=
  r.ident = r₀.ident ∧ r₀.status.rank ≤ r.status.rank

section Advances

omit [EncodeHex H] [DecidableEq H]

theorem ObjectRecord.Advances.refl (r : ObjectRecord H) : r.Advances r := ⟨rfl, Nat.le_refl _⟩

theorem ObjectRecord.Advances.trans {r₀ r₁ r₂ : ObjectRecord H} (h : r₀.Advances r₁)
    (h' : r₁.Advances r₂) : r₀.Advances r₂ :=
  ⟨h'.1.trans h.1, Nat.le_trans h.2 h'.2⟩

theorem ObjectRecord.isNullified_iff_rank {r : ObjectRecord H} :
    r.isNullified = true ↔ 2 ≤ r.status.rank := by
  unfold ObjectRecord.isNullified
  cases r.status <;> simp [FileStatus.rank]

theorem ObjectRecord.known_iff_rank {r : ObjectRecord H} :
    r.status ≠ .unknown ↔ 1 ≤ r.status.rank := by
  cases r.status <;> simp [FileStatus.rank]

theorem ObjectRecord.Advances.isNullified {r₀ r : ObjectRecord H} (h : r₀.Advances r)
    (hr : r₀.isNullified = true) : r.isNullified = true :=
  isNullified_iff_rank.mpr (Nat.le_trans (isNullified_iff_rank.mp hr) h.2)

theorem ObjectRecord.Advances.known {r₀ r : ObjectRecord H} (h : r₀.Advances r)
    (hr : r₀.status ≠ .unknown) : r.status ≠ .unknown :=
  known_iff_rank.mpr (Nat.le_trans (known_iff_rank.mp hr) h.2)

theorem ObjectRecord.Advances.of_nullified {r₀ r : ObjectRecord H} (h : r.ident = r₀.ident)
    (hr : r.isNullified = true) : r₀.Advances r := by
  refine ⟨h, Nat.le_trans ?_ (isNullified_iff_rank.mp hr)⟩
  cases r₀.status <;> simp [FileStatus.rank]

end Advances

omit [DecidableEq H] [EncodeHex H] in
theorem settledOutput_advances (r : TransactionRecord H) (record : ObjectRecord H) :
    record.Advances (settledOutput r record) := by
  refine ⟨rfl, ?_⟩
  unfold settledOutput
  cases record.status <;> simp [FileStatus.rank]

omit [DecidableEq H] [EncodeHex H] in
theorem mem_lockedInputs {records : List (TransactionRecord H)} {n : String} :
    n ∈ lockedInputs records ↔ ∃ r ∈ records, r.isOpen = true ∧ n ∈ r.inputFiles := by
  simp only [lockedInputs, List.mem_flatMap, List.mem_filter]
  constructor
  · rintro ⟨r, ⟨hr, hopen⟩, hn⟩
    exact ⟨r, hr, hopen, hn⟩
  · rintro ⟨r, hr, hopen, hn⟩
    exact ⟨r, ⟨hr, hopen⟩, hn⟩

omit [DecidableEq H] [EncodeHex H] in
/-- A loaded file is the one that its name stands for. -/
theorem stored_of_loaded {s : Store H} {n : String} {p : Place} {record r : ObjectRecord H}
    (hsingle : s.Single) (hload : s.loaded p n = some record) (hstored : s.stored n = some (some r)) :
    record = r := by
  cases p with
  | live =>
    have hfile : s.file .live n = some (some record) := Store.loaded_eq_some.mp hload
    unfold Store.stored at hstored
    rw [hfile] at hstored
    simpa using hstored
  | nullified =>
    have hfile : s.file .nullified n = some (some record) := Store.loaded_eq_some.mp hload
    have hlive : s.loaded .live n = none := by
      rcases hsingle n with h | h
      · exact h
      · rw [hload] at h
        cases h
    unfold Store.stored at hstored
    unfold Store.loaded at hlive
    cases hl : s.file .live n with
    | none =>
      rw [hl, hfile] at hstored
      simpa using hstored
    | some c =>
      rw [hl] at hlive hstored
      cases c with
      | none => simp at hstored
      | some r' => cases hlive

/-! ## Reads -/

section Reads

variable {G : World H → FsOp H → Answer → Prop} {A R : World H → Prop}

omit [EncodeHex H]

theorem parseStored_spec (name : String) (hR : ∀ w, A w → R w) :
    Routine.Triple World.device G A (parseStored name)
      (fun o w => A w ∧ w.store.stored name = o.map some) R := by
  refine Routine.Triple.get_bind fun w hw => ?_
  cases hs : w.store.stored name with
  | none => exact Routine.Triple.ret fun w' hw' => hw' ▸ ⟨hw, hs⟩
  | some c =>
    cases c with
    | none => exact Routine.Triple.throw fun w' hw' => hw' ▸ hR w hw
    | some record => exact Routine.Triple.ret fun w' hw' => hw' ▸ ⟨hw, hs⟩

theorem parseLive_spec (name : String) (hR : ∀ w, A w → R w) :
    Routine.Triple World.device G A (parseLive name)
      (fun o w => A w ∧ w.store.file .live name = o.map some) R := by
  refine Routine.Triple.get_bind fun w hw => ?_
  cases hs : w.store.file .live name with
  | none => exact Routine.Triple.ret fun w' hw' => hw' ▸ ⟨hw, hs⟩
  | some c =>
    cases c with
    | none => exact Routine.Triple.throw fun w' hw' => hw' ▸ hR w hw
    | some record => exact Routine.Triple.ret fun w' hw' => hw' ▸ ⟨hw, hs⟩

end Reads

/-! ## What a record keeps -/

section Kept

variable {G : World H → FsOp H → Answer → Prop}

/-- The same transaction in the same state. -/
def SameTx (r r' : TransactionRecord H) : Prop := r'.txFinal = r.txFinal ∧ r'.state = r.state

omit [DecidableEq H] [EncodeHex H] in
theorem finishName_sameTx (r : TransactionRecord H) (pending : PendingName) (f : Finished) :
    SameTx r (finishName r pending f) := by
  cases f <;> exact ⟨rfl, rfl⟩

omit [DecidableEq H] [EncodeHex H] in
theorem finishNames_sameTx (fs : List (PendingName × Finished)) (r : TransactionRecord H) :
    SameTx r (fs.foldl (fun r f => finishName r f.1 f.2) r) := by
  induction fs generalizing r with
  | nil => exact ⟨rfl, rfl⟩
  | cons f fs ih =>
    have hf := finishName_sameTx r f.1 f.2
    have hrest := ih (finishName r f.1 f.2)
    exact ⟨hrest.1.trans hf.1, hrest.2.trans hf.2⟩

omit [EncodeHex H] in
theorem finishPendingNames_sameTx (r : TransactionRecord H) (locked : List String) :
    Routine.Triple World.device G (fun _ => True) (finishPendingNames r locked)
      (fun res _ => SameTx r res.1) (fun _ => True) := by
  unfold finishPendingNames
  split
  · exact Routine.Triple.ret fun _ _ => ⟨rfl, rfl⟩
  · refine Routine.Triple.bind (Routine.Triple.trivial _) fun w => ?_
    refine Routine.Triple.bind (Routine.Triple.trivial _) fun finished => ?_
    exact Routine.Triple.ret fun _ _ => finishNames_sameTx _ r

theorem persistSettledObjects_sameTx (r : TransactionRecord H) (locked : List String) :
    Routine.Triple World.device G (fun _ => True) (persistSettledObjects r locked)
      (fun res _ => SameTx r res.1) (fun _ => True) := by
  unfold persistSettledObjects
  split
  · refine Routine.Triple.bind (Routine.Triple.trivial _) fun _ => ?_
    refine Routine.Triple.bind (Routine.Triple.trivial _) fun _ => ?_
    exact Routine.Triple.ret fun _ _ => ⟨rfl, rfl⟩
  · refine Routine.Triple.bind (Routine.Triple.trivial _) fun spentNames => ?_
    refine Routine.Triple.bind (Routine.Triple.trivial _) fun _ => ?_
    refine Routine.Triple.bind (finishPendingNames_sameTx _ locked) fun res => ?_
    exact Routine.Triple.ret fun _ hres => hres

omit [DecidableEq H] [EncodeHex H] in
theorem SameTx.isOpen {r r' : TransactionRecord H} (h : SameTx r r') : r'.isOpen = r.isOpen := by
  unfold TransactionRecord.isOpen
  rw [h.2]

/-- What settlement leaves of a record as it was. -/
structure SameFiles (r r' : TransactionRecord H) : Prop where
  txFinal : r'.txFinal = r.txFinal
  inputFiles : r'.inputFiles = r.inputFiles
  outputFiles : r'.outputFiles = r.outputFiles
  nullifiers : r'.nullifiers = r.nullifiers
  pendingNames : r'.pendingNames = r.pendingNames

omit [EncodeHex H] in
theorem noteJob_sameFiles (x : Settlement H) (r : TransactionRecord H) : SameFiles r (noteJob x r) := by
  unfold noteJob
  split <;> exact ⟨rfl, rfl, rfl, rfl, rfl⟩

omit [EncodeHex H] in
theorem settleRecord_sameFiles (x : Settlement H) (now : Nat) (r : TransactionRecord H) :
    SameFiles r (settleRecord x now r) := by
  have hnote := noteJob_sameFiles x r
  unfold settleRecord
  dsimp only
  repeat' split
  all_goals exact ⟨hnote.txFinal, hnote.inputFiles, hnote.outputFiles, hnote.nullifiers, hnote.pendingNames⟩

omit [EncodeHex H] in
theorem settled_sameFiles (x : Settlement H) (now : Nat) (r : TransactionRecord H) :
    SameFiles r (settled x now r) := by
  unfold settled
  split
  · exact ⟨rfl, rfl, rfl, rfl, rfl⟩
  · exact settleRecord_sameFiles x now r

omit [EncodeHex H] in
theorem chainFileStatus_rank (record : ObjectRecord H) (m : Membership H) :
    record.status.rank ≤ (chainFileStatus record m).rank := by
  unfold chainFileStatus
  cases record.status with
  | unknown => simp [FileStatus.rank]
  | live => by_cases hspent : m.spends record.obj = true <;> simp [hspent, FileStatus.rank]
  | nullified => simp

omit [EncodeHex H] in
theorem chainFileStatus_eq_nullified {record : ObjectRecord H} {m : Membership H} :
    chainFileStatus record m = .nullified ↔
      record.status = .nullified ∨ m.spends record.obj = true := by
  unfold chainFileStatus
  cases record.status with
  | unknown =>
    by_cases hspent : m.spends record.obj = true
    · simp [hspent]
    · by_cases hcreated : record.obj.commitment ∈ m.createdObjects <;> simp [hspent, hcreated]
  | live => by_cases hspent : m.spends record.obj = true <;> simp [hspent]
  | nullified => simp

omit [EncodeHex H] in
theorem reconciledEntry_rank (x : Settlement H) (records : List (TransactionRecord H))
    (record : ObjectRecord H) : record.status.rank ≤ (reconciledEntry x records record).status.rank := by
  unfold reconciledEntry
  dsimp only
  split
  · exact chainFileStatus_rank record _
  · exact Nat.le_refl _

omit [EncodeHex H] in
theorem settled_of_not_open (x : Settlement H) (now : Nat) {r : TransactionRecord H}
    (h : r.isOpen = false) : settled x now r = r := by
  unfold settled
  simp [h]

omit [EncodeHex H] in
theorem newly_spent {x : Settlement H} {records : List (TransactionRecord H)} {record : ObjectRecord H} (h : (reconciledEntry x records record).isNullified = true)
    (hfree : record.isNullified = false) :
    ∃ m, x.membership = some m ∧ m.spends record.obj = true := by
  have hstatus : (reconciledEntry x records record).status = .nullified := by
    simpa [ObjectRecord.isNullified] using h
  have hfree' : record.status ≠ .nullified := by simpa [ObjectRecord.isNullified] using hfree
  unfold reconciledEntry at hstatus
  cases hm : x.membership with
  | none =>
    simp only [hm] at hstatus
    exact absurd hstatus hfree'
  | some m =>
    simp only [hm] at hstatus
    rcases chainFileStatus_eq_nullified.mp hstatus with h | h
    · exact absurd h hfree'
    · exact ⟨m, rfl, h⟩

omit [EncodeHex H] in
theorem reconciledEntry_spent {x : Settlement H} {records : List (TransactionRecord H)} {record : ObjectRecord H} {m : Membership H} (hm : x.membership = some m)
    (hspent : m.spends record.obj = true) : (reconciledEntry x records record).status = .nullified := by
  unfold reconciledEntry
  simp only [hm]
  exact chainFileStatus_eq_nullified.mpr (.inr hspent)

end Kept

/-! ## Names that are free -/

omit [DecidableEq H] [EncodeHex H] in
theorem checkInputs_ok {entries : List (String × ObjectRecord H)} {locked inputs : List String}
    (h : checkInputs entries locked inputs = .ok ()) :
    ∀ f ∈ inputs, f ∉ locked ∧ ∃ e ∈ entries, e.1 = f ∧ e.2.status = .live := by
  induction inputs with
  | nil => simp
  | cons input rest ih =>
    unfold checkInputs at h
    split at h
    · cases h
    · rename_i hfree
      split at h
      · rename_i e he
        split at h
        · rename_i hlive
          intro f hf
          rcases List.mem_cons.mp hf with rfl | hf
          · exact ⟨hfree, e, List.mem_of_find?_eq_some he, by simpa using List.find?_some he, hlive⟩
          · exact ih h f hf
        · cases h
      · cases h

omit [DecidableEq H] in
/-- No output is given the name of a file. -/
theorem pendingOutput_free {s : Store H} {entries : List (String × ObjectRecord H)}
    {inputs : List String} {acc acc' : List String × List PendingName} {slots : MutatedObjectSlots}
    (h : pendingOutput s entries inputs acc slots = .ok acc') (hacc : ∀ n ∈ acc.1, s.stored n = none) :
    ∀ n ∈ acc'.1, s.stored n = none := by
  unfold pendingOutput at h
  split at h
  · cases h
    exact hacc
  · split at h
    · split at h
      · cases h
      · rename_i pending hpending
        cases h
        have hfree := uniqueFileName_free hpending
        simp only [Bool.or_eq_false_iff] at hfree
        intro n hn
        rcases List.mem_or_eq_of_mem_set hn with hn | rfl
        · exact hacc n hn
        · exact Store.stored_eq_none_of_hasFile hfree.1
    · cases h
      exact hacc

omit [DecidableEq H] in
theorem pendingOutputs_free {s : Store H} {entries : List (String × ObjectRecord H)}
    {inputs : List String} {slots : List MutatedObjectSlots} {acc acc' : List String × List PendingName}
    (h : slots.foldlM (pendingOutput s entries inputs) acc = .ok acc')
    (hacc : ∀ n ∈ acc.1, s.stored n = none) : ∀ n ∈ acc'.1, s.stored n = none := by
  induction slots generalizing acc with
  | nil =>
    cases h
    exact hacc
  | cons slot slots ih =>
    rw [List.foldlM_cons] at h
    cases hstep : pendingOutput s entries inputs acc slot with
    | error e =>
      rw [hstep] at h
      cases h
    | ok acc₁ =>
      rw [hstep] at h
      exact ih h (pendingOutput_free hstep hacc)

omit [EncodeHex H] in
theorem importFileName_unloaded {s : Store H} {record : ObjectRecord H} {generated name : String}
    {requested : Option String} (h : importFileName s record generated requested = .ok name) (p : Place) :
    s.loaded p name = none := by
  unfold importFileName at h
  split at h
  · cases h
  · rename_i entries hload
    split at h
    · cases h
    · split at h
      · cases h
      · split at h
        · cases h
        · rename_i hfree
          cases h
          obtain ⟨-, -, -, hentries⟩ := Store.loadObjectFiles_ok hload
          simp only [List.any_eq_true, decide_eq_true_eq, not_exists, not_and] at hfree
          cases hl : s.loaded p name with
          | none => rfl
          | some r => exact absurd rfl (hfree _ ((hentries name r).mpr ⟨p, hl⟩))

omit [EncodeHex H] in
theorem importFileName_free {s : Store H} {record : ObjectRecord H} {generated name : String}
    {requested : Option String} (h : importFileName s record generated requested = .ok name) :
    ∀ r, s.stored name ≠ some (some r) := by
  intro r hr
  have hlive := importFileName_unloaded h .live
  have hnull := importFileName_unloaded h .nullified
  unfold Store.loaded at hlive hnull
  unfold Store.stored at hr
  cases hl : s.file .live name with
  | some c =>
    rw [hl, Option.some_or] at hr
    cases hr
    simp [hl] at hlive
  | none =>
    rw [hl, Option.none_or] at hr
    simp [hr] at hnull

/-! ## The machine -/

structure ClassRef (H : Type) where
  cls : QualifiedName
  hash : H
deriving DecidableEq, Repr

def resolveInputs (entries : List (String × ObjectRecord H)) :
    List (String × ClassRef H) → Option (List (ResolvedInput H))
  | [] => some []
  | (fileName, required) :: rest =>
    match entries.find? fun e => e.1 = fileName with
    | none => none
    | some e =>
      if e.2.status = .live ∧ e.2.cls = required.cls ∧ e.2.obj.type = some required.hash then
        (resolveInputs entries rest).map (⟨fileName, e.2.obj⟩ :: ·)
      else none

inductive Action (H : Type) where
  | prove (id : Nat) (owner : String) (inputs : List (String × ClassRef H))
  | release (id : Nat)
  | record (id : Nat) (proved : ProvedTransaction H) (now : Nat) (answers : List Answer)
  | delete (t : H) (answers : List Answer)
  | submitMark (t : H) (now : Nat) (answers : List Answer)
  | submitFinish (t : H) (now : Nat) (jobId : String) (failed : Bool) (answers : List Answer)
  | settle (x : Settlement H) (now : Nat) (answers : List Answer)
  | prune (now : Nat) (answers : List Answer)
  | rename (fileName newName : String) (answers : List Answer)
  | importObject (record : ObjectRecord H) (requested : Option String) (answers : List Answer)
  | discard (fileName : String) (answers : List Answer)
  | crash
deriving DecidableEq, Repr

/-- The nullifier of every input is one of the proved transaction's. -/
def Proof.covers (p : Proof H) (proved : ProvedTransaction H) : Bool :=
  p.inputs.all fun input => match input.obj.nullifier with
    | some nullifier => decide (nullifier ∈ proved.nullifiers)
    | none => false

namespace World

/-- `HoldTable::take`, all files or none, under the store lock. -/
def take (w : World H) (id : Nat) (owner : String) (inputs : List (ResolvedInput H)) :
    Option (World H) :=
  let files := inputs.map ResolvedInput.fileName
  if files.any fun f => f ∈ w.owners || f ∈ lockedInputs w.store.records then none
  else some { w with
    owners := files.foldl (fun owners f => owners.insert f owner) w.owners
    proofs := w.proofs.insert id ⟨owner, inputs, .proving⟩ }

def prove (w : World H) (id : Nat) (owner : String) (inputs : List (String × ClassRef H)) :
    Option (World H) :=
  if w.proofs.lookup id = none ∧ (inputs.map Prod.fst).Nodup then
    match w.store.loadObjectFiles with
    | .error _ => none
    | .ok entries => (resolveInputs entries inputs).bind fun resolved => w.take id owner resolved
  else none

/-- Drop of the holds. -/
def release (w : World H) (id : Nat) : Option (World H) :=
  (w.proofs.lookup id).map fun p => { w with
    owners := p.files.foldl (fun owners f => owners.erase f) w.owners
    proofs := w.proofs.erase id }

/-- A crash keeps the store only. -/
def crash (w : World H) : World H :=
  { w with owners := ∅, proofs := ∅, reconciled := [], report := ⟨[], []⟩ }

/-- The state after an operation, whether it returned, failed or crashed. -/
def after (run : End DriverError Unit × World H) : World H :=
  match run.1 with
  | .crashed => run.2.crash
  | _ => run.2

/-- An operation starts with nothing to report. -/
def fresh (w : World H) : World H := { w with report := ⟨[], []⟩ }

def perform (w : World H) (task : Task H Unit) (answers : List Answer) : World H :=
  after (task.exec device w.fresh answers)

/-- `record` consumes its proof, whose holds are dropped once the lock is free again. -/
def recordProof (w : World H) (id : Nat) (proved : ProvedTransaction H) (now : Nat)
    (answers : List Answer) : Option (World H) :=
  match w.proofs.lookup id with
  | some p =>
    if p.stage = .proving ∧ p.covers proved then
      let run := (Objects.record proved p.owner p.files now).exec device w.fresh answers
      let outcome := match run.1 with
        | .returned _ => some proved.txFinal
        | _ => none
      match run.1 with
      | .crashed => some run.2.crash
      | _ => some { run.2 with
          proofs := run.2.proofs.insert id { p with stage := .recorded outcome } }
    else none
  | none => none

def step (w : World H) : Action H → Option (World H)
  | .prove id owner inputs => w.prove id owner inputs
  | .release id => w.release id
  | .record id proved now answers => w.recordProof id proved now answers
  | .delete t answers => some (w.perform (deleteTransaction t) answers)
  | .submitMark t now answers => some (w.perform (updateRecord t (markSubmit now)) answers)
  | .submitFinish t now jobId failed answers =>
    some (w.perform (updateRecord t (finishSubmit now jobId failed)) answers)
  | .settle x now answers => some (w.perform (settleWith x now) answers)
  | .prune now answers => some (w.perform (pruneTransactions now) answers)
  | .rename fileName newName answers => some (w.perform (renameObject fileName newName) answers)
  | .importObject record requested answers =>
    some (w.perform (Objects.importObject record requested) answers)
  | .discard fileName answers => some (w.perform (discardObject fileName) answers)
  | .crash => some w.crash

/-- The section under the store lock that an action runs, with the answers it gets. -/
def task (w : World H) : Action H → Option (Task H Unit × List Answer)
  | .prove _ _ _ => none
  | .release _ => none
  | .record id proved now answers =>
    (w.proofs.lookup id).map fun p => (Objects.record proved p.owner p.files now, answers)
  | .delete t answers => some (deleteTransaction t, answers)
  | .submitMark t now answers => some (updateRecord t (markSubmit now), answers)
  | .submitFinish t now jobId failed answers =>
    some (updateRecord t (finishSubmit now jobId failed), answers)
  | .settle x now answers => some (settleWith x now, answers)
  | .prune now answers => some (pruneTransactions now, answers)
  | .rename fileName newName answers => some (renameObject fileName newName, answers)
  | .importObject record requested answers => some (Objects.importObject record requested, answers)
  | .discard fileName answers => some (discardObject fileName, answers)
  | .crash => none

/-- Every answer that the action gets meets the guard. -/
def Obeys (G : World H → FsOp H → Answer → Prop) (w : World H) (a : Action H) : Prop :=
  ∀ t ∈ w.task a, t.1.Follows device G w.fresh t.2

instance (G : World H → FsOp H → Answer → Prop) [∀ w op a, Decidable (G w op a)] (w : World H)
    (a : Action H) : Decidable (Obeys G w a) :=
  inferInstanceAs (Decidable (∀ t ∈ w.task a, t.1.Follows device G w.fresh t.2))

omit [EncodeHex H] in
theorem perform_store (w : World H) (task : Task H Unit) (answers : List Answer) :
    (w.perform task answers).store = (task.exec device w.fresh answers).2.store := by
  unfold perform after
  split <;> rfl

omit [EncodeHex H] in
theorem take_store {w w' : World H} {id : Nat} {owner : String} {inputs : List (ResolvedInput H)}
    (h : w.take id owner inputs = some w') : w'.store = w.store := by
  unfold take at h
  dsimp only at h
  split at h
  · cases h
  · cases h
    rfl

omit [EncodeHex H] in
theorem prove_store {w w' : World H} {id : Nat} {owner : String} {inputs : List (String × ClassRef H)}
    (h : w.prove id owner inputs = some w') : w'.store = w.store := by
  unfold prove at h
  split at h
  · split at h
    · cases h
    · obtain ⟨resolved, -, htake⟩ := Option.bind_eq_some_iff.mp h
      exact take_store htake
  · cases h

theorem recordProof_store {w w' : World H} {id : Nat} {proved : ProvedTransaction H} {now : Nat}
    {answers : List Answer} (h : w.recordProof id proved now answers = some w') :
    ∃ p, w.proofs.lookup id = some p ∧
      w'.store = ((Objects.record proved p.owner p.files now).exec device w.fresh answers).2.store := by
  unfold recordProof at h
  split at h
  · rename_i p hp
    refine ⟨p, hp, ?_⟩
    split at h
    · dsimp only at h
      split at h <;> cases h <;> rfl
    · cases h
  · cases h

/-- An action leaves the store as it was, or as its section under the lock leaves it. -/
theorem step_store {w w' : World H} {a : Action H} (h : w.step a = some w') :
    (w.task a = none ∧ w'.store = w.store) ∨
      ∃ t ∈ w.task a, w'.store = (t.1.exec device w.fresh t.2).2.store := by
  cases a with
  | prove id owner inputs => exact .inl ⟨rfl, prove_store h⟩
  | release id =>
    obtain ⟨p, -, rfl⟩ := Option.map_eq_some_iff.mp h
    exact .inl ⟨rfl, rfl⟩
  | record id proved now answers =>
    obtain ⟨p, hp, hstore⟩ := recordProof_store h
    exact .inr ⟨(Objects.record proved p.owner p.files now, answers), by simp [task, hp], hstore⟩
  | crash =>
    cases h
    exact .inl ⟨rfl, rfl⟩
  | delete | submitMark | submitFinish | settle | prune | rename | importObject | discard =>
    cases h
    exact .inr ⟨_, rfl, perform_store ..⟩

end World

/-! ## Objects of a player -/

namespace Sample

instance : EncodeHex Nat := ⟨fun n => toString n⟩

def cls : QualifiedName := ⟨"game", "Sword"⟩

def obj (n : Nat) : Object Nat := ⟨some 1, some n, n, some (n + 100)⟩

def file (n : Nat) : ObjectRecord Nat := ⟨cls, n, .live, 0, none, none, obj n⟩

end Sample

end DigitalObjects.Driver.Objects
