import DigitalObjects.Driver.Operations
import DigitalObjects.Lib.Lists
set_option autoImplicit false

/-!
`record` down to its single file operations: the directories it creates, the files it asks for,
reads, writes and takes back. Any of them may fail. The payload and the temporary file beside
each record are files too.
-/

namespace DigitalObjects.Driver.Objects.Recording

open Lib

variable {H : Type} [DecidableEq H] [EncodeHex H]

/-! ## The disk -/

/-- A file that parses, or one that does not. -/
inductive Contents (α : Type) where
  | valid (a : α)
  | garbage (bytes : List UInt8)
deriving DecidableEq, Repr

/-- `payload.bin`, `record.json` and `record.json.tmp` of a transaction. -/
structure TransactionDir (H : Type) where
  payload : Option (List UInt8)
  record : Option (Contents (TransactionRecord H))
  temporary : Option (Contents (TransactionRecord H))
deriving DecidableEq, Repr

inductive ObjectsDir where
  | objects
  | nullified
  | discarded
deriving DecidableEq, Repr

/-- The directories of `ensure_store_dirs`. -/
inductive StoreDir where
  | objects
  | nullified
  | actions
  | transactions
deriving DecidableEq, Repr

inductive Path (H : Type) where
  | storeDir (d : StoreDir)
  | object (d : ObjectsDir) (name : String)
  | transaction (t : H)
  | record (t : H)
deriving DecidableEq, Repr

structure Disk (H : Type) where
  files : ObjectsDir → AList fun _ : String => Contents (ObjectRecord H)
  transactions : AList fun _ : H => TransactionDir H

namespace Disk

def empty : Disk H := ⟨fun _ => ∅, ∅⟩

def file (k : Disk H) (d : ObjectsDir) (name : String) : Option (Contents (ObjectRecord H)) :=
  (k.files d).lookup name

def transactionDir (k : Disk H) (t : H) : Option (TransactionDir H) := k.transactions.lookup t

def recordFile (k : Disk H) (t : H) : Option (Contents (TransactionRecord H)) :=
  (k.transactionDir t).bind TransactionDir.record

/-- What `read_payload` finds. -/
def payloadFile (k : Disk H) (t : H) : Option (List UInt8) :=
  (k.transactionDir t).bind TransactionDir.payload

/-- The store directories are there once `ensure_store_dirs` has returned. -/
def has (k : Disk H) : Path H → Bool
  | .storeDir _ => true
  | .object d name => (k.file d name).isSome
  | .transaction t => (k.transactionDir t).isSome
  | .record t => (k.recordFile t).isSome

def setFiles (k : Disk H) (d : ObjectsDir) (a : AList fun _ : String => Contents (ObjectRecord H)) :
    Disk H :=
  { k with files := fun d' => if d' = d then a else k.files d' }

def writeFile (k : Disk H) (d : ObjectsDir) (name : String) (c : Contents (ObjectRecord H)) : Disk H :=
  k.setFiles d ((k.files d).insert name c)

def removeFile (k : Disk H) (d : ObjectsDir) (name : String) : Disk H :=
  k.setFiles d ((k.files d).erase name)

/-- A change of a directory that is there. -/
def onTransaction (k : Disk H) (t : H) (f : TransactionDir H → TransactionDir H) : Disk H :=
  match k.transactionDir t with
  | some x => { k with transactions := k.transactions.insert t (f x) }
  | none => k

def createTransaction (k : Disk H) (t : H) : Disk H :=
  if (k.transactionDir t).isSome then k
  else { k with transactions := k.transactions.insert t ⟨none, none, none⟩ }

def removeTransaction (k : Disk H) (t : H) : Disk H :=
  { k with transactions := k.transactions.erase t }

/-- The records that parse. -/
def records (k : Disk H) : List (TransactionRecord H) :=
  k.transactions.entries.filterMap fun x => match x.2.record with
    | some (.valid r) => some r
    | _ => none

end Disk

inductive DiskOp (H : Type) where
  | createDirAll (p : Path H)
  | pathExists (p : Path H)
  | isFile (p : Path H)
  | tryExists (p : Path H)
  | readDir (d : StoreDir)
  | nextEntry (d : StoreDir)
  | readFile (p : Path H)
  | writeObject (d : ObjectsDir) (name : String) (record : ObjectRecord H)
  | removeObject (d : ObjectsDir) (name : String)
  | writePayload (t : H) (bytes : List UInt8)
  | writeTemporary (t : H) (r : TransactionRecord H)
  | renameTemporary (t : H)
  | removeDirAll (t : H)
deriving DecidableEq, Repr

def Disk.apply (k : Disk H) : DiskOp H → Disk H
  | .createDirAll (.transaction t) => k.createTransaction t
  | .writeObject d name record => k.writeFile d name (.valid record)
  | .removeObject d name => k.removeFile d name
  | .writePayload t bytes => k.onTransaction t fun x => { x with payload := some bytes }
  | .writeTemporary t r => k.onTransaction t fun x => { x with temporary := some (.valid r) }
  | .renameTemporary t => k.onTransaction t fun x => { x with record := x.temporary, temporary := none }
  | .removeDirAll t => k.removeTransaction t
  | _ => k

/-- What a write that fails half way has left in its file. -/
structure Remains (H : Type) where
  object : ObjectRecord H → Contents (ObjectRecord H)
  payload : List UInt8 → List UInt8
  temporary : TransactionRecord H → Contents (TransactionRecord H)

def Disk.tear (x : Remains H) (k : Disk H) : DiskOp H → Disk H
  | .writeObject d name record => k.writeFile d name (x.object record)
  | .writePayload t bytes => k.onTransaction t fun dir => { dir with payload := some (x.payload bytes) }
  | .writeTemporary t r => k.onTransaction t fun dir => { dir with temporary := some (x.temporary r) }
  | _ => k

def device (x : Remains H) : Device (Disk H) (DiskOp H) where
  done op k := k.apply op
  torn op k := k.tear x op

abbrev Job (H : Type) := Routine (Disk H) (DiskOp H) DriverError

/-! ## Reading -/

/-- `Path::exists` and `Path::is_file`: a question that fails is answered with no. -/
def probe (op : DiskOp H) (p : Path H) : Job H Bool :=
  .op op fun ok => if ok then .read fun k => .ret (k.has p) else .ret false

def pathExists (p : Path H) : Job H Bool := probe (.pathExists p) p

def isFile (p : Path H) : Job H Bool := probe (.isFile p) p

def tryExists (p : Path H) : Job H Bool := do
  Routine.perform (.tryExists p) (.io "metadata")
  let k ← Routine.get
  pure (k.has p)

def ensureStoreDirs : Job H Unit :=
  Routine.forList (fun d => Routine.perform (.createDirAll (.storeDir d)) (.io "directory"))
    [.objects, .nullified, .actions, .transactions]

def parseObjectFile (d : ObjectsDir) (acc : List (String × ObjectRecord H)) (name : String) :
    Contents (ObjectRecord H) → Job H (List (String × ObjectRecord H))
  | .garbage _ => pure acc
  | .valid record =>
    if record.isNullified ≠ decide (d = .nullified) then .throw (.invalidPlacement name)
    else if acc.any fun e => e.1 = name then .throw (.duplicateName name)
    else pure (acc ++ [(name, record)])

/-- One entry of a directory; a file that cannot be read is skipped. -/
def loadObjectFile (dir : StoreDir) (d : ObjectsDir) (acc : List (String × ObjectRecord H))
    (entry : Sigma fun _ : String => Contents (ObjectRecord H)) :
    Job H (List (String × ObjectRecord H)) := do
  Routine.perform (.nextEntry dir) (.io "objects entry")
  if ← isFile (.object d entry.1) then
    .op (.readFile (.object d entry.1)) fun ok =>
      if ok then parseObjectFile d acc entry.1 entry.2 else pure acc
  else pure acc

def loadObjectFilesFromDir (acc : List (String × ObjectRecord H)) (dir : StoreDir) (d : ObjectsDir) :
    Job H (List (String × ObjectRecord H)) := do
  if ← pathExists (.storeDir dir) then do
    Routine.perform (.readDir dir) (.io "objects directory")
    let k ← Routine.get
    Routine.foldList (loadObjectFile dir d) acc (k.files d).entries
  else pure acc

def loadObjectFiles : Job H (List (String × ObjectRecord H)) := do
  ensureStoreDirs
  let objects ← loadObjectFilesFromDir [] .objects .objects
  let objects ← loadObjectFilesFromDir objects .nullified .nullified
  pure (objects.insertionSort fun a b => a.1 ≤ b.1)

/-- A record that cannot be read is skipped. -/
def loadRecord (acc : List (TransactionRecord H)) (entry : Sigma fun _ : H => TransactionDir H) :
    Job H (List (TransactionRecord H)) := do
  Routine.perform (.nextEntry .transactions) (.io "transactions entry")
  if ← isFile (.record entry.1) then
    .op (.readFile (.record entry.1)) fun ok =>
      if ok then
        match entry.2.record with
        | some (.valid r) => pure (acc ++ [r])
        | _ => pure acc
      else pure acc
  else pure acc

def recordedBefore (a b : TransactionRecord H) : Bool :=
  a.recordedAtMs < b.recordedAtMs || (a.recordedAtMs = b.recordedAtMs &&
    EncodeHex.encodeHex a.txFinal ≤ EncodeHex.encodeHex b.txFinal)

def loadRecords : Job H (List (TransactionRecord H)) := do
  if ← pathExists (.storeDir .transactions) then do
    Routine.perform (.readDir .transactions) (.io "transactions")
    let k ← Routine.get
    let records ← Routine.foldList loadRecord [] k.transactions.entries
    pure (records.insertionSort fun a b => recordedBefore a b = true)
  else pure []

def readRecord (t : H) : Job H (Option (TransactionRecord H)) := do
  if ← isFile (.record t) then do
    Routine.perform (.readFile (.record t)) (.io "record.json")
    let k ← Routine.get
    match k.recordFile t with
    | some (.valid r) => pure (some r)
    | _ => .throw (.unreadable "record.json")
  else pure none

/-! ## Names -/

def storeHasFile (name : String) : Job H Bool := do
  if ← pathExists (.object .objects name) then pure true
  else if ← pathExists (.object .nullified name) then pure true
  else pathExists (.object .discarded name)

/-- The first name that is not taken. -/
def firstFree (isTaken : String → Job H Bool) (e : DriverError) : List String → Job H String
  | [] => .throw e
  | name :: rest => do
    if ← isTaken name then firstFree isTaken e rest else pure name

/-- More names than there are files. -/
def Disk.bound (k : Disk H) : Nat :=
  (k.files .objects).entries.length + (k.files .nullified).entries.length +
    (k.files .discarded).entries.length + 1

def uniqueFileName (bound : Nat) (fileName : String) (isTaken : String → Job H Bool) : Job H String := do
  if ← isTaken fileName then
    firstFree isTaken (.io fileName) ((List.range bound).map fun i => numberedFileName fileName (i + 2))
  else pure fileName

def pendingFileName (bound : Nat) (finalName : String) (isTaken : String → Job H Bool) : Job H String :=
  uniqueFileName bound (stemOf finalName ++ "-pending" ++ dobjExtension) isTaken

/-- A name for an output: no file of the store and none of the other outputs has it. -/
def nameTaken (outputFiles : List String) (name : String) : Job H Bool := do
  if ← storeHasFile name then pure true else pure (decide (name ∈ outputFiles))

/-- A mutated input with a custom name passes it on: its new version is written under a pending
name. -/
def pendingOutput (entries : List (String × ObjectRecord H)) (inputs : List String)
    (acc : List String × List PendingName) (slots : MutatedObjectSlots) :
    Job H (List String × List PendingName) :=
  match inputs[slots.inputIndex]? with
  | none => pure acc
  | some input =>
    if (entries.any fun e => e.1 = input && hasCustomFileName input e.2) &&
        slots.outputIndex < acc.1.length then do
      let k ← Routine.get
      let pending ← pendingFileName (k.bound + acc.1.length) input (nameTaken acc.1)
      pure (acc.1.set slots.outputIndex pending, acc.2 ++ [⟨pending, input⟩])
    else pure acc

def checkOutput (name : String) : Job H Unit := do
  if ← tryExists (.object .objects name) then .throw (.conflict s!"output file already exists: {name}")
  else if ← tryExists (.object .nullified name) then
    .throw (.conflict s!"output file already exists: {name}")
  else pure ()

/-! ## Writing -/

def targetDir (record : ObjectRecord H) : ObjectsDir :=
  if record.isNullified then .nullified else .objects

def staleDir (record : ObjectRecord H) : ObjectsDir :=
  if record.isNullified then .objects else .nullified

def writeObjectFile (record : ObjectRecord H) (name : String) : Job H Unit := do
  ensureStoreDirs
  Routine.perform (.writeObject (targetDir record) name record) (.io name)
  Routine.tryPerform (.removeObject (staleDir record) name)

def writePayload (t : H) (bytes : List UInt8) : Job H Unit := do
  Routine.perform (.createDirAll (.transaction t)) (.io "transaction")
  Routine.perform (.writePayload t bytes) (.io "payload.bin")

def writeRecord (r : TransactionRecord H) : Job H Unit := do
  Routine.perform (.createDirAll (.transaction r.txFinal)) (.io "transaction")
  Routine.perform (.writeTemporary r.txFinal r) (.io "record.json.tmp")
  Routine.perform (.renameTemporary r.txFinal) (.io "record.json")

/-- The outputs one by one: the names tried so far, and the error that ended it. -/
def writeOutputs (attempted : List String) :
    List (ObjectRecord H × String) → Job H (List String × Option DriverError)
  | [] => pure (attempted, none)
  | (record, name) :: rest => do
    match ← (writeObjectFile record name).attempt with
    | .ok () => writeOutputs (attempted ++ [name]) rest
    | .error e => pure (attempted ++ [name], some e)

def rollback (t : H) (attempted : List String) (e : DriverError) : Job H (TransactionRecord H) := do
  Routine.forList (fun name => Routine.tryPerform (.removeObject .objects name)) attempted
  Routine.tryPerform (.removeDirAll t)
  .throw e

def writeTransaction (r : TransactionRecord H) (payload : List UInt8)
    (outputs : List (ObjectRecord H × String)) : Job H (TransactionRecord H) := do
  match ← writeOutputs [] outputs with
  | (attempted, some e) => rollback r.txFinal attempted e
  | (attempted, none) =>
    match ← (do writePayload r.txFinal payload; writeRecord r : Job H Unit).attempt with
    | .ok () => pure r
    | .error e => rollback r.txFinal attempted e

def record (proved : ProvedTransaction H) (payload : List UInt8) (owner : String)
    (inputs : List String) (now : Nat) : Job H (TransactionRecord H) := do
  let outputFiles ← Routine.lift proved.outputFiles
  let entries ← loadObjectFiles
  let records ← loadRecords
  Routine.lift (checkInputs entries (lockedInputs records) inputs)
  match ← readRecord proved.txFinal with
  | some _ => .throw (.conflict "transaction is already recorded")
  | none => do
    Routine.forList checkOutput outputFiles
    let (outputFiles, pendingNames) ←
      Routine.foldList (pendingOutput entries inputs) (outputFiles, []) proved.mutatedObjects
    writeTransaction (.ofProved proved owner inputs outputFiles pendingNames now) payload
      ((proved.outputs.map (unknownOutput proved)).zip outputFiles)

/-! ## The call -/

/-- The disk and the hold table. -/
structure Session (H : Type) where
  disk : Disk H
  owners : AList fun _ : String => String

/-- Drop of the holds. -/
def dropHolds (files : List String) (owners : AList fun _ : String => String) :
    AList fun _ : String => String :=
  files.foldl (fun owners f => owners.erase f) owners

/-- The call of `record`. Its argument is dropped, and with it the holds, once the lock is free
again; a crash inside it shows the state at that moment. -/
def callRecord (x : Remains H) (w : Session H) (proved : ProvedTransaction H) (payload : List UInt8)
    (owner : String) (inputs : List String) (now : Nat) (answers : List Answer) :
    End DriverError (TransactionRecord H) × Session H :=
  let run := (record proved payload owner inputs now).exec (device x) w.disk answers
  match run.1 with
  | .crashed => (.crashed, ⟨run.2, w.owners⟩)
  | outcome => (outcome, ⟨run.2, dropHolds inputs w.owners⟩)

/-! ## Which operations fail -/

/-- The operations of the rollback. -/
def DiskOp.cleans : DiskOp H → Bool
  | .removeObject .objects _ => true
  | .removeDirAll _ => true
  | _ => false

/-- `exists` of an object that is there, or `is_file` of the transaction's own record. -/
def DiskOp.hides (t : H) (k : Disk H) : DiskOp H → Bool
  | .pathExists (.object d name) => d ≠ .discarded && k.has (.object d name)
  | .isFile (.record t') => t' = t && k.has (.record t')
  | _ => false

/-- Any operation may fail, but for the rollback and for a question about a file that is there. -/
def Faults (t : H) (k : Disk H) (op : DiskOp H) : Answer → Prop
  | .done => True
  | .failed => op.cleans = false ∧ op.hides t k = false
  | .torn => op.cleans = false ∧ op.hides t k = false
  | .crashed => False
  | .cut => False

instance (t : H) (k : Disk H) (op : DiskOp H) (a : Answer) : Decidable (Faults t k op a) := by
  unfold Faults
  cases a <;> infer_instance

omit [EncodeHex H] in
theorem faults_no_crash (t : H) (k : Disk H) (op : DiskOp H) :
    ¬ Faults t k op .crashed ∧ ¬ Faults t k op .cut := ⟨fun h => h, fun h => h⟩

/-! ## Reading changes nothing -/

section Reading

variable {x : Remains H} {t : H} {k₀ : Disk H} {α : Type}

/-- An operation that changes no file. -/
def DiskOp.reads : DiskOp H → Bool
  | .createDirAll (.storeDir _) => true
  | .pathExists _ => true
  | .isFile _ => true
  | .tryExists _ => true
  | .readDir _ => true
  | .nextEntry _ => true
  | .readFile _ => true
  | _ => false

omit [EncodeHex H] in
theorem Disk.apply_reads {op : DiskOp H} (h : op.reads = true) (k : Disk H) : k.apply op = k := by
  cases op with
  | createDirAll p => cases p <;> first | rfl | cases h
  | pathExists | isFile | tryExists | readDir | nextEntry | readFile => rfl
  | writeObject | removeObject | writePayload | writeTemporary | renameTemporary | removeDirAll => cases h

omit [EncodeHex H] in
theorem Disk.tear_reads {op : DiskOp H} (h : op.reads = true) (k : Disk H) : k.tear x op = k := by
  cases op with
  | createDirAll | pathExists | isFile | tryExists | readDir | nextEntry | readFile => rfl
  | writeObject | removeObject | writePayload | writeTemporary | renameTemporary | removeDirAll => cases h

/-- The routine leaves the disk as it found it. -/
def Keeps (x : Remains H) (t : H) (k₀ : Disk H) (m : Job H α) : Prop :=
  Routine.Preserves (device x) (Faults t) (fun k => k = k₀) m

omit [EncodeHex H] in
theorem Keeps.op {op : DiskOp H} {m : Bool → Job H α} (h : op.reads = true)
    (hm : ∀ b, Keeps x t k₀ (m b)) : Keeps x t k₀ (.op op m) := by
  intro k hk
  have hdone : (device x).done op k = k := Disk.apply_reads h k
  have htorn : (device x).torn op k = k := Disk.tear_reads h k
  refine ⟨fun _ => ?_, fun _ => hm false k hk, fun _ => ?_, fun hg => hg.elim, fun hg => hg.elim⟩
  · rw [hdone]
    exact hm true k hk
  · rw [htorn]
    exact hm false k hk

omit [EncodeHex H] in
theorem Keeps.perform {op : DiskOp H} {e : DriverError} (h : op.reads = true) :
    Keeps x t k₀ (Routine.perform op e) := by
  refine Keeps.op h fun b => ?_
  cases b with
  | true => exact Routine.Preserves.pure ()
  | false => exact Routine.Preserves.throw e

omit [EncodeHex H] in
theorem Keeps.probe {op : DiskOp H} {p : Path H} (h : op.reads = true) :
    Keeps x t k₀ (probe op p) := by
  refine Keeps.op h fun b => ?_
  cases b with
  | true => exact fun k hk => hk
  | false => exact Routine.Preserves.pure false

omit [EncodeHex H] in
theorem Keeps.get_bind {f : Disk H → Job H α} (h : Keeps x t k₀ (f k₀)) :
    Keeps x t k₀ (Routine.get >>= f) := by
  refine Routine.Triple.get_bind fun k hk => ?_
  subst hk
  exact h

omit [EncodeHex H] in
theorem keeps_ensureStoreDirs : Keeps x t k₀ (ensureStoreDirs : Job H Unit) :=
  Routine.Preserves.forList fun _ _ => Keeps.perform rfl

omit [EncodeHex H] in
theorem keeps_loadObjectFile (dir : StoreDir) (d : ObjectsDir) (acc : List (String × ObjectRecord H))
    (entry : Sigma fun _ : String => Contents (ObjectRecord H)) :
    Keeps x t k₀ (loadObjectFile dir d acc entry) := by
  unfold loadObjectFile
  refine Routine.Preserves.bind (Keeps.perform rfl) fun _ => ?_
  refine Routine.Preserves.bind (Keeps.probe rfl) fun b => ?_
  cases b with
  | false => exact Routine.Preserves.pure acc
  | true =>
    refine Keeps.op rfl fun ok => ?_
    cases ok with
    | false => exact Routine.Preserves.pure acc
    | true =>
      cases hc : entry.2 with
      | garbage bytes => exact Routine.Preserves.pure acc
      | valid record =>
        simp only [parseObjectFile, if_true]
        split
        · exact Routine.Preserves.throw _
        · split
          · exact Routine.Preserves.throw _
          · exact Routine.Preserves.pure _

omit [EncodeHex H] in
theorem keeps_loadObjectFilesFromDir (acc : List (String × ObjectRecord H)) (dir : StoreDir)
    (d : ObjectsDir) : Keeps x t k₀ (loadObjectFilesFromDir acc dir d) := by
  unfold loadObjectFilesFromDir
  refine Routine.Preserves.bind (Keeps.probe rfl) fun b => ?_
  cases b with
  | false => exact Routine.Preserves.pure acc
  | true =>
    refine Routine.Preserves.bind (Keeps.perform rfl) fun _ => ?_
    refine Keeps.get_bind ?_
    exact Routine.Preserves.foldList fun acc entry _ => keeps_loadObjectFile dir d acc entry

omit [EncodeHex H] in
theorem keeps_loadObjectFiles : Keeps x t k₀ (loadObjectFiles : Job H _) := by
  unfold loadObjectFiles
  refine Routine.Preserves.bind keeps_ensureStoreDirs fun _ => ?_
  refine Routine.Preserves.bind (keeps_loadObjectFilesFromDir _ _ _) fun _ => ?_
  refine Routine.Preserves.bind (keeps_loadObjectFilesFromDir _ _ _) fun _ => ?_
  exact Routine.Preserves.pure _

omit [EncodeHex H] in
theorem keeps_loadRecord (acc : List (TransactionRecord H)) (entry : Sigma fun _ : H => TransactionDir H) :
    Keeps x t k₀ (loadRecord acc entry) := by
  unfold loadRecord
  refine Routine.Preserves.bind (Keeps.perform rfl) fun _ => ?_
  refine Routine.Preserves.bind (Keeps.probe rfl) fun b => ?_
  cases b with
  | false => exact Routine.Preserves.pure acc
  | true =>
    refine Keeps.op rfl fun ok => ?_
    cases ok with
    | false => exact Routine.Preserves.pure acc
    | true =>
      simp only [if_true]
      split <;> exact Routine.Preserves.pure _

theorem keeps_loadRecords : Keeps x t k₀ (loadRecords : Job H _) := by
  unfold loadRecords
  refine Routine.Preserves.bind (Keeps.probe rfl) fun b => ?_
  cases b with
  | false => exact Routine.Preserves.pure []
  | true =>
    refine Routine.Preserves.bind (Keeps.perform rfl) fun _ => ?_
    refine Keeps.get_bind ?_
    refine Routine.Preserves.bind ?_ fun _ => Routine.Preserves.pure _
    exact Routine.Preserves.foldList fun acc entry _ => keeps_loadRecord acc entry

end Reading

/-! ## What the checks find out -/

/-- No object, live or nullified, has the name. -/
def Disk.Free (k : Disk H) (name : String) : Prop :=
  k.file .objects name = none ∧ k.file .nullified name = none

section Checks

variable {x : Remains H} {t : H} {k₀ : Disk H}

omit [EncodeHex H] in
/-- A question that is answered with no is about a file that is not there. -/
theorem probe_spec (op : DiskOp H) (p : Path H) (h : op.reads = true)
    (hhides : op.hides t k₀ = false → k₀.has p = false) :
    Routine.Triple (device x) (Faults t) (fun k => k = k₀) (probe op p)
      (fun b k => (b = false → k₀.has p = false) ∧ k = k₀) (fun k => k = k₀) := by
  intro k hk
  subst hk
  have hdone : (device x).done op k = k := Disk.apply_reads h k
  have htorn : (device x).torn op k = k := Disk.tear_reads h k
  refine ⟨fun _ => ?_, fun hg => ⟨fun _ => hhides hg.2, rfl⟩, fun hg => ?_, fun hg => hg.elim,
    fun hg => hg.elim⟩
  · rw [hdone]
    exact ⟨fun hb => hb, rfl⟩
  · rw [htorn]
    exact ⟨fun _ => hhides hg.2, rfl⟩

omit [EncodeHex H] in
theorem tryExists_spec (p : Path H) :
    Routine.Triple (device x) (Faults t) (fun k => k = k₀) (tryExists p)
      (fun b k => b = k₀.has p ∧ k = k₀) (fun k => k = k₀) := by
  unfold tryExists
  refine Routine.Triple.bind (Keeps.perform rfl) fun _ => ?_
  refine Routine.Triple.get_bind fun k hk => ?_
  subst hk
  exact Routine.Triple.ret fun k' hk' => ⟨rfl, hk'⟩

omit [EncodeHex H] in
theorem file_eq_none {d : ObjectsDir} {name : String} (h : k₀.has (.object d name) = false) :
    k₀.file d name = none := by
  simpa [Disk.has] using h

omit [EncodeHex H] in
theorem checkOutput_spec (name : String) :
    Routine.Triple (device x) (Faults t) (fun k => k = k₀) (checkOutput name)
      (fun _ k => k₀.Free name ∧ k = k₀) (fun k => k = k₀) := by
  unfold checkOutput
  refine Routine.Triple.bind (tryExists_spec _) fun b => Routine.Triple.of_pre fun hlive => ?_
  cases b with
  | true => exact Routine.Triple.throw fun k hk => hk
  | false =>
    refine Routine.Triple.bind (tryExists_spec _) fun b => Routine.Triple.of_pre fun hnull => ?_
    cases b with
    | true => exact Routine.Triple.throw fun k hk => hk
    | false =>
      have hfree : k₀.Free name := ⟨file_eq_none hlive.symm, file_eq_none hnull.symm⟩
      exact Routine.Triple.ret fun k hk => ⟨hfree, hk⟩

omit [EncodeHex H] in
theorem checkOutputs_spec (names : List String) :
    Routine.Triple (device x) (Faults t) (fun k => k = k₀) (Routine.forList checkOutput names)
      (fun _ k => (∀ n ∈ names, k₀.Free n) ∧ k = k₀) (fun k => k = k₀) := by
  induction names with
  | nil => exact Routine.Triple.ret fun k hk => ⟨by simp, hk⟩
  | cons name names ih =>
    refine Routine.Triple.bind (checkOutput_spec name) fun _ => Routine.Triple.of_pre fun hfree => ?_
    refine ih.imp (fun k hk => hk) (fun _ k hk => ⟨?_, hk.2⟩) (fun k hk => hk)
    simpa using ⟨hfree, hk.1⟩

omit [EncodeHex H] in
theorem readRecord_spec :
    Routine.Triple (device x) (Faults t) (fun k => k = k₀) (readRecord t)
      (fun o k => (o = none → k₀.recordFile t = none) ∧ k = k₀) (fun k => k = k₀) := by
  unfold readRecord
  refine Routine.Triple.bind
    (probe_spec (.isFile (.record t)) (.record t) rfl (by simp [DiskOp.hides])) fun b =>
    Routine.Triple.of_pre fun hnone => ?_
  cases b with
  | false =>
    have hfile : k₀.recordFile t = none := by simpa [Disk.has] using hnone rfl
    exact Routine.Triple.ret fun k hk => ⟨fun _ => hfile, hk⟩
  | true =>
    refine Routine.Triple.bind (Keeps.perform rfl) fun _ => ?_
    refine Routine.Triple.get_bind fun k hk => ?_
    subst hk
    split
    · exact Routine.Triple.ret fun k' hk' => ⟨by simp, hk'⟩
    · exact Routine.Triple.throw fun k' hk' => hk'

omit [EncodeHex H] in
theorem pathExists_object_spec (d : ObjectsDir) (name : String) (hd : d ≠ .discarded) :
    Routine.Triple (device x) (Faults t) (fun k => k = k₀) (pathExists (.object d name))
      (fun b k => (b = false → k₀.file d name = none) ∧ k = k₀) (fun k => k = k₀) := by
  refine (probe_spec (.pathExists (.object d name)) (.object d name) rfl
    (by simp [DiskOp.hides, hd])).imp (fun k hk => hk) (fun b k hk => ⟨fun hb => file_eq_none (hk.1 hb), hk.2⟩)
    (fun k hk => hk)

omit [EncodeHex H] in
theorem nameTaken_spec (outputFiles : List String) (name : String) :
    Routine.Triple (device x) (Faults t) (fun k => k = k₀) (nameTaken outputFiles name)
      (fun b k => (b = false → k₀.Free name) ∧ k = k₀) (fun k => k = k₀) := by
  have hstore : Routine.Triple (device x) (Faults t) (fun k => k = k₀) (storeHasFile name)
      (fun b k => (b = false → k₀.Free name) ∧ k = k₀) (fun k => k = k₀) := by
    unfold storeHasFile
    refine Routine.Triple.bind (pathExists_object_spec .objects name (by simp)) fun b =>
      Routine.Triple.of_pre fun hlive => ?_
    cases b with
    | true => exact Routine.Triple.ret fun k hk => ⟨by simp, hk⟩
    | false =>
      refine Routine.Triple.bind (pathExists_object_spec .nullified name (by simp)) fun b =>
        Routine.Triple.of_pre fun hnull => ?_
      cases b with
      | true => exact Routine.Triple.ret fun k hk => ⟨by simp, hk⟩
      | false =>
        have hkeeps : Keeps x t k₀ (pathExists (.object .discarded name)) := Keeps.probe rfl
        exact hkeeps.imp (fun k hk => hk) (fun b k hk => ⟨fun _ => ⟨hlive rfl, hnull rfl⟩, hk⟩)
          (fun k hk => hk)
  unfold nameTaken
  refine Routine.Triple.bind hstore fun b => Routine.Triple.of_pre fun hfree => ?_
  cases b with
  | true => exact Routine.Triple.ret fun k hk => ⟨by simp, hk⟩
  | false => exact Routine.Triple.ret fun k hk => ⟨fun _ => hfree rfl, hk⟩

omit [EncodeHex H] in
theorem firstFree_spec (outputFiles : List String) (e : DriverError) (names : List String) :
    Routine.Triple (device x) (Faults t) (fun k => k = k₀) (firstFree (nameTaken outputFiles) e names)
      (fun name k => k₀.Free name ∧ k = k₀) (fun k => k = k₀) := by
  induction names with
  | nil => exact Routine.Triple.throw fun k hk => hk
  | cons name names ih =>
    refine Routine.Triple.bind (nameTaken_spec outputFiles name) fun b =>
      Routine.Triple.of_pre fun hfree => ?_
    cases b with
    | true => exact ih
    | false => exact Routine.Triple.ret fun k hk => ⟨hfree rfl, hk⟩

omit [EncodeHex H] in
theorem pendingFileName_spec (outputFiles : List String) (bound : Nat) (finalName : String) :
    Routine.Triple (device x) (Faults t) (fun k => k = k₀)
      (pendingFileName bound finalName (nameTaken outputFiles))
      (fun name k => k₀.Free name ∧ k = k₀) (fun k => k = k₀) := by
  unfold pendingFileName uniqueFileName
  refine Routine.Triple.bind (nameTaken_spec outputFiles _) fun b =>
    Routine.Triple.of_pre fun hfree => ?_
  cases b with
  | true => exact firstFree_spec outputFiles _ _
  | false => exact Routine.Triple.ret fun k hk => ⟨hfree rfl, hk⟩

/-- Every output has a name, and no object has it. -/
def Named (k₀ : Disk H) (count : Nat) (names : List String) : Prop :=
  names.length = count ∧ ∀ n ∈ names, k₀.Free n

theorem pendingOutput_spec {entries : List (String × ObjectRecord H)} {inputs : List String}
    {count : Nat} (acc : List String × List PendingName) (slots : MutatedObjectSlots) :
    Routine.Triple (device x) (Faults t) (fun k => Named k₀ count acc.1 ∧ k = k₀)
      (pendingOutput entries inputs acc slots)
      (fun acc' k => Named k₀ count acc'.1 ∧ k = k₀) (fun k => k = k₀) := by
  refine Routine.Triple.of_pre fun hnamed => ?_
  unfold pendingOutput
  split
  · exact Routine.Triple.ret fun k hk => ⟨hnamed, hk⟩
  · split
    · refine Routine.Triple.get_bind fun k hk => ?_
      subst hk
      refine Routine.Triple.bind (pendingFileName_spec _ _ _) fun pending =>
        Routine.Triple.of_pre fun hfree => ?_
      refine Routine.Triple.ret fun k' hk' => ⟨⟨by simpa using hnamed.1, fun n hn => ?_⟩, hk'⟩
      rcases List.mem_or_eq_of_mem_set hn with hn | rfl
      · exact hnamed.2 n hn
      · exact hfree
    · exact Routine.Triple.ret fun k hk => ⟨hnamed, hk⟩

end Checks

/-! ## The search for a name ends -/

theorem numberedFileName_injective (fileName : String) : Function.Injective (numberedFileName fileName) := by
  intro m n h
  have hlist := congrArg String.toList h
  simp only [numberedFileName, String.toList_append, List.append_assoc] at hlist
  have hrest := List.append_cancel_left (List.append_cancel_left hlist)
  have hnum : m.repr.toList = n.repr.toList := List.append_cancel_right hrest
  rw [Nat.toList_repr, Nat.toList_repr] at hnum
  have hvalue := congrArg (fun digits => Nat.ofDigitChars 10 digits 0) hnum
  simpa [Nat.ofDigitChars_toDigits] using hvalue

section Ends

variable {x : Remains H} {G : Disk H → DiskOp H → Answer → Prop} {k₀ : Disk H}

/-- The names that a search can come upon. -/
def Disk.taken (k : Disk H) (outputFiles : List String) : List String :=
  (k.files .objects).keys ++ (k.files .nullified).keys ++ (k.files .discarded).keys ++ outputFiles

/-- An answer that is yes only for one of the names. -/
def Answered (k₀ : Disk H) (names : List String) (name : String) : End DriverError Bool → Disk H → Prop
  | .returned b, k => k = k₀ ∧ (b = true → name ∈ names)
  | .failed _, _ => False
  | .crashed, _ => True

omit [EncodeHex H] in
theorem pathExists_answered (d : ObjectsDir) (name : String) (outputFiles : List String) :
    (pathExists (.object d name)).Sat (device x) G (Answered k₀ (k₀.taken outputFiles) name) k₀ := by
  have hyes : k₀.has (.object d name) = true → name ∈ k₀.taken outputFiles := by
    intro h
    have hmem : name ∈ (k₀.files d).keys := AList.lookup_isSome.mp h
    unfold Disk.taken
    cases d <;> simp [hmem]
  exact ⟨fun _ => ⟨rfl, hyes⟩, fun _ => ⟨rfl, by simp⟩, fun _ => ⟨rfl, by simp⟩, fun _ => trivial,
    fun _ => trivial⟩

omit [EncodeHex H] in
/-- A further question is asked only after a no. -/
theorem Answered.orElse {names : List String} {name : String} {m m' : Job H Bool}
    (h : m.Sat (device x) G (Answered k₀ names name) k₀)
    (h' : m'.Sat (device x) G (Answered k₀ names name) k₀) :
    (do if ← m then pure true else m' : Job H Bool).Sat (device x) G (Answered k₀ names name) k₀ := by
  rw [Routine.sat_bind]
  refine h.mono fun o k ho => ?_
  cases o with
  | failed e => exact ho
  | crashed => exact ho
  | returned b =>
    obtain ⟨rfl, hyes⟩ := ho
    cases b with
    | true => exact ⟨rfl, hyes⟩
    | false => exact h'

omit [EncodeHex H] in
theorem nameTaken_answered (name : String) (outputFiles : List String) :
    (nameTaken outputFiles name).Sat (device x) G (Answered k₀ (k₀.taken outputFiles) name) k₀ := by
  refine Answered.orElse (Answered.orElse (pathExists_answered .objects name outputFiles)
    (Answered.orElse (pathExists_answered .nullified name outputFiles)
      (pathExists_answered .discarded name outputFiles))) ⟨rfl, fun h => ?_⟩
  unfold Disk.taken
  simp_all

omit [EncodeHex H] in
/-- More distinct names than can be taken: one of them is free. -/
theorem firstFree_ends {outputFiles names : List String} (taken : List String) {e : DriverError}
    (hnodup : names.Nodup)
    (hmore : taken.length < names.length)
    (htaken : ∀ n ∈ names, n ∈ k₀.taken outputFiles → n ∈ taken) :
    (firstFree (nameTaken outputFiles) e names).Sat (device x) G (fun o _ => ∀ e, o ≠ .failed e) k₀ := by
  induction names generalizing taken with
  | nil => simp at hmore
  | cons name names ih =>
    unfold firstFree
    rw [Routine.sat_bind]
    refine (nameTaken_answered name outputFiles).mono fun o k ho => ?_
    cases o with
    | failed e => exact ho.elim
    | crashed => intro e h; cases h
    | returned b =>
      obtain ⟨rfl, hyes⟩ := ho
      cases b with
      | false => intro e h; cases h
      | true =>
        have hname : name ∈ taken := htaken name (by simp) (hyes rfl)
        have hfresh := List.nodup_cons.mp hnodup
        refine ih (taken.erase name) hfresh.2 ?_ fun n hn hin => ?_
        · rw [List.length_erase_of_mem hname]
          have hpos := List.length_pos_of_mem hname
          simp only [List.length_cons] at hmore
          omega
        · have hne : n ≠ name := by
            rintro rfl
            exact hfresh.1 hn
          exact (List.mem_erase_of_ne hne).mpr (htaken n (by simp [hn]) hin)

omit [EncodeHex H] in
/-- The search for a pending name comes to an end, whatever the questions are answered. -/
theorem pendingFileName_ends (finalName : String) (outputFiles : List String) :
    (pendingFileName (k₀.bound + outputFiles.length) finalName (nameTaken outputFiles)).Sat (device x) G
      (fun o _ => ∀ e, o ≠ .failed e) k₀ := by
  unfold pendingFileName uniqueFileName
  rw [Routine.sat_bind]
  refine (nameTaken_answered _ outputFiles).mono fun o k ho => ?_
  cases o with
  | failed e => exact ho.elim
  | crashed => intro e h; cases h
  | returned b =>
    obtain ⟨rfl, -⟩ := ho
    cases b with
    | false => intro e h; cases h
    | true =>
      refine firstFree_ends (k.taken outputFiles) ?_ ?_ fun n _ hin => hin
      · refine List.Nodup.map (fun i j hij => ?_) List.nodup_range
        have hnumber := numberedFileName_injective _ hij
        omega
      · simp only [Disk.taken, Disk.bound, AList.keys, List.keys, List.length_append, List.length_map,
          List.length_range]
        omega

end Ends

/-! ## What is written -/

namespace Disk

omit [EncodeHex H]

omit [DecidableEq H] in
theorem file_writeFile (k : Disk H) (d d' : ObjectsDir) (n m : String) (c : Contents (ObjectRecord H)) :
    (k.writeFile d n c).file d' m = if d' = d ∧ m = n then some c else k.file d' m := by
  unfold file writeFile setFiles
  by_cases hd : d' = d
  · subst hd
    by_cases hm : m = n
    · subst hm
      simp
    · simp [hm]
  · simp [hd]

omit [DecidableEq H] in
theorem file_removeFile (k : Disk H) (d d' : ObjectsDir) (n m : String) :
    (k.removeFile d n).file d' m = if d' = d ∧ m = n then none else k.file d' m := by
  unfold file removeFile setFiles
  by_cases hd : d' = d
  · subst hd
    by_cases hm : m = n
    · subst hm
      simp
    · simp [hm]
  · simp [hd]

@[simp] theorem transactionDir_writeFile (k : Disk H) (d : ObjectsDir) (n : String)
    (c : Contents (ObjectRecord H)) (t : H) : (k.writeFile d n c).transactionDir t = k.transactionDir t :=
  rfl

@[simp] theorem transactionDir_removeFile (k : Disk H) (d : ObjectsDir) (n : String) (t : H) :
    (k.removeFile d n).transactionDir t = k.transactionDir t := rfl

theorem onTransaction_some {k : Disk H} {t : H} {x : TransactionDir H} (h : k.transactionDir t = some x)
    (f : TransactionDir H → TransactionDir H) : (k.onTransaction t f).transactionDir t = some (f x) := by
  unfold onTransaction
  rw [h]
  simp [transactionDir]

end Disk

/-- The same objects, and the same transactions but for one. -/
def Disk.Beside (t : H) (k₁ k : Disk H) : Prop :=
  k.files = k₁.files ∧ ∀ t', t' ≠ t → k.transactionDir t' = k₁.transactionDir t'

/-- Objects are as they were but for `names`, and the transactions but for one. -/
structure Touched (k₀ : Disk H) (t : H) (names : List String) (k : Disk H) : Prop where
  objects : ∀ n, n ∉ names → k.file .objects n = k₀.file .objects n
  spent : ∀ d, d ≠ .objects → ∀ n, k.file d n = k₀.file d n
  others : ∀ t', t' ≠ t → k.transactionDir t' = k₀.transactionDir t'

/-- Everything is as it was. The directory of the transaction may be gone if it had no record. -/
structure Restored (k₀ : Disk H) (t : H) (k : Disk H) : Prop where
  files : ∀ d n, k.file d n = k₀.file d n
  others : ∀ t', t' ≠ t → k.transactionDir t' = k₀.transactionDir t'
  own : k.transactionDir t = k₀.transactionDir t ∨
    (k₀.recordFile t = none ∧ k.transactionDir t = none)

/-- Some outputs are written, and nothing else. -/
structure Laid (k₀ : Disk H) (t : H) (outputs : List (ObjectRecord H × String)) (k : Disk H) : Prop where
  touched : Touched k₀ t (outputs.map Prod.snd) k
  written : ∀ n ∈ outputs.map Prod.snd, ∃ record,
    (record, n) ∈ outputs ∧ k.file .objects n = some (.valid record)

section Beside

variable {t : H} {k₁ k : Disk H}

omit [EncodeHex H] in
theorem Disk.Beside.refl (t : H) (k : Disk H) : Disk.Beside t k k := ⟨rfl, fun _ _ => rfl⟩

omit [EncodeHex H] in
theorem Disk.Beside.insert (h : Disk.Beside t k₁ k) (x : TransactionDir H) :
    Disk.Beside t k₁ { k with transactions := k.transactions.insert t x } := by
  refine ⟨h.1, fun t' ht' => ?_⟩
  have hne : (k.transactions.insert t x).lookup t' = k.transactions.lookup t' :=
    AList.lookup_insert_ne ht'
  exact hne.trans (h.2 t' ht')

omit [EncodeHex H] in
theorem Disk.Beside.onTransaction (h : Disk.Beside t k₁ k) (f : TransactionDir H → TransactionDir H) :
    Disk.Beside t k₁ (k.onTransaction t f) := by
  unfold Disk.onTransaction
  split
  · exact h.insert _
  · exact h

omit [EncodeHex H] in
theorem Disk.Beside.createTransaction (h : Disk.Beside t k₁ k) :
    Disk.Beside t k₁ (k.createTransaction t) := by
  unfold Disk.createTransaction
  split
  · exact h
  · exact h.insert _

omit [EncodeHex H] in
theorem Disk.createTransaction_isSome (k : Disk H) (t : H) :
    ∃ x, (k.createTransaction t).transactionDir t = some x := by
  unfold Disk.createTransaction
  split
  · rename_i hsome
    exact Option.isSome_iff_exists.mp hsome
  · exact ⟨⟨none, none, none⟩, by simp [Disk.transactionDir]⟩

omit [EncodeHex H] in
theorem Disk.createTransaction_of_some {x : TransactionDir H} (h : k.transactionDir t = some x) :
    k.createTransaction t = k := by
  simp [Disk.createTransaction, h]

end Beside

section Writing

variable {x : Remains H} {t : H} {k₀ : Disk H}

omit [EncodeHex H] in
theorem Touched.beside {names : List String} {k₁ k : Disk H} (h : Touched k₀ t names k₁)
    (hb : Disk.Beside t k₁ k) : Touched k₀ t names k := by
  have hfile : ∀ d n, k.file d n = k₁.file d n := by
    intro d n
    unfold Disk.file
    rw [hb.1]
  exact ⟨fun n hn => (hfile _ n).trans (h.objects n hn), fun d hd n => (hfile d n).trans (h.spent d hd n),
    fun t' ht' => (hb.2 t' ht').trans (h.others t' ht')⟩

omit [EncodeHex H] in
theorem Touched.mono {names names' : List String} {k : Disk H} (h : Touched k₀ t names k)
    (hsub : names ⊆ names') : Touched k₀ t names' k :=
  ⟨fun n hn => h.objects n fun hmem => hn (hsub hmem), h.spent, h.others⟩

omit [EncodeHex H] in
/-- A write to a name that was free, whole or not. -/
theorem Touched.write {names : List String} {k : Disk H} (h : Touched k₀ t names k) (name : String)
    (c : Contents (ObjectRecord H)) : Touched k₀ t (names ++ [name]) (k.writeFile .objects name c) := by
  refine ⟨fun n hn => ?_, fun d hd n => ?_, h.others⟩
  · simp only [List.mem_append, List.mem_singleton, not_or] at hn
    rw [Disk.file_writeFile, if_neg (by simp [hn.2])]
    exact h.objects n hn.1
  · rw [Disk.file_writeFile, if_neg (by simp [hd])]
    exact h.spent d hd n

omit [EncodeHex H] in
/-- Nothing is lost with the stale file of a name that was free. -/
theorem Touched.remove_stale {names : List String} {k : Disk H} (h : Touched k₀ t names k)
    {name : String} (hfree : k₀.Free name) : Touched k₀ t names (k.removeFile .nullified name) := by
  refine ⟨fun n hn => ?_, fun d hd n => ?_, h.others⟩
  · rw [Disk.file_removeFile, if_neg (by simp)]
    exact h.objects n hn
  · rw [Disk.file_removeFile]
    split
    · rename_i hsame
      rw [hsame.1, hsame.2]
      exact hfree.2.symm
    · exact h.spent d hd n

omit [EncodeHex H] in
theorem Laid.write {outputs : List (ObjectRecord H × String)} {k : Disk H} (h : Laid k₀ t outputs k)
    (record : ObjectRecord H) (name : String) :
    Laid k₀ t (outputs ++ [(record, name)]) (k.writeFile .objects name (.valid record)) := by
  refine ⟨by simpa using h.touched.write name _, fun n hn => ?_⟩
  by_cases hname : n = name
  · subst hname
    exact ⟨record, by simp, by simp [Disk.file_writeFile]⟩
  · have hmem : n ∈ outputs.map Prod.snd := by simpa [hname] using hn
    obtain ⟨record', hin, hfile⟩ := h.written n hmem
    refine ⟨record', by simp [hin], ?_⟩
    rw [Disk.file_writeFile, if_neg (by simp [hname])]
    exact hfile

omit [EncodeHex H] in
theorem Laid.remove_stale {outputs : List (ObjectRecord H × String)} {k : Disk H}
    (h : Laid k₀ t outputs k) {name : String} (hfree : k₀.Free name) :
    Laid k₀ t outputs (k.removeFile .nullified name) := by
  refine ⟨h.touched.remove_stale hfree, fun n hn => ?_⟩
  obtain ⟨record, hin, hfile⟩ := h.written n hn
  refine ⟨record, hin, ?_⟩
  rw [Disk.file_removeFile, if_neg (by simp)]
  exact hfile

omit [EncodeHex H] in
theorem writeObjectFile_spec (outputs : List (ObjectRecord H × String)) {record : ObjectRecord H}
    {name : String} (hlive : record.isNullified = false) (hfree : k₀.Free name) :
    Routine.Triple (device x) (Faults t) (Laid k₀ t outputs) (writeObjectFile record name)
      (fun _ => Laid k₀ t (outputs ++ [(record, name)]))
      (Touched k₀ t (outputs.map Prod.snd ++ [name])) := by
  unfold writeObjectFile
  have htarget : targetDir record = .objects := by simp [targetDir, hlive]
  have hstale : staleDir record = .nullified := by simp [staleDir, hlive]
  rw [htarget, hstale]
  have hgrow : ∀ k, Laid k₀ t outputs k → Touched k₀ t (outputs.map Prod.snd ++ [name]) k :=
    fun k hk => hk.touched.mono (by simp)
  have hdirs : Routine.Triple (device x) (Faults t) (Laid k₀ t outputs) (ensureStoreDirs : Job H Unit)
      (fun _ => Laid k₀ t outputs) (Touched k₀ t (outputs.map Prod.snd ++ [name])) := by
    intro k hk
    refine Routine.Sat.mono (keeps_ensureStoreDirs k rfl) fun o k' ho => ?_
    cases o with
    | returned a =>
      have hk' : k' = k := ho
      subst hk'
      exact hk
    | failed | crashed =>
      have hk' : k' = k := ho
      subst hk'
      exact hgrow _ hk
  refine Routine.Triple.bind hdirs fun _ => ?_
  refine Routine.Triple.bind (Q := fun _ => Laid k₀ t (outputs ++ [(record, name)])) ?_ fun _ => ?_
  · refine Routine.Triple.perform (fun k hk _ => hk.write record name) hgrow fun k hk _ => ?_
    exact hk.touched.write name _
  · refine Routine.Triple.tryPerform (fun k hk _ => hk.remove_stale hfree) (fun k hk _ => hk)
      (fun k hk _ => hk) (fun _ _ hg => hg.elim) (fun _ _ hg => hg.elim)

/-- Names that may be taken back. -/
def Retractable (k₀ : Disk H) (t : H) (attempted : List String) (k : Disk H) : Prop :=
  (∀ n ∈ attempted, k₀.Free n) ∧ Touched k₀ t attempted k

omit [EncodeHex H] in
theorem writeOutputs_spec {R : Disk H → Prop} (outputs : List (ObjectRecord H × String))
    {rest : List (ObjectRecord H × String)}
    (hlive : ∀ o ∈ rest, o.1.isNullified = false) (hfree : ∀ o ∈ outputs ++ rest, k₀.Free o.2) :
    Routine.Triple (device x) (Faults t) (Laid k₀ t outputs) (writeOutputs (outputs.map Prod.snd) rest)
      (fun o k => match o with
        | (attempted, none) => attempted = (outputs ++ rest).map Prod.snd ∧ Laid k₀ t (outputs ++ rest) k
        | (attempted, some _) => Retractable k₀ t attempted k) R := by
  induction rest generalizing outputs with
  | nil => exact Routine.Triple.ret fun k hk => ⟨by simp, by simpa using hk⟩
  | cons o rest ih =>
    obtain ⟨record, name⟩ := o
    have hname : k₀.Free name := hfree (record, name) (by simp)
    have hthis : record.isNullified = false := hlive (record, name) (by simp)
    refine Routine.Triple.bind (Routine.Triple.attempt_caught (faults_no_crash t)
      (writeObjectFile_spec outputs hthis hname)) fun o => ?_
    cases o with
    | error e =>
      refine Routine.Triple.ret fun k hk => ⟨fun n hn => ?_, hk⟩
      simp only [List.mem_append, List.mem_map, List.mem_singleton] at hn
      rcases hn with ⟨o, ho, rfl⟩ | rfl
      · exact hfree o (by simp [ho])
      · exact hname
    | ok u =>
      have hrest := ih (outputs ++ [(record, name)])
        (fun o ho => hlive o (by simp [ho])) (fun o ho => hfree o (by simpa using ho))
      simpa using hrest

/-- `rest` is still to be removed. -/
structure Retracting (k₀ : Disk H) (t : H) (attempted rest : List String) (k : Disk H) : Prop where
  touched : Touched k₀ t attempted k
  left : rest ⊆ attempted
  gone : ∀ n ∈ attempted, n ∈ rest ∨ k.file .objects n = none

omit [EncodeHex H] in
theorem Retracting.remove {attempted rest : List String} {name : String} {k : Disk H}
    (h : Retracting k₀ t attempted (name :: rest) k) :
    Retracting k₀ t attempted rest (k.removeFile .objects name) := by
  have hname : name ∈ attempted := h.left (by simp)
  refine ⟨⟨fun n hn => ?_, fun d hd n => ?_, h.touched.others⟩,
    fun n hn => h.left (List.mem_cons_of_mem name hn), fun n hn => ?_⟩
  · have hne : n ≠ name := by
      rintro rfl
      exact hn hname
    rw [Disk.file_removeFile, if_neg (by simp [hne])]
    exact h.touched.objects n hn
  · rw [Disk.file_removeFile, if_neg (by simp [hd])]
    exact h.touched.spent d hd n
  · rw [Disk.file_removeFile]
    by_cases hne : n = name
    · exact .inr (by simp [hne])
    · rw [if_neg (by simp [hne])]
      simpa [hne] using h.gone n hn

omit [EncodeHex H] in
theorem Retracting.restored {attempted : List String} {k : Disk H} (h : Retracting k₀ t attempted [] k)
    (hfree : ∀ n ∈ attempted, k₀.Free n) (hfresh : k₀.recordFile t = none) :
    Restored k₀ t (k.removeTransaction t) := by
  have hgone : (k.removeTransaction t).transactionDir t = none := by
    simp [Disk.transactionDir, Disk.removeTransaction]
  refine ⟨fun d n => ?_, fun t' ht' => ?_, .inr ⟨hfresh, hgone⟩⟩
  · show k.file d n = k₀.file d n
    by_cases hd : d = .objects
    · subst hd
      by_cases hn : n ∈ attempted
      · have hnone : k.file .objects n = none := by simpa using h.gone n hn
        rw [hnone, (hfree n hn).1]
      · exact h.touched.objects n hn
    · exact h.touched.spent d hd n
  · have hkept : (k.removeTransaction t).transactionDir t' = k.transactionDir t' :=
      AList.lookup_erase_ne ht'
    exact hkept.trans (h.touched.others t' ht')

omit [EncodeHex H] in
/-- The rollback, none of whose operations fails. -/
theorem rollback_spec {attempted : List String} {e : DriverError} (hfresh : k₀.recordFile t = none) :
    Routine.Triple (device x) (Faults t) (Retractable k₀ t attempted) (rollback t attempted e)
      (fun _ _ => False) (Restored k₀ t) := by
  refine Routine.Triple.of_pre fun hfree => ?_
  have hloop : Routine.Triple (device x) (Faults t) (Retracting k₀ t attempted attempted)
      (Routine.forList (fun name => Routine.tryPerform (.removeObject .objects name)) attempted : Job H Unit)
      (fun _ => Retracting k₀ t attempted []) (Restored k₀ t) := by
    refine Routine.Triple.forList_rest fun name rest => ?_
    exact Routine.Triple.tryPerform (fun k hk _ => hk.remove) (fun _ _ hg => by cases hg.1)
      (fun _ _ hg => by cases hg.1) (fun _ _ hg => hg.elim) (fun _ _ hg => hg.elim)
  have hstart : ∀ k, Touched k₀ t attempted k → Retracting k₀ t attempted attempted k :=
    fun k hk => ⟨hk, List.Subset.refl _, fun n hn => .inl hn⟩
  unfold rollback
  refine Routine.Triple.bind (hloop.imp hstart (fun _ _ hk => hk) (fun _ hk => hk)) fun _ => ?_
  refine Routine.Triple.bind (Q := fun _ => Restored k₀ t) ?_ fun _ => Routine.Triple.throw fun k hk => hk
  exact Routine.Triple.tryPerform (fun k hk _ => hk.restored hfree hfresh) (fun _ _ hg => by cases hg.1)
    (fun _ _ hg => by cases hg.1) (fun _ _ hg => hg.elim) (fun _ _ hg => hg.elim)

omit [EncodeHex H] in
theorem writePayload_spec {k₁ : Disk H} {payload : List UInt8} :
    Routine.Triple (device x) (Faults t) (fun k => k = k₁) (writePayload t payload)
      (fun _ k => Disk.Beside t k₁ k ∧
        ∃ dir, k.transactionDir t = some dir ∧ dir.payload = some payload) (Disk.Beside t k₁) := by
  have hbeside : ∀ k, k = k₁ → Disk.Beside t k₁ k := by
    rintro k rfl
    exact .refl t k
  unfold writePayload
  refine Routine.Triple.bind (Q := fun _ k => Disk.Beside t k₁ k ∧ ∃ dir, k.transactionDir t = some dir)
    ?_ fun _ => ?_
  · exact Routine.Triple.perform
      (fun k hk _ => ⟨(hbeside k hk).createTransaction, k.createTransaction_isSome t⟩) hbeside
      (fun k hk _ => hbeside k hk)
  · refine Routine.Triple.perform (fun k hk _ => ?_) (fun k hk => hk.1)
      (fun k hk _ => hk.1.onTransaction _)
    obtain ⟨hb, dir, hdir⟩ := hk
    exact ⟨hb.onTransaction _, _, Disk.onTransaction_some hdir _, rfl⟩

omit [EncodeHex H] in
/-- The record is there once the temporary file is renamed. -/
theorem writeRecord_spec {k₁ : Disk H} {r : TransactionRecord H} {payload : List UInt8}
    (ht : r.txFinal = t) :
    Routine.Triple (device x) (Faults t)
      (fun k => Disk.Beside t k₁ k ∧ ∃ dir, k.transactionDir t = some dir ∧ dir.payload = some payload)
      (writeRecord r)
      (fun _ k => Disk.Beside t k₁ k ∧
        k.transactionDir t = some ⟨some payload, some (.valid r), none⟩)
      (Disk.Beside t k₁) := by
  subst ht
  unfold writeRecord
  refine Routine.Triple.bind (Q := fun _ k => Disk.Beside r.txFinal k₁ k ∧
    ∃ dir, k.transactionDir r.txFinal = some dir ∧ dir.payload = some payload) ?_ fun _ => ?_
  · refine Routine.Triple.perform (fun k hk _ => ?_) (fun k hk => hk.1) (fun k hk _ => hk.1)
    obtain ⟨hb, dir, hdir, hpayload⟩ := hk
    have hsame : (device x).done (.createDirAll (.transaction r.txFinal)) k = k :=
      Disk.createTransaction_of_some hdir
    rw [hsame]
    exact ⟨hb, dir, hdir, hpayload⟩
  refine Routine.Triple.bind (Q := fun _ k => Disk.Beside r.txFinal k₁ k ∧
    ∃ dir, k.transactionDir r.txFinal = some dir ∧ dir.payload = some payload ∧
      dir.temporary = some (.valid r)) ?_ fun _ => ?_
  · refine Routine.Triple.perform (fun k hk _ => ?_) (fun k hk => hk.1)
      (fun k hk _ => hk.1.onTransaction _)
    obtain ⟨hb, dir, hdir, hpayload⟩ := hk
    exact ⟨hb.onTransaction _, _, Disk.onTransaction_some hdir _, hpayload, rfl⟩
  · refine Routine.Triple.perform (fun k hk _ => ?_) (fun k hk => hk.1) (fun k hk _ => hk.1)
    obtain ⟨hb, dir, hdir, hpayload, htemporary⟩ := hk
    refine ⟨hb.onTransaction _, ?_⟩
    show (k.onTransaction r.txFinal _).transactionDir r.txFinal = _
    rw [Disk.onTransaction_some hdir, hpayload, htemporary]

end Writing

/-! ## All or nothing -/

/-- The outputs, the payload and the record are added, under names that were free, and nothing
else is changed. -/
structure Recorded (k₀ : Disk H) (proved : ProvedTransaction H) (payload : List UInt8)
    (r : TransactionRecord H) (k : Disk H) : Prop where
  fresh : k₀.recordFile proved.txFinal = none
  count : r.outputFiles.length = proved.outputs.length
  free : ∀ n ∈ r.outputFiles, k₀.Free n
  outputs : ∀ n ∈ r.outputFiles, ∃ output, (output, n) ∈ proved.outputs.zip r.outputFiles ∧
    k.file .objects n = some (.valid (unknownOutput proved output))
  touched : Touched k₀ proved.txFinal r.outputFiles k
  own : k.transactionDir proved.txFinal = some ⟨some payload, some (.valid r), none⟩

section Recorded

variable {x : Remains H} {k₀ : Disk H}

omit [EncodeHex H] in
theorem Restored.refl (k : Disk H) (t : H) : Restored k t k := ⟨fun _ _ => rfl, fun _ _ => rfl, .inl rfl⟩

omit [EncodeHex H] in
theorem Laid.nil (k : Disk H) (t : H) : Laid k t [] k :=
  ⟨⟨fun _ _ => rfl, fun _ _ _ => rfl, fun _ _ => rfl⟩, by simp⟩

omit [EncodeHex H] [DecidableEq H] in
theorem zip_names {proved : ProvedTransaction H} {names : List String}
    (h : names.length = proved.outputs.length) :
    ((proved.outputs.map (unknownOutput proved)).zip names).map Prod.snd = names := by
  apply List.map_snd_zip
  simp [h]

omit [EncodeHex H] in
theorem Laid.recorded {proved : ProvedTransaction H} {payload : List UInt8} {r : TransactionRecord H}
    {k₁ k : Disk H} (hfresh : k₀.recordFile proved.txFinal = none)
    (hnamed : Named k₀ proved.outputs.length r.outputFiles)
    (hlaid : Laid k₀ proved.txFinal ((proved.outputs.map (unknownOutput proved)).zip r.outputFiles) k₁)
    (hb : Disk.Beside proved.txFinal k₁ k)
    (hown : k.transactionDir proved.txFinal = some ⟨some payload, some (.valid r), none⟩) :
    Recorded k₀ proved payload r k := by
  have hnames := zip_names hnamed.1
  have htouched := hlaid.touched.beside hb
  have hwritten := hlaid.written
  rw [hnames] at htouched hwritten
  refine ⟨hfresh, hnamed.1, hnamed.2, fun n hn => ?_, htouched, hown⟩
  obtain ⟨record, hin, hfile⟩ := hwritten n hn
  rw [List.zip_map_left, List.mem_map] at hin
  obtain ⟨⟨output, n'⟩, hmem, heq⟩ := hin
  have hrecord : unknownOutput proved output = record := congrArg Prod.fst heq
  have hname : n' = n := congrArg Prod.snd heq
  rw [← hrecord] at hfile
  rw [hname] at hmem
  refine ⟨output, hmem, ?_⟩
  have hsame : k.file .objects n = k₁.file .objects n := by
    unfold Disk.file
    rw [hb.1]
  exact hsame.trans hfile

omit [EncodeHex H] in
theorem writeTransaction_spec {proved : ProvedTransaction H} {payload : List UInt8}
    {r : TransactionRecord H} (ht : r.txFinal = proved.txFinal)
    (hfresh : k₀.recordFile proved.txFinal = none)
    (hnamed : Named k₀ proved.outputs.length r.outputFiles) :
    Routine.Triple (device x) (Faults proved.txFinal) (fun k => k = k₀)
      (writeTransaction r payload ((proved.outputs.map (unknownOutput proved)).zip r.outputFiles))
      (fun r' k => r' = r ∧ Recorded k₀ proved payload r k) (Restored k₀ proved.txFinal) := by
  have hlive : ∀ o ∈ (proved.outputs.map (unknownOutput proved)).zip r.outputFiles,
      o.1.isNullified = false := by
    intro o ho
    obtain ⟨output, -, hout⟩ := List.mem_map.mp (List.of_mem_zip ho).1
    rw [← hout]
    rfl
  have hfree : ∀ o ∈ [] ++ (proved.outputs.map (unknownOutput proved)).zip r.outputFiles,
      k₀.Free o.2 := by
    intro o ho
    exact hnamed.2 _ (List.of_mem_zip ho).2
  unfold writeTransaction
  rw [ht]
  have hstart : ∀ k, k = k₀ → Laid k₀ proved.txFinal [] k := by
    rintro k rfl
    exact .nil k proved.txFinal
  refine Routine.Triple.bind ((writeOutputs_spec [] hlive hfree).imp hstart (fun _ _ hk => hk)
    (fun _ hk => hk)) fun o => ?_
  obtain ⟨attempted, error⟩ := o
  cases error with
  | some e => exact (rollback_spec hfresh).imp (fun _ hk => hk) (fun _ _ hk => hk.elim) (fun _ hk => hk)
  | none =>
    refine Routine.Triple.of_pre fun hattempted => ?_
    have hretract : ∀ n ∈ attempted, k₀.Free n := by
      intro n hn
      rw [hattempted, List.nil_append, zip_names hnamed.1] at hn
      exact hnamed.2 n hn
    intro k₁ hlaid
    refine Routine.Triple.bind (Routine.Triple.attempt_caught (faults_no_crash _)
      (Routine.Triple.bind writePayload_spec fun _ => writeRecord_spec ht)) (fun o => ?_) k₁ rfl
    cases o with
    | ok u => exact Routine.Triple.ret fun k hk => ⟨rfl, hlaid.recorded hfresh hnamed hk.1 hk.2⟩
    | error e =>
      refine (rollback_spec hfresh).imp (fun k hk => ⟨hretract, ?_⟩) (fun _ _ hk => hk.elim)
        (fun _ hk => hk)
      rw [hattempted]
      exact hlaid.touched.beside hk

/-- The body of `record`, from the lock to its release. -/
theorem record_spec (proved : ProvedTransaction H) (payload : List UInt8) (owner : String)
    (inputs : List String) (now : Nat) :
    Routine.Triple (device x) (Faults proved.txFinal) (fun k => k = k₀)
      (record proved payload owner inputs now)
      (fun r k => (∃ outputFiles pendingNames,
          r = .ofProved proved owner inputs outputFiles pendingNames now) ∧
        Recorded k₀ proved payload r k) (Restored k₀ proved.txFinal) := by
  have hkept : ∀ k, k = k₀ → Restored k₀ proved.txFinal k := by
    rintro k rfl
    exact .refl k _
  unfold record
  refine Routine.Triple.bind (Q := fun outputFiles k =>
    outputFiles.length = proved.outputs.length ∧ k = k₀)
    (Routine.Triple.lift (fun names k hnames hk => ⟨mapM_length hnames, hk⟩) hkept) fun outputFiles =>
    Routine.Triple.of_pre fun hcount => ?_
  refine Routine.Triple.bind (keeps_loadObjectFiles.imp (fun _ hk => hk) (fun _ _ hk => hk) hkept)
    fun entries => ?_
  refine Routine.Triple.bind (keeps_loadRecords.imp (fun _ hk => hk) (fun _ _ hk => hk) hkept)
    fun records => ?_
  refine Routine.Triple.bind (Q := fun _ k => k = k₀)
    (Routine.Triple.lift (fun _ _ _ hk => hk) hkept) fun _ => ?_
  refine Routine.Triple.bind (readRecord_spec.imp (fun _ hk => hk) (fun _ _ hk => hk) hkept) fun o =>
    Routine.Triple.of_pre fun hfresh => ?_
  cases o with
  | some r => exact Routine.Triple.throw hkept
  | none =>
    refine Routine.Triple.bind ((checkOutputs_spec outputFiles).imp (fun _ hk => hk) (fun _ _ hk => hk)
      hkept) fun _ => Routine.Triple.of_pre fun hfree => ?_
    refine Routine.Triple.bind ((Routine.Triple.foldList
      (I := fun acc k => Named k₀ proved.outputs.length acc.1 ∧ k = k₀)
      fun acc slots _ => pendingOutput_spec acc slots).imp (fun k hk => ⟨⟨hcount, hfree⟩, hk⟩)
      (fun _ _ hk => hk) hkept) fun acc => Routine.Triple.of_pre fun hnamed => ?_
    obtain ⟨outputFiles, pendingNames⟩ := acc
    refine (writeTransaction_spec rfl (hfresh rfl) hnamed).imp (fun _ hk => hk)
      (fun r k hk => ?_) (fun _ hk => hk)
    obtain ⟨rfl, hrecorded⟩ := hk
    exact ⟨⟨outputFiles, pendingNames, rfl⟩, hrecorded⟩

end Recorded

omit [DecidableEq H] [EncodeHex H] in
theorem not_mem_dropHolds (files : List String) (owners : AList fun _ : String => String) :
    ∀ f ∈ files, f ∉ dropHolds files owners := by
  unfold dropHolds
  induction files generalizing owners with
  | nil => simp
  | cons file files ih =>
    intro f hf
    rcases List.mem_cons.mp hf with rfl | hf
    · have hgone : ∀ (files : List String) (owners : AList fun _ : String => String),
          f ∉ owners → f ∉ files.foldl (fun owners f => owners.erase f) owners := by
        intro files
        induction files with
        | nil => exact fun owners h => h
        | cons file files ih => exact fun owners h => ih _ (by simp [h])
      exact hgone files _ (by simp)
    · exact ih _ f hf

omit [EncodeHex H] in
theorem Recorded.locked {k₀ k : Disk H} {proved : ProvedTransaction H} {payload : List UInt8}
    {r : TransactionRecord H} (h : Recorded k₀ proved payload r k) (hopen : r.isOpen = true) :
    ∀ f ∈ r.inputFiles, f ∈ lockedInputs k.records := by
  intro f hf
  have hmem : (⟨proved.txFinal, ⟨some payload, some (.valid r), none⟩⟩ : Sigma fun _ : H => TransactionDir H)
      ∈ k.transactions.entries := AList.mem_lookup_iff.mp h.own
  have hrecord : r ∈ k.records := List.mem_filterMap.mpr ⟨_, hmem, rfl⟩
  simp only [lockedInputs, List.mem_flatMap, List.mem_filter]
  exact ⟨r, ⟨hrecord, hopen⟩, hf⟩

/-- A call under single operations that fail ends with everything recorded and the inputs locked,
or with nothing. The holds are there at every moment inside the call and are gone after it. -/
theorem record_all_or_nothing (x : Remains H) (w : Session H) (proved : ProvedTransaction H)
    (payload : List UInt8) (owner : String) (inputs : List String) (now : Nat) (answers : List Answer) :
    ((record proved payload owner inputs now).Follows (device x) (Faults proved.txFinal) w.disk answers →
      match callRecord x w proved payload owner inputs now answers with
      | (.failed _, w') => Restored w.disk proved.txFinal w'.disk ∧ ∀ f ∈ inputs, f ∉ w'.owners
      | (.returned r, w') =>
        (∃ outputFiles pendingNames, r = .ofProved proved owner inputs outputFiles pendingNames now) ∧
        Recorded w.disk proved payload r w'.disk ∧ (∀ f ∈ inputs, f ∈ lockedInputs w'.disk.records) ∧
        ∀ f ∈ inputs, f ∉ w'.owners
      | (.crashed, _) => False) ∧
    ((callRecord x w proved payload owner inputs now answers).1 = .crashed →
      (callRecord x w proved payload owner inputs now answers).2.owners = w.owners) := by
  constructor
  · intro hfollows
    have hend := (((record_spec proved payload owner inputs now) w.disk rfl).and
      (Routine.Sat.not_crashed (faults_no_crash proved.txFinal) _ w.disk)).exec hfollows
    obtain ⟨hend, halive⟩ := hend
    unfold callRecord
    dsimp only
    cases ho : ((record proved payload owner inputs now).exec (device x) w.disk answers).1 with
    | crashed => exact halive ho
    | failed e =>
      rw [ho] at hend
      exact ⟨hend, not_mem_dropHolds inputs w.owners⟩
    | returned r =>
      rw [ho] at hend
      obtain ⟨⟨outputFiles, pendingNames, hr⟩, hrecorded⟩ := hend
      refine ⟨⟨outputFiles, pendingNames, hr⟩, hrecorded, ?_, not_mem_dropHolds inputs w.owners⟩
      have hlocked := hrecorded.locked (by rw [hr]; rfl)
      rw [hr] at hlocked
      exact hlocked
  · intro hcrashed
    unfold callRecord at hcrashed ⊢
    dsimp only at hcrashed ⊢
    cases ho : ((record proved payload owner inputs now).exec (device x) w.disk answers).1 with
    | crashed => rfl
    | failed e => simp [ho] at hcrashed
    | returned r => simp [ho] at hcrashed

namespace Sample

open Objects.Sample

/-- Half a write leaves nothing that parses. -/
def remains : Remains Nat := ⟨fun _ => .garbage [], fun _ => [], fun _ => .garbage []⟩

/-- A sword under a name of its own, held by a proof. -/
def session : Session Nat :=
  ⟨Disk.empty.writeFile .objects "a.dobj" (.valid (file 1)),
    (∅ : AList fun _ : String => String).insert "a.dobj" "run"⟩

/-- A sword is sharpened. -/
def sharpen : ProvedTransaction Nat :=
  ⟨7, ⟨"game", "Sharpen"⟩, 5, [(cls, obj 2)], [101], [⟨0, 0⟩]⟩

/-- A sword is melted: nothing comes of it. -/
def melt : ProvedTransaction Nat := ⟨8, ⟨"game", "Melt"⟩, 5, [], [101], []⟩

def call (w : Session Nat) (proved : ProvedTransaction Nat) (payload : List UInt8)
    (answers : List Answer) : End DriverError (TransactionRecord Nat) × Session Nat :=
  callRecord remains w proved payload "run" ["a.dobj"] 1 answers

/-- A call that was cut off between the payload and the record. -/
def interrupted : Session Nat :=
  ⟨(call session melt [1] (List.replicate 18 .done ++ [.crashed])).2.disk, session.owners⟩

end Sample

/-- The write of the record stops half way; the new sword and the payload are taken back. -/
theorem record_all_or_nothing_torn :
    (Sample.call Sample.session Sample.sharpen [1] (List.replicate 28 .done ++ [.torn])).1 =
      .failed (.io "record.json.tmp") ∧
    match Sample.call Sample.session Sample.sharpen [1] (List.replicate 28 .done ++ [.torn]) with
    | (.failed _, w') => Restored Sample.session.disk 7 w'.disk ∧ ∀ f ∈ ["a.dobj"], f ∉ w'.owners
    | (.returned r, w') =>
      (∃ outputFiles pendingNames,
        r = .ofProved Sample.sharpen "run" ["a.dobj"] outputFiles pendingNames 1) ∧
      Recorded Sample.session.disk Sample.sharpen [1] r w'.disk ∧
      (∀ f ∈ ["a.dobj"], f ∈ lockedInputs w'.disk.records) ∧ ∀ f ∈ ["a.dobj"], f ∉ w'.owners
    | (.crashed, _) => False :=
  ⟨by decide +kernel, (record_all_or_nothing Sample.remains Sample.session Sample.sharpen [1] "run"
    ["a.dobj"] 1 (List.replicate 28 .done ++ [.torn])).1 (by decide +kernel)⟩

/-- A payload without a record is lost with the call that fails, and replaced by the one that
does not. -/
theorem interrupted_payload_lost :
    Sample.interrupted.disk.payloadFile 8 = some [1] ∧
    (Sample.call Sample.interrupted Sample.melt [2] (List.replicate 20 .done ++ [.failed])).1 =
      .failed (.io "record.json") ∧
    (Sample.call Sample.interrupted Sample.melt [2]
      (List.replicate 20 .done ++ [.failed])).2.disk.payloadFile 8 = none ∧
    (Sample.call Sample.interrupted Sample.melt [2] []).1 =
      .returned (.ofProved Sample.melt "run" ["a.dobj"] [] [] 1) ∧
    (Sample.call Sample.interrupted Sample.melt [2] []).2.disk.payloadFile 8 = some [2] := by
  decide +kernel

end DigitalObjects.Driver.Objects.Recording
