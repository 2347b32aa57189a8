import DigitalObjects.Lib.Routine
import DigitalObjects.Driver.Pipeline
import Mathlib.Data.List.AList
import Mathlib.Data.List.Sort
set_option autoImplicit false

/-!
The object store of the driver: `.dobj` files in the live and the nullified directory, and the
transaction records beside them. Every file operation is one operation of a device, which may
fail or be the last one before a crash; `fs::write` may also stop once it has truncated.
-/

namespace DigitalObjects.Driver.Objects

open Txlib Lib

/-! ## File names -/

/-- `Hash::encode_hex`. -/
class EncodeHex (H : Type) where
  encodeHex : H → String

structure QualifiedName where
  pluginName : String
  name : String
deriving DecidableEq, Repr

def safeLower (c : Char) : Char :=
  let lower := c.toLower
  if lower.isAlphanum || lower = '-' || lower = '_' then lower else '_'

def QualifiedName.filePrefix (q : QualifiedName) : String :=
  String.ofList (q.pluginName.toList.map safeLower) ++ "__" ++
    String.ofList (q.name.toList.map safeLower)

/-- A dictionary as far as the driver reads it. `object_nullifier_hash` fails without a key. -/
structure Object (H : Type) where
  type : Option H
  stableIdentifier : Option H
  commitment : H
  nullifier : Option H
deriving DecidableEq, Repr

section

variable {H : Type} [DecidableEq H] [EncodeHex H]

def hashHexPrefix (hash : H) (numBytes : Nat) : String :=
  String.ofList ((EncodeHex.encodeHex hash).toList.take (numBytes * 2))

def dobjExtension : String := ".dobj"

def objectFileName (cls : QualifiedName) (obj : Object H) : Option String :=
  obj.stableIdentifier.map fun stable =>
    cls.filePrefix ++ "_" ++ hashHexPrefix stable 8 ++ "_" ++ hashHexPrefix obj.commitment 8 ++
      dobjExtension

def stripSuffix (suffix s : String) : Option String :=
  if suffix.toList.isSuffixOf s.toList then
    some (String.ofList (s.toList.take (s.toList.length - suffix.toList.length)))
  else none

def isHashPrefix (part : List Char) : Bool :=
  part.length = 16 && part.all fun c => c.isDigit || ('a' ≤ c && c ≤ 'f')

/-- The part after the last `_`, and what is before it. -/
def splitLast (cs : List Char) : List Char × Option (List Char) :=
  let part := (cs.reverse.takeWhile (· ≠ '_')).reverse
  (part, if part.length < cs.length then some (cs.take (cs.length - part.length - 1)) else none)

/-- `<prefix>_<16 hex>_<16 hex>.dobj`. -/
def hasGeneratedShape (fileName : String) : Bool :=
  match stripSuffix dobjExtension fileName with
  | none => false
  | some stem =>
    let (commitment, rest) := splitLast stem.toList
    match rest.map splitLast with
    | some (stableIdentifier, some beginning) =>
      !beginning.isEmpty && isHashPrefix commitment && isHashPrefix stableIdentifier
    | _ => false

def maxCustomFileNameBytes : Nat := 200

def fileNameForbiddenChars : List Char := ['/', '\\', '<', '>', ':', '"', '|', '?', '*']

def windowsDeviceNames : List String :=
  ["CON", "PRN", "AUX", "NUL", "COM1", "COM2", "COM3", "COM4", "COM5", "COM6", "COM7", "COM8",
    "COM9", "LPT1", "LPT2", "LPT3", "LPT4", "LPT5", "LPT6", "LPT7", "LPT8", "LPT9"]

def isControl (c : Char) : Bool := c.toNat < 0x20 || (0x7f ≤ c.toNat && c.toNat ≤ 0x9f)

/-- The characters of Unicode's `White_Space`. -/
def isWhitespace (c : Char) : Bool :=
  (0x09 ≤ c.toNat && c.toNat ≤ 0x0d) || c.toNat ∈ [0x20, 0x85, 0xa0, 0x1680, 0x2028, 0x2029,
    0x202f, 0x205f, 0x3000] || (0x2000 ≤ c.toNat && c.toNat ≤ 0x200a)

def eqIgnoreAsciiCase (a b : String) : Bool := a.toList.map Char.toLower = b.toList.map Char.toLower

inductive DriverError where
  | conflict (text : String)
  | objectFileNotFound (name : String)
  | transactionNotFound
  | invalidInput (text : String)
  | unreadable (name : String)
  | invalidPlacement (name : String)
  | duplicateName (name : String)
  | missingField (name : String)
  | io (name : String)
deriving DecidableEq, Repr

/-- `requested` as a file name for an object whose generated name is `generated`. -/
def customFileName (requested generated : String) : Except DriverError String :=
  if requested.toList.all isWhitespace then .error (.invalidInput "file name is empty")
  else if requested.toList.any fun c => isControl c || c ∈ fileNameForbiddenChars then
    .error (.invalidInput "file name contains a forbidden character")
  else if requested.toList.head? = some '.' then
    .error (.invalidInput "file name starts with '.'")
  else
    let deviceName := String.ofList
      ((requested.toList.takeWhile (· ≠ '.')).reverse.dropWhile isWhitespace).reverse
    if windowsDeviceNames.any fun reserved => eqIgnoreAsciiCase reserved deviceName then
      .error (.invalidInput "file name is reserved on Windows")
    else
      let fileName :=
        if dobjExtension.toList.isSuffixOf requested.toList then requested
        else requested ++ dobjExtension
      if maxCustomFileNameBytes < fileName.utf8ByteSize then
        .error (.invalidInput "file name is longer than 200 bytes")
      else if fileName ≠ generated ∧ hasGeneratedShape fileName then
        .error (.invalidInput "file name has the form of a generated object name")
      else .ok fileName

def stemOf (fileName : String) : String := (stripSuffix dobjExtension fileName).getD fileName

/-- `<stem> 2.dobj`, `<stem> 3.dobj`, and so on. -/
def numberedFileName (fileName : String) (number : Nat) : String :=
  stemOf fileName ++ " " ++ toString number ++ dobjExtension

/-- The first name that is not taken; `bound` numbers are tried. -/
def uniqueFileName (bound : Nat) (fileName : String) (isTaken : String → Bool) :
    Except DriverError String :=
  if isTaken fileName then
    match ((List.range bound).map fun i => numberedFileName fileName (i + 2)).find?
        fun candidate => !isTaken candidate with
    | some candidate => .ok candidate
    | none => .error (.io fileName)
  else .ok fileName

theorem uniqueFileName_free {bound : Nat} {fileName name : String} {isTaken : String → Bool}
    (h : uniqueFileName bound fileName isTaken = .ok name) : isTaken name = false := by
  unfold uniqueFileName at h
  split at h
  · split at h
    · rename_i candidate hfind
      cases h
      simpa using List.find?_some hfind
    · cases h
  · rename_i hfree
    cases h
    simpa using hfree

def importedFileName (bound : Nat) (requested generated : String) (isTaken : String → Bool) :
    Except DriverError String :=
  match customFileName requested generated with
  | .error e => .error e
  | .ok fileName =>
    if fileName = generated then .ok fileName else uniqueFileName bound fileName isTaken

def pendingFileName (bound : Nat) (finalName : String) (isTaken : String → Bool) :
    Except DriverError String :=
  uniqueFileName bound (stemOf finalName ++ "-pending" ++ dobjExtension) isTaken

/-! ## Object files -/

inductive FileStatus where
  | unknown
  | live
  | nullified
deriving DecidableEq, Repr

/-- Files only move forward. -/
def FileStatus.rank : FileStatus → Nat
  | .unknown => 0
  | .live => 1
  | .nullified => 2

structure CreationProof (H : Type) where
  blockNumber : Int
  index : Nat
  proof : List H
deriving DecidableEq, Repr

/-- A `.dobj` file: what the driver knows about the object, then the object. -/
structure ObjectRecord (H : Type) where
  cls : QualifiedName
  contentHash : H
  status : FileStatus
  txFinal : H
  txHash : Option String
  creationProof : Option (CreationProof H)
  obj : Object H
deriving DecidableEq, Repr

def ObjectRecord.isNullified (record : ObjectRecord H) : Bool := record.status = .nullified

/-- The generated name of the object, or else the name it has. -/
def ObjectRecord.spentName (record : ObjectRecord H) (fileName : String) : String :=
  (objectFileName record.cls record.obj).getD fileName

def hasCustomFileName (fileName : String) (record : ObjectRecord H) : Bool :=
  match objectFileName record.cls record.obj with
  | some generated => generated ≠ fileName
  | none => false

structure PendingName where
  fileName : String
  finalName : String
deriving DecidableEq, Repr

structure TransactionRecord (H : Type) where
  txFinal : H
  action : QualifiedName
  owner : String
  inputFiles : List String
  outputFiles : List String
  groundingBlock : Int
  nullifiers : List H
  state : TransactionState
  relayerJobId : Option String
  txHash : Option String
  relayerFailure : Option String
  reason : Option String
  recordedAtMs : Nat
  submitAttemptedAtMs : Option Nat
  submittedAtMs : Option Nat
  settledAtMs : Option Nat
  pendingNames : List PendingName
deriving DecidableEq, Repr

namespace TransactionRecord

def isOpen (r : TransactionRecord H) : Bool := !r.state.isTerminal

def needsTxStatus (r : TransactionRecord H) : Bool :=
  r.isOpen && (r.submitAttemptedAtMs.isSome || r.state = .submitted)

/-- The nullifier of the object is one of the record's. -/
def spends (r : TransactionRecord H) (obj : Object H) : Bool :=
  match obj.nullifier with
  | some nullifier => nullifier ∈ r.nullifiers
  | none => false

end TransactionRecord

/-- Inputs unavailable for spending until their open transactions settle. -/
def lockedInputs (records : List (TransactionRecord H)) : List String :=
  (records.filter TransactionRecord.isOpen).flatMap TransactionRecord.inputFiles

inductive Place where
  | live
  | nullified
deriving DecidableEq, Repr

def Place.other : Place → Place
  | .live => .nullified
  | .nullified => .live

/-- The directory that a record belongs in. -/
def ObjectRecord.place (record : ObjectRecord H) : Place :=
  if record.isNullified then .nullified else .live

/-- Files by name; one that does not parse holds no record. -/
abbrev Dir (H : Type) := AList fun _ : String => Option (ObjectRecord H)

structure Store (H : Type) where
  live : Dir H
  nullified : Dir H
  discarded : Dir H
  records : List (TransactionRecord H)

namespace Store

def empty : Store H := ⟨∅, ∅, ∅, []⟩

def dir (s : Store H) : Place → Dir H
  | .live => s.live
  | .nullified => s.nullified

def setDir (s : Store H) (p : Place) (d : Dir H) : Store H :=
  match p with
  | .live => { s with live := d }
  | .nullified => { s with nullified := d }

def file (s : Store H) (p : Place) (name : String) : Option (Option (ObjectRecord H)) :=
  (s.dir p).lookup name

/-- The record in a file that parses. -/
def loaded (s : Store H) (p : Place) (name : String) : Option (ObjectRecord H) := (s.file p name).join

/-- What is under a name: the live file, or else the nullified one. -/
def stored (s : Store H) (name : String) : Option (Option (ObjectRecord H)) :=
  (s.file .live name).or (s.file .nullified name)

def hasFile (s : Store H) (name : String) : Bool :=
  (s.file .live name).isSome || (s.file .nullified name).isSome || (s.discarded.lookup name).isSome

/-- More names than the store has files. -/
def bound (s : Store H) : Nat :=
  s.live.entries.length + s.nullified.entries.length + s.discarded.entries.length + 1

/-- One directory of `load_object_files`; a file that does not parse is skipped. -/
def loadDir (p : Place) : List (String × ObjectRecord H) →
    List (Sigma fun _ : String => Option (ObjectRecord H)) →
    Except DriverError (List (String × ObjectRecord H))
  | acc, [] => .ok acc
  | acc, ⟨_, none⟩ :: rest => loadDir p acc rest
  | acc, ⟨name, some record⟩ :: rest =>
    if record.place ≠ p then .error (.invalidPlacement name)
    else if acc.any fun e => e.1 = name then .error (.duplicateName name)
    else loadDir p (acc ++ [(name, record)]) rest

def loadObjectFiles (s : Store H) : Except DriverError (List (String × ObjectRecord H)) :=
  match loadDir .live [] s.live.entries with
  | .error e => .error e
  | .ok objects =>
    match loadDir .nullified objects s.nullified.entries with
    | .error e => .error e
    | .ok objects => .ok (objects.insertionSort fun a b => a.1 ≤ b.1)

def readRecord (s : Store H) (t : H) : Option (TransactionRecord H) :=
  s.records.find? fun r => r.txFinal = t

/-- A committed record takes the place of the one before it. -/
def commit (s : Store H) (r : TransactionRecord H) : Store H :=
  if s.records.any fun r' => r'.txFinal = r.txFinal then
    { s with records := s.records.map fun r' => if r'.txFinal = r.txFinal then r else r' }
  else { s with records := s.records ++ [r] }

def removeTransaction (s : Store H) (t : H) : Store H :=
  { s with records := s.records.filter fun r => r.txFinal ≠ t }

end Store

/-! ## File operations -/

inductive FsOp (H : Type) where
  | write (p : Place) (name : String) (record : ObjectRecord H)
  | remove (p : Place) (name : String)
  | rename (old new : String)
  | discard (name : String)
  | writePayload (t : H)
  | commit (r : TransactionRecord H)
  | removeTransaction (t : H)
deriving DecidableEq, Repr

def Store.apply (s : Store H) : FsOp H → Store H
  | .write p name record => s.setDir p ((s.dir p).insert name (some record))
  | .remove p name => s.setDir p ((s.dir p).erase name)
  | .rename old new =>
    match s.live.lookup old with
    | some contents => { s with live := (s.live.erase old).insert new contents }
    | none => s
  | .discard name =>
    match s.live.lookup name with
    | some contents =>
      { s with live := s.live.erase name, discarded := s.discarded.insert name contents }
    | none => s
  | .writePayload _ => s
  | .commit r => s.commit r
  | .removeTransaction t => s.removeTransaction t

/-- Half a write leaves an empty file, half a removal of a directory the directory without
its record. The other operations are done or not. -/
def Store.tear (s : Store H) : FsOp H → Store H
  | .write p name _ => s.setDir p ((s.dir p).insert name none)
  | .removeTransaction t => s.removeTransaction t
  | _ => s

end

/-! ## What an operation leaves -/

section

variable {H : Type}

theorem ObjectRecord.place_eq_live {record : ObjectRecord H} :
    record.place = .live ↔ record.isNullified = false := by
  unfold ObjectRecord.place
  cases record.isNullified <;> simp

theorem ObjectRecord.place_eq_nullified {record : ObjectRecord H} :
    record.place = .nullified ↔ record.isNullified = true := by
  unfold ObjectRecord.place
  cases record.isNullified <;> simp

end

namespace Store

variable {H : Type}

@[simp] theorem setDir_dir (s : Store H) (p q : Place) (d : Dir H) :
    (s.setDir p d).dir q = if q = p then d else s.dir q := by
  cases p <;> cases q <;> rfl

@[simp] theorem setDir_records (s : Store H) (p : Place) (d : Dir H) :
    (s.setDir p d).records = s.records := by
  cases p <;> rfl

@[simp] theorem setDir_discarded (s : Store H) (p : Place) (d : Dir H) :
    (s.setDir p d).discarded = s.discarded := by
  cases p <;> rfl

theorem file_setDir_insert (s : Store H) (p q : Place) (n m : String)
    (c : Option (ObjectRecord H)) :
    (s.setDir p ((s.dir p).insert n c)).file q m = if q = p ∧ m = n then some c else s.file q m := by
  unfold file
  rw [setDir_dir]
  by_cases hq : q = p
  · subst hq
    by_cases hm : m = n
    · subst hm
      simp
    · simp [hm]
  · simp [hq]

theorem file_setDir_erase (s : Store H) (p q : Place) (n m : String) :
    (s.setDir p ((s.dir p).erase n)).file q m = if q = p ∧ m = n then none else s.file q m := by
  unfold file
  rw [setDir_dir]
  by_cases hq : q = p
  · subst hq
    by_cases hm : m = n
    · subst hm
      simp
    · simp [hm]
  · simp [hq]

section

variable [DecidableEq H]

theorem file_write (s : Store H) (p q : Place) (n m : String) (record : ObjectRecord H) :
    (s.apply (.write p n record)).file q m =
      if q = p ∧ m = n then some (some record) else s.file q m :=
  file_setDir_insert s p q n m (some record)

theorem file_tear_write (s : Store H) (p q : Place) (n m : String) (record : ObjectRecord H) :
    (s.tear (.write p n record)).file q m = if q = p ∧ m = n then some none else s.file q m :=
  file_setDir_insert s p q n m none

theorem file_remove (s : Store H) (p q : Place) (n m : String) :
    (s.apply (.remove p n)).file q m = if q = p ∧ m = n then none else s.file q m :=
  file_setDir_erase s p q n m

theorem file_rename (s : Store H) (q : Place) (old new m : String) :
    (s.apply (.rename old new)).file q m =
      if q = .live ∧ s.file .live old ≠ none then
        if m = new then s.file .live old else if m = old then none else s.file .live m
      else s.file q m := by
  have hfile : s.file .live old = s.live.lookup old := rfl
  cases hold : s.live.lookup old with
  | none => simp [Store.apply, hfile, hold]
  | some contents =>
    cases q with
    | nullified => simp [Store.apply, hold, file, dir]
    | live =>
      simp only [Store.apply, hold, file, dir]
      by_cases hm : m = new
      · subst hm
        simp
      · by_cases hmo : m = old
        · subst hmo
          simp [hm]
        · simp [hm, hmo]

end

/-! ## What is loaded -/

/-- Every file that parses is in the directory of its status. -/
def Placed (s : Store H) : Prop := ∀ p n record, s.loaded p n = some record → record.place = p

/-- No name is loaded from both directories. -/
def Single (s : Store H) : Prop :=
  ∀ n, s.loaded .live n = none ∨ s.loaded .nullified n = none

def parsed (entries : List (Sigma fun _ : String => Option (ObjectRecord H))) :
    List (String × ObjectRecord H) :=
  entries.filterMap fun e => e.2.map fun record => (e.1, record)

theorem mem_parsed {d : Dir H} {n : String} {record : ObjectRecord H} :
    (n, record) ∈ parsed d.entries ↔ d.lookup n = some (some record) := by
  have hlookup : d.lookup n = some (some record) ↔ ⟨n, some record⟩ ∈ d.entries :=
    AList.mem_lookup_iff
  rw [hlookup, parsed, List.mem_filterMap]
  constructor
  · rintro ⟨⟨m, c⟩, hmem, heq⟩
    obtain ⟨record', hc, hpair⟩ := Option.map_eq_some_iff.mp heq
    cases hpair
    subst hc
    exact hmem
  · intro hmem
    exact ⟨_, hmem, rfl⟩

theorem parsed_names_nodup (d : Dir H) : ((parsed d.entries).map Prod.fst).Nodup := by
  have hsub : ∀ l : List (Sigma fun _ : String => Option (ObjectRecord H)),
      ((parsed l).map Prod.fst).Sublist (l.map Sigma.fst) := by
    intro l
    induction l with
    | nil => exact .slnil
    | cons e l ih =>
      obtain ⟨n, c⟩ := e
      cases c with
      | none => exact ih.cons n
      | some record => exact ih.cons_cons n
  exact (hsub d.entries).nodup d.nodupKeys

theorem loadDir_eq_ok {p : Place} {acc es : List (String × ObjectRecord H)}
    {l : List (Sigma fun _ : String => Option (ObjectRecord H))} (hacc : (acc.map Prod.fst).Nodup) :
    loadDir p acc l = .ok es ↔ (∀ e ∈ parsed l, e.2.place = p) ∧
      ((acc ++ parsed l).map Prod.fst).Nodup ∧ es = acc ++ parsed l := by
  induction l generalizing acc with
  | nil =>
    simp only [loadDir, Except.ok.injEq, parsed, List.filterMap_nil, List.append_nil]
    constructor
    · rintro rfl
      exact ⟨by simp, hacc, rfl⟩
    · rintro ⟨-, -, rfl⟩
      rfl
  | cons e l ih =>
    obtain ⟨n, c⟩ := e
    cases c with
    | none => exact ih hacc
    | some record =>
      have hparsed : parsed (⟨n, some record⟩ :: l) = (n, record) :: parsed l := rfl
      have happend : acc ++ (n, record) :: parsed l = (acc ++ [(n, record)]) ++ parsed l := by simp
      simp only [loadDir, hparsed, List.forall_mem_cons, happend]
      by_cases hp : record.place = p
      · rw [if_neg (by simpa using hp)]
        by_cases hdup : acc.any fun e => e.1 = n
        · rw [if_pos hdup]
          constructor
          · intro h
            cases h
          · rintro ⟨-, hnodup, -⟩
            obtain ⟨e, he, hen⟩ := List.any_eq_true.mp hdup
            have hin : n ∈ acc.map Prod.fst := List.mem_map.mpr ⟨e, he, by simpa using hen⟩
            rw [List.map_append, List.map_append, List.append_assoc] at hnodup
            exact absurd rfl ((List.nodup_append.mp hnodup).2.2 n hin n (by simp))
        · rw [if_neg hdup]
          have hnew : ((acc ++ [(n, record)]).map Prod.fst).Nodup := by
            rw [List.map_append]
            refine List.nodup_append.mpr ⟨hacc, by simp, ?_⟩
            intro m hm m' hm'
            obtain ⟨e, he, rfl⟩ := List.mem_map.mp hm
            simp only [List.map_cons, List.map_nil, List.mem_singleton] at hm'
            subst hm'
            intro hen
            exact hdup (List.any_eq_true.mpr ⟨e, he, by simpa using hen⟩)
          rw [ih hnew]
          simp [hp]
      · rw [if_pos (by simpa using hp)]
        constructor
        · intro h
          cases h
        · rintro ⟨⟨h, -⟩, -⟩
          exact absurd h hp

theorem loaded_eq_some {s : Store H} {p : Place} {n : String} {record : ObjectRecord H} :
    s.loaded p n = some record ↔ (s.dir p).lookup n = some (some record) := by
  unfold loaded file
  cases (s.dir p).lookup n <;> simp

/-- Loading succeeds on a store whose files are in their places, each name once. -/
theorem loadObjectFiles_of {s : Store H} (hplaced : s.Placed) (hsingle : s.Single) :
    ∃ es, s.loadObjectFiles = .ok es := by
  have hmem : ∀ p n record, (n, record) ∈ parsed (s.dir p).entries → s.loaded p n = some record := by
    intro p n record hin
    rw [loaded_eq_some]
    exact mem_parsed.mp hin
  have hlive : loadDir .live [] s.live.entries = .ok (parsed s.live.entries) := by
    refine (loadDir_eq_ok (by simp)).mpr ⟨fun e he => ?_, ?_, by simp⟩
    · exact hplaced .live e.1 e.2 (hmem .live e.1 e.2 he)
    · simpa using parsed_names_nodup s.live
  have hnull : loadDir .nullified (parsed s.live.entries) s.nullified.entries =
      .ok (parsed s.live.entries ++ parsed s.nullified.entries) := by
    refine (loadDir_eq_ok (parsed_names_nodup s.live)).mpr ⟨fun e he => ?_, ?_, rfl⟩
    · exact hplaced .nullified e.1 e.2 (hmem .nullified e.1 e.2 he)
    · rw [List.map_append]
      refine List.nodup_append.mpr ⟨parsed_names_nodup _, parsed_names_nodup _, ?_⟩
      rintro n hn n' hn' rfl
      obtain ⟨e, he, rfl⟩ := List.mem_map.mp hn
      obtain ⟨e', he', hname⟩ := List.mem_map.mp hn'
      have h₁ := hmem .live e.1 e.2 he
      have h₂ := hmem .nullified e'.1 e'.2 he'
      rw [hname] at h₂
      rcases hsingle e.1 with h | h
      · rw [h₁] at h
        cases h
      · rw [h₂] at h
        cases h
  unfold loadObjectFiles
  rw [hlive]
  dsimp only
  rw [hnull]
  exact ⟨_, rfl⟩

/-- Only on such a store; and what is loaded is every file that parses. -/
theorem loadObjectFiles_ok {s : Store H} {es : List (String × ObjectRecord H)}
    (h : s.loadObjectFiles = .ok es) :
    s.Placed ∧ s.Single ∧ (es.map Prod.fst).Nodup ∧
      ∀ n record, (n, record) ∈ es ↔ ∃ p, s.loaded p n = some record := by
  unfold loadObjectFiles at h
  cases hl : loadDir .live [] s.live.entries with
  | error e => simp [hl] at h
  | ok l =>
    obtain ⟨hlive, -, rfl⟩ := (loadDir_eq_ok (by simp)).mp hl
    simp only [List.nil_append] at hl
    rw [hl] at h
    simp only at h
    cases hn : loadDir .nullified (parsed s.live.entries) s.nullified.entries with
    | error e => simp [hn] at h
    | ok l' =>
      obtain ⟨hnull, hnodup, rfl⟩ := (loadDir_eq_ok (parsed_names_nodup _)).mp hn
      rw [hn] at h
      cases h
      have hmem : ∀ p n record, s.loaded p n = some record ↔
          (n, record) ∈ parsed (s.dir p).entries := by
        intro p n record
        rw [mem_parsed, loaded_eq_some]
      refine ⟨?_, ?_, ?_, ?_⟩
      · intro p n record hload
        have hin := (hmem p n record).mp hload
        cases p with
        | live => exact hlive _ hin
        | nullified => exact hnull _ hin
      · intro n
        by_contra hboth
        push Not at hboth
        obtain ⟨r₁, h₁⟩ := Option.ne_none_iff_exists'.mp hboth.1
        obtain ⟨r₂, h₂⟩ := Option.ne_none_iff_exists'.mp hboth.2
        rw [List.map_append] at hnodup
        exact absurd rfl ((List.nodup_append.mp hnodup).2.2 n
          (List.mem_map.mpr ⟨_, (hmem .live n r₁).mp h₁, rfl⟩) n
          (List.mem_map.mpr ⟨_, (hmem .nullified n r₂).mp h₂, rfl⟩))
      · exact ((List.perm_insertionSort _ _).map Prod.fst).nodup_iff.mpr hnodup
      · intro n record
        rw [List.mem_insertionSort, List.mem_append]
        constructor
        · rintro (hin | hin)
          · exact ⟨.live, (hmem .live n record).mpr hin⟩
          · exact ⟨.nullified, (hmem .nullified n record).mpr hin⟩
        · rintro ⟨p, hp⟩
          cases p with
          | live => exact .inl ((hmem .live n record).mp hp)
          | nullified => exact .inr ((hmem .nullified n record).mp hp)

variable [DecidableEq H]

theorem stored_write (s : Store H) (p : Place) (n m : String) (record : ObjectRecord H) :
    (s.apply (.write p n record)).stored m =
      if m = n ∧ (p = .live ∨ s.file .live n = none) then some (some record) else s.stored m := by
  unfold stored
  rw [file_write, file_write]
  cases p with
  | live => by_cases hm : m = n <;> simp [hm]
  | nullified =>
    by_cases hm : m = n
    · subst hm
      cases hfile : s.file .live m <;> simp
    · simp [hm]

theorem stored_tear_write (s : Store H) (p : Place) (n m : String) (record : ObjectRecord H) :
    (s.tear (.write p n record)).stored m =
      if m = n ∧ (p = .live ∨ s.file .live n = none) then some none else s.stored m := by
  unfold stored
  rw [file_tear_write, file_tear_write]
  cases p with
  | live => by_cases hm : m = n <;> simp [hm]
  | nullified =>
    by_cases hm : m = n
    · subst hm
      cases hfile : s.file .live m <;> simp
    · simp [hm]

theorem stored_remove_of_ne (s : Store H) (p : Place) {n m : String} (h : m ≠ n) :
    (s.apply (.remove p n)).stored m = s.stored m := by
  unfold stored
  rw [file_remove, file_remove]
  simp [h]

theorem stored_rename_of_ne (s : Store H) {old new m : String} (hold : m ≠ old) (hnew : m ≠ new) :
    (s.apply (.rename old new)).stored m = s.stored m := by
  unfold stored
  rw [file_rename, file_rename]
  simp [hold, hnew]

theorem placed_write {s : Store H} (h : s.Placed) (n : String) (record : ObjectRecord H) :
    (s.apply (.write record.place n record)).Placed := by
  intro p m r hr
  unfold loaded at hr
  rw [file_write] at hr
  split at hr
  · rename_i hpm
    cases hr
    exact hpm.1.symm
  · exact h p m r hr

theorem placed_tear_write {s : Store H} (h : s.Placed) (p : Place) (n : String)
    (record : ObjectRecord H) : (s.tear (.write p n record)).Placed := by
  intro q m r hr
  unfold loaded at hr
  rw [file_tear_write] at hr
  split at hr
  · cases hr
  · exact h q m r hr

theorem placed_remove {s : Store H} (h : s.Placed) (p : Place) (n : String) :
    (s.apply (.remove p n)).Placed := by
  intro q m r hr
  unfold loaded at hr
  rw [file_remove] at hr
  split at hr
  · cases hr
  · exact h q m r hr

theorem file_discard (s : Store H) (q : Place) (n m : String) :
    (s.apply (.discard n)).file q m = if q = .live ∧ m = n then none else s.file q m := by
  cases hn : s.live.lookup n with
  | none =>
    have hfile : s.file .live n = none := hn
    simp only [Store.apply, hn]
    split
    · rename_i hcase
      rw [hcase.1, hcase.2]
      exact hfile
    · rfl
  | some contents =>
    simp only [Store.apply, hn, file]
    cases q with
    | nullified => simp [dir]
    | live =>
      by_cases hm : m = n
      · subst hm
        simp [dir]
      · simp [dir, hm]

theorem stored_discard_of_ne (s : Store H) {n m : String} (h : m ≠ n) :
    (s.apply (.discard n)).stored m = s.stored m := by
  unfold stored
  rw [file_discard, file_discard]
  simp [h]

theorem placed_discard {s : Store H} (h : s.Placed) (n : String) : (s.apply (.discard n)).Placed := by
  intro q m r hr
  unfold loaded at hr
  rw [file_discard] at hr
  split at hr
  · cases hr
  · exact h q m r hr

@[simp] theorem records_discard (s : Store H) (n : String) :
    (s.apply (.discard n)).records = s.records := by
  simp only [Store.apply]
  split <;> rfl

theorem placed_rename {s : Store H} (h : s.Placed) (old new : String) :
    (s.apply (.rename old new)).Placed := by
  intro q m r hr
  unfold loaded at hr
  rw [file_rename] at hr
  split at hr
  · rename_i hq
    rw [hq.1]
    split at hr
    · exact h .live old r hr
    · split at hr
      · cases hr
      · exact h .live m r hr
  · exact h q m r hr

@[simp] theorem records_write (s : Store H) (p : Place) (n : String) (record : ObjectRecord H) :
    (s.apply (.write p n record)).records = s.records := setDir_records s p _

@[simp] theorem records_tear_write (s : Store H) (p : Place) (n : String) (record : ObjectRecord H) :
    (s.tear (.write p n record)).records = s.records := setDir_records s p _

@[simp] theorem records_remove (s : Store H) (p : Place) (n : String) :
    (s.apply (.remove p n)).records = s.records := setDir_records s p _

@[simp] theorem records_rename (s : Store H) (old new : String) :
    (s.apply (.rename old new)).records = s.records := by
  simp only [Store.apply]
  split <;> rfl

theorem loaded_write (s : Store H) (p q : Place) (n m : String) (record : ObjectRecord H) :
    (s.apply (.write p n record)).loaded q m =
      if q = p ∧ m = n then some record else s.loaded q m := by
  unfold loaded
  rw [file_write]
  split <;> rfl

theorem loaded_tear_write (s : Store H) (p q : Place) (n m : String) (record : ObjectRecord H) :
    (s.tear (.write p n record)).loaded q m = if q = p ∧ m = n then none else s.loaded q m := by
  unfold loaded
  rw [file_tear_write]
  split <;> rfl

theorem loaded_remove (s : Store H) (p q : Place) (n m : String) :
    (s.apply (.remove p n)).loaded q m = if q = p ∧ m = n then none else s.loaded q m := by
  unfold loaded
  rw [file_remove]
  split <;> rfl

theorem loaded_discard (s : Store H) (q : Place) (n m : String) :
    (s.apply (.discard n)).loaded q m = if q = .live ∧ m = n then none else s.loaded q m := by
  unfold loaded
  rw [file_discard]
  split <;> rfl

theorem loaded_rename (s : Store H) (q : Place) (old new m : String) :
    (s.apply (.rename old new)).loaded q m =
      if q = .live ∧ s.file .live old ≠ none then
        if m = new then s.loaded .live old else if m = old then none else s.loaded .live m
      else s.loaded q m := by
  unfold loaded
  rw [file_rename]
  split
  · split
    · rfl
    · split <;> rfl
  · rfl

omit [DecidableEq H] in
/-- What is under a name is loaded from one of the directories. -/
theorem loaded_of_stored {s : Store H} {n : String} {r : ObjectRecord H} (hplaced : s.Placed)
    (h : s.stored n = some (some r)) : s.loaded r.place n = some r := by
  have hload : ∃ p, s.loaded p n = some r := by
    unfold stored at h
    cases hl : s.file .live n with
    | some c =>
      rw [hl, Option.some_or] at h
      cases h
      exact ⟨.live, by simp [loaded, hl]⟩
    | none =>
      rw [hl, Option.none_or] at h
      exact ⟨.nullified, by simp [loaded, h]⟩
  obtain ⟨p, hp⟩ := hload
  rw [hplaced p n r hp]
  exact hp

omit [DecidableEq H] in
theorem stored_eq_none_of_hasFile {s : Store H} {n : String} (h : s.hasFile n = false) :
    s.stored n = none := by
  unfold hasFile at h
  unfold stored
  simp only [Bool.or_eq_false_iff, Option.isSome_eq_false_iff, Option.isNone_iff_eq_none] at h
  simp [h.1.1, h.1.2]

omit [DecidableEq H] in
theorem loaded_eq_none_of_stored {s : Store H} {n : String} (h : s.stored n = none) (p : Place) :
    s.loaded p n = none := by
  obtain ⟨hlive, hnull⟩ := Option.or_eq_none_iff.mp h
  cases p with
  | live => simp [loaded, hlive]
  | nullified => simp [loaded, hnull]

/-! ## Records -/

theorem commit_eq (s : Store H) (r : TransactionRecord H) :
    s.commit r = { s with records := (s.commit r).records } := by
  unfold commit
  split <;> rfl

theorem mem_commit {s : Store H} {r r' : TransactionRecord H} (h : r' ∈ (s.commit r).records) :
    r' = r ∨ (r' ∈ s.records ∧ r'.txFinal ≠ r.txFinal) := by
  unfold commit at h
  split at h
  · obtain ⟨r₀, hr₀, rfl⟩ := List.mem_map.mp h
    by_cases heq : r₀.txFinal = r.txFinal
    · simp [heq]
    · simp [heq, hr₀]
  · rename_i hnew
    rcases List.mem_append.mp h with hmem | hmem
    · refine .inr ⟨hmem, fun heq => hnew ?_⟩
      exact List.any_eq_true.mpr ⟨r', hmem, by simpa using heq⟩
    · exact .inl (List.mem_singleton.mp hmem)

theorem keys_commit {s : Store H} (h : (s.records.map TransactionRecord.txFinal).Nodup)
    (r : TransactionRecord H) : ((s.commit r).records.map TransactionRecord.txFinal).Nodup := by
  unfold commit
  split
  · have hsame : (s.records.map fun r' => if r'.txFinal = r.txFinal then r else r').map
        TransactionRecord.txFinal = s.records.map TransactionRecord.txFinal := by
      rw [List.map_map]
      refine List.map_congr_left fun r' _ => ?_
      by_cases heq : r'.txFinal = r.txFinal
      · simp [heq]
      · simp [heq]
    rw [hsame]
    exact h
  · rename_i hnew
    rw [List.map_append]
    refine List.nodup_append.mpr ⟨h, by simp, ?_⟩
    intro t ht t' ht' heq
    obtain ⟨r', hr', rfl⟩ := List.mem_map.mp ht
    simp only [List.map_cons, List.map_nil, List.mem_singleton] at ht'
    subst ht'
    exact hnew (List.any_eq_true.mpr ⟨r', hr', by simpa using heq⟩)

theorem readRecord_eq_some {s : Store H} {t : H} {r : TransactionRecord H}
    (h : s.readRecord t = some r) : r ∈ s.records ∧ r.txFinal = t := by
  unfold readRecord at h
  exact ⟨List.mem_of_find?_eq_some h, by simpa using List.find?_some h⟩

end Store

end DigitalObjects.Driver.Objects
