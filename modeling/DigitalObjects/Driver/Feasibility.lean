import DigitalObjects.Driver.Operations
import DigitalObjects.Lib.Greedy
import DigitalObjects.Lib.Lists
set_option autoImplicit false

/-!
What `prove` asks of its inputs before it holds them, and what `check_action` reports of the
objects that are left to spend.
-/

namespace DigitalObjects.Driver.Objects

open Txlib Lib

def QualifiedName.render (q : QualifiedName) : String := q.pluginName ++ "::" ++ q.name

namespace Execute

variable {H : Type} [DecidableEq H] [EncodeHex H]

/-! ## Requests -/

/-- A class that an action takes or makes; the hash of its predicate is in hex. -/
structure ClassRef where
  cls : QualifiedName
  hash : String
deriving DecidableEq, Repr

/-- `Path::file_name`: the last component, unless it leads to a parent. -/
def extractBasename (path : String) : Except DriverError String :=
  match ((path.toList.splitOn '/').filter fun part => part ≠ [] ∧ part ≠ ['.']).getLast? with
  | some name =>
    if name = ['.', '.'] then .error (.invalidInput ("missing file name in path: " ++ path))
    else .ok (String.ofList name)
  | none => .error (.invalidInput ("missing file name in path: " ++ path))

def statusName : FileStatus → String
  | .unknown => "Unknown"
  | .live => "Live"
  | .nullified => "Nullified"

/-- One input of a request against the slot that it is for. -/
def resolveInput (decodeHashHex : String → Option H) (entries : List (String × ObjectRecord H))
    (raw : String) (required : ClassRef) : Except DriverError (ResolvedInput H) :=
  match decodeHashHex required.hash with
  | none => .error (.invalidInput ("invalid hash hex " ++ required.hash))
  | some expectedClassHash =>
    match extractBasename raw with
    | .error e => .error e
    | .ok fileName =>
      match entries.find? fun entry => entry.1 = fileName with
      | none => .error (.objectFileNotFound fileName)
      | some entry =>
        let hash := EncodeHex.encodeHex entry.2.contentHash
        if entry.2.status ≠ .live then
          .error (.invalidInput
            s!"input object is not live (status: {statusName entry.2.status}): {hash}")
        else if entry.2.cls ≠ required.cls then
          .error (.invalidInput
            s!"input class mismatch for {hash}: expected {required.cls.render}, got {entry.2.cls.render}")
        else match entry.2.obj.type with
          | none => .error (.invalidInput s!"input object {hash} has no readable 'type' field")
          | some actualClassHash =>
            if actualClassHash ≠ expectedClassHash then
              .error (.invalidInput
                s!"input class hash mismatch for {hash}: pod 'type' = {EncodeHex.encodeHex actualClassHash}, action expects {required.hash}")
            else .ok ⟨entry.1, entry.2.obj⟩

def resolveInputs (decodeHashHex : String → Option H) (entries : List (String × ObjectRecord H)) :
    List String → List ClassRef → Except DriverError (List (ResolvedInput H))
  | raw :: raws, required :: requireds => do
    let resolved ← resolveInput decodeHashHex entries raw required
    let rest ← resolveInputs decodeHashHex entries raws requireds
    pure (resolved :: rest)
  | _, _ => pure []

/-- The class of the record and the type of its object are those of the slot. -/
def fits (decodeHashHex : String → Option H) (required : ClassRef)
    (entry : String × ObjectRecord H) : Bool :=
  entry.2.cls = required.cls &&
    match decodeHashHex required.hash, entry.2.obj.type with
    | some expected, some actual => expected = actual
    | _, _ => false

section Admit

variable {decodeHashHex : String → Option H} {entries : List (String × ObjectRecord H)}

/-- The entries that a list of names stands for, one for each slot. -/
structure Admitted (decodeHashHex : String → Option H) (entries : List (String × ObjectRecord H))
    (raws : List String) (requireds : List ClassRef) (es : List (String × ObjectRecord H)) : Prop where
  entries : ∀ e ∈ es, e ∈ entries
  live : ∀ e ∈ es, e.2.status = .live
  names : List.Forall₂ (fun raw e => extractBasename raw = .ok e.1) raws es
  fits : List.Forall₂ (fun required e => fits decodeHashHex required e = true) requireds es

end Admit

/-- The names of files are those of single path components. -/
def Named (w : World H) : Prop :=
  ∀ entries, w.store.loadObjectFiles = .ok entries → ∀ e ∈ entries, extractBasename e.1 = .ok e.1

namespace Sample

open Objects.Sample

/-- The hash of the class of swords. -/
def decode (text : String) : Option Nat := if text = "01" then some 1 else none

def stored : Dir Nat :=
  ⟨[⟨"blade.dobj", some (file 1)⟩, ⟨"sword.dobj", some (file 2)⟩], by simp [List.NodupKeys, List.keys]⟩

end Sample

end Execute

end DigitalObjects.Driver.Objects
