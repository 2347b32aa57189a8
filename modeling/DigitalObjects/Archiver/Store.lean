import DigitalObjects.Archiver.Blobs
import DigitalObjects.Lib.FileTree
import Mathlib.Data.List.MinMax
import Mathlib.Data.Char
set_option autoImplicit false

/-!
The store of the archiver: the directories `by_slot` and `by_root` under `blobs_path`, and the
functions that read, fill and prune them. Each changes the tree by single operations; any of
them may fail, and the process may die between two of them. A read that fails leaves what a
death before the next operation leaves.
-/

namespace DigitalObjects.Archiver

open Lib EthClients FileTree

/-! ## Names and paths -/

/-- A component of a path below `blobs_path`. -/
inductive Name where
  | bySlot
  | byRoot
  /-- `..`, which only links use. -/
  | up
  /-- A part of a slot number or of a root. -/
  | part (text : List Char)
  | headerJson
  | headerJsonTmp
  | blob (index : Nat) (versionedHash : B256)
  | blobTmp (index : Nat) (versionedHash : B256)
deriving DecidableEq, Repr

abbrev Path := List Name

/-- `{:03}` of a number. -/
def pad3 (n : Nat) : List Char :=
  List.replicate (3 - (Nat.toDigits 10 n).length) '0' ++ Nat.toDigits 10 n

def hexByte (b : Nat) : List Char := [Nat.digitChar (b / 16), Nat.digitChar (b % 16)]

/-- A root as it is displayed. -/
def rootText (root : B256) : List Char := '0' :: 'x' :: root.flatMap hexByte

/-- What directory entries are sorted by. The names of directories are parts. -/
def Name.text : Name → List Char
  | .part text => text
  | _ => []

def slotDirFrom (base : Path) (slot : Nat) : Path :=
  let slotHi := slot / 1000000
  let slotMid := (slot - slotHi * 1000000) / 1000
  let slotLo := slot - slotHi * 1000000 - slotMid * 1000
  .part (pad3 slotLo) :: .part (pad3 slotMid) :: .part (pad3 slotHi) :: .bySlot :: base

/-- The parts have at least three characters, so that padding them adds nothing. -/
def rootDirFrom (base : Path) (root : B256) : Path :=
  .part ((rootText root).drop 8) :: .part (((rootText root).drop 5).take 3) ::
    .part ((rootText root).take 5) :: .byRoot :: base

def dirLevels : Nat := 3

/-- What a file holds: a header, a blob, or less than was to be written. -/
inductive Content where
  | header (h : BlockHeader)
  | blob (b : HeapBlob)
  | scrap
deriving DecidableEq, Repr

abbrev Tree := FileTree Name Content

inductive StoreError where
  | refused (r : Refusal)
  | io
  /-- `read_link` of something that is no link. -/
  | notALink
  | invalidHeader
  | client (e : FetchError)
  | panicked (message : String)
  | outOfFuel
deriving DecidableEq, Repr

abbrev Task (α : Type) := Routine Tree (Op Name Content) StoreError α

def disk : Device Tree (Op Name Content) := device .scrap

namespace Store

def call (op : Op Name Content) : Task Unit := FileTree.call .refused .io op

def createDirAll (p : Path) : Task Unit := FileTree.createDirAll .refused .io p

def removeDirAll (order : RemovalOrder Name Content) (p : Path) : Task Unit :=
  FileTree.removeDirAll .refused .io order p

def slotDir (slot : Nat) : Path := slotDirFrom [] slot

def rootDir (root : B256) : Path := rootDirFrom [] root

/-- The link that stands at the slot of a block. -/
def rootLink (root : B256) : List Name := (rootDirFrom [.up, .up, .up] root).reverse

/-! ## Deleting a block -/

/-- Returns whether a slot path was deleted. -/
def deleteBlockData (order : RemovalOrder Name Content) (slotPath : Path) : Task Bool := do
  let t ← Routine.get
  match t.lookup slotPath with
  | none => .ret false
  | some (.link target) => do
    -- the first three components lead up to the base
    let rootPath := (target.drop 3).reverse
    if t.lookup rootPath ≠ none then removeDirAll order (t.climb (dirLevels - 1) rootPath)
    call (.remove slotPath)
    .ret true
  | some _ => .throw .notALink

/-! ## The last header -/

/-- A path a link's components lead to. -/
def resolve : Path → List Name → Path
  | p, [] => p
  | p, .up :: names => resolve p.tail names
  | p, name :: names => resolve (name :: p) names

/-- The directory a slot path stands for. -/
def follow (t : Tree) (p : Path) : Path :=
  match t.lookup p with
  | some (.link target) => resolve p.tail target
  | _ => p

inductive HeaderFile where
  | notFound
  | valid (h : BlockHeader)
  | invalid
deriving DecidableEq, Repr

/-- `header.json` behind a slot path. -/
def readHeader (t : Tree) (slotPath : Path) : HeaderFile :=
  match t.lookup (.headerJson :: follow t slotPath) with
  | none => .notFound
  | some (.file (.header h)) => .valid h
  | some _ => .invalid

/-- Where the search for the highest slot path ends. -/
inductive Descent where
  | noBlocks
  | emptyDir (p : Path)
  | reached (p : Path)
  | refused (r : Refusal)
deriving DecidableEq, Repr

/-- The levels below a path, by the last entry of each. -/
def descend (t : Tree) : Nat → Path → Descent
  | 0, p => .reached p
  | k + 1, p =>
    match t.readDir p with
    | .error .notFound => .noBlocks
    | .error r => .refused r
    | .ok names =>
      match names.argmax Name.text with
      | some name => descend t k (name :: p)
      | none => if k + 1 = dirLevels then .noBlocks else .emptyDir p

def lastHeaderLoop (order : RemovalOrder Name Content) : Nat → Task (Option BlockHeader)
  | 0 => .throw .outOfFuel
  | fuel + 1 => do
    let t ← Routine.get
    match descend t dirLevels [.bySlot] with
    | .noBlocks => .ret none
    | .refused r => .throw (.refused r)
    | .emptyDir p => do
      call (.remove p)
      lastHeaderLoop order fuel
    | .reached slotPath =>
      match readHeader t slotPath with
      | .valid h => .ret (some h)
      | .invalid => .throw .invalidHeader
      | .notFound => do
        let _ ← deleteBlockData order slotPath
        lastHeaderLoop order fuel

/-- The latest complete header; stale entries are deleted on the way. Every round of the loop
that does not return deletes an entry. -/
def lastHeader (order : RemovalOrder Name Content) : Task (Option BlockHeader) := do
  let t ← Routine.get
  lastHeaderLoop order (t.keys.length + 1)

/-! ## Blob files -/

def blobFile (t : Tree) (root : B256) : Name → Option StoredBlob
  | .blob index vh => match t.lookup (.blob index vh :: rootDir root) with
    | some (.file (.blob b)) => some ⟨index, vh, b⟩
    | _ => none
  | _ => none

/-- The blobs of a block, sorted by their indices. -/
def loadBlobsDisk (t : Tree) (root : B256) : List StoredBlob :=
  ((t.children (rootDir root)).filterMap (blobFile t root)).insertionSort fun a b => a.index ≤ b.index

def storeBlob (root : B256) (b : StoredBlob) : Task Unit := do
  call (.write (.blobTmp b.index b.versionedHash :: rootDir root) (.blob b.blob))
  call (.rename (.blobTmp b.index b.versionedHash :: rootDir root)
    (.blob b.index b.versionedHash :: rootDir root))

def storeBlobsDisk (root : B256) (blobs : List StoredBlob) : Task Unit := do
  createDirAll (rootDir root)
  Routine.forList (storeBlob root) blobs

end Store

end DigitalObjects.Archiver
