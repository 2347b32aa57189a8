import DigitalObjects.Lib.Directory
import DigitalObjects.Lib.Lists
import DigitalObjects.Lib.Machine
import Mathlib.Data.String.Basic
set_option autoImplicit false

/-!
Installing plugins: archives in the actions directory and the catalog that is built from them. Calls
hold no lock, so their steps on the directory interleave.
-/

namespace DigitalObjects.Driver.Plugins

open Lib

abbrev ActionsDir := Directory String UInt8

/-! ## Archives and catalogs -/

/-- File extension (no leading dot) of a pexe archive. -/
def pexeExtension : String := "pexe"

/-- Largest `.pexe` file that is read from disk into memory. -/
def maxPexeBytes : Nat := 8 * 1024 * 1024

/-- What comes after the last dot, unless the name starts with it. -/
def extension (fileName : String) : Option String :=
  match fileName.toList.reverse.dropWhile (· ≠ '.') with
  | _ :: _ :: _ => some (String.ofList (fileName.toList.reverse.takeWhile (· ≠ '.')).reverse)
  | _ => none

def isPexe (fileName : String) : Bool := extension fileName = some pexeExtension

/-- What an archive of bytes holds, and what its script compiles to. -/
structure PluginCode (S M : Type) where
  unpack : List UInt8 → Except String S
  pluginName : S → String
  loadModule : S → Except String M

structure Plugin (S : Type) where
  path : String
  source : S
deriving DecidableEq, Repr

inductive CatalogError where
  | io
  | tooLarge (path : String)
  | unpack (path err : String)
  | invalidName (name path : String)
  | duplicateName (name : String)
  | load (name err : String)
deriving DecidableEq, Repr

inductive InstallError where
  | invalidArchive (err : String)
  | invalidName (name : String)
  | backup (name : String)
  | failedToLoad (name : String) (err : CatalogError)
deriving DecidableEq, Repr

/-- Allowlist for `manifest.plugin.name`. -/
def validatePluginName (name : String) : Bool :=
  name ≠ "" && name.toList.all fun c => c.isAlphanum || c = '-' || c = '_'

def readPexeFile (path : String) (bytes : List UInt8) : Except CatalogError (List UInt8) :=
  if bytes.length ≤ maxPexeBytes then .ok bytes else .error (.tooLarge path)

/-- A plugin with its module; the catalog's lists of actions and classes are read off these. -/
abbrev Catalog (S M : Type) := List (Plugin S × M)

variable {S M : Type}

namespace PluginCode

variable (code : PluginCode S M)

def loadPluginFromBytes (path : String) (bytes : List UInt8) : Except CatalogError (Plugin S) :=
  match code.unpack bytes with
  | .ok source => .ok ⟨path, source⟩
  | .error err => .error (.unpack path err)

def discoverPlugins (entries : List (String × List UInt8)) : Except CatalogError (List (Plugin S)) :=
  entries.mapM fun entry => do
    let bytes ← readPexeFile entry.1 entry.2
    code.loadPluginFromBytes entry.1 bytes

/-- Names are valid, and no two plugins share one. -/
def checkNames (code : PluginCode S M) : List String → List (Plugin S) → Except CatalogError Unit
  | _, [] => .ok ()
  | seen, plugin :: plugins =>
    let name := code.pluginName plugin.source
    if validatePluginName name = false then .error (.invalidName name plugin.path)
    else if name ∈ seen then .error (.duplicateName name)
    else code.checkNames (name :: seen) plugins

def fromPlugins (plugins : List (Plugin S)) : Except CatalogError (Catalog S M) := do
  code.checkNames [] plugins
  plugins.mapM fun plugin =>
    match code.loadModule plugin.source with
    | .ok m => .ok (plugin, m)
    | .error err => .error (.load (code.pluginName plugin.source) err)

/-- The catalog of the plugins whose names are wanted. -/
def loadEntries (d : ActionsDir) (wanted : String → Bool) : Except CatalogError (Catalog S M) := do
  let plugins ← code.discoverPlugins (d.entries wanted)
  code.fromPlugins plugins

def loadWith (d : ActionsDir) : Except CatalogError (Catalog S M) := code.loadEntries d isPexe

end PluginCode

/-! ## Calls -/

/-- How a step on the directory fails: a write leaves some of its bytes, a scan passes over entries that
it cannot read. -/
inductive Fault where
  | none
  | fails
  | torn (count : Nat)
  | skips (names : List String)
deriving DecidableEq, Repr

inductive InstallStage (S M : Type) where
  | unpacked
  | checked (backup : Bool)
  | aside
  | opened (backup : Bool) (inode : Nat)
  | written (backup : Bool)
  | scanned (backup : Bool) (catalog : Catalog S M)
  | swapped (backup : Bool)
  | undoing (backup : Bool) (err : CatalogError)
  | restoring (backup : Bool) (err : CatalogError)
  | returned (result : Except InstallError String)

inductive ReloadStage (S M : Type) where
  | ready
  | scanned (catalog : Catalog S M)
  | returned (result : Except CatalogError Nat)

inductive Call (S M : Type) where
  | install (bytes : List UInt8) (name : String) (stage : InstallStage S M)
  | reload (stage : ReloadStage S M)

def destOf (name : String) : String := name ++ "." ++ pexeExtension

def backupOf (name : String) : String := name ++ "." ++ pexeExtension ++ ".bak"

/-- The directory, the catalog in memory, the calls, and what calls that succeeded have installed. -/
structure World (S M : Type) where
  dir : ActionsDir
  catalog : Catalog S M
  calls : List (Call S M)
  installed : String → Option (List UInt8)

namespace World

def start (d : ActionsDir) (catalog : Catalog S M) : World S M := ⟨d, catalog, [], d.read⟩

/-- `pexe::install`, up to the write. -/
def openDest (w : World S M) (i : Nat) (bytes : List UInt8) (name : String) (backup : Bool) (fault : Fault) :
    World S M :=
  if name = "" ∨ fault = .fails then
    { w with calls := w.calls.set i (.install bytes name (.undoing backup .io)) }
  else
    let opened := w.dir.openTruncate (destOf name)
    { w with dir := opened.1, calls := w.calls.set i (.install bytes name (.opened backup opened.2)) }

end World

inductive CallAction where
  | install (bytes : List UInt8)
  | reload
  | step (i : Nat) (fault : Fault)
  | crash
deriving DecidableEq, Repr

namespace PluginCode

variable (code : PluginCode S M)

/-- Validates the archive and the plugin name. -/
def beginInstall (bytes : List UInt8) : Call S M :=
  match code.unpack bytes with
  | .error err => .install bytes "" (.returned (.error (.invalidArchive err)))
  | .ok source =>
    let name := code.pluginName source
    if validatePluginName name = false then .install bytes name (.returned (.error (.invalidName name)))
    else .install bytes name .unpacked

def scan (d : ActionsDir) : Fault → Except CatalogError (Catalog S M)
  | .fails => .error .io
  | .skips names => code.loadEntries d fun n => isPexe n && n ∉ names
  | _ => code.loadWith d

/-- One step of `install_plugin`; an install whose scan went well succeeds. -/
def stepInstall (w : World S M) (i : Nat) (bytes : List UInt8) (name : String) (fault : Fault) :
    InstallStage S M → Option (World S M)
  | .unpacked =>
    let backup := fault ≠ .fails && w.dir.contains (destOf name)
    some { w with calls := w.calls.set i (.install bytes name (.checked backup)) }
  | .checked true =>
    match (if fault = .fails then none else w.dir.rename (destOf name) (backupOf name)) with
    | some dir => some { w with dir := dir, calls := w.calls.set i (.install bytes name .aside) }
    | none => some { w with calls := w.calls.set i (.install bytes name (.returned (.error (.backup name)))) }
  | .checked false => some (w.openDest i bytes name false fault)
  | .aside => some (w.openDest i bytes name true fault)
  | .opened backup inode =>
    match fault with
    | .fails => some { w with calls := w.calls.set i (.install bytes name (.undoing backup .io)) }
    | .torn count => some { w with
        dir := w.dir.write inode (bytes.take count)
        calls := w.calls.set i (.install bytes name (.undoing backup .io)) }
    | _ => some { w with
        dir := w.dir.write inode bytes
        calls := w.calls.set i (.install bytes name (.written backup)) }
  | .written backup =>
    match code.scan w.dir fault with
    | .ok catalog => some { w with
        calls := w.calls.set i (.install bytes name (.scanned backup catalog))
        installed := Function.update w.installed (destOf name) (some bytes) }
    | .error err => some { w with calls := w.calls.set i (.install bytes name (.undoing backup err)) }
  | .scanned backup catalog =>
    some { w with catalog := catalog, calls := w.calls.set i (.install bytes name (.swapped backup)) }
  | .swapped backup => some { w with
      dir := if backup then w.dir.remove (backupOf name) else w.dir
      calls := w.calls.set i (.install bytes name (.returned (.ok name))) }
  | .undoing backup err => some { w with
      dir := w.dir.remove (destOf name)
      calls := w.calls.set i (.install bytes name (.restoring backup err)) }
  | .restoring backup err => some { w with
      dir := if backup then (w.dir.rename (backupOf name) (destOf name)).getD w.dir else w.dir
      calls := w.calls.set i (.install bytes name (.returned (.error (.failedToLoad name err)))) }
  | .returned _ => none

/-- One step of `reload_catalog`. -/
def stepReload (w : World S M) (i : Nat) (fault : Fault) : ReloadStage S M → Option (World S M)
  | .ready =>
    match code.scan w.dir fault with
    | .ok catalog => some { w with calls := w.calls.set i (.reload (.scanned catalog)) }
    | .error err => some { w with calls := w.calls.set i (.reload (.returned (.error err))) }
  | .scanned catalog => some { w with
      catalog := catalog
      calls := w.calls.set i (.reload (.returned (.ok catalog.length))) }
  | .returned _ => none

/-- After a crash the driver starts again if the directory loads. -/
def step (w : World S M) : CallAction → Option (World S M)
  | .install bytes => some { w with calls := w.calls ++ [code.beginInstall bytes] }
  | .reload => some { w with calls := w.calls ++ [.reload .ready] }
  | .step i fault =>
    match w.calls[i]? with
    | some (.install bytes name stage) => code.stepInstall w i bytes name fault stage
    | some (.reload stage) => code.stepReload w i fault stage
    | none => none
  | .crash =>
    match code.loadWith w.dir with
    | .ok catalog => some (.start w.dir catalog)
    | .error _ => none

end PluginCode

/-! ## Calls that race -/

namespace InstallStage

/-- The directory is changed, and it is open whether the change stays. -/
def dirty : InstallStage S M → Bool
  | .aside | .opened .. | .written _ | .undoing .. | .restoring .. => true
  | _ => false

/-- From the first change of the directory to the return. -/
def inSection : InstallStage S M → Bool
  | .unpacked | .checked _ | .returned _ => false
  | _ => true

def running : InstallStage S M → Bool
  | .returned _ => false
  | _ => true

end InstallStage

namespace Call

def isInstall : Call S M → Bool
  | .install .. => true
  | .reload _ => false

def dirty : Call S M → Bool
  | .install _ _ stage => stage.dirty
  | .reload _ => false

/-- A reload is in its section from its scan to its swap. -/
def inSection : Call S M → Bool
  | .install _ _ stage => stage.inSection
  | .reload (.scanned _) => true
  | .reload _ => false

def running : Call S M → Bool
  | .install _ _ stage => stage.running
  | .reload (.returned _) => false
  | .reload _ => true

def failed : Call S M → Bool
  | .install _ _ (.returned (.error _)) => true
  | .reload (.returned (.error _)) => true
  | _ => false

/-- The file that the call is changing. -/
def changes : Call S M → Option String
  | .install _ name stage => if stage.dirty then some (destOf name) else none
  | .reload _ => none

/-- A crash leaves the old version of the plugin, or the new one whole and fit to load. -/
def crashSafe (code : PluginCode S M) (d : ActionsDir) : Call S M → Bool
  | .install _ _ .aside => false
  | .install _ _ (.opened ..) => false
  | .install _ _ (.written _) => (code.loadWith d).isOk
  | .install bytes name (.undoing backup _) =>
    match d.read (destOf name) with
    | some content => content = bytes && (code.loadWith d).isOk
    | none => !backup
  | .install _ _ (.restoring backup _) => !backup
  | _ => true

end Call

/-- An install first changes the directory while no other call is in its section, and where it makes no
backup there is nothing to back up; a scan reads a directory that nobody is changing, and passes over no
plugin; a crash falls outside the changes. -/
def Orderly (code : PluginCode S M) (w : World S M) : CallAction → Prop
  | .step i fault =>
    match w.calls[i]? with
    | some (.install _ name (.checked backup)) =>
      (∀ c ∈ w.calls.eraseIdx i, c.inSection = false) ∧ (backup = false → w.dir.contains (destOf name) = false)
    | some (.install _ _ (.written _)) | some (.reload .ready) =>
      (∀ c ∈ w.calls.eraseIdx i, c.dirty = false) ∧
        match fault with
        | .skips names => ∀ n ∈ names, isPexe n = true → w.dir.contains n = false
        | _ => True
    | _ => True
  | .crash => ∀ c ∈ w.calls, c.crashSafe code w.dir = true
  | _ => True

instance (code : PluginCode S M) (w : World S M) (a : CallAction) : Decidable (Orderly code w a) := by
  unfold Orderly
  split
  · split
    · infer_instance
    · split <;> infer_instance
    · split <;> infer_instance
    · infer_instance
  · infer_instance
  · infer_instance

/-! ## Names -/

theorem extension_append {stem ext : String} (hstem : stem ≠ "") (hext : '.' ∉ ext.toList) :
    extension (stem ++ "." ++ ext) = some ext := by
  have hrev : (stem ++ "." ++ ext).toList.reverse = ext.toList.reverse ++ '.' :: stem.toList.reverse := by
    simp
  have hnot : ∀ c ∈ ext.toList.reverse, decide (c ≠ '.') = true := by
    intro c hc
    have hne : c ≠ '.' := fun h => hext (h ▸ List.mem_reverse.mp hc)
    simpa using hne
  obtain ⟨c, cs, hcs⟩ : ∃ c cs, stem.toList.reverse = c :: cs := by
    cases hs : stem.toList.reverse with
    | nil =>
      have hnil : stem.toList = [] := by simpa using hs
      exact absurd (String.toList_eq_nil_iff.mp hnil) hstem
    | cons c cs => exact ⟨c, cs, rfl⟩
  unfold extension
  rw [hrev, List.dropWhile_append_of_pos hnot, List.takeWhile_append_of_pos hnot, hcs]
  simp

theorem isPexe_destOf {name : String} (h : name ≠ "") : isPexe (destOf name) = true := by
  unfold isPexe destOf
  rw [extension_append h (by decide)]
  simp

/-- A backup stays out of the catalog scan. -/
theorem isPexe_backupOf (name : String) : isPexe (backupOf name) = false := by
  have hsplit : backupOf name = name ++ "." ++ pexeExtension ++ "." ++ "bak" := by
    apply String.toList_injective
    simp [backupOf]
  unfold isPexe
  rw [hsplit, extension_append (by simp [pexeExtension]) (by decide)]
  decide

theorem backupOf_ne_destOf {name : String} (h : name ≠ "") : backupOf name ≠ destOf name := by
  intro heq
  have hpexe := isPexe_destOf h
  rw [← heq, isPexe_backupOf] at hpexe
  cases hpexe

/-! ## Scans -/

namespace PluginCode

variable {code : PluginCode S M} {d d' : ActionsDir}

/-- A catalog is built from what the archives hold. -/
theorem loadWith_congr (h : ∀ n, isPexe n = true → d.read n = d'.read n) : code.loadWith d = code.loadWith d' := by
  unfold loadWith loadEntries
  rw [Directory.entries_congr h]

/-- A scan that passes over no plugin builds the catalog of the directory. -/
theorem scan_ok {fault : Fault} {catalog : Catalog S M}
    (hskips : match fault with
      | .skips names => ∀ n ∈ names, isPexe n = true → d.contains n = false
      | _ => True)
    (h : code.scan d fault = .ok catalog) : code.loadWith d = .ok catalog := by
  cases fault with
  | none => exact h
  | torn count => exact h
  | fails => cases h
  | skips names =>
    have hwanted : d.entries (fun n => isPexe n && n ∉ names) = d.entries isPexe := by
      refine Directory.entries_wanted fun n hn => ?_
      by_cases hin : n ∈ names
      · have hpexe : isPexe n = false := by
          by_contra hpexe
          have hgone := hskips n hin (by simpa using hpexe)
          rw [hn] at hgone
          cases hgone
        simp [hpexe]
      · simp [hin]
    have hload : code.loadEntries d (fun n => isPexe n && n ∉ names) = code.loadWith d := by
      unfold loadWith loadEntries
      rw [hwanted]
    exact hload.symm.trans h

end PluginCode

/-! ## The invariant -/

/-- A backup holds the plugin that was there; without one there was none. -/
def Kept (d : ActionsDir) (installed : String → Option (List UInt8)) (name : String) (backup : Bool) : Prop :=
  if backup = true then ∃ old, d.read (backupOf name) = some old ∧ installed (destOf name) = some old
  else installed (destOf name) = none

theorem Kept.congr {name : String} {d d' : ActionsDir} {installed : String → Option (List UInt8)} {backup : Bool}
    (h : Kept d installed name backup) (hread : d'.read (backupOf name) = d.read (backupOf name)) :
    Kept d' installed name backup := by
  unfold Kept at h ⊢
  rw [hread]
  exact h

/-- An install whose scan went well; it returns its name in the end. -/
def InstallStage.succeeded : InstallStage S M → Bool
  | .scanned .. | .swapped _ | .returned (.ok _) => true
  | _ => false

/-- The call puts the bytes under the name. -/
def Call.Installs (n : String) (bytes : List UInt8) (c : Call S M) : Prop :=
  ∃ name stage, c = .install bytes name stage ∧ stage.succeeded = true ∧ n = destOf name

/-- What the stage of an install says of the directory. -/
def InstallStage.Fits (d : ActionsDir) (installed : String → Option (List UInt8)) (bytes : List UInt8)
    (name : String) : InstallStage S M → Prop
  | .unpacked | .checked _ | .returned _ => True
  | .aside => d.read (destOf name) = none ∧ Kept d installed name true
  | .opened backup inode => d.files.lookup (destOf name) = some inode ∧ d.read (destOf name) = some [] ∧
      Kept d installed name backup
  | .written backup => d.read (destOf name) = some bytes ∧ Kept d installed name backup
  | .scanned .. | .swapped _ => d.read (destOf name) = some bytes ∧ installed (destOf name) = some bytes
  | .undoing backup _ => Kept d installed name backup
  | .restoring backup _ => d.read (destOf name) = none ∧ Kept d installed name backup

namespace Call

def Fits (d : ActionsDir) (installed : String → Option (List UInt8)) : Call S M → Prop
  | .install bytes name stage => (stage.running = true → name ≠ "") ∧ stage.Fits d installed bytes name
  | .reload _ => True

/-- The catalog that the call is about to swap in. -/
def scanned : Call S M → Option (Catalog S M)
  | .install _ _ (.scanned _ catalog) => some catalog
  | .reload (.scanned catalog) => some catalog
  | _ => none

/-- An install in its section is alone with reloads, and they read no change that is open. -/
def Apart (a b : Call S M) : Prop :=
  a.inSection = true → b.inSection = true →
    (a.isInstall = true → b.isInstall = false ∧ a.dirty = false) ∧
    (b.isInstall = true → a.isInstall = false ∧ b.dirty = false)

theorem Apart.symm (a b : Call S M) (h : Apart a b) : Apart b a := fun hb ha => (h ha hb).symm

theorem apart_of_quiet {a b : Call S M} (h : b.inSection = false) : Apart a b := by
  intro _ hb
  rw [h] at hb
  cases hb

theorem inSection_of_dirty {c : Call S M} (h : c.dirty = true) : c.inSection = true ∧ c.isInstall = true := by
  cases c with
  | install bytes name stage => cases stage <;> simp_all [dirty, inSection, isInstall, InstallStage.dirty,
      InstallStage.inSection]
  | reload stage => cases h

theorem dirty_of_changes {c : Call S M} {n : String} (h : c.changes = some n) : c.dirty = true := by
  cases c with
  | install bytes name stage =>
    simp only [changes] at h
    split at h
    · assumption
    · cases h
  | reload stage => cases h

theorem inSection_of_scanned {c : Call S M} {catalog : Catalog S M} (h : c.scanned = some catalog) :
    c.inSection = true ∧ c.dirty = false := by
  cases c with
  | install bytes name stage => cases stage <;> simp_all [scanned, inSection, dirty, InstallStage.inSection,
      InstallStage.dirty]
  | reload stage => cases stage <;> simp_all [scanned, inSection, dirty]

/-- Outside of its section a call says nothing of the directory. -/
theorem fits_of_quiet {d d' : ActionsDir} {installed installed' : String → Option (List UInt8)} {c : Call S M}
    (hquiet : c.inSection = false) (h : c.Fits d installed) : c.Fits d' installed' := by
  cases c with
  | install bytes name stage =>
    refine ⟨h.1, ?_⟩
    cases stage <;> simp_all [inSection, InstallStage.inSection, InstallStage.Fits]
  | reload stage => trivial

/-- A call that is not running is quiet. -/
theorem quiet_of_returned {c : Call S M} (h : c.running = false) : c.inSection = false := by
  cases c with
  | install bytes name stage => cases stage <;> simp_all [running, inSection, InstallStage.running,
      InstallStage.inSection]
  | reload stage => cases stage <;> simp_all [running, inSection]

end Call

/-- The catalog is the one of the plugins that are installed. -/
def CatalogOf (code : PluginCode S M) (installed : String → Option (List UInt8)) (catalog : Catalog S M) : Prop :=
  ∃ d : ActionsDir, (∀ n, isPexe n = true → d.read n = installed n) ∧ code.loadWith d = .ok catalog

structure Inv (code : PluginCode S M) (w : World S M) : Prop where
  apart : w.calls.Pairwise Call.Apart
  fits : ∀ c ∈ w.calls, c.Fits w.dir w.installed
  holds : ∀ n, isPexe n = true → (∀ c ∈ w.calls, c.changes ≠ some n) → w.dir.read n = w.installed n
  scanned : ∀ c ∈ w.calls, ∀ catalog, c.scanned = some catalog → code.loadWith w.dir = .ok catalog
  catalog : (∀ c ∈ w.calls, c.isInstall = true → c.scanned = none) → CatalogOf code w.installed w.catalog

theorem CatalogOf.loadWith {code : PluginCode S M} {installed : String → Option (List UInt8)}
    {catalog : Catalog S M} (h : CatalogOf code installed catalog) {d : ActionsDir}
    (hd : ∀ n, isPexe n = true → d.read n = installed n) : code.loadWith d = .ok catalog := by
  obtain ⟨d', hd', hload⟩ := h
  rw [← hload]
  exact PluginCode.loadWith_congr fun n hn => (hd n hn).trans (hd' n hn).symm

namespace Inv

variable {code : PluginCode S M} {w w' : World S M} {i : Nat} {c c' : Call S M}

theorem others_apart (h : Inv code w) (hi : w.calls[i]? = some c) : ∀ o ∈ w.calls.eraseIdx i, c.Apart o :=
  pairwise_eraseIdx Call.Apart.symm hi h.apart

/-- The others of a call with a change open are quiet. -/
theorem others_quiet (h : Inv code w) (hi : w.calls[i]? = some c) (hdirty : c.dirty = true) :
    ∀ o ∈ w.calls.eraseIdx i, o.inSection = false := by
  intro o ho
  by_contra hsection
  obtain ⟨hc, hinstall⟩ := Call.inSection_of_dirty hdirty
  have hclean := ((h.others_apart hi o ho hc (by simpa using hsection)).1 hinstall).2
  rw [hdirty] at hclean
  cases hclean

/-- A call takes a step while others are in their sections. -/
theorem advance (h : Inv code w) (hi : w.calls[i]? = some c) (hcalls : w'.calls = w.calls.set i c')
    (hfits : c'.Fits w'.dir w'.installed)
    (hothers : ∀ o ∈ w.calls.eraseIdx i, c'.Apart o ∧ o.Fits w'.dir w'.installed ∧
      ∀ catalog, o.scanned = some catalog → code.loadWith w'.dir = .ok catalog)
    (hholds : ∀ n, isPexe n = true → c'.changes ≠ some n → (∀ o ∈ w.calls.eraseIdx i, o.changes ≠ some n) →
      w'.dir.read n = w'.installed n)
    (hscanned : ∀ catalog, c'.scanned = some catalog → code.loadWith w'.dir = .ok catalog)
    (hcatalog : (c'.isInstall = true → c'.scanned = none) →
      (∀ o ∈ w.calls.eraseIdx i, o.isInstall = true → o.scanned = none) →
      CatalogOf code w'.installed w'.catalog) : Inv code w' := by
  have hmem : ∀ o, o ∈ w'.calls ↔ o = c' ∨ o ∈ w.calls.eraseIdx i := by
    intro o
    rw [hcalls]
    exact mem_set_iff hi c' o
  refine ⟨?_, fun o ho => ?_, fun n hn hfree => ?_, fun o ho catalog hcat => ?_, fun hnone => ?_⟩
  · rw [hcalls]
    exact pairwise_set Call.Apart.symm hi h.apart fun o ho => (hothers o ho).1
  · rcases (hmem o).mp ho with rfl | hin
    · exact hfits
    · exact (hothers o hin).2.1
  · exact hholds n hn (hfree c' ((hmem c').mpr (.inl rfl))) fun o ho => hfree o ((hmem o).mpr (.inr ho))
  · rcases (hmem o).mp ho with rfl | hin
    · exact hscanned catalog hcat
    · exact (hothers o hin).2.2 catalog hcat
  · exact hcatalog (hnone c' ((hmem c').mpr (.inl rfl))) fun o ho => hnone o ((hmem o).mpr (.inr ho))

/-- A call takes a step while the others are quiet. -/
theorem advance_alone (h : Inv code w) (hi : w.calls[i]? = some c)
    (hquiet : ∀ o ∈ w.calls.eraseIdx i, o.inSection = false) (hcalls : w'.calls = w.calls.set i c')
    (hfits : c'.Fits w'.dir w'.installed)
    (hholds : ∀ n, isPexe n = true → c'.changes ≠ some n → w'.dir.read n = w'.installed n)
    (hscanned : ∀ catalog, c'.scanned = some catalog → code.loadWith w'.dir = .ok catalog)
    (hcatalog : (c'.isInstall = true → c'.scanned = none) → CatalogOf code w'.installed w'.catalog) :
    Inv code w' := by
  refine h.advance hi hcalls hfits (fun o ho => ⟨Call.apart_of_quiet (hquiet o ho), ?_, fun catalog hcat => ?_⟩)
    (fun n hn hfree _ => hholds n hn hfree) hscanned fun hnone _ => hcatalog hnone
  · exact Call.fits_of_quiet (hquiet o ho) (h.fits o ((mem_iff_eraseIdx hi o).mpr (.inr ho)))
  · have hsection := (Call.inSection_of_scanned hcat).1
    rw [hquiet o ho] at hsection
    cases hsection

/-- While a call that has scanned nothing is alone, the catalog is that of the plugins installed. -/
theorem catalog_alone (h : Inv code w) (hi : w.calls[i]? = some c)
    (hquiet : ∀ o ∈ w.calls.eraseIdx i, o.inSection = false) (hc : c.scanned = none) :
    CatalogOf code w.installed w.catalog := by
  refine h.catalog fun o ho _ => ?_
  rcases (mem_iff_eraseIdx hi o).mp ho with rfl | hin
  · exact hc
  · cases hscan : o.scanned with
    | none => rfl
    | some catalog =>
      have hsection := (Call.inSection_of_scanned hscan).1
      rw [hquiet o hin] at hsection
      cases hsection

/-- While a call is alone, the plugins that it is not changing are the ones installed. -/
theorem holds_alone (h : Inv code w) (hi : w.calls[i]? = some c)
    (hquiet : ∀ o ∈ w.calls.eraseIdx i, o.inSection = false) {n : String} (hn : isPexe n = true)
    (hc : c.changes ≠ some n) : w.dir.read n = w.installed n := by
  refine h.holds n hn fun o ho => ?_
  rcases (mem_iff_eraseIdx hi o).mp ho with rfl | hin
  · exact hc
  · intro hchanges
    have hsection := (Call.inSection_of_dirty (Call.dirty_of_changes hchanges)).1
    rw [hquiet o hin] at hsection
    cases hsection

/-- A call outside of its section takes a step that changes nothing. -/
theorem advance_quiet (h : Inv code w) (hi : w.calls[i]? = some c) (hc : c.inSection = false)
    (hc' : c'.inSection = false) (hfits : c'.Fits w.dir w.installed) :
    Inv code { w with calls := w.calls.set i c' } := by
  have hclean : ∀ {o : Call S M} {n : String}, o.inSection = false → o.changes ≠ some n := by
    intro o n ho hchanges
    have hsection := (Call.inSection_of_dirty (Call.dirty_of_changes hchanges)).1
    rw [ho] at hsection
    cases hsection
  have hnone : ∀ {o : Call S M}, o.inSection = false → o.scanned = none := by
    intro o ho
    cases hscan : o.scanned with
    | none => rfl
    | some catalog =>
      have hsection := (Call.inSection_of_scanned hscan).1
      rw [ho] at hsection
      cases hsection
  refine h.advance hi rfl hfits (fun o ho => ?_) (fun n hn _ hfree => ?_) (fun catalog hcat => ?_)
    fun _ hothers => ?_
  · have hin : o ∈ w.calls := (mem_iff_eraseIdx hi o).mpr (.inr ho)
    exact ⟨(Call.apart_of_quiet hc').symm, h.fits o hin, h.scanned o hin⟩
  · refine h.holds n hn fun o ho => ?_
    rcases (mem_iff_eraseIdx hi o).mp ho with rfl | hin
    · exact hclean hc
    · exact hfree o hin
  · rw [hnone hc'] at hcat
    cases hcat
  · refine h.catalog fun o ho hinstall => ?_
    rcases (mem_iff_eraseIdx hi o).mp ho with rfl | hin
    · exact hnone hc
    · exact hothers o hin hinstall

section Install

variable {bytes : List UInt8} {name : String}

theorem aside {d : ActionsDir} (h : Inv code w) (hi : w.calls[i]? = some (.install bytes name (.checked true)))
    (hquiet : ∀ o ∈ w.calls.eraseIdx i, o.inSection = false)
    (hrename : w.dir.rename (destOf name) (backupOf name) = some d) :
    Inv code { w with dir := d, calls := w.calls.set i (.install bytes name .aside) } := by
  have hname : name ≠ "" := (h.fits _ (List.mem_of_getElem? hi)).1 rfl
  have hne := backupOf_ne_destOf hname
  have hread := Directory.read_rename hrename
  have hdest : w.dir.read (destOf name) = w.installed (destOf name) :=
    h.holds_alone hi hquiet (isPexe_destOf hname) (by simp [Call.changes, InstallStage.dirty])
  obtain ⟨old, hold⟩ := (Directory.contains_iff _).mp (Directory.contains_of_rename hrename)
  have hfits : (Call.install bytes name .aside : Call S M).Fits d w.installed := by
    refine ⟨fun _ => hname, ?_, ?_⟩
    · rw [hread, if_neg hne.symm, if_pos rfl]
    · refine ⟨old, ?_, ?_⟩
      · rw [hread, if_pos rfl, hold]
      · rw [← hdest, hold]
  refine h.advance_alone hi hquiet rfl hfits (fun n hn hfree => ?_) (fun catalog hcat => by cases hcat)
    fun _ => h.catalog_alone hi hquiet rfl
  have hn' : n ≠ destOf name := fun heq => hfree (by simp [Call.changes, InstallStage.dirty, heq])
  have hb : n ≠ backupOf name := fun heq => by
    rw [heq, isPexe_backupOf] at hn
    cases hn
  dsimp only
  rw [hread, if_neg hb, if_neg hn']
  exact h.holds_alone hi hquiet hn (by simp [Call.changes, InstallStage.dirty])

theorem openDest {stage : InstallStage S M} {backup : Bool} {fault : Fault} (h : Inv code w)
    (hi : w.calls[i]? = some (.install bytes name stage)) (hstage : stage.running = true)
    (hscanned : (Call.install bytes name stage).scanned = none)
    (hquiet : ∀ o ∈ w.calls.eraseIdx i, o.inSection = false)
    (hkept : Kept w.dir w.installed name backup) : Inv code (w.openDest i bytes name backup fault) := by
  have hname : name ≠ "" := (h.fits _ (List.mem_of_getElem? hi)).1 hstage
  have hothers : ∀ n, isPexe n = true → n ≠ destOf name → w.dir.read n = w.installed n := by
    intro n hn hne
    refine h.holds_alone hi hquiet hn fun hchanges => ?_
    simp only [Call.changes] at hchanges
    split at hchanges
    · cases hchanges
      exact hne rfl
    · cases hchanges
  unfold World.openDest
  split
  · refine h.advance_alone hi hquiet rfl ⟨fun _ => hname, hkept⟩ (fun n hn hfree => ?_)
      (fun catalog hcat => by cases hcat) fun _ => h.catalog_alone hi hquiet hscanned
    exact hothers n hn fun heq => hfree (by simp [Call.changes, InstallStage.dirty, heq])
  · have hread := fun n => Directory.read_openTruncate (d := w.dir) (destOf name) n
    have hne := backupOf_ne_destOf hname
    have hkept' : Kept (w.dir.openTruncate (destOf name)).1 w.installed name backup := by
      unfold Kept at hkept ⊢
      rw [hread, if_neg hne]
      exact hkept
    have hfits : (Call.install bytes name (.opened backup (w.dir.openTruncate (destOf name)).2) : Call S M).Fits
        (w.dir.openTruncate (destOf name)).1 w.installed := by
      refine ⟨fun _ => hname, Directory.lookup_openTruncate _, ?_, hkept'⟩
      rw [hread, if_pos rfl]
    refine h.advance_alone hi hquiet rfl hfits (fun n hn hfree => ?_)
      (fun catalog hcat => by cases hcat) fun _ => h.catalog_alone hi hquiet hscanned
    have hn' : n ≠ destOf name := fun heq => hfree (by simp [Call.changes, InstallStage.dirty, heq])
    dsimp only
    rw [hread, if_neg hn']
    exact hothers n hn hn'

/-- An install with a change open changes its file only, and keeps the backup. -/
theorem change {stage stage' : InstallStage S M} {d : ActionsDir} (h : Inv code w)
    (hi : w.calls[i]? = some (.install bytes name stage)) (hdirty : stage.dirty = true)
    (hdirty' : stage'.dirty = true)
    (hread : ∀ n, n ≠ destOf name → d.read n = w.dir.read n)
    (hfits : stage'.Fits d w.installed bytes name) :
    Inv code { w with dir := d, calls := w.calls.set i (.install bytes name stage') } := by
  have hrunning : stage.running = true := by cases stage <;> simp_all [InstallStage.dirty, InstallStage.running]
  have hname : name ≠ "" := (h.fits _ (List.mem_of_getElem? hi)).1 hrunning
  have hquiet := h.others_quiet hi hdirty
  have hnone : ∀ stage : InstallStage S M, stage.dirty = true → (Call.install bytes name stage).scanned = none := by
    intro stage hs
    cases stage <;> simp_all [InstallStage.dirty, Call.scanned]
  refine h.advance_alone hi hquiet rfl ⟨fun _ => hname, hfits⟩ (fun n hn hfree => ?_) (fun catalog hcat => ?_)
    fun _ => h.catalog_alone hi hquiet (hnone stage hdirty)
  · have hn' : n ≠ destOf name := fun heq => hfree (by simp [Call.changes, hdirty', heq])
    dsimp only
    rw [hread n hn']
    refine h.holds_alone hi hquiet hn fun hchanges => ?_
    simp only [Call.changes, hdirty, if_true] at hchanges
    cases hchanges
    exact hn' rfl
  · rw [hnone stage' hdirty'] at hcat
    cases hcat

theorem opened {backup : Bool} {inode : Nat} {fault : Fault} (h : Inv code w)
    (hi : w.calls[i]? = some (.install bytes name (.opened backup inode)))
    (hs : code.stepInstall w i bytes name fault (.opened backup inode) = some w') : Inv code w' := by
  obtain ⟨hname, hlookup, hempty, hkept⟩ := h.fits _ (List.mem_of_getElem? hi)
  have hne := backupOf_ne_destOf (hname rfl)
  have hread := Directory.read_write hlookup hempty
  have hkept' : ∀ content, Kept (w.dir.write inode content) w.installed name backup := by
    intro content
    refine hkept.congr ?_
    rw [hread, if_neg hne]
  cases fault with
  | fails =>
    cases hs
    exact h.change hi rfl rfl (fun n _ => rfl) hkept
  | torn count =>
    cases hs
    exact h.change hi rfl rfl (fun n hn => by rw [hread, if_neg hn]) (hkept' _)
  | none =>
    cases hs
    refine h.change hi rfl rfl (fun n hn => by rw [hread, if_neg hn]) ⟨?_, hkept' _⟩
    rw [hread, if_pos rfl]
    simp
  | skips names =>
    cases hs
    refine h.change hi rfl rfl (fun n hn => by rw [hread, if_neg hn]) ⟨?_, hkept' _⟩
    rw [hread, if_pos rfl]
    simp

/-- A scan that goes well sees the new version; the install succeeds. -/
theorem written {backup : Bool} {fault : Fault} (h : Inv code w)
    (hi : w.calls[i]? = some (.install bytes name (.written backup)))
    (horderly : Orderly code w (.step i fault))
    (hs : code.stepInstall w i bytes name fault (.written backup) = some w') : Inv code w' := by
  obtain ⟨hname, hbytes, hkept⟩ := h.fits _ (List.mem_of_getElem? hi)
  have hquiet := h.others_quiet hi rfl
  simp only [Orderly, hi] at horderly
  simp only [PluginCode.stepInstall] at hs
  split at hs
  · rename_i catalog hscan
    cases hs
    have hload := PluginCode.scan_ok horderly.2 hscan
    refine h.advance_alone hi hquiet rfl ⟨hname, hbytes, by simp⟩ (fun n hn _ => ?_) (fun catalog' hcat => ?_)
      fun hnone => ?_
    · by_cases heq : n = destOf name
      · subst heq
        simpa using hbytes
      · simp only [Function.update_of_ne heq]
        refine h.holds_alone hi hquiet hn fun hchanges => ?_
        simp only [Call.changes, InstallStage.dirty, if_true] at hchanges
        cases hchanges
        exact heq rfl
    · cases hcat
      exact hload
    · have hscanned := hnone rfl
      cases hscanned
  · cases hs
    exact h.change hi rfl rfl (fun n _ => rfl) hkept

/-- Nobody has a change open while an install that has scanned is in its section. -/
theorem unchanged_of_section {stage : InstallStage S M} (h : Inv code w)
    (hi : w.calls[i]? = some (.install bytes name stage)) (hsection : stage.inSection = true)
    (hclean : stage.dirty = false) {o : Call S M} (ho : o ∈ w.calls) : o.dirty = false := by
  rcases (mem_iff_eraseIdx hi o).mp ho with rfl | hin
  · exact hclean
  · by_contra hdirty
    obtain ⟨hin', hinstall⟩ := Call.inSection_of_dirty (by simpa using hdirty)
    have hapart := ((h.others_apart hi o hin hsection hin').1 rfl).1
    rw [hinstall] at hapart
    cases hapart

theorem holds_clean (h : Inv code w) (hclean : ∀ o ∈ w.calls, o.dirty = false) {n : String}
    (hn : isPexe n = true) : w.dir.read n = w.installed n := by
  refine h.holds n hn fun o ho hchanges => ?_
  have hdirty := Call.dirty_of_changes hchanges
  rw [hclean o ho] at hdirty
  cases hdirty

theorem swap {backup : Bool} {catalog : Catalog S M} (h : Inv code w)
    (hi : w.calls[i]? = some (.install bytes name (.scanned backup catalog))) :
    Inv code { w with catalog := catalog, calls := w.calls.set i (.install bytes name (.swapped backup)) } := by
  have hin := List.mem_of_getElem? hi
  obtain ⟨hname, hfits⟩ := h.fits _ hin
  have hload := h.scanned _ hin catalog rfl
  have hholds := fun n (hn : isPexe n = true) =>
    h.holds_clean (fun o ho => h.unchanged_of_section hi rfl rfl ho) hn
  refine h.advance hi rfl ⟨hname, hfits⟩ (fun o ho => ?_) (fun n hn _ _ => hholds n hn)
    (fun catalog' hcat => by cases hcat) fun _ _ => ⟨w.dir, hholds, hload⟩
  have hino : o ∈ w.calls := (mem_iff_eraseIdx hi o).mpr (.inr ho)
  exact ⟨h.others_apart hi o ho, h.fits o hino, h.scanned o hino⟩

/-- The backup goes; the catalog does not list it. -/
theorem swapped {backup : Bool} {fault : Fault} (h : Inv code w)
    (hi : w.calls[i]? = some (.install bytes name (.swapped backup)))
    (hs : code.stepInstall w i bytes name fault (.swapped backup) = some w') : Inv code w' := by
  have hin := List.mem_of_getElem? hi
  cases hs
  have hread : ∀ n, isPexe n = true →
      (if backup = true then w.dir.remove (backupOf name) else w.dir).read n = w.dir.read n := by
    intro n hn
    have hb : n ≠ backupOf name := fun heq => by
      rw [heq, isPexe_backupOf] at hn
      cases hn
    split
    · rw [Directory.read_remove, if_neg hb]
    · rfl
  have hload := code.loadWith_congr hread
  have hholds := fun n (hn : isPexe n = true) =>
    h.holds_clean (fun o ho => h.unchanged_of_section hi rfl rfl ho) hn
  refine h.advance hi rfl ⟨fun hr => (by cases hr), trivial⟩ (fun o ho => ?_)
    (fun n hn _ _ => (hread n hn).trans (hholds n hn)) (fun catalog hcat => by cases hcat) fun _ hothers => ?_
  · have hino : o ∈ w.calls := (mem_iff_eraseIdx hi o).mpr (.inr ho)
    refine ⟨(Call.apart_of_quiet rfl).symm, ?_, fun catalog hcat => hload.trans (h.scanned o hino catalog hcat)⟩
    -- the others in their sections are reloads
    by_cases hsection : o.inSection = true
    · have hreload := ((h.others_apart hi o ho rfl hsection).1 rfl).1
      cases o with
      | install bytes' name' stage' => cases hreload
      | reload stage => trivial
    · exact Call.fits_of_quiet (by simpa using hsection) (h.fits o hino)
  · refine h.catalog fun o ho hinstall => ?_
    rcases (mem_iff_eraseIdx hi o).mp ho with rfl | hin
    · rfl
    · exact hothers o hin hinstall

theorem undoing {backup : Bool} {err : CatalogError} (h : Inv code w)
    (hi : w.calls[i]? = some (.install bytes name (.undoing backup err))) :
    Inv code { w with
      dir := w.dir.remove (destOf name)
      calls := w.calls.set i (.install bytes name (.restoring backup err)) } := by
  obtain ⟨hname, hkept⟩ := h.fits _ (List.mem_of_getElem? hi)
  have hread := fun n => Directory.read_remove (d := w.dir) (destOf name) n
  refine h.change hi rfl rfl (fun n hn => by rw [hread, if_neg hn]) ⟨by rw [hread, if_pos rfl], hkept.congr ?_⟩
  rw [hread, if_neg (backupOf_ne_destOf (hname rfl))]

/-- A failed install leaves what was installed. -/
theorem restored {backup : Bool} {err : CatalogError} {fault : Fault} (h : Inv code w)
    (hi : w.calls[i]? = some (.install bytes name (.restoring backup err)))
    (hs : code.stepInstall w i bytes name fault (.restoring backup err) = some w') : Inv code w' := by
  obtain ⟨hname, hnone, hkept⟩ := h.fits _ (List.mem_of_getElem? hi)
  have hname := hname rfl
  have hquiet := h.others_quiet hi rfl
  cases hs
  have hread : ∀ n, isPexe n = true →
      (if backup = true then (w.dir.rename (backupOf name) (destOf name)).getD w.dir else w.dir).read n =
        w.installed n := by
    intro n hn
    have hb : n ≠ backupOf name := fun heq => by
      rw [heq, isPexe_backupOf] at hn
      cases hn
    have hother : n ≠ destOf name → w.dir.read n = w.installed n := by
      intro hne
      refine h.holds_alone hi hquiet hn fun hchanges => ?_
      simp only [Call.changes, InstallStage.dirty, if_true] at hchanges
      cases hchanges
      exact hne rfl
    cases backup with
    | false =>
      rw [if_neg (by simp)]
      by_cases heq : n = destOf name
      · rw [heq, hnone]
        exact hkept.symm
      · exact hother heq
    | true =>
      obtain ⟨old, hold, hinstalled⟩ := hkept
      obtain ⟨d, hd⟩ := Directory.rename_of_contains ((Directory.contains_iff _).mpr ⟨old, hold⟩) (destOf name)
      rw [if_pos rfl, hd, Option.getD_some, Directory.read_rename hd]
      by_cases heq : n = destOf name
      · rw [if_pos heq, hold, heq, hinstalled]
      · rw [if_neg heq, if_neg hb]
        exact hother heq
  refine h.advance_alone hi hquiet rfl ⟨fun hr => (by cases hr), trivial⟩ (fun n hn _ => hread n hn)
    (fun catalog hcat => by cases hcat) fun _ => h.catalog_alone hi hquiet rfl

theorem stepInstall {stage : InstallStage S M} {fault : Fault} (h : Inv code w)
    (hi : w.calls[i]? = some (.install bytes name stage)) (horderly : Orderly code w (.step i fault))
    (hs : code.stepInstall w i bytes name fault stage = some w') : Inv code w' := by
  have hfits := h.fits _ (List.mem_of_getElem? hi)
  cases stage with
  | unpacked =>
    cases hs
    exact h.advance_quiet hi rfl rfl ⟨fun _ => hfits.1 rfl, trivial⟩
  | checked backup =>
    simp only [Orderly, hi] at horderly
    obtain ⟨hquiet, hfresh⟩ := horderly
    cases backup with
    | true =>
      simp only [PluginCode.stepInstall] at hs
      split at hs
      · rename_i d hd
        cases hs
        split at hd
        · cases hd
        · exact h.aside hi hquiet hd
      · cases hs
        exact h.advance_quiet hi rfl rfl ⟨fun hr => (by cases hr), trivial⟩
    | false =>
      cases hs
      refine h.openDest hi rfl rfl hquiet ?_
      have hnone : w.dir.read (destOf name) = none := by
        cases hread : w.dir.read (destOf name) with
        | none => rfl
        | some old =>
          have hthere := (Directory.contains_iff (d := w.dir) (destOf name)).mpr ⟨old, hread⟩
          rw [hfresh rfl] at hthere
          cases hthere
      have hdest := h.holds_alone hi hquiet (isPexe_destOf (hfits.1 rfl))
        (by simp [Call.changes, InstallStage.dirty])
      exact hdest.symm.trans hnone
  | aside =>
    cases hs
    exact h.openDest hi rfl rfl (h.others_quiet hi rfl) hfits.2.2
  | opened backup inode => exact h.opened hi hs
  | written backup => exact h.written hi horderly hs
  | scanned backup catalog =>
    cases hs
    exact h.swap hi
  | swapped backup => exact h.swapped hi hs
  | undoing backup err =>
    cases hs
    exact h.undoing hi
  | restoring backup err => exact h.restored hi hs
  | returned result => cases hs

end Install

theorem stepReload {stage : ReloadStage S M} {fault : Fault} (h : Inv code w)
    (hi : w.calls[i]? = some (.reload stage)) (horderly : Orderly code w (.step i fault))
    (hs : code.stepReload w i fault stage = some w') : Inv code w' := by
  have hin := List.mem_of_getElem? hi
  cases stage with
  | ready =>
    simp only [Orderly, hi] at horderly
    obtain ⟨hclean, hskips⟩ := horderly
    simp only [PluginCode.stepReload] at hs
    split at hs
    · rename_i catalog hscan
      cases hs
      have hload := PluginCode.scan_ok hskips hscan
      refine h.advance hi rfl trivial (fun o ho => ?_) (fun n hn _ hfree => ?_) (fun catalog' hcat => ?_)
        fun _ hothers => ?_
      · have hino : o ∈ w.calls := (mem_iff_eraseIdx hi o).mpr (.inr ho)
        refine ⟨fun _ _ => ⟨fun hinstall => ?_, fun _ => ⟨rfl, hclean o ho⟩⟩, h.fits o hino, h.scanned o hino⟩
        cases hinstall
      · refine h.holds n hn fun o ho => ?_
        rcases (mem_iff_eraseIdx hi o).mp ho with rfl | hin'
        · simp [Call.changes]
        · exact hfree o hin'
      · cases hcat
        exact hload
      · refine h.catalog fun o ho hinstall => ?_
        rcases (mem_iff_eraseIdx hi o).mp ho with rfl | hin'
        · cases hinstall
        · exact hothers o hin' hinstall
    · cases hs
      exact h.advance_quiet hi rfl rfl trivial
  | scanned catalog =>
    cases hs
    have hload := h.scanned _ hin catalog rfl
    have hclean : ∀ o ∈ w.calls, o.dirty = false := by
      intro o ho
      rcases (mem_iff_eraseIdx hi o).mp ho with rfl | hin'
      · rfl
      · by_contra hdirty
        obtain ⟨hsection, hinstall⟩ := Call.inSection_of_dirty (by simpa using hdirty)
        have hapart := ((h.others_apart hi o hin' rfl hsection).2 hinstall).2
        exact hdirty hapart
    have hholds := fun n (hn : isPexe n = true) => h.holds_clean hclean hn
    refine h.advance hi rfl trivial (fun o ho => ?_) (fun n hn _ _ => hholds n hn)
      (fun catalog' hcat => by cases hcat) fun _ _ => ⟨w.dir, hholds, hload⟩
    have hino : o ∈ w.calls := (mem_iff_eraseIdx hi o).mpr (.inr ho)
    exact ⟨(Call.apart_of_quiet rfl).symm, h.fits o hino, h.scanned o hino⟩
  | returned result => cases hs

/-- A call begins. -/
theorem begin (h : Inv code w) (hc : c.inSection = false) (hfits : c.Fits w.dir w.installed) :
    Inv code { w with calls := w.calls ++ [c] } := by
  refine ⟨?_, fun o ho => ?_, fun n hn hfree => ?_, fun o ho catalog hcat => ?_, fun hnone => ?_⟩
  · refine List.pairwise_append.mpr ⟨h.apart, by simp, fun o ho c' hc' => ?_⟩
    cases List.mem_singleton.mp hc'
    exact Call.apart_of_quiet hc
  · rcases List.mem_append.mp ho with hin | hin
    · exact h.fits o hin
    · cases List.mem_singleton.mp hin
      exact hfits
  · exact h.holds n hn fun o ho => hfree o (List.mem_append_left _ ho)
  · rcases List.mem_append.mp ho with hin | hin
    · exact h.scanned o hin catalog hcat
    · cases List.mem_singleton.mp hin
      have hsection := (Call.inSection_of_scanned hcat).1
      rw [hc] at hsection
      cases hsection
  · exact h.catalog fun o ho hinstall => hnone o (List.mem_append_left _ ho) hinstall

theorem start {d : ActionsDir} {catalog : Catalog S M} (hload : code.loadWith d = .ok catalog) :
    Inv code (.start d catalog) :=
  ⟨List.Pairwise.nil, by simp [World.start], fun n _ _ => rfl, by simp [World.start],
    fun _ => ⟨d, fun n _ => rfl, hload⟩⟩

theorem begin_install (code : PluginCode S M) (bytes : List UInt8) (installed : String → Option (List UInt8)) (d : ActionsDir) :
    (code.beginInstall bytes).inSection = false ∧ (code.beginInstall bytes).Fits d installed := by
  unfold PluginCode.beginInstall
  split
  · exact ⟨rfl, fun hr => (by cases hr), trivial⟩
  · dsimp only
    split
    · exact ⟨rfl, fun hr => (by cases hr), trivial⟩
    · rename_i source _ hvalid
      refine ⟨rfl, fun _ hempty => hvalid ?_, trivial⟩
      rw [hempty]
      rfl

theorem step {a : CallAction} (h : Inv code w) (horderly : Orderly code w a) (hs : code.step w a = some w') :
    Inv code w' := by
  cases a with
  | install bytes =>
    cases hs
    obtain ⟨hquiet, hfits⟩ := begin_install code bytes w.installed w.dir
    exact h.begin hquiet hfits
  | reload =>
    cases hs
    exact h.begin rfl trivial
  | step i fault =>
    simp only [PluginCode.step] at hs
    split at hs
    · rename_i bytes name stage hi
      exact h.stepInstall hi horderly hs
    · rename_i stage hi
      exact h.stepReload hi horderly hs
    · cases hs
  | crash =>
    simp only [PluginCode.step] at hs
    split at hs
    · rename_i catalog hload
      cases hs
      exact start hload
    · cases hs

/-- The directory loads while nobody has a change open. -/
theorem loads (h : Inv code w) (hclean : ∀ o ∈ w.calls, o.dirty = false) :
    ∃ catalog, code.loadWith w.dir = .ok catalog := by
  by_cases hscan : ∃ o ∈ w.calls, ∃ catalog, o.scanned = some catalog
  · obtain ⟨o, ho, catalog, hcat⟩ := hscan
    exact ⟨catalog, h.scanned o ho catalog hcat⟩
  · have hcatalog := h.catalog fun o ho _ => by
      cases hcat : o.scanned with
      | none => rfl
      | some catalog => exact absurd ⟨o, ho, catalog, hcat⟩ hscan
    exact ⟨w.catalog, hcatalog.loadWith fun n hn => h.holds_clean hclean hn⟩

/-- The file of an install is the version that is installed, or the new one. -/
theorem crash_change {bytes : List UInt8} {name : String} {stage : InstallStage S M} (h : Inv code w)
    (hi : w.calls[i]? = some (.install bytes name stage)) (hdirty : stage.dirty = true)
    (hsafe : (Call.install bytes name stage).crashSafe code w.dir = true) :
    (∃ catalog, code.loadWith w.dir = .ok catalog) ∧
      (w.dir.read (destOf name) = w.installed (destOf name) ∨ w.dir.read (destOf name) = some bytes) := by
  obtain ⟨hname, hfits⟩ := h.fits _ (List.mem_of_getElem? hi)
  have hquiet := h.others_quiet hi hdirty
  have hother : ∀ n, isPexe n = true → n ≠ destOf name → w.dir.read n = w.installed n := by
    intro n hn hne
    refine h.holds_alone hi hquiet hn fun hchanges => ?_
    simp only [Call.changes, hdirty, if_true] at hchanges
    cases hchanges
    exact hne rfl
  -- where the file is as installed, so is the whole directory
  have hsame : (Call.install bytes name stage).scanned = none →
      w.dir.read (destOf name) = w.installed (destOf name) → ∃ catalog, code.loadWith w.dir = .ok catalog := by
    intro hscanned hdest
    refine ⟨w.catalog, (h.catalog_alone hi hquiet hscanned).loadWith fun n hn => ?_⟩
    by_cases heq : n = destOf name
    · rw [heq]
      exact hdest
    · exact hother n hn heq
  have hisOk : ∀ {x : Except CatalogError (Catalog S M)}, x.isOk = true → ∃ catalog, x = .ok catalog := by
    intro x hx
    cases x with
    | ok catalog => exact ⟨catalog, rfl⟩
    | error err => cases hx
  cases stage with
  | aside => cases hsafe
  | opened backup inode => cases hsafe
  | written backup => exact ⟨hisOk hsafe, .inr hfits.1⟩
  | undoing backup err =>
    simp only [Call.crashSafe] at hsafe
    split at hsafe
    · rename_i content hcontent
      simp only [Bool.and_eq_true, decide_eq_true_eq] at hsafe
      rw [hcontent, hsafe.1]
      exact ⟨hisOk hsafe.2, .inr rfl⟩
    · rename_i hnone
      have hbackup : backup = false := by simpa using hsafe
      have hkept : Kept w.dir w.installed name backup := hfits
      rw [hbackup] at hkept
      have hdest : w.dir.read (destOf name) = w.installed (destOf name) := hnone.trans hkept.symm
      exact ⟨hsame rfl hdest, .inl hdest⟩
  | restoring backup err =>
    have hbackup : backup = false := by simpa [Call.crashSafe] using hsafe
    obtain ⟨hnone, hkept⟩ := hfits
    rw [hbackup] at hkept
    have hdest : w.dir.read (destOf name) = w.installed (destOf name) := hnone.trans hkept.symm
    exact ⟨hsame rfl hdest, .inl hdest⟩
  | _ => cases hdirty

/-- After a crash outside of the changes, the directory loads with the old or the new version of every
plugin. -/
theorem crash (h : Inv code w) (horderly : Orderly code w .crash) :
    (∃ w', code.step w .crash = some w') ∧ ∀ n, isPexe n = true → w.dir.read n = w.installed n ∨
      ∃ bytes name stage, .install bytes name stage ∈ w.calls ∧ n = destOf name ∧ stage.running = true ∧
        w.dir.read n = some bytes := by
  have hstep : ∀ {catalog : Catalog S M}, code.loadWith w.dir = .ok catalog →
      ∃ w', code.step w .crash = some w' := by
    intro catalog hload
    refine ⟨.start w.dir catalog, ?_⟩
    simp only [PluginCode.step, hload]
  by_cases hdirty : ∃ c ∈ w.calls, c.dirty = true
  · obtain ⟨c, hin, hdirty⟩ := hdirty
    obtain ⟨i, hi⟩ := List.getElem?_of_mem hin
    cases c with
    | reload stage => cases hdirty
    | install bytes name stage =>
      obtain ⟨⟨catalog, hload⟩, hdest⟩ := h.crash_change hi hdirty (horderly _ hin)
      refine ⟨hstep hload, fun n hn => ?_⟩
      by_cases heq : n = destOf name
      · subst heq
        refine hdest.imp_right fun hnew => ⟨bytes, name, stage, hin, rfl, ?_, hnew⟩
        cases stage <;> simp_all [Call.dirty, InstallStage.dirty, InstallStage.running]
      · refine .inl (h.holds_alone hi (h.others_quiet hi hdirty) hn fun hchanges => ?_)
        simp only [Call.changes, show stage.dirty = true from hdirty, if_true] at hchanges
        cases hchanges
        exact heq rfl
  · have hclean : ∀ o ∈ w.calls, o.dirty = false := fun o ho => by
      by_contra hdirty'
      exact hdirty ⟨o, ho, by simpa using hdirty'⟩
    obtain ⟨catalog, hload⟩ := h.loads hclean
    exact ⟨hstep hload, fun n hn => .inl (h.holds_clean hclean hn)⟩

/-- An install that returns its name has its bytes stored under it. -/
theorem stored {fault : Fault} {bytes : List UInt8} {name installedName : String} (h : Inv code w)
    (hs : code.step w (.step i fault) = some w')
    (hreturned : w'.calls[i]? = some (.install bytes name (.returned (.ok installedName)))) :
    installedName = name ∧ w'.dir.read (destOf name) = some bytes := by
  simp only [PluginCode.step] at hs
  split at hs
  · rename_i bytes' name' stage hi
    have hlen := (List.getElem?_eq_some_iff.mp hi).1
    have hfits := h.fits _ (List.mem_of_getElem? hi)
    cases stage with
    | swapped backup =>
      cases hs
      simp only [List.getElem?_set_self hlen, Option.some.injEq, Call.install.injEq, InstallStage.returned.injEq,
        Except.ok.injEq] at hreturned
      obtain ⟨rfl, rfl, rfl⟩ := hreturned
      refine ⟨rfl, ?_⟩
      dsimp only
      split
      · rw [Directory.read_remove, if_neg (backupOf_ne_destOf (hfits.1 rfl)).symm]
        exact hfits.2.1
      · exact hfits.2.1
    | unpacked =>
      cases hs
      simp [List.getElem?_set_self hlen] at hreturned
    | checked backup =>
      cases backup with
      | true =>
        simp only [PluginCode.stepInstall] at hs
        split at hs <;> cases hs <;> simp [List.getElem?_set_self hlen] at hreturned
      | false =>
        cases hs
        unfold World.openDest at hreturned
        split at hreturned <;> simp [List.getElem?_set_self hlen] at hreturned
    | aside =>
      cases hs
      unfold World.openDest at hreturned
      split at hreturned <;> simp [List.getElem?_set_self hlen] at hreturned
    | opened backup inode =>
      cases fault <;> cases hs <;> simp [List.getElem?_set_self hlen] at hreturned
    | written backup =>
      simp only [PluginCode.stepInstall] at hs
      split at hs <;> cases hs <;> simp [List.getElem?_set_self hlen] at hreturned
    | scanned backup catalog =>
      cases hs
      simp [List.getElem?_set_self hlen] at hreturned
    | undoing backup err =>
      cases hs
      simp [List.getElem?_set_self hlen] at hreturned
    | restoring backup err =>
      cases hs
      simp [List.getElem?_set_self hlen] at hreturned
    | returned result => cases hs
  · rename_i stage hi
    have hlen := (List.getElem?_eq_some_iff.mp hi).1
    cases stage with
    | ready =>
      simp only [PluginCode.stepReload] at hs
      split at hs <;> cases hs <;> simp [List.getElem?_set_self hlen] at hreturned
    | scanned catalog =>
      cases hs
      simp [List.getElem?_set_self hlen] at hreturned
    | returned result => cases hs
  · cases hs

end Inv

/-! ## What calls that succeed install -/

namespace PluginCode

variable {code : PluginCode S M} {w w' w₀ : World S M}

/-- A step of an install keeps that it succeeds, and changes what is installed only then. -/
theorem stepInstall_installs {i : Nat} {bytes : List UInt8} {name : String} {stage : InstallStage S M} {fault : Fault}
    (hs : code.stepInstall w i bytes name fault stage = some w') :
    ∃ stage', w'.calls = w.calls.set i (.install bytes name stage') ∧
      (stage.succeeded = true → stage'.succeeded = true) ∧
      (w'.installed = w.installed ∨
        stage'.succeeded = true ∧ w'.installed = Function.update w.installed (destOf name) (some bytes)) := by
  cases stage with
  | unpacked =>
    cases hs
    exact ⟨_, rfl, fun h => (by cases h), .inl rfl⟩
  | checked backup =>
    cases backup with
    | true =>
      simp only [stepInstall] at hs
      split at hs <;> cases hs <;> exact ⟨_, rfl, fun h => (by cases h), .inl rfl⟩
    | false =>
      cases hs
      unfold World.openDest
      split <;> exact ⟨_, rfl, fun h => (by cases h), .inl rfl⟩
  | aside =>
    cases hs
    unfold World.openDest
    split <;> exact ⟨_, rfl, fun h => (by cases h), .inl rfl⟩
  | opened backup inode => cases fault <;> cases hs <;> exact ⟨_, rfl, fun h => (by cases h), .inl rfl⟩
  | written backup =>
    simp only [stepInstall] at hs
    split at hs
    · cases hs
      exact ⟨_, rfl, fun _ => rfl, .inr ⟨rfl, rfl⟩⟩
    · cases hs
      exact ⟨_, rfl, fun h => (by cases h), .inl rfl⟩
  | scanned backup catalog =>
    cases hs
    exact ⟨_, rfl, fun _ => rfl, .inl rfl⟩
  | swapped backup =>
    cases hs
    exact ⟨_, rfl, fun _ => rfl, .inl rfl⟩
  | undoing backup err =>
    cases hs
    exact ⟨_, rfl, fun h => (by cases h), .inl rfl⟩
  | restoring backup err =>
    cases hs
    exact ⟨_, rfl, fun h => (by cases h), .inl rfl⟩
  | returned result => cases hs

theorem stepReload_installs {i : Nat} {stage : ReloadStage S M} {fault : Fault}
    (hs : code.stepReload w i fault stage = some w') :
    ∃ stage', w'.calls = w.calls.set i (.reload stage') ∧ w'.installed = w.installed := by
  cases stage with
  | ready =>
    simp only [stepReload] at hs
    split at hs <;> cases hs <;> exact ⟨_, rfl, rfl⟩
  | scanned catalog =>
    cases hs
    exact ⟨_, rfl, rfl⟩
  | returned result => cases hs

/-- Only installs that succeed change what is installed. -/
theorem step_installed {a : CallAction} (ha : a ≠ .crash) (hs : code.step w a = some w') (n : String) :
    (∀ c ∈ w.calls, ∀ bytes, c.Installs n bytes → ∃ c' ∈ w'.calls, c'.Installs n bytes) ∧
      (w'.installed n = w.installed n ∨
        ∃ c ∈ w'.calls, ∃ bytes, c.Installs n bytes ∧ w'.installed n = some bytes) := by
  cases a with
  | install bytes =>
    cases hs
    exact ⟨fun c hc bytes' h => ⟨c, List.mem_append_left _ hc, h⟩, .inl rfl⟩
  | reload =>
    cases hs
    exact ⟨fun c hc bytes' h => ⟨c, List.mem_append_left _ hc, h⟩, .inl rfl⟩
  | crash => exact absurd rfl ha
  | step i fault =>
    simp only [step] at hs
    split at hs
    · rename_i bytes name stage hi
      obtain ⟨stage', hcalls, hkeeps, hinstalled⟩ := stepInstall_installs hs
      have hmem := mem_set_iff hi (.install bytes name stage')
      rw [hcalls]
      refine ⟨fun c hc bytes' h => ?_, ?_⟩
      · rcases (mem_iff_eraseIdx hi c).mp hc with rfl | hin
        · obtain ⟨name', stage'', heq, hsucceeded, hn⟩ := h
          cases heq
          exact ⟨_, (hmem _).mpr (.inl rfl), name, stage', rfl, hkeeps hsucceeded, hn⟩
        · exact ⟨c, (hmem c).mpr (.inr hin), h⟩
      · rcases hinstalled with hsame | ⟨hsucceeded, hupdate⟩
        · exact .inl (by rw [hsame])
        · by_cases hn : n = destOf name
          · refine .inr ⟨_, (hmem _).mpr (.inl rfl), bytes, ⟨name, stage', rfl, hsucceeded, hn⟩, ?_⟩
            rw [hupdate, hn, Function.update_self]
          · exact .inl (by rw [hupdate, Function.update_of_ne hn])
    · rename_i stage hi
      obtain ⟨stage', hcalls, hsame⟩ := stepReload_installs hs
      have hmem := mem_set_iff hi (.reload stage')
      rw [hcalls]
      refine ⟨fun c hc bytes' h => ?_, .inl (by rw [hsame])⟩
      rcases (mem_iff_eraseIdx hi c).mp hc with rfl | hin
      · obtain ⟨name', stage'', heq, -⟩ := h
        cases heq
      · exact ⟨c, (hmem c).mpr (.inr hin), h⟩
    · cases hs

theorem runSteps_installed {bs : List CallAction} (hbs : ∀ a ∈ bs, a ≠ .crash)
    (hrun : runSteps code.step w₀ bs = some w) (n : String) :
    w.installed n = w₀.installed n ∨ ∃ c ∈ w.calls, ∃ bytes, c.Installs n bytes ∧ w.installed n = some bytes := by
  have hstep : ∀ (v : World S M) (a : CallAction) (v' : World S M),
      (v.installed n = w₀.installed n ∨ ∃ c ∈ v.calls, ∃ bytes, c.Installs n bytes ∧ v.installed n = some bytes) →
      a ≠ .crash → code.step v a = some v' →
      v'.installed n = w₀.installed n ∨ ∃ c ∈ v'.calls, ∃ bytes, c.Installs n bytes ∧ v'.installed n = some bytes := by
    intro v a v' hv ha hs
    obtain ⟨hkeeps, hsame | hnew⟩ := step_installed ha hs n
    · rw [hsame]
      refine hv.imp_right fun ⟨c, hc, bytes, hinstalls, hbytes⟩ => ?_
      obtain ⟨c', hc', hinstalls'⟩ := hkeeps c hc bytes hinstalls
      exact ⟨c', hc', bytes, hinstalls', hbytes⟩
    · exact .inr hnew
  exact runSteps_invariant hstep (.inl rfl) (runMeets_of_mem hbs w₀) hrun

/-- While calls are orderly, installs are atomic. -/
theorem installs_atomic {d : ActionsDir} {catalog : Catalog S M} {as : List CallAction}
    (hload : code.loadWith d = .ok catalog)
    (hmeets : RunMeets code.step (Orderly code) (.start d catalog) as)
    (hrun : runSteps code.step (.start d catalog) as = some w) :
    (∀ n, isPexe n = true → (∀ c ∈ w.calls, c.changes ≠ some n) → w.dir.read n = w.installed n) ∧
    (∀ pre bs w₀, as = pre ++ bs → runSteps code.step (.start d catalog) pre = some w₀ →
      (∀ a ∈ bs, a ≠ .crash) → ∀ n, w.installed n = w₀.installed n ∨
        ∃ c ∈ w.calls, ∃ bytes, c.Installs n bytes ∧ w.installed n = some bytes) ∧
    (∀ i fault w', code.step w (.step i fault) = some w' → ∀ bytes name installedName,
      w'.calls[i]? = some (.install bytes name (.returned (.ok installedName))) →
      installedName = name ∧ w'.dir.read (destOf name) = some bytes) ∧
    ((∀ c ∈ w.calls, c.running = false) → code.loadWith w.dir = .ok w.catalog) ∧
    (Orderly code w .crash → (∃ w', code.step w .crash = some w') ∧
      ∀ n, isPexe n = true → w.dir.read n = w.installed n ∨
        ∃ bytes name stage, .install bytes name stage ∈ w.calls ∧ n = destOf name ∧ stage.running = true ∧
          w.dir.read n = some bytes) := by
  have hinv : Inv code w :=
    runSteps_invariant (fun _ _ _ h hguard hs => h.step hguard hs) (Inv.start hload) hmeets hrun
  refine ⟨fun n hn hfree => hinv.holds n hn hfree, fun pre bs w₀ heq hpre hbs n => ?_,
    fun i fault w' hs bytes name installedName hreturned => hinv.stored hs hreturned, fun hidle => ?_, hinv.crash⟩
  · rw [heq, runSteps_append, hpre] at hrun
    exact runSteps_installed hbs hrun n
  · have hclean : ∀ o ∈ w.calls, o.dirty = false := by
      intro o ho
      by_contra hdirty
      have hsection := (Call.inSection_of_dirty (by simpa using hdirty)).1
      rw [Call.quiet_of_returned (hidle o ho)] at hsection
      cases hsection
    have hcatalog := hinv.catalog fun o ho _ => by
      cases hscan : o.scanned with
      | none => rfl
      | some catalog =>
        have hsection := (Call.inSection_of_scanned hscan).1
        rw [Call.quiet_of_returned (hidle o ho)] at hsection
        cases hsection
    exact hcatalog.loadWith fun n hn => hinv.holds_clean hclean hn

end PluginCode

/-! ## Installs of one plugin that race -/

/-- Archives of one plugin; the first byte tells whether its script compiles. -/
def woodCode : PluginCode (List UInt8) Unit where
  unpack bytes := if bytes = [] then .error "invalid pexe zip" else .ok bytes
  pluginName _ := "wood"
  loadModule source := if source.head? = some 1 then .ok () else .error "failed to compile plugin"

def woodDir : ActionsDir := .ofFiles [("wood.pexe", [1])]

def woodCatalog : Catalog (List UInt8) Unit := [(⟨"wood.pexe", [1]⟩, ())]

/-- Two upgrades of the plugin that do not compile; the second looks for a file to back up while the first
has it aside. -/
def racingUpgrades : List CallAction :=
  [.install [2], .install [3], .step 0 .none, .step 0 .none, .step 1 .none] ++
    List.replicate 5 (.step 0 .none) ++ List.replicate 5 (.step 1 .none)

/-- Both upgrades fail, and the plugin that worked is gone from the directory, though not from memory. -/
theorem racing_upgrades_lose_plugin :
    woodCode.loadWith woodDir = .ok woodCatalog ∧ woodDir.read "wood.pexe" = some [1] ∧
    ∃ w ∈ runSteps woodCode.step (.start woodDir woodCatalog) racingUpgrades,
      (w.calls.length = 2 ∧ ∀ c ∈ w.calls, c.failed = true) ∧ w.dir.read "wood.pexe" = none ∧
      w.catalog = woodCatalog ∧ woodCode.loadWith w.dir = .ok [] := by
  decide

/-- An upgrade that meets no other call. -/
theorem installs_atomic_upgrade : ∃ w,
    runSteps woodCode.step (.start woodDir woodCatalog) (.install [1, 5] :: List.replicate 7 (.step 0 .none)) =
      some w ∧ woodCode.loadWith w.dir = .ok w.catalog ∧ w.dir.read "wood.pexe" = some [1, 5] := by
  have hsome : (runSteps woodCode.step (.start woodDir woodCatalog)
      (.install [1, 5] :: List.replicate 7 (.step 0 .none))).isSome = true := by decide
  obtain ⟨w, hrun⟩ := Option.isSome_iff_exists.mp hsome
  have hend : ∀ v ∈ runSteps woodCode.step (.start woodDir woodCatalog)
      (.install [1, 5] :: List.replicate 7 (.step 0 .none)),
      (∀ c ∈ v.calls, c.running = false) ∧ v.dir.read "wood.pexe" = some [1, 5] := by decide
  obtain ⟨hidle, hread⟩ := hend w hrun
  obtain ⟨-, -, -, hcatalog, -⟩ := PluginCode.installs_atomic (by decide) (by decide) hrun
  exact ⟨w, hrun, hcatalog hidle, hread⟩

end DigitalObjects.Driver.Plugins
