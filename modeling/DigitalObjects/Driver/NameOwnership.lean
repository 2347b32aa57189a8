import DigitalObjects.Driver.CrashSafety
import DigitalObjects.Driver.FileNames
import DigitalObjects.Lib.Lists
set_option autoImplicit false

/-!
Every object file has the generated name of its object or a name of no such form, whatever names
were asked for and however file operations fail. So a generated name is never another object's.
-/

namespace DigitalObjects.Driver.Objects

open Txlib Lib

variable {H : Type} [DecidableEq H] [EncodeHex H]

/-! ## Fitting names -/

/-- A name that a file with these contents may have. -/
def Fits (known : Object H → Prop) (name : String) (contents : Option (ObjectRecord H)) : Prop :=
  SafeName name ∧ ∀ r, contents = some r → known r.obj ∧
    ∃ generated, objectFileName r.cls r.obj = some generated ∧
      (name = generated ∨ hasGeneratedShape name = false)

structure Named (known : Object H → Prop) (s : Store H) : Prop where
  files : ∀ p n c, s.file p n = some c → Fits known n c
  discarded : ∀ n c, s.discarded.lookup n = some c → Fits known n c
  spent : ∀ n r, s.loaded .nullified n = some r → objectFileName r.cls r.obj = some n
  pending : ∀ r ∈ s.records, ∀ q ∈ r.pendingNames,
    SafeName q.finalName ∧ hasGeneratedShape q.finalName = false
  placed : s.Placed

/-- The hash prefixes in generated names tell the objects apart. -/
def DistinctPrefixes (known : Object H → Prop) : Prop :=
  ∀ o o', known o → known o' → hashHexPrefix o.commitment 8 = hashHexPrefix o'.commitment 8 → o = o'

section

omit [DecidableEq H]

variable {known : Object H → Prop} {name : String}

theorem Fits.nothing (h : SafeName name) : Fits known name none := ⟨h, by simp⟩

/-- Only its object has a generated name. -/
theorem Fits.owner (hhex : EncodesHex H) (hdistinct : DistinctPrefixes known) {r : ObjectRecord H}
    {cls : QualifiedName} {obj : Object H} (h : Fits known name (some r)) (hknown : known obj)
    (hname : objectFileName cls obj = some name) : r.obj = obj := by
  obtain ⟨hr, generated, hgenerated, hform⟩ := h.2 r rfl
  rw [(objectFileName_form hhex hname).2] at hform
  have heq := hform.resolve_right (by simp)
  subst heq
  exact hdistinct _ _ hr hknown (objectFileName_commitment hhex hgenerated hname)

theorem Fits.generated (hhex : EncodesHex H) {r : ObjectRecord H} {obj : Object H} {cls : QualifiedName}
    (hknown : known obj) (hname : objectFileName cls obj = some name) (hobj : r.obj = obj)
    (hcls : r.cls = cls) : Fits known name (some r) := by
  refine ⟨(objectFileName_form hhex hname).1, fun r' hr' => ?_⟩
  cases hr'
  rw [hobj, hcls]
  exact ⟨hknown, name, hname, .inl rfl⟩

/-- The same object at another status. -/
theorem Fits.congr {r r' : ObjectRecord H} (h : Fits known name (some r)) (hobj : r'.obj = r.obj)
    (hcls : r'.cls = r.cls) : Fits known name (some r') := by
  refine ⟨h.1, fun r'' hr'' => ?_⟩
  cases hr''
  rw [hobj, hcls]
  exact h.2 r rfl

/-- A name that a player chose goes with any object. -/
theorem Fits.chosen {r : ObjectRecord H} {old : String} (h : Fits known old (some r)) (hsafe : SafeName name)
    (hform : hasGeneratedShape name = false) : Fits known name (some r) := by
  refine ⟨hsafe, fun r' hr' => ?_⟩
  cases hr'
  obtain ⟨hknown, generated, hgenerated, -⟩ := h.2 r rfl
  exact ⟨hknown, generated, hgenerated, .inr hform⟩

end

namespace Named

variable {known : Object H → Prop} {s : Store H}

section

omit [DecidableEq H]

theorem loaded (h : Named known s) {p : Place} {n : String} {r : ObjectRecord H}
    (hr : s.loaded p n = some r) : Fits known n (some r) :=
  h.files p n (some r) (Store.loaded_eq_some.mp hr)

theorem stored (h : Named known s) {n : String} {r : ObjectRecord H}
    (hr : s.stored n = some (some r)) : Fits known n (some r) :=
  h.loaded (Store.loaded_of_stored h.placed hr)

/-- What is under a generated name is its object. -/
theorem owner (hhex : EncodesHex H) (hdistinct : DistinctPrefixes known) (h : Named known s) {p : Place}
    {n : String} {r : ObjectRecord H} (hr : s.loaded p n = some r) {cls : QualifiedName} {obj : Object H}
    (hknown : known obj) (hname : objectFileName cls obj = some n) : r.obj = obj :=
  (h.loaded hr).owner hhex hdistinct hknown hname

end

theorem write (h : Named known s) {n : String} {record : ObjectRecord H}
    (hfits : Fits known n (some record))
    (hspent : record.isNullified = true → objectFileName record.cls record.obj = some n) :
    Named known (s.apply (.write record.place n record)) where
  files := by
    intro p m c hc
    rw [Store.file_write] at hc
    split at hc
    · rename_i hm
      cases hc
      rw [hm.2]
      exact hfits
    · exact h.files p m c hc
  discarded := by
    intro m c hc
    have hsame : (s.apply (.write record.place n record)).discarded = s.discarded :=
      Store.setDir_discarded s record.place _
    rw [hsame] at hc
    exact h.discarded m c hc
  spent := by
    intro m r hr
    rw [Store.loaded_write] at hr
    split at hr
    · rename_i hm
      cases hr
      rw [hm.2]
      exact hspent (ObjectRecord.place_eq_nullified.mp hm.1.symm)
    · exact h.spent m r hr
  pending := by
    rw [Store.records_write]
    exact h.pending
  placed := Store.placed_write h.placed n record

theorem tear_write (h : Named known s) {n : String} (hsafe : SafeName n) (p : Place)
    (record : ObjectRecord H) : Named known (s.tear (.write p n record)) where
  files := by
    intro q m c hc
    rw [Store.file_tear_write] at hc
    split at hc
    · rename_i hm
      cases hc
      rw [hm.2]
      exact .nothing hsafe
    · exact h.files q m c hc
  discarded := by
    intro m c hc
    have hsame : (s.tear (.write p n record)).discarded = s.discarded := Store.setDir_discarded s p _
    rw [hsame] at hc
    exact h.discarded m c hc
  spent := by
    intro m r hr
    rw [Store.loaded_tear_write] at hr
    split at hr
    · cases hr
    · exact h.spent m r hr
  pending := by
    rw [Store.records_tear_write]
    exact h.pending
  placed := Store.placed_tear_write h.placed p n record

theorem remove (h : Named known s) (p : Place) (n : String) : Named known (s.apply (.remove p n)) where
  files := by
    intro q m c hc
    rw [Store.file_remove] at hc
    split at hc
    · cases hc
    · exact h.files q m c hc
  discarded := by
    intro m c hc
    have hsame : (s.apply (.remove p n)).discarded = s.discarded := Store.setDir_discarded s p _
    rw [hsame] at hc
    exact h.discarded m c hc
  spent := by
    intro m r hr
    rw [Store.loaded_remove] at hr
    split at hr
    · cases hr
    · exact h.spent m r hr
  pending := by
    rw [Store.records_remove]
    exact h.pending
  placed := Store.placed_remove h.placed p n

theorem rename (h : Named known s) {old new : String}
    (hfits : ∀ c, s.file .live old = some c → Fits known new c) :
    Named known (s.apply (.rename old new)) where
  files := by
    intro p m c hc
    rw [Store.file_rename] at hc
    split at hc
    · split at hc
      · rename_i hm
        rw [hm]
        exact hfits c hc
      · split at hc
        · cases hc
        · exact h.files .live m c hc
    · exact h.files p m c hc
  discarded := by
    intro m c hc
    have hsame : (s.apply (.rename old new)).discarded = s.discarded := by
      simp only [Store.apply]
      split <;> rfl
    rw [hsame] at hc
    exact h.discarded m c hc
  spent := by
    intro m r hr
    rw [Store.loaded_rename, if_neg (by simp)] at hr
    exact h.spent m r hr
  pending := by
    rw [Store.records_rename]
    exact h.pending
  placed := Store.placed_rename h.placed old new

theorem discard (h : Named known s) (n : String) : Named known (s.apply (.discard n)) where
  files := by
    intro p m c hc
    rw [Store.file_discard] at hc
    split at hc
    · cases hc
    · exact h.files p m c hc
  discarded := by
    intro m c hc
    cases hlive : s.live.lookup n with
    | none =>
      simp only [Store.apply, hlive] at hc
      exact h.discarded m c hc
    | some contents =>
      simp only [Store.apply, hlive] at hc
      by_cases hm : m = n
      · subst hm
        rw [AList.lookup_insert] at hc
        cases hc
        exact h.files .live m c hlive
      · rw [AList.lookup_insert_ne hm] at hc
        exact h.discarded m c hc
  spent := by
    intro m r hr
    rw [Store.loaded_discard, if_neg (by simp)] at hr
    exact h.spent m r hr
  pending := by
    rw [Store.records_discard]
    exact h.pending
  placed := Store.placed_discard h.placed n

omit [DecidableEq H] in
/-- Records come and go; their pending names stay fit. -/
theorem records (h : Named known s) {rs : List (TransactionRecord H)}
    (hrs : ∀ r ∈ rs, ∀ q ∈ r.pendingNames, SafeName q.finalName ∧ hasGeneratedShape q.finalName = false) :
    Named known { s with records := rs } where
  files := h.files
  discarded := h.discarded
  spent := h.spent
  pending := hrs
  placed := h.placed

theorem commit (h : Named known s) {r : TransactionRecord H}
    (hr : ∀ q ∈ r.pendingNames, SafeName q.finalName ∧ hasGeneratedShape q.finalName = false) :
    Named known (s.commit r) := by
  rw [Store.commit_eq]
  apply h.records
  intro r' hr'
  rcases Store.mem_commit hr' with rfl | ⟨hmem, -⟩
  · exact hr
  · exact h.pending r' hmem

theorem removeTransaction (h : Named known s) (t : H) : Named known (s.removeTransaction t) :=
  h.records fun r hr => h.pending r (List.mem_filter.mp hr).1

end Named

/-! ## Single files -/

/-- The live copy of an object is removed once its spent copy is written under the same name. -/
def MovesWhole (w : World H) : FsOp H → Answer → Prop
  | .remove .live n, a =>
    a = .done ∨ w.store.loaded .live n = none ∨ w.store.loaded .nullified n = none
  | _, _ => True

instance (w : World H) : (op : FsOp H) → (a : Answer) → Decidable (MovesWhole w op a)
  | .remove .live n, a => inferInstanceAs (Decidable (
      a = .done ∨ w.store.loaded .live n = none ∨ w.store.loaded .nullified n = none))
  | .remove .nullified _, _ | .write _ _ _, _ | .rename _ _, _ | .discard _, _ | .writePayload _, _
  | .commit _, _ | .removeTransaction _, _ => .isTrue trivial

/-- Nothing is written under the name of another object, and no file is renamed over one. -/
def Unsquatted (w : World H) : FsOp H → Prop
  | .write _ n record => ∀ p r, w.store.loaded p n = some r → r.obj = record.obj
  | .rename _ new => w.store.hasFile new = false
  | _ => True

/-- Where `strict` holds, moves are whole and no name is in both directories. -/
def Guard (strict : Prop) (w : World H) (op : FsOp H) (a : Answer) : Prop := strict → MovesWhole w op a

def Orderly (strict : Prop) (known : Object H → Prop) (w : World H) : Prop :=
  Named known w.store ∧ (strict → w.store.Single)

abbrev Tidy (strict : Prop) (A : World H → Prop) {α : Type} (m : Task H α) (Q : α → World H → Prop)
    (R : World H → Prop) : Prop :=
  Routine.Checked World.device (Guard strict) Unsquatted A m Q R

section

variable {strict : Prop} {known : Object H → Prop} {w₁ : World H}

omit [EncodeHex H] in
theorem parseStored_tidy {A R : World H → Prop} (name : String) (hR : ∀ w, A w → R w) :
    Tidy strict A (parseStored (H := H) name) (fun o w => A w ∧ w.store.stored name = o.map some) R := by
  refine Routine.Checked.get_bind fun w hw => ?_
  cases hs : w.store.stored name with
  | none => exact Routine.Checked.ret fun w' hw' => hw' ▸ ⟨hw, hs⟩
  | some c =>
    cases c with
    | none => exact Routine.Checked.throw fun w' hw' => hw' ▸ hR w hw
    | some record => exact Routine.Checked.ret fun w' hw' => hw' ▸ ⟨hw, hs⟩

omit [EncodeHex H] in
theorem parseLive_tidy {A R : World H → Prop} (name : String) (hR : ∀ w, A w → R w) :
    Tidy strict A (parseLive (H := H) name) (fun o w => A w ∧ w.store.file .live name = o.map some) R := by
  refine Routine.Checked.get_bind fun w hw => ?_
  cases hs : w.store.file .live name with
  | none => exact Routine.Checked.ret fun w' hw' => hw' ▸ ⟨hw, hs⟩
  | some c =>
    cases c with
    | none => exact Routine.Checked.throw fun w' hw' => hw' ▸ hR w hw
    | some record => exact Routine.Checked.ret fun w' hw' => hw' ▸ ⟨hw, hs⟩

omit [DecidableEq H] [EncodeHex H] in
theorem Store.Single.change {s s' : Store H} (h : s.Single) {n : String} {p : Place}
    (hothers : ∀ q m, m ≠ n → s'.loaded q m = s.loaded q m) (hn : s'.loaded p n = none) : s'.Single := by
  intro m
  by_cases hm : m = n
  · subst hm
    cases p with
    | live => exact .inl hn
    | nullified => exact .inr hn
  · rw [hothers .live m hm, hothers .nullified m hm]
    exact h m

theorem Place.other_ne (p : Place) : p.other ≠ p := by
  cases p <;> simp [Place.other]

/-- Other names are as they were, and this one is the object's. -/
structure Filed (s s' : Store H) (n : String) (record : ObjectRecord H) : Prop where
  others : ∀ p m, m ≠ n → s'.loaded p m = s.loaded p m
  owned : ∀ p r, s'.loaded p n = some r → r.obj = record.obj
  free : s.loaded record.place.other n = none → s'.loaded record.place.other n = none

theorem writeObjectFile_tidy {record : ObjectRecord H} {name : String} (h : Orderly strict known w₁)
    (hfits : Fits known name (some record))
    (hspent : record.isNullified = true → objectFileName record.cls record.obj = some name)
    (hclear : ∀ p r, w₁.store.loaded p name = some r → r.obj = record.obj)
    (hlive : strict → record.isNullified = false → w₁.store.loaded .nullified name = none) :
    Tidy strict (fun w => w = w₁) (writeObjectFile record name)
      (fun _ w => Orderly strict known w ∧ Filed w₁.store w.store name record) (Orderly strict known) := by
  refine Routine.Checked.bind (Q := fun _ w => w.store = w₁.store.apply (.write record.place name record))
    (Routine.Checked.perform ?_ ?_ ?_ ?_) fun _ => ?_
  · rintro w rfl
    exact hclear
  · rintro w rfl -
    rfl
  · rintro w rfl
    exact h
  · rintro w rfl -
    refine ⟨h.1.tear_write hfits.1 record.place record, fun hs => ?_⟩
    refine (h.2 hs).change (n := name) (p := record.place) (fun q m hm => ?_) ?_
    · show (w.store.tear (.write record.place name record)).loaded q m = _
      rw [Store.loaded_tear_write]
      simp [hm]
    · show (w.store.tear (.write record.place name record)).loaded record.place name = none
      rw [Store.loaded_tear_write]
      simp
  · -- the stale file: removed, or it was not there
    have hwritten : Named known (w₁.store.apply (.write record.place name record)) :=
      h.1.write hfits hspent
    have hothers : ∀ q m, m ≠ name →
        (w₁.store.apply (.write record.place name record)).loaded q m = w₁.store.loaded q m := by
      intro q m hm
      rw [Store.loaded_write]
      simp [hm]
    have hobj : ∀ q r, (w₁.store.apply (.write record.place name record)).loaded q name = some r →
        r.obj = record.obj := by
      intro q r hr
      rw [Store.loaded_write] at hr
      split at hr
      · cases hr
        rfl
      · exact hclear q r hr
    have hdone : ∀ w : World H, w.store = w₁.store.apply (.write record.place name record) →
        Orderly strict known { w with store := w.store.apply (.remove record.place.other name) } ∧
        Filed w₁.store (w.store.apply (.remove record.place.other name)) name record := by
      intro w hw
      have hremoved : ∀ q m, m ≠ name →
          (w.store.apply (.remove record.place.other name)).loaded q m = w₁.store.loaded q m := by
        intro q m hm
        rw [Store.loaded_remove, if_neg fun hqm => hm hqm.2, hw, hothers q m hm]
      refine ⟨⟨?_, fun hs => ?_⟩, hremoved, fun q r hr => ?_, fun _ => ?_⟩
      · show Named known (w.store.apply (.remove record.place.other name))
        rw [hw]
        exact hwritten.remove record.place.other name
      · refine (h.2 hs).change (p := record.place.other) hremoved ?_
        show (w.store.apply (.remove record.place.other name)).loaded record.place.other name = none
        rw [Store.loaded_remove]
        simp
      · rw [Store.loaded_remove, hw] at hr
        split at hr
        · cases hr
        · exact hobj q r hr
      · rw [Store.loaded_remove, if_pos ⟨rfl, rfl⟩]
    have hkept : ∀ w : World H, w.store = w₁.store.apply (.write record.place name record) →
        ∀ a, a ≠ .done → Guard strict w (.remove record.place.other name) a →
        Orderly strict known w ∧ Filed w₁.store w.store name record := by
      intro w hw a ha hguard
      rw [hw]
      refine ⟨⟨hw ▸ hwritten, fun hs => ?_⟩, hothers, hobj, fun hnone => ?_⟩
      rotate_left
      · rw [Store.loaded_write, if_neg fun hplace => record.place.other_ne hplace.1]
        exact hnone
      rw [hw]
      refine (h.2 hs).change (p := record.place.other) hothers ?_
      cases hp : record.place with
      | live =>
        rw [Store.loaded_write, if_neg (by simp [Place.other])]
        exact hlive hs (ObjectRecord.place_eq_live.mp hp)
      | nullified =>
        have hwhole := hguard hs
        rw [hp] at hwhole hw
        rcases hwhole with hg | hg | hg
        · exact absurd hg ha
        · rw [hw] at hg
          exact hg
        · rw [hw, Store.loaded_write] at hg
          simp at hg
    refine Routine.Checked.tryPerform (fun _ _ => trivial) (Routine.Triple.tryPerform ?_ ?_ ?_ ?_ ?_)
    · intro w hw _
      exact hdone w hw
    · intro w hw hg
      exact hkept w hw .failed (by simp) hg
    · intro w hw hg
      exact hkept w hw .torn (by simp) hg
    · intro w hw hg
      exact (hkept w hw .crashed (by simp) hg).1
    · intro w hw hg
      exact (hkept w hw .cut (by simp) hg).1

omit [DecidableEq H] in
theorem Orderly.of_fewer {w w' : World H} (h : Orderly strict known w)
    (hnamed : Named known w'.store)
    (hfewer : ∀ p n, w'.store.loaded p n = none ∨ w'.store.loaded p n = w.store.loaded p n) :
    Orderly strict known w' := by
  refine ⟨hnamed, fun hs n => ?_⟩
  rcases h.2 hs n with hn | hn
  · rcases hfewer .live n with hf | hf
    · exact .inl hf
    · exact .inl (hf.trans hn)
  · rcases hfewer .nullified n with hf | hf
    · exact .inr hf
    · exact .inr (hf.trans hn)

theorem removeLive_tidy (name : String) (e : DriverError) :
    Tidy strict (Orderly strict known) (Routine.perform (.remove .live name) e : Task H Unit)
      (fun _ => Orderly strict known) (Orderly strict known) := by
  refine Routine.Checked.perform (fun _ _ => trivial) (fun w hw _ => ?_) (fun _ hw => hw)
    fun _ hw _ => hw
  refine hw.of_fewer (hw.1.remove .live name) fun p n => ?_
  show (w.store.apply (.remove .live name)).loaded p n = none ∨
    (w.store.apply (.remove .live name)).loaded p n = _
  rw [Store.loaded_remove]
  split
  · exact .inl rfl
  · exact .inr rfl

variable (hhex : EncodesHex H) (hdistinct : DistinctPrefixes known)

include hhex hdistinct

/-- A spent object goes to its generated name, and no other name but its own is touched. -/
theorem nullifyObjectFile_tidy {record : ObjectRecord H} {name generated : String}
    (h : Orderly strict known w₁) (hnull : record.isNullified = true) (hknown : known record.obj)
    (hgenerated : objectFileName record.cls record.obj = some generated) :
    Tidy strict (fun w => w = w₁) (nullifyObjectFile record name)
      (fun _ w => Orderly strict known w ∧ ∀ p m, m ≠ generated → m ≠ name →
        w.store.loaded p m = w₁.store.loaded p m) (Orderly strict known) := by
  have hspent : record.spentName name = generated := by
    rw [ObjectRecord.spentName, hgenerated]
    rfl
  have hlive : strict → record.isNullified = false → w₁.store.loaded .nullified generated = none := by
    intro _ hfree
    rw [hnull] at hfree
    cases hfree
  unfold nullifyObjectFile
  dsimp only
  rw [hspent]
  refine Routine.Checked.bind (writeObjectFile_tidy h (.generated hhex hknown hgenerated rfl rfl)
    (fun _ => hgenerated) (fun p r hr => h.1.owner hhex hdistinct hr hknown hgenerated) hlive) fun _ => ?_
  split
  · refine Routine.Checked.bind (Q := fun _ w => Orderly strict known w ∧ ∀ p m, m ≠ generated →
      m ≠ name → w.store.loaded p m = w₁.store.loaded p m)
      (Routine.Checked.perform (fun _ _ => trivial) ?_ (fun w hw => hw.1) fun w hw _ => hw.1)
      fun _ => Routine.Checked.ret fun w hw => hw
    intro w hw _
    obtain ⟨hw, hfiled⟩ := hw
    have hremove := Store.loaded_remove w.store .live
    refine ⟨hw.of_fewer (hw.1.remove .live name) fun p m => ?_, fun p m hm hne => ?_⟩
    · show (w.store.apply (.remove .live name)).loaded p m = none ∨
        (w.store.apply (.remove .live name)).loaded p m = _
      rw [hremove]
      split
      · exact .inl rfl
      · exact .inr rfl
    · show (w.store.apply (.remove .live name)).loaded p m = _
      rw [hremove, if_neg fun hpm => hne hpm.2]
      exact hfiled.others p m hm
  · exact Routine.Checked.ret fun w hw => ⟨hw.1, fun p m hm _ => hw.2.others p m hm⟩

omit hhex hdistinct

theorem report_tidy (f : World H → Report) :
    Tidy strict (Orderly strict known) (Routine.modify fun w => { w with report := f w } : Task H Unit)
      (fun _ => Orderly strict known) (Orderly strict known) :=
  Routine.Checked.modify fun _ hw => hw

theorem commit_tidy {r : TransactionRecord H} (e : DriverError)
    (hr : ∀ q ∈ r.pendingNames, SafeName q.finalName ∧ hasGeneratedShape q.finalName = false) :
    Tidy strict (Orderly strict known) (Routine.perform (.commit r) e : Task H Unit)
      (fun _ => Orderly strict known) (Orderly strict known) := by
  refine Routine.Checked.perform (fun _ _ => trivial) (fun w hw _ => ?_) (fun _ hw => hw) fun _ hw _ => hw
  refine hw.of_fewer (hw.1.commit hr) fun p n => .inr ?_
  exact w.store.loaded_commit r p n

theorem removeTransaction_tidy (t : H) (e : DriverError) :
    Tidy strict (Orderly strict known) (Routine.perform (.removeTransaction t) e : Task H Unit)
      (fun _ => Orderly strict known) (Orderly strict known) := by
  have hgone : ∀ w : World H, Orderly strict known w →
      Orderly strict known { w with store := w.store.removeTransaction t } :=
    fun w hw => hw.of_fewer (hw.1.removeTransaction t) fun p n => .inr (by cases p <;> rfl)
  exact Routine.Checked.perform (fun _ _ => trivial) (fun w hw _ => hgone w hw) (fun _ hw => hw)
    fun w hw _ => hgone w hw

/-- A rename of a live file to a free name that fits its contents. -/
theorem renameLiveObjectFile_tidy {old new : String} (h : Orderly strict known w₁)
    (hfree : w₁.store.hasFile new = false) (hfits : ∀ c, w₁.store.file .live old = some c → Fits known new c) :
    Tidy strict (fun w => w = w₁) (renameLiveObjectFile old new) (fun _ => Orderly strict known)
      (Orderly strict known) := by
  refine Routine.Checked.get_bind fun w hw => ?_
  subst hw
  split
  · exact Routine.Checked.throw fun w' hw' => hw' ▸ h
  · refine Routine.Checked.perform (fun w' hw' => hw' ▸ hfree) ?_ (fun w' hw' => hw' ▸ h)
      fun w' hw' _ => hw' ▸ h
    rintro w' rfl -
    refine ⟨h.1.rename hfits, fun hs m => ?_⟩
    have hnone := Store.stored_eq_none_of_hasFile hfree
    show (w'.store.apply (.rename old new)).loaded .live m = none ∨
      (w'.store.apply (.rename old new)).loaded .nullified m = none
    rw [Store.loaded_rename, Store.loaded_rename]
    by_cases hm : m = new
    · right
      rw [if_neg (by simp), hm]
      exact Store.loaded_eq_none_of_stored hnone .nullified
    · rcases h.2 hs m with hl | hl
      · left
        split
        · split
          · rfl
          · exact hl
        · exact hl
      · right
        rw [if_neg (by simp)]
        exact hl

theorem removeUnknownOutputs_tidy (r : TransactionRecord H) :
    Tidy strict (Orderly strict known) (removeUnknownOutputs r) (fun _ => Orderly strict known)
      (Orderly strict known) := by
  refine Routine.Checked.forList fun name _ => ?_
  refine Routine.Checked.get_bind fun w hw => ?_
  refine Routine.Checked.imp (A := Orderly strict known) ?_ (fun w' hw' => hw' ▸ hw) (fun _ _ h => h)
    fun _ h => h
  split
  · split
    · exact (removeLive_tidy _ _).bind fun _ => report_tidy _
    · exact Routine.Checked.ret fun _ hw => hw
  · exact Routine.Checked.ret fun _ hw => hw

include hhex hdistinct

theorem persistInput_tidy (r : TransactionRecord H) (acc : List (String × String)) (name : String) :
    Tidy strict (Orderly strict known) (persistInput r acc name) (fun _ => Orderly strict known)
      (Orderly strict known) := by
  refine Routine.Checked.bind (parseStored_tidy name fun _ hw => hw) fun o => ?_
  cases o with
  | none => exact Routine.Checked.ret fun _ hw => hw.1
  | some record =>
    dsimp only
    split
    · exact Routine.Checked.ret fun _ hw => hw.1
    · refine Routine.Checked.of_state fun w hw => ?_
      obtain ⟨hknown, generated, hgenerated, -⟩ := (hw.1.1.stored hw.2).2 record rfl
      have hnull : ({ record with status := .nullified } : ObjectRecord H).isNullified = true := rfl
      have hspend : Tidy strict (fun x => x = w)
          (nullifyObjectFile { record with status := .nullified } name)
          (fun _ x => Orderly strict known x ∧ ∀ p m, m ≠ generated → m ≠ name →
            x.store.loaded p m = w.store.loaded p m) (Orderly strict known) :=
        nullifyObjectFile_tidy hhex hdistinct hw.1 hnull hknown hgenerated
      refine Routine.Checked.bind (Q := fun _ => Orderly strict known)
        (hspend.imp (fun _ h => h) (fun _ _ h => h.1) fun _ h => h) fun spentName => ?_
      split
      · refine (report_tidy _).bind fun _ => ?_
        exact (report_tidy _).bind fun _ => Routine.Checked.ret fun _ hw => hw
      · exact (report_tidy _).bind fun _ => Routine.Checked.ret fun _ hw => hw

/-- A file rewritten in place with the same object. -/
theorem rewrite_tidy {record record' : ObjectRecord H} {name : String} (h : Orderly strict known w₁)
    (hload : w₁.store.loaded record'.place name = some record) (hobj : record'.obj = record.obj)
    (hcls : record'.cls = record.cls) :
    Tidy strict (fun w => w = w₁) (writeObjectFile record' name)
      (fun _ w => Orderly strict known w ∧ Filed w₁.store w.store name record') (Orderly strict known) := by
  have hfits := h.1.loaded hload
  have hspent : record'.isNullified = true → objectFileName record'.cls record'.obj = some name := by
    intro hnull
    rw [ObjectRecord.place_eq_nullified.mpr hnull] at hload
    rw [hobj, hcls]
    exact h.1.spent name record hload
  refine writeObjectFile_tidy h (hfits.congr hobj hcls) hspent (fun p r hr => ?_) fun hs hlive => ?_
  · by_cases hp : p = record'.place
    · subst hp
      rw [hload] at hr
      cases hr
      exact hobj.symm
    · -- the file in the other directory: one of the two names is generated, so both are
      have hknown := (hfits.2 record rfl).1
      have hknown' := ((h.1.loaded hr).2 r rfl).1
      cases hplace : record'.place with
      | nullified =>
        rw [hplace] at hload
        rw [hobj]
        exact h.1.owner hhex hdistinct hr hknown (h.1.spent name record hload)
      | live =>
        have hother : p = .nullified := by
          rw [hplace] at hp
          cases p with
          | live => exact absurd rfl hp
          | nullified => rfl
        subst hother
        rw [hobj]
        exact (h.1.owner hhex hdistinct hload hknown' (h.1.spent name r hr)).symm
  · rcases h.2 hs name with hn | hn
    · rw [ObjectRecord.place_eq_live.mpr hlive, hn] at hload
      cases hload
    · exact hn

theorem persistOutput_tidy (r : TransactionRecord H) (name : String) :
    Tidy strict (Orderly strict known) (persistOutput r name) (fun _ => Orderly strict known)
      (Orderly strict known) := by
  refine Routine.Checked.bind (parseStored_tidy name fun _ hw => hw) fun o => ?_
  cases o with
  | none => exact Routine.Checked.ret fun _ hw => hw.1
  | some record =>
    dsimp only
    split
    · exact Routine.Checked.ret fun _ hw => hw.1
    · refine Routine.Checked.of_state fun w hw => ?_
      have hplace : (settledOutput r record).place = record.place := by
        unfold settledOutput ObjectRecord.place ObjectRecord.isNullified
        cases record.status <;> rfl
      have hload : w.store.loaded (settledOutput r record).place name = some record :=
        hplace ▸ Store.loaded_of_stored hw.1.1.placed hw.2
      refine Routine.Checked.bind (Q := fun _ => Orderly strict known)
        ((rewrite_tidy hhex hdistinct hw.1 hload rfl rfl).imp (fun _ h => h) (fun _ _ h => h.1)
          fun _ h => h) fun _ => report_tidy _

omit hhex hdistinct

/-- The final names of a record are no generated ones. -/
def FitPending (r : TransactionRecord H) : Prop :=
  ∀ q ∈ r.pendingNames, SafeName q.finalName ∧ hasGeneratedShape q.finalName = false

theorem finishPendingName_tidy (r : TransactionRecord H) (locked held : List String) {pending : PendingName}
    (hfinal : SafeName pending.finalName ∧ hasGeneratedShape pending.finalName = false) :
    Tidy strict (Orderly strict known) (finishPendingName r locked held pending)
      (fun _ => Orderly strict known) (Orderly strict known) := by
  refine Routine.Checked.bind (parseLive_tidy pending.fileName fun _ hw => hw) fun o => ?_
  cases o with
  | none => exact Routine.Checked.ret fun _ hw => hw.1
  | some record =>
    dsimp only
    split
    · exact Routine.Checked.ret fun _ hw => hw.1
    · split
      · exact Routine.Checked.ret fun _ hw => hw.1
      · refine Routine.Checked.get_bind fun w hw => ?_
        obtain ⟨hord, hfile⟩ := hw
        refine Routine.Checked.bind (Q := fun finalName w' => w' = w ∧ w.store.hasFile finalName = false ∧
          SafeName finalName ∧ hasGeneratedShape finalName = false)
          (Routine.Checked.lift (fun name w' hok hw' => ?_) fun w' hw' => hw' ▸ hord) fun finalName => ?_
        · exact ⟨hw', uniqueFileName_free hok, uniqueFileName_form hok hfinal.1 hfinal.2⟩
        · refine Routine.Checked.of_state fun w' hw' => ?_
          obtain ⟨rfl, hfree, hsafe, hform⟩ := hw'
          have hfits : ∀ c, w'.store.file .live pending.fileName = some c → Fits known finalName c := by
            intro c hc
            rw [hfile] at hc
            cases hc
            exact (hord.1.files .live _ _ hfile).chosen hsafe hform
          refine Routine.Checked.bind (renameLiveObjectFile_tidy hord hfree hfits) fun _ => ?_
          refine (report_tidy _).bind fun _ => ?_
          exact (report_tidy _).bind fun _ => Routine.Checked.ret fun _ hw => hw

omit [DecidableEq H] [EncodeHex H] in
theorem finishNames_fit {r : TransactionRecord H} (h : FitPending r) (fs : List (PendingName × Finished)) :
    FitPending (fs.foldl (fun r f => finishName r f.1 f.2) r) := by
  induction fs generalizing r with
  | nil => exact h
  | cons f fs ih =>
    apply ih
    intro q hq
    obtain ⟨pending, outcome⟩ := f
    cases outcome with
    | kept => exact h q hq
    | dropped => exact h q (List.mem_filter.mp hq).1
    | renamed finalName => exact h q (List.mem_filter.mp hq).1

theorem finishPendingNames_tidy {r : TransactionRecord H} (hr : FitPending r) (locked : List String) :
    Tidy strict (Orderly strict known) (finishPendingNames r locked)
      (fun res w => FitPending res.1 ∧ Orderly strict known w) (Orderly strict known) := by
  unfold finishPendingNames
  split
  · exact Routine.Checked.ret fun _ hw => ⟨hr, hw⟩
  · refine Routine.Checked.get_bind fun w hw => ?_
    refine Routine.Checked.imp (A := Orderly strict known) ?_ (fun w' hw' => hw' ▸ hw) (fun _ _ h => h)
      fun _ h => h
    refine Routine.Checked.bind (Q := fun _ => Orderly strict known) ?_ fun finished =>
      Routine.Checked.ret fun _ hw => ⟨finishNames_fit hr _, hw⟩
    refine Routine.Checked.foldList (I := fun _ => Orderly strict known) fun finished pending hpending => ?_
    exact (finishPendingName_tidy r locked _ (hr pending hpending)).bind fun _ =>
      Routine.Checked.ret fun _ hw => hw

include hhex hdistinct

theorem persistSettledObjects_tidy {r : TransactionRecord H} (hr : FitPending r) (locked : List String) :
    Tidy strict (Orderly strict known) (persistSettledObjects r locked)
      (fun res w => FitPending res.1 ∧ Orderly strict known w) (Orderly strict known) := by
  unfold persistSettledObjects
  split
  · refine Routine.Checked.bind (Q := fun _ => Orderly strict known)
      (Routine.Checked.forList fun name _ => ?_) fun _ => ?_
    · refine Routine.Checked.bind (parseLive_tidy name fun _ hw => hw) fun _ => ?_
      exact Routine.Checked.ret fun _ hw => hw.1
    · exact (removeUnknownOutputs_tidy r).bind fun _ => Routine.Checked.ret fun _ hw => ⟨hr, hw⟩
  · refine Routine.Checked.bind (Q := fun _ => Orderly strict known)
      (Routine.Checked.foldList (I := fun _ => Orderly strict known) fun acc name _ =>
        persistInput_tidy hhex hdistinct r acc name) fun spentNames => ?_
    refine Routine.Checked.bind (Q := fun _ => Orderly strict known)
      (Routine.Checked.forList fun name _ => persistOutput_tidy hhex hdistinct r name) fun _ => ?_
    refine Routine.Checked.bind (finishPendingNames_tidy ?_ locked) fun res =>
      Routine.Checked.ret fun _ hw => hw
    exact hr

theorem persistRecord_tidy {r : TransactionRecord H} (hr : FitPending r) (locked : List String) :
    Tidy strict (Orderly strict known) (persistRecord locked r) (fun _ => Orderly strict known)
      (Orderly strict known) := by
  have hreport : ∀ names : List String, Tidy strict (Orderly strict known)
      (Routine.forList (reportChanged (H := H)) names) (fun _ => Orderly strict known)
      (Orderly strict known) := fun names => Routine.Checked.forList fun _ _ => report_tidy _
  unfold persistRecord
  split
  · refine Routine.Checked.bind (persistSettledObjects_tidy hhex hdistinct hr locked).attempt fun o => ?_
    cases o with
    | error e => exact hreport _
    | ok res =>
      obtain ⟨r', changed⟩ := res
      cases changed with
      | false => exact (hreport _).imp (fun _ hw => hw.2) (fun _ _ h => h) fun _ h => h
      | true =>
        refine Routine.Checked.of_state fun w hw => ?_
        refine Routine.Checked.imp (A := Orderly strict known) ?_ (fun w' hw' => hw' ▸ hw.2)
          (fun _ _ h => h) fun _ h => h
        exact (commit_tidy _ hw.1).bind fun _ => hreport _
  · exact Routine.Checked.ret fun _ hw => hw

omit hhex hdistinct

theorem cache_tidy (f : World H → World H) (hf : ∀ w, (f w).store = w.store) :
    Tidy strict (Orderly strict known) (Routine.modify f : Task H Unit) (fun _ => Orderly strict known)
      (Orderly strict known) := by
  refine Routine.Checked.modify fun w hw => ?_
  unfold Orderly
  rw [hf]
  exact hw

include hhex hdistinct

theorem persistAndCommit_tidy {r : TransactionRecord H} (hr : FitPending r) (locked : List String) :
    Tidy strict (Orderly strict known) (persistAndCommit r locked) (fun _ => Orderly strict known)
      (Orderly strict known) := by
  refine Routine.Checked.bind (persistSettledObjects_tidy hhex hdistinct hr locked) fun res => ?_
  refine Routine.Checked.of_state fun w hw => ?_
  refine Routine.Checked.imp (A := Orderly strict known) ?_ (fun w' hw' => hw' ▸ hw.2) (fun _ _ h => h)
    fun _ h => h
  obtain ⟨r', changed⟩ := res
  cases changed with
  | false => exact Routine.Checked.ret fun _ hw => hw
  | true => exact (commit_tidy _ hw.1).bind fun _ => Routine.Checked.ret fun _ hw => hw

theorem pruneRecord_tidy {r : TransactionRecord H} (hr : FitPending r) (now : Nat) (locked : List String) :
    Tidy strict (Orderly strict known) (pruneRecord now locked r) (fun _ => Orderly strict known)
      (Orderly strict known) := by
  refine Routine.Checked.get_bind fun w hw => ?_
  refine Routine.Checked.imp (A := Orderly strict known) ?_ (fun w' hw' => hw' ▸ hw) (fun _ _ h => h)
    fun _ h => h
  dsimp only
  split
  · refine Routine.Checked.bind (persistAndCommit_tidy hhex hdistinct hr locked).attempt fun o => ?_
    cases o with
    | error e => exact cache_tidy _ fun _ => rfl
    | ok r' =>
      refine Routine.Checked.bind (cache_tidy (remember r') fun _ => rfl) fun _ => ?_
      split
      · refine Routine.Checked.bind (removeTransaction_tidy _ _).attempt fun o => ?_
        cases o with
        | error e => exact Routine.Checked.ret fun _ hw => hw
        | ok u => exact cache_tidy _ fun _ => rfl
      · exact Routine.Checked.ret fun _ hw => hw
  · exact Routine.Checked.ret fun _ hw => hw

theorem pruneTransactions_tidy (now : Nat) :
    Tidy strict (Orderly strict known) (pruneTransactions (H := H) now) (fun _ => Orderly strict known)
      (Orderly strict known) := by
  refine Routine.Checked.get_bind fun w hw => ?_
  refine Routine.Checked.imp (A := Orderly strict known) ?_ (fun w' hw' => hw' ▸ hw) (fun _ _ h => h)
    fun _ h => h
  refine Routine.Checked.bind (Q := fun _ => Orderly strict known) (cache_tidy _ fun _ => rfl) fun _ => ?_
  refine Routine.Checked.forList fun r hr => pruneRecord_tidy hhex hdistinct ?_ now _
  exact hw.1.pending r (List.mem_filter.mp hr).1

/-! ## The pass over all files -/

omit hhex hdistinct

/-- A file that the pass has yet to see: under a chosen name it is as it was loaded, under a
generated name its object is not in the other directory, unless it is spent. -/
structure Ahead (strict : Prop) (known : Object H → Prop) (x : Settlement H) (s : Store H)
    (e : String × ObjectRecord H) : Prop where
  fits : Fits known e.1 (some e.2)
  spent : e.2.isNullified = true → objectFileName e.2.cls e.2.obj = some e.1
  chosen : hasGeneratedShape e.1 = false → s.loaded .live e.1 = some e.2
  unspent : strict → e.2.isNullified = false →
    s.loaded .nullified e.1 = none ∨ ∃ m ∈ x.membership, m.spends e.2.obj = true

def InPass (strict : Prop) (known : Object H → Prop) (x : Settlement H) (rest : List (String × ObjectRecord H))
    (w : World H) : Prop :=
  Orderly strict known w ∧ (rest.map Prod.fst).Nodup ∧ ∀ e ∈ rest, Ahead strict known x w.store e

variable {x : Settlement H}

theorem Ahead.congr {s s' : Store H} {e : String × ObjectRecord H} (h : Ahead strict known x s e)
    (hs : ∀ p, s'.loaded p e.1 = s.loaded p e.1) : Ahead strict known x s' e where
  fits := h.fits
  spent := h.spent
  chosen := by
    rw [hs]
    exact h.chosen
  unspent := by
    rw [hs]
    exact h.unspent

theorem InPass.report {rest : List (String × ObjectRecord H)} (f : World H → Report) :
    Tidy strict (InPass strict known x rest) (Routine.modify fun w => { w with report := f w } : Task H Unit)
      (fun _ => InPass strict known x rest) (Orderly strict known) :=
  Routine.Checked.modify fun _ hw => hw

include hhex hdistinct

theorem reconcileEntry_tidy (records : List (TransactionRecord H)) (entry : String × ObjectRecord H)
    (rest : List (String × ObjectRecord H)) :
    Tidy strict (InPass strict known x (entry :: rest)) (reconcileEntry x records entry)
      (fun _ => InPass strict known x rest) (Orderly strict known) := by
  refine Routine.Checked.of_state fun w hw => ?_
  obtain ⟨hord, hnodup, hahead⟩ := hw
  obtain ⟨hfresh, hrest⟩ := List.nodup_cons.mp hnodup
  have hentry := hahead entry (by simp)
  have hothers : ∀ e ∈ rest, e.1 ≠ entry.1 ∧ Ahead strict known x w.store e := by
    intro e he
    refine ⟨fun heq => hfresh ?_, hahead e (List.mem_cons_of_mem _ he)⟩
    rw [← heq]
    exact List.mem_map_of_mem he
  obtain ⟨hknown, generated, hgenerated, hform⟩ := hentry.fits.2 entry.2 rfl
  unfold reconcileEntry
  dsimp only
  split
  · exact Routine.Checked.ret fun w' hw' => hw' ▸ ⟨hord, hrest, fun e he => (hothers e he).2⟩
  · split
    · rename_i hspent
      simp only [Bool.and_eq_true, Bool.not_eq_true'] at hspent
      obtain ⟨m, hm, hmspent⟩ := newly_spent hspent.1 hspent.2
      refine Routine.Checked.bind (Q := fun _ => InPass strict known x rest)
        ((nullifyObjectFile_tidy hhex hdistinct hord hspent.1 hknown hgenerated).imp (fun _ h => h) ?_
          fun _ h => h) fun spentName => ?_
      · intro _ w' hw'
        obtain ⟨hw', hsame⟩ := hw'
        refine ⟨hw', hrest, fun e he => ?_⟩
        obtain ⟨hne, hbefore⟩ := hothers e he
        by_cases hname : e.1 = generated
        · -- the same object, spent as well
          have hobj : e.2.obj = entry.2.obj :=
            hbefore.fits.owner hhex hdistinct hknown (hname ▸ hgenerated)
          refine ⟨hbefore.fits, hbefore.spent, fun hshape => ?_, fun _ _ => .inr ⟨m, hm, ?_⟩⟩
          · rw [hname, (objectFileName_form hhex hgenerated).2] at hshape
            cases hshape
          · rw [hobj]
            exact hmspent
        · exact hbefore.congr fun p => hsame p e.1 hname hne
      · have hreport : Tidy strict (InPass strict known x rest) (reportChanged (H := H) spentName)
            (fun _ => InPass strict known x rest) (Orderly strict known) := InPass.report _
        split
        · exact (InPass.report _).bind fun _ => hreport
        · exact hreport
    · rename_i hsame
      have hobj : (reconciledEntry x records entry.2).obj = entry.2.obj := rfl
      have hcls : (reconciledEntry x records entry.2).cls = entry.2.cls := rfl
      have hspent : (reconciledEntry x records entry.2).isNullified = true →
          objectFileName entry.2.cls entry.2.obj = some entry.1 := by
        intro hnull
        refine hentry.spent ?_
        by_contra hfree
        simp [hnull, hfree] at hsame
      -- a chosen name is no spent object's
      have hunspent : ∀ r, hasGeneratedShape entry.1 = false → w.store.loaded .nullified entry.1 ≠ some r := by
        intro r hshape hr
        have hname := hord.1.spent entry.1 r hr
        rw [(objectFileName_form hhex hname).2] at hshape
        cases hshape
      have hclear : ∀ p r, w.store.loaded p entry.1 = some r →
          r.obj = (reconciledEntry x records entry.2).obj := by
        intro p r hr
        rw [hobj]
        rcases hform with hname | hshape
        · exact hord.1.owner hhex hdistinct hr hknown (hname ▸ hgenerated)
        · cases p with
          | live =>
            rw [hentry.chosen hshape] at hr
            cases hr
            rfl
          | nullified => exact absurd hr (hunspent r hshape)
      have hlive : strict → (reconciledEntry x records entry.2).isNullified = false →
          w.store.loaded .nullified entry.1 = none := by
        intro hs hfree
        have hrank := reconciledEntry_rank x records entry.2
        have hfree' : entry.2.isNullified = false := by
          by_contra hnull
          have hnull' : entry.2.isNullified = true := by simpa using hnull
          have hrank' := Nat.le_trans (ObjectRecord.isNullified_iff_rank.mp hnull') hrank
          rw [ObjectRecord.isNullified_iff_rank.mpr hrank'] at hfree
          cases hfree
        rcases hentry.unspent hs hfree' with hnone | ⟨m, hm, hmspent⟩
        · exact hnone
        · have hstatus : (reconciledEntry x records entry.2).status = .nullified :=
            reconciledEntry_spent hm hmspent
          simp [ObjectRecord.isNullified, hstatus] at hfree
      refine Routine.Checked.bind (Q := fun _ => InPass strict known x rest)
        ((writeObjectFile_tidy hord (hentry.fits.congr hobj hcls) hspent hclear hlive).imp (fun _ h => h) ?_
          fun _ h => h) fun _ => InPass.report _
      intro _ w' hw'
      obtain ⟨hw', hfiled⟩ := hw'
      refine ⟨hw', hrest, fun e he => ?_⟩
      obtain ⟨hne, hbefore⟩ := hothers e he
      exact hbefore.congr fun p => hfiled.others p e.1 hne

omit hhex hdistinct in
theorem settleRecords_tidy (now : Nat) {records : List (TransactionRecord H)}
    (hrecords : ∀ r ∈ records, FitPending r) :
    Tidy strict (Orderly strict known) (settleRecords x now records) (fun _ => Orderly strict known)
      (Orderly strict known) := by
  refine Routine.Checked.forList fun r hr => ?_
  split
  · exact Routine.Checked.ret fun _ hw => hw
  · apply commit_tidy
    rw [(settled_sameFiles x now r).pendingNames]
    exact hrecords r hr

theorem settleWith_tidy (now : Nat) :
    Tidy strict (Orderly strict known) (settleWith x now) (fun _ => Orderly strict known)
      (Orderly strict known) := by
  refine Routine.Checked.get_bind fun w hw => ?_
  refine Routine.Checked.imp (A := Orderly strict known) ?_ (fun w' hw' => hw' ▸ hw) (fun _ _ h => h)
    fun _ h => h
  have hrecords : ∀ r ∈ w.store.records, FitPending r := hw.1.pending
  refine Routine.Checked.bind (settleRecords_tidy now hrecords) fun _ => ?_
  refine Routine.Checked.bind (Q := fun _ => Orderly strict known)
    (Routine.Checked.forList fun r hr => persistRecord_tidy hhex hdistinct ?_ _) fun _ => ?_
  · obtain ⟨r', hr', rfl⟩ := List.mem_map.mp hr
    unfold FitPending
    rw [(settled_sameFiles x now r').pendingNames]
    exact hrecords r' (List.mem_filter.mp hr').1
  refine Routine.Checked.get_bind fun w₁ hw₁ => ?_
  refine Routine.Checked.bind (Q := fun entries w' => w' = w₁ ∧ w₁.store.loadObjectFiles = .ok entries)
    (Routine.Checked.lift (fun entries w' hok hw' => ⟨hw', hok⟩) fun w' hw' => hw' ▸ hw₁) fun entries => ?_
  refine Routine.Checked.imp (A := InPass strict known x entries) ?_ ?_ (fun _ _ h => h) fun _ h => h
  · exact (Routine.Checked.forList_rest (I := InPass strict known x) fun entry rest =>
      reconcileEntry_tidy hhex hdistinct _ entry rest).imp (fun _ h => h) (fun _ _ h => h.1) fun _ h => h
  · rintro w' ⟨rfl, hload⟩
    obtain ⟨hplaced, hsingle, hnodup, hentries⟩ := Store.loadObjectFiles_ok hload
    refine ⟨hw₁, hnodup, fun e he => ?_⟩
    obtain ⟨p, hp⟩ := (hentries e.1 e.2).mp he
    have hplace := hplaced p e.1 e.2 hp
    refine ⟨hw₁.1.loaded hp, fun hnull => ?_, fun hshape => ?_, fun _ hfree => .inl ?_⟩
    · rw [ObjectRecord.place_eq_nullified.mpr hnull] at hplace
      subst hplace
      exact hw₁.1.spent e.1 e.2 hp
    · cases p with
      | live => exact hp
      | nullified =>
        have hname := hw₁.1.spent e.1 e.2 hp
        rw [(objectFileName_form hhex hname).2] at hshape
        cases hshape
    · rw [ObjectRecord.place_eq_live.mpr hfree] at hplace
      subst hplace
      rcases hsingle e.1 with hnone | hnone
      · rw [hp] at hnone
        cases hnone
      · exact hnone

/-! ## Recording -/

omit hhex hdistinct

/-- The names of the outputs: the generated one, or one of its own that no other output has. -/
structure OutputNames (generated : List String) (acc : List String × List PendingName) : Prop where
  names : ∀ (i : Nat) (n : String), acc.1[i]? = some n → generated[i]? = some n ∨
    SafeName n ∧ hasGeneratedShape n = false ∧ ∀ j, acc.1[j]? = some n → j = i
  pending : ∀ q ∈ acc.2, SafeName q.finalName ∧ hasGeneratedShape q.finalName = false

omit [DecidableEq H] in
theorem pendingOutput_names {s : Store H} {entries : List (String × ObjectRecord H)}
    (hentries : ∀ e ∈ entries, Fits known e.1 (some e.2)) {inputs generated : List String}
    {acc acc' : List String × List PendingName} {slots : MutatedObjectSlots}
    (h : pendingOutput s entries inputs acc slots = .ok acc') (hacc : OutputNames generated acc) :
    OutputNames generated acc' := by
  unfold pendingOutput at h
  split at h
  · cases h
    exact hacc
  · rename_i input hinput
    split at h
    · rename_i hcustom
      simp only [Bool.and_eq_true, List.any_eq_true, decide_eq_true_eq] at hcustom
      obtain ⟨⟨e, he, hename, hchosen⟩, hindex⟩ := hcustom
      -- the name that the input passes on is a chosen one
      have hfinal : SafeName input ∧ hasGeneratedShape input = false := by
        have hfits := hentries e he
        rw [hename] at hfits
        refine ⟨hfits.1, ?_⟩
        obtain ⟨-, name, hname, hform⟩ := hfits.2 e.2 rfl
        rcases hform with heq | hshape
        · simp [hasCustomFileName, hname, heq] at hchosen
        · exact hshape
      split at h
      · cases h
      · rename_i pending hpending
        cases h
        have hnew : pending ∉ acc.1 := by
          have hfree := uniqueFileName_free hpending
          simp only [Bool.or_eq_false_iff, decide_eq_false_iff_not] at hfree
          exact hfree.2
        obtain ⟨hsafe, hform⟩ := pendingFileName_form hpending hfinal.1
        refine ⟨fun i n hn => ?_, fun q hq => ?_⟩
        · simp only [List.getElem?_set] at hn ⊢
          split at hn
          · rename_i hi
            cases hn
            refine .inr ⟨hsafe, hform, fun j hj => ?_⟩
            split at hj
            · rename_i hij
              exact hij.symm.trans hi
            · exact absurd (List.mem_of_getElem? hj) hnew
          · rcases hacc.names i n hn with hgen | ⟨hsafe', hform', hone⟩
            · exact .inl hgen
            · refine .inr ⟨hsafe', hform', fun j hj => ?_⟩
              split at hj
              · cases hj
                exact absurd (List.mem_of_getElem? hn) hnew
              · exact hone j hj
        · rcases List.mem_append.mp hq with hq | hq
          · exact hacc.pending q hq
          · rw [List.mem_singleton.mp hq]
            exact hfinal
    · cases h
      exact hacc

omit [DecidableEq H] in
theorem pendingOutputs_names {s : Store H} {entries : List (String × ObjectRecord H)}
    (hentries : ∀ e ∈ entries, Fits known e.1 (some e.2)) {inputs generated : List String}
    {slots : List MutatedObjectSlots} {acc acc' : List String × List PendingName}
    (h : slots.foldlM (pendingOutput s entries inputs) acc = .ok acc') (hacc : OutputNames generated acc) :
    OutputNames generated acc' := by
  induction slots generalizing acc with
  | nil =>
    cases h
    exact hacc
  | cons slot slots ih =>
    rw [List.foldlM_cons] at h
    obtain ⟨acc₁, hstep, hrest⟩ := except_bind_eq_ok.mp h
    exact ih hrest (pendingOutput_names hentries hstep hacc)

/-- Outputs that are still to be written: nothing else is under their names. -/
def Writing (strict : Prop) (known : Object H → Prop) (outputs : List (ObjectRecord H × String)) (w : World H) :
    Prop :=
  Orderly strict known w ∧ ∀ o ∈ outputs, (∀ p r, w.store.loaded p o.2 = some r → r.obj = o.1.obj) ∧
    w.store.loaded .nullified o.2 = none

theorem writeOutputs_tidy {outputs : List (ObjectRecord H × String)} (attempted : List String)
    (hfits : ∀ o ∈ outputs, o.1.isNullified = false ∧ Fits known o.2 (some o.1))
    (hsame : ∀ o ∈ outputs, ∀ o' ∈ outputs, o.2 = o'.2 → o.1.obj = o'.1.obj) :
    Tidy strict (Writing strict known outputs) (writeOutputs attempted outputs)
      (fun _ => Orderly strict known) (Orderly strict known) := by
  induction outputs generalizing attempted with
  | nil => exact Routine.Checked.ret fun _ hw => hw.1
  | cons output rest ih =>
    obtain ⟨record, name⟩ := output
    obtain ⟨hlive, hname⟩ := hfits (record, name) (by simp)
    have hplace := ObjectRecord.place_eq_live.mpr hlive
    refine Routine.Checked.of_state fun w hw => ?_
    obtain ⟨hord, hfree⟩ := hw
    obtain ⟨hclear, hunspent⟩ := hfree (record, name) (by simp)
    have hspent : record.isNullified = true → objectFileName record.cls record.obj = some name := by
      intro hnull
      rw [hlive] at hnull
      cases hnull
    refine Routine.Checked.bind (writeObjectFile_tidy hord hname hspent hclear
      fun _ _ => hunspent).attempt fun o => ?_
    cases o with
    | error e => exact Routine.Checked.ret fun _ hw => hw
    | ok u =>
      refine Routine.Checked.imp (ih (attempted ++ [name])
        (fun o ho => hfits o (List.mem_cons_of_mem _ ho))
        fun o ho o' ho' => hsame o (List.mem_cons_of_mem _ ho) o' (List.mem_cons_of_mem _ ho')) ?_
        (fun _ _ h => h) fun _ h => h
      intro w' hw'
      obtain ⟨hord', hfiled⟩ := hw'
      refine ⟨hord', fun o ho => ?_⟩
      obtain ⟨hclear', hunspent'⟩ := hfree o (List.mem_cons_of_mem _ ho)
      by_cases heq : o.2 = name
      · have hobj : o.1.obj = record.obj :=
          hsame o (List.mem_cons_of_mem _ ho) (record, name) (by simp) heq
        rw [heq, hobj]
        have hother := hfiled.free
        rw [hplace] at hother
        exact ⟨hfiled.owned, hother hunspent⟩
      · constructor
        · intro p r hr
          rw [hfiled.others p o.2 heq] at hr
          exact hclear' p r hr
        · rw [hfiled.others .nullified o.2 heq]
          exact hunspent'

theorem rollbackRecord_tidy (t : H) (attempted : List String) (e : DriverError) :
    Tidy strict (Orderly strict known) (rollbackRecord t attempted e) (fun _ => Orderly strict known)
      (Orderly strict known) := by
  have hremove : ∀ name : String, Tidy strict (Orderly strict known)
      (Routine.tryPerform (.remove .live name) : Task H Unit) (fun _ => Orderly strict known)
      (Orderly strict known) := by
    intro name
    refine Routine.Checked.tryPerform (fun _ _ => trivial) (Routine.Triple.tryPerform (fun w hw _ => ?_)
      (fun _ hw _ => hw) (fun _ hw _ => hw) (fun _ hw _ => hw) fun _ hw _ => hw)
    refine hw.of_fewer (hw.1.remove .live name) fun p n => ?_
    show (w.store.apply (.remove .live name)).loaded p n = none ∨
      (w.store.apply (.remove .live name)).loaded p n = _
    rw [Store.loaded_remove]
    split
    · exact .inl rfl
    · exact .inr rfl
  have hgone : ∀ w : World H, Orderly strict known w →
      Orderly strict known { w with store := w.store.removeTransaction t } :=
    fun w hw => hw.of_fewer (hw.1.removeTransaction t) fun p n => .inr (by cases p <;> rfl)
  refine Routine.Checked.bind (Routine.Checked.forList fun name _ => hremove name) fun _ => ?_
  refine Routine.Checked.bind (Q := fun _ => Orderly strict known) ?_ fun _ =>
    Routine.Checked.throw fun _ hw => hw
  exact Routine.Checked.tryPerform (fun _ _ => trivial) (Routine.Triple.tryPerform
    (fun w hw _ => hgone w hw) (fun _ hw _ => hw) (fun w hw _ => hgone w hw) (fun _ hw _ => hw)
    fun w hw _ => hgone w hw)

theorem writeTransaction_tidy {r : TransactionRecord H} (hr : FitPending r)
    {outputs : List (ObjectRecord H × String)}
    (hfits : ∀ o ∈ outputs, o.1.isNullified = false ∧ Fits known o.2 (some o.1))
    (hsame : ∀ o ∈ outputs, ∀ o' ∈ outputs, o.2 = o'.2 → o.1.obj = o'.1.obj) :
    Tidy strict (Writing strict known outputs) (writeTransaction r outputs)
      (fun _ => Orderly strict known) (Orderly strict known) := by
  refine Routine.Checked.bind (writeOutputs_tidy [] hfits hsame) fun res => ?_
  obtain ⟨attempted, failure⟩ := res
  cases failure with
  | some e => exact rollbackRecord_tidy _ _ e
  | none =>
    have hcommit : Tidy strict (Orderly strict known) (commitTransaction r) (fun _ => Orderly strict known)
        (Orderly strict known) := by
      refine Routine.Checked.bind (Q := fun _ => Orderly strict known) ?_ fun _ => commit_tidy _ hr
      exact Routine.Checked.perform (fun _ _ => trivial) (fun _ hw _ => hw) (fun _ hw => hw) fun _ hw _ => hw
    refine Routine.Checked.bind hcommit.attempt fun o => ?_
    cases o with
    | error e => exact rollbackRecord_tidy _ _ e
    | ok u => exact Routine.Checked.ret fun _ hw => hw

include hhex hdistinct

theorem record_tidy {proved : ProvedTransaction H} (hproved : ∀ o ∈ proved.outputs, known o.2)
    (owner : String) (inputs : List String) (now : Nat) :
    Tidy strict (Orderly strict known) (record proved owner inputs now) (fun _ => Orderly strict known)
      (Orderly strict known) := by
  refine Routine.Checked.bind (Q := fun generated w => proved.outputFiles = .ok generated ∧
    Orderly strict known w) (Routine.Checked.lift (fun _ w hok hw => ⟨hok, hw⟩) fun w hw => hw)
    fun generated => ?_
  refine Routine.Checked.get_bind fun w hw => ?_
  obtain ⟨hgenerated, hord⟩ := hw
  have hthrow : ∀ e : DriverError, Tidy strict (fun w' : World H => w' = w) (.throw e : Task H Unit)
      (fun _ => Orderly strict known) (Orderly strict known) :=
    fun e => Routine.Checked.throw fun w' hw' => hw' ▸ hord
  refine Routine.Checked.bind (Q := fun entries w' => w.store.loadObjectFiles = .ok entries ∧ w' = w)
    (Routine.Checked.lift (fun _ w' hok hw' => ⟨hok, hw'⟩) fun w' hw' => hw' ▸ hord) fun entries => ?_
  refine Routine.Checked.bind (Q := fun _ w' => w.store.loadObjectFiles = .ok entries ∧ w' = w)
    (Routine.Checked.lift (fun _ w' _ hw' => hw') fun w' hw' => hw'.2 ▸ hord) fun _ => ?_
  split
  · exact Routine.Checked.throw fun w' hw' => hw'.2 ▸ hord
  · split
    · exact Routine.Checked.throw fun w' hw' => hw'.2 ▸ hord
    · rename_i hfree
      have hnone : ∀ n ∈ generated, w.store.stored n = none := by simpa using hfree
      refine Routine.Checked.of_state fun w' hw' => ?_
      obtain ⟨hload, rfl⟩ := hw'
      obtain ⟨-, -, -, hloaded⟩ := Store.loadObjectFiles_ok hload
      have hentries : ∀ e ∈ entries, Fits known e.1 (some e.2) := by
        intro e he
        obtain ⟨p, hp⟩ := (hloaded e.1 e.2).mp he
        exact hord.1.loaded hp
      refine Routine.Checked.bind (Q := fun res w => w = w' ∧ OutputNames generated res ∧
        ∀ n ∈ res.1, w'.store.stored n = none)
        (Routine.Checked.lift ?_ fun w hw => hw ▸ hord) fun res => ?_
      · rintro res w hok rfl
        exact ⟨rfl, pendingOutputs_names hentries hok ⟨fun i n hn => .inl hn, by simp⟩,
          pendingOutputs_free hok hnone⟩
      · obtain ⟨outputFiles, pendingNames⟩ := res
        refine Routine.Checked.of_state fun w hw => ?_
        obtain ⟨rfl, hnames, hnew⟩ := hw
        -- each output with its name, by position
        have hat : ∀ o ∈ (proved.outputs.map (unknownOutput proved)).zip outputFiles, ∃ (i : Nat) (output : QualifiedName × Object H),
            proved.outputs[i]? = some output ∧ o.1 = unknownOutput proved output ∧
            outputFiles[i]? = some o.2 ∧ ∃ name : String, generated[i]? = some name ∧
              objectFileName output.1 output.2 = some name := by
          intro o ho
          obtain ⟨i, hi⟩ := List.mem_iff_getElem?.mp ho
          obtain ⟨hout, hname⟩ := List.getElem?_zip_eq_some.mp hi
          rw [List.getElem?_map] at hout
          obtain ⟨output, houtput, hrecord⟩ := Option.map_eq_some_iff.mp hout
          obtain ⟨name, hgen, hfile⟩ := forall₂_getElem? (forall₂_mapM hgenerated) houtput
          refine ⟨i, output, houtput, hrecord.symm, hname, name, hgen, ?_⟩
          cases hobj : objectFileName output.1 output.2 with
          | none =>
            rw [hobj] at hfile
            cases hfile
          | some name' =>
            rw [hobj] at hfile
            cases hfile
            rfl
        have hfits : ∀ o ∈ (proved.outputs.map (unknownOutput proved)).zip outputFiles,
            o.1.isNullified = false ∧ Fits known o.2 (some o.1) := by
          intro o ho
          obtain ⟨i, output, houtput, hrecord, hname, name, hgen, hfile⟩ := hat o ho
          rw [hrecord]
          refine ⟨rfl, ?_⟩
          have hknown := hproved output (List.mem_of_getElem? houtput)
          rcases hnames.names i o.2 hname with hsame | ⟨hsafe, hform, -⟩
          · rw [hgen] at hsame
            cases hsame
            exact .generated hhex hknown hfile rfl rfl
          · exact (Fits.generated (r := unknownOutput proved output) hhex hknown hfile rfl rfl).chosen
              hsafe hform
        have hsame : ∀ o ∈ (proved.outputs.map (unknownOutput proved)).zip outputFiles,
            ∀ o' ∈ (proved.outputs.map (unknownOutput proved)).zip outputFiles, o.2 = o'.2 →
            o.1.obj = o'.1.obj := by
          intro o ho o' ho' heq
          obtain ⟨i, output, houtput, hrecord, hname, name, hgen, hfile⟩ := hat o ho
          obtain ⟨j, output', houtput', hrecord', hname', name', hgen', hfile'⟩ := hat o' ho'
          have hknown' := hproved output' (List.mem_of_getElem? houtput')
          rw [← heq] at hname'
          rcases hnames.names i o.2 hname with hsame | ⟨-, -, hone⟩
          · rcases hnames.names j o.2 hname' with hsame' | ⟨-, -, hone⟩
            · rw [hgen] at hsame
              rw [hgen'] at hsame'
              cases hsame
              cases hsame'
              have hfits' : Fits known o.2 (some o.1) := (hfits o ho).2
              have hobj := hfits'.owner hhex hdistinct hknown' hfile'
              rw [hobj, hrecord']
              rfl
            · have hij := hone i hname
              subst hij
              rw [houtput] at houtput'
              cases houtput'
              rw [hrecord, hrecord']
          · have hij := hone j hname'
            subst hij
            rw [houtput] at houtput'
            cases houtput'
            rw [hrecord, hrecord']
        have hpending : FitPending (.ofProved proved owner inputs outputFiles pendingNames now) :=
          hnames.pending
        refine Routine.Checked.imp (writeTransaction_tidy hpending hfits hsame) ?_ (fun _ _ h => h)
          fun _ h => h
        rintro w' rfl
        refine ⟨hord, fun o ho => ?_⟩
        have hno := Store.loaded_eq_none_of_stored (hnew o.2 (List.of_mem_zip ho).2)
        refine ⟨fun p r hr => ?_, hno .nullified⟩
        rw [hno p] at hr
        cases hr

/-! ## The other operations -/

omit hhex hdistinct

theorem deleteTransaction_tidy (t : H) :
    Tidy strict (Orderly strict known) (deleteTransaction t) (fun _ => Orderly strict known)
      (Orderly strict known) := by
  refine Routine.Checked.get_bind fun w hw => ?_
  refine Routine.Checked.imp (A := Orderly strict known) ?_ (fun w' hw' => hw' ▸ hw) (fun _ _ h => h)
    fun _ h => h
  split
  · exact Routine.Checked.throw fun _ hw => hw
  · split
    · exact Routine.Checked.throw fun _ hw => hw
    · split
      · exact Routine.Checked.throw fun _ hw => hw
      · exact (removeUnknownOutputs_tidy _).bind fun _ => removeTransaction_tidy _ _

theorem updateRecord_tidy (t : H) {change : TransactionRecord H → Option (TransactionRecord H)}
    (hchange : ∀ r r', change r = some r' → r'.pendingNames = r.pendingNames) :
    Tidy strict (Orderly strict known) (updateRecord t change) (fun _ => Orderly strict known)
      (Orderly strict known) := by
  refine Routine.Checked.get_bind fun w hw => ?_
  refine Routine.Checked.imp (A := Orderly strict known) ?_ (fun w' hw' => hw' ▸ hw) (fun _ _ h => h)
    fun _ h => h
  split
  · exact Routine.Checked.throw fun _ hw => hw
  · rename_i r hr
    split
    · exact Routine.Checked.ret fun _ hw => hw
    · rename_i r' hr'
      apply commit_tidy
      rw [hchange r r' hr']
      exact hw.1.pending r (Store.readRecord_eq_some hr).1

omit [EncodeHex H] [DecidableEq H] in
theorem markSubmit_pending (now : Nat) (r r' : TransactionRecord H) (h : markSubmit now r = some r') :
    r'.pendingNames = r.pendingNames := by
  unfold markSubmit at h
  split at h
  · cases h
    rfl
  · cases h

omit [EncodeHex H] [DecidableEq H] in
theorem finishSubmit_pending (now : Nat) (jobId : String) (failed : Bool) (r r' : TransactionRecord H)
    (h : finishSubmit now jobId failed r = some r') : r'.pendingNames = r.pendingNames := by
  unfold finishSubmit at h
  split at h
  · cases h
    rfl
  · cases h

theorem renameObject_tidy (fileName newName : String) :
    Tidy strict (Orderly strict known) (renameObject (H := H) fileName newName)
      (fun _ => Orderly strict known) (Orderly strict known) := by
  refine Routine.Checked.get_bind fun w hw => ?_
  have hthrow : ∀ e : DriverError, Tidy strict (fun w' => w' = w) (.throw e : Task H Unit)
      (fun _ => Orderly strict known) (Orderly strict known) :=
    fun e => Routine.Checked.throw fun w' hw' => hw' ▸ hw
  split
  · exact hthrow _
  · exact hthrow _
  · rename_i record hfile
    split
    · exact hthrow _
    · rename_i generated hgenerated
      refine Routine.Checked.bind (Q := fun target w' => (SafeName target ∧
        (target = generated ∨ hasGeneratedShape target = false)) ∧ w' = w)
        (Routine.Checked.lift (fun _ w' hok hw' => ⟨customFileName_form hok, hw'⟩)
          fun w' hw' => hw' ▸ hw) fun target => ?_
      refine Routine.Checked.of_state fun w' hw' => ?_
      obtain ⟨⟨hsafe, hform⟩, rfl⟩ := hw'
      split
      · exact Routine.Checked.ret fun w hw' => hw' ▸ hw
      · split
        · exact hthrow _
        · split
          · exact hthrow _
          · split
            · exact hthrow _
            · split
              · exact hthrow _
              · split
                · exact hthrow _
                · rename_i htaken
                  refine renameLiveObjectFile_tidy hw (by simpa using htaken) fun c hc => ?_
                  rw [hfile] at hc
                  cases hc
                  have hfits := hw.1.files .live fileName _ hfile
                  refine ⟨hsafe, fun r hr => ?_⟩
                  cases hr
                  exact ⟨(hfits.2 record rfl).1, generated, hgenerated, hform⟩

include hhex

theorem importObject_tidy {record : ObjectRecord H} (hknown : known record.obj) (requested : Option String) :
    Tidy strict (Orderly strict known) (importObject record requested) (fun _ => Orderly strict known)
      (Orderly strict known) := by
  unfold importObject
  split
  · exact Routine.Checked.throw fun _ hw => hw
  · rename_i generated hgenerated
    split
    · exact Routine.Checked.throw fun _ hw => hw
    · split
      · exact Routine.Checked.throw fun _ hw => hw
      · refine Routine.Checked.get_bind fun w hw => ?_
        refine Routine.Checked.bind (Q := fun name w' => w' = w ∧ (∀ p, w.store.loaded p name = none) ∧
          SafeName name ∧ (name = generated ∨ hasGeneratedShape name = false))
          (Routine.Checked.lift (fun name w' hok hw' => ⟨hw', importFileName_unloaded hok, ?_⟩)
            fun w' hw' => hw' ▸ hw) fun name => ?_
        · unfold importFileName at hok
          split at hok
          · cases hok
          · split at hok
            · cases hok
            · split at hok
              · cases hok
              · rename_i wanted hwanted
                split at hok
                · cases hok
                · cases hok
                  cases requested with
                  | none =>
                    cases hwanted
                    exact ⟨(objectFileName_form hhex hgenerated).1, .inl rfl⟩
                  | some requested => exact importedFileName_form hwanted
        · refine Routine.Checked.of_state fun w' hw' => ?_
          obtain ⟨rfl, hfree, hsafe, hform⟩ := hw'
          have hfits : Fits known name (some { record with status := .live }) := by
            refine ⟨hsafe, fun r hr => ?_⟩
            cases hr
            exact ⟨hknown, generated, hgenerated, hform⟩
          refine (writeObjectFile_tidy hw hfits (fun hnull => ?_) (fun p r hr => ?_) fun _ _ =>
            hfree .nullified).imp (fun _ h => h) (fun _ _ h => h.1) fun _ h => h
          · cases hnull
          · rw [hfree p] at hr
            cases hr

omit hhex

theorem discardObject_tidy (fileName : String) :
    Tidy strict (Orderly strict known) (discardObject (H := H) fileName) (fun _ => Orderly strict known)
      (Orderly strict known) := by
  refine Routine.Checked.bind (parseLive_tidy fileName fun _ hw => hw) fun o => ?_
  cases o with
  | none => exact Routine.Checked.throw fun _ hw => hw.1
  | some record =>
    refine Routine.Checked.perform (fun _ _ => trivial) (fun w hw _ => ?_) (fun _ hw => hw.1)
      fun _ hw _ => hw.1
    refine hw.1.of_fewer (hw.1.1.discard fileName) fun p n => ?_
    show (w.store.apply (.discard fileName)).loaded p n = none ∨
      (w.store.apply (.discard fileName)).loaded p n = _
    rw [Store.loaded_discard]
    split
    · exact .inl rfl
    · exact .inr rfl

/-! ## Whole runs -/

/-- The objects that an action brings into the store. -/
def Action.Introduces (known : Object H → Prop) : Action H → Prop
  | .record _ proved _ _ => ∀ o ∈ proved.outputs, known o.2
  | .importObject r _ _ => known r.obj
  | _ => True

include hhex hdistinct

theorem task_tidy {w : World H} {a : Action H} (ha : a.Introduces known) {t : Task H Unit × List Answer}
    (ht : t ∈ w.task a) :
    Tidy strict (Orderly strict known) t.1 (fun _ => Orderly strict known) (Orderly strict known) := by
  cases a with
  | prove | release | crash => cases ht
  | record id proved now answers =>
    obtain ⟨p, -, rfl⟩ := Option.map_eq_some_iff.mp ht
    exact record_tidy hhex hdistinct ha p.owner p.files now
  | delete t answers =>
    cases ht
    exact deleteTransaction_tidy t
  | submitMark t now answers =>
    cases ht
    exact updateRecord_tidy t (markSubmit_pending now)
  | submitFinish t now jobId failed answers =>
    cases ht
    exact updateRecord_tidy t (finishSubmit_pending now jobId failed)
  | settle x now answers =>
    cases ht
    exact settleWith_tidy hhex hdistinct now
  | prune now answers =>
    cases ht
    exact pruneTransactions_tidy hhex hdistinct now
  | rename fileName newName answers =>
    cases ht
    exact renameObject_tidy fileName newName
  | importObject record requested answers =>
    cases ht
    exact importObject_tidy hhex ha requested
  | discard fileName answers =>
    cases ht
    exact discardObject_tidy fileName

theorem step_orderly {w w' : World H} {a : Action H} (hw : Orderly strict known w)
    (ha : a.Introduces known) (hguard : World.Obeys (Guard strict) w a) (hs : w.step a = some w') :
    Orderly strict known w' := by
  rcases World.step_store hs with ⟨-, hstore⟩ | ⟨t, ht, hstore⟩
  · unfold Orderly
    rw [hstore]
    exact hw
  · unfold Orderly
    rw [hstore]
    exact (task_tidy hhex hdistinct ha ht).1.exec hw (hguard t ht)

end

omit [DecidableEq H] in
theorem Named.empty (known : Object H → Prop) : Named known (Store.empty (H := H)) where
  files := by
    intro p n c hc
    cases p <;> cases hc
  discarded := by
    intro n c hc
    cases hc
  spent := by
    intro n r hr
    cases hr
  pending := by
    intro r hr
    cases hr
  placed := by
    intro p n r hr
    cases p <;> cases hr

theorem World.run_orderly {strict : Prop} {known : Object H → Prop} (hhex : EncodesHex H)
    (hdistinct : DistinctPrefixes known) {as : List (Action H)} {w : World H}
    (hknown : ∀ a ∈ as, a.Introduces known)
    (hguard : RunMeets World.step (World.Obeys (Guard strict)) World.init as)
    (hrun : runSteps World.step World.init as = some w) : Orderly strict known w := by
  have hstart : Orderly strict known (World.init (H := H)) := ⟨Named.empty known, fun _ n => .inl rfl⟩
  generalize World.init = w₀ at hstart hguard hrun
  induction as generalizing w₀ with
  | nil =>
    cases hrun
    exact hstart
  | cons a as ih =>
    obtain ⟨w₁, h₁, hrest⟩ := Option.bind_eq_some_iff.mp hrun
    have hnext := step_orderly hhex hdistinct hstart (hknown a (by simp)) hguard.1 h₁
    exact ih (fun b hb => hknown b (List.mem_cons_of_mem _ hb)) w₁ hnext (hguard.2 w₁ h₁) hrest

omit [EncodeHex H] in
theorem follows_guard {strict : Prop} {m : Task H Unit} {w : World H} {as : List Answer}
    (h : strict → m.Follows World.device MovesWhole w as) : m.Follows World.device (Guard strict) w as := by
  by_cases hs : strict
  · exact (h hs).mono fun _ _ _ hg _ => hg
  · exact (Routine.follows_true m w as).mono fun _ _ _ _ hs' => absurd hs' hs

/-- In every store that a run reaches, however file operations failed in it, each object file has a
safe name that is the generated name of its object or none of that form, and no next operation
writes under another object's name or renames over a file. If every move was whole, no name is in
both directories. -/
theorem World.names_owned {known : Object H → Prop} (hhex : EncodesHex H)
    (hdistinct : DistinctPrefixes known) (as : List (Action H)) (w : World H)
    (hknown : ∀ a ∈ as, a.Introduces known) (hrun : runSteps World.step World.init as = some w) :
    (∀ p n c, w.store.file p n = some c → SafeName n ∧ ∀ r, c = some r →
      objectFileName r.cls r.obj = some n ∨ hasGeneratedShape n = false) ∧
    (∀ a : Action H, a.Introduces known → ∀ t ∈ w.task a,
      t.1.Performs World.device Unsquatted w.fresh t.2) ∧
    (RunMeets World.step (World.Obeys MovesWhole) World.init as →
      (∀ n, w.store.loaded .live n = none ∨ w.store.loaded .nullified n = none) ∧
      ∃ es, w.store.loadObjectFiles = .ok es) := by
  have hguard : RunMeets World.step (World.Obeys (Guard False)) (World.init (H := H)) as :=
    runMeets_of_forall (fun _ _ _ _ => follows_guard False.elim) _ _
  obtain ⟨hnamed, -⟩ := World.run_orderly hhex hdistinct hknown hguard hrun
  refine ⟨fun p n c hc => ?_, fun a ha t ht => ?_, fun hwhole => ?_⟩
  · obtain ⟨hsafe, hfits⟩ := hnamed.files p n c hc
    refine ⟨hsafe, fun r hr => ?_⟩
    obtain ⟨-, generated, hgenerated, hform⟩ := hfits r hr
    rcases hform with rfl | hform
    · exact .inl hgenerated
    · exact .inr hform
  · have htidy : Tidy False (Orderly False known) t.1 (fun _ => Orderly False known)
        (Orderly False known) := task_tidy hhex hdistinct ha ht
    exact (htidy.2 w.fresh ⟨hnamed, False.elim⟩).performs
      (follows_guard False.elim)
  · have hstrict : RunMeets World.step (World.Obeys (Guard True)) (World.init (H := H)) as :=
      hwhole.mono fun _ _ h t ht => follows_guard fun _ => h t ht
    obtain ⟨hplaced, hsingle⟩ := World.run_orderly hhex hdistinct hknown hstrict hrun
    exact ⟨hsingle trivial, Store.loadObjectFiles_of hplaced.placed (hsingle trivial)⟩

namespace Sample

/-- Digests of one repeated digit. -/
instance : EncodeHex (Fin 16) := ⟨fun n => String.ofList (List.replicate 64 (Nat.digitChar n))⟩

def digestFile (n : Fin 16) : ObjectRecord (Fin 16) :=
  ⟨cls, n, .live, 0, none, none, ⟨some 1, some n, n, some (n + 8)⟩⟩

theorem digests_encode : EncodesHex (Fin 16) := by
  intro h
  have hlist : (EncodeHex.encodeHex h).toList = List.replicate 64 (Nat.digitChar h) := String.toList_ofList
  have hdigit : ∀ n : Fin 16, isHexDigit (Nat.digitChar n) = true := by decide +kernel
  rw [hlist]
  constructor
  · simp
  · intro c hc
    rw [List.eq_of_mem_replicate hc]
    exact hdigit h

/-- The objects of two files. -/
def digestKnown (o : Object (Fin 16)) : Prop := o = (digestFile 1).obj ∨ o = (digestFile 2).obj

theorem digests_distinct : DistinctPrefixes digestKnown := by
  have hne : hashHexPrefix (digestFile 1).obj.commitment 8 ≠
      hashHexPrefix (digestFile 2).obj.commitment 8 := by decide +kernel
  intro o o' ho ho' heq
  rcases ho with rfl | rfl <;> rcases ho' with rfl | rfl
  · rfl
  · exact absurd heq hne
  · exact absurd heq.symm hne
  · rfl

def digestName : String := "game__sword_1111111111111111_1111111111111111.dobj"

end Sample

open Sample in
/-- An object under its generated name is spent, and the removal of its live file fails: the name is
in both directories and nothing loads. -/
theorem World.name_in_both : ∃ w : World (Fin 16),
    runSteps World.step World.init [.importObject (digestFile 1) none [],
      .settle ⟨[], none, [], [], some ⟨[1], [9]⟩, []⟩ 5 [.done, .failed]] = some w ∧
    (w.store.loaded .live digestName).isSome ∧ (w.store.loaded .nullified digestName).isSome ∧
    ¬ ∃ es, w.store.loadObjectFiles = .ok es := by
  have hview : (runSteps World.step World.init [.importObject (digestFile 1) none [],
      .settle ⟨[], none, [], [], some ⟨[1], [9]⟩, []⟩ 5 [.done, .failed]]).map (fun w =>
        ((w.store.loaded .live digestName).isSome, (w.store.loaded .nullified digestName).isSome,
          w.store.loadObjectFiles.toOption.isNone)) = some (true, true, true) := by
    decide +kernel
  obtain ⟨w, hw, hstate⟩ := Option.map_eq_some_iff.mp hview
  simp only [Prod.mk.injEq] at hstate
  obtain ⟨hlive, hnull, hload⟩ := hstate
  refine ⟨w, hw, hlive, hnull, ?_⟩
  rintro ⟨es, hes⟩
  rw [hes] at hload
  cases hload

open Sample in
/-- A file renamed, and a second object imported under its name: the two end up apart. -/
theorem World.names_owned_renamed : ∃ w : World (Fin 16),
    runSteps World.step World.init [.importObject (digestFile 1) none [],
      .rename digestName "sword" [], .importObject (digestFile 2) (some "sword") []] = some w ∧
    (∃ es, w.store.loadObjectFiles = .ok es) ∧ (w.store.loaded .live "sword 2.dobj").isSome ∧
    SafeName "sword 2.dobj" := by
  have hview : (runSteps World.step World.init [.importObject (digestFile 1) none [],
      .rename digestName "sword" [], .importObject (digestFile 2) (some "sword") []]).map (fun w =>
        w.store.file .live "sword 2.dobj") = some (some (some (digestFile 2))) := by
    decide +kernel
  have hguard : RunMeets World.step (World.Obeys MovesWhole) World.init
      [.importObject (digestFile 1) none [], .rename digestName "sword" [],
        .importObject (digestFile 2) (some "sword") []] := by
    decide +kernel
  obtain ⟨w, hw, hfile⟩ := Option.map_eq_some_iff.mp hview
  have hknown : ∀ a ∈ [Action.importObject (digestFile 1) none [], .rename digestName "sword" [],
      .importObject (digestFile 2) (some "sword") []], a.Introduces digestKnown := by
    intro a ha
    simp only [List.mem_cons, List.not_mem_nil, or_false] at ha
    rcases ha with rfl | rfl | rfl
    · exact .inl rfl
    · trivial
    · exact .inr rfl
  obtain ⟨hnames, -, hload⟩ := World.names_owned digests_encode digests_distinct _ w hknown hw
  refine ⟨w, hw, (hload hguard).2, ?_, (hnames .live _ _ hfile).1⟩
  simp [Store.loaded, hfile]

end DigitalObjects.Driver.Objects
