import DigitalObjects.Driver.Operations
set_option autoImplicit false

/-!
Names that keep their object. While an operation of the driver runs, the files that a proof or
an open record relies on stay under their names, wherever the operation fails or crashes.
-/

namespace DigitalObjects.Driver.Objects

open Txlib Lib

variable {H : Type} [DecidableEq H] [EncodeHex H]

/-! ## Names that keep their object -/

/-- What a name may have after it had the record of `s`. -/
def Store.Advanced (s : Store H) (n : String) (r : ObjectRecord H) : Prop :=
  ∃ r₀, s.stored n = some (some r₀) ∧ r₀.Advances r

/-- A write is not cut off over a file with an object in it, and no spent object is written
under a name that another object has. -/
def Undisturbed (w : World H) : FsOp H → Answer → Prop
  | .write p n record, a =>
    (a = .torn ∨ a = .cut → w.store.loaded p n = none) ∧
    (record.isNullified → ∀ r ∈ (w.store.stored n).join, r.ident = record.ident)
  | _, _ => True

instance (w : World H) : (op : FsOp H) → (a : Answer) → Decidable (Undisturbed w op a)
  | .write p n record, a => inferInstanceAs (Decidable (
      (a = .torn ∨ a = .cut → w.store.loaded p n = none) ∧
      (record.isNullified → ∀ r ∈ (w.store.stored n).join, r.ident = record.ident)))
  | .remove _ _, _ | .rename _ _, _ | .discard _, _ | .writePayload _, _ | .commit _, _
  | .removeTransaction _, _ => .isTrue trivial

/-- An open record has the transaction and the inputs of an open one of `base`. -/
def OpenFrom (base : List (TransactionRecord H)) (r : TransactionRecord H) : Prop :=
  r.isOpen → ∃ r₀ ∈ base, r₀.isOpen ∧ r.txFinal = r₀.txFinal ∧
    r.inputFiles = r₀.inputFiles ∧ r.nullifiers = r₀.nullifiers

/-- The state in the middle of an operation: the protected names have the records they may
have, and no other transaction has become open. -/
structure Frame (w₀ : World H) (base : List (TransactionRecord H)) (prot : String → Prop)
    (good : String → ObjectRecord H → Prop) (w : World H) : Prop where
  owners : w.owners = w₀.owners
  proofs : w.proofs = w₀.proofs
  placed : w.store.Placed
  keys : (w.store.records.map TransactionRecord.txFinal).Nodup
  opens : ∀ r ∈ w.store.records, OpenFrom base r
  kept : ∀ n, prot n → ∃ r, w.store.stored n = some (some r) ∧ good n r

namespace Frame

variable {w₀ w : World H} {base : List (TransactionRecord H)} {prot : String → Prop}
  {good : String → ObjectRecord H → Prop}

omit [DecidableEq H] [EncodeHex H]

/-- An operation on files. -/
theorem files (h : Frame w₀ base prot good w) {s : Store H} (hplaced : s.Placed)
    (hrecords : s.records = w.store.records)
    (hkept : ∀ n, prot n → ∃ r, s.stored n = some (some r) ∧ good n r) :
    Frame w₀ base prot good { w with store := s } where
  owners := h.owners
  proofs := h.proofs
  placed := hplaced
  keys := by
    rw [hrecords]
    exact h.keys
  opens := by
    intro r hr
    rw [hrecords] at hr
    exact h.opens r hr
  kept := hkept

theorem report (h : Frame w₀ base prot good w) (rep : Report) :
    Frame w₀ base prot good { w with report := rep } :=
  ⟨h.owners, h.proofs, h.placed, h.keys, h.opens, h.kept⟩

theorem cache (h : Frame w₀ base prot good w) (rs : List (TransactionRecord H)) :
    Frame w₀ base prot good { w with reconciled := rs } :=
  ⟨h.owners, h.proofs, h.placed, h.keys, h.opens, h.kept⟩

/-- An operation on records. -/
theorem records (h : Frame w₀ base prot good w) {rs : List (TransactionRecord H)}
    (hkeys : (rs.map TransactionRecord.txFinal).Nodup)
    (hopens : ∀ r ∈ rs, OpenFrom base r) :
    Frame w₀ base prot good { w with store := { w.store with records := rs } } :=
  ⟨h.owners, h.proofs, h.placed, hkeys, hopens, h.kept⟩

end Frame

/-! ## Single files -/

section Files

variable {w₀ : World H} {base : List (TransactionRecord H)} {prot : String → Prop}
  {good : String → ObjectRecord H → Prop}

/-- What may be written under a protected name: a record that is good there, and not one that
takes a spent object back. -/
def Writable (prot : String → Prop) (good : String → ObjectRecord H → Prop) (name : String)
    (record : ObjectRecord H) (w : World H) : Prop :=
  prot name → ∀ r, w.store.stored name = some (some r) → good name r →
    (record.isNullified → r.ident = record.ident) →
    good name record ∧ (r.isNullified → record.isNullified)

omit [EncodeHex H] in
theorem writeObjectFile_frame (record : ObjectRecord H) (name : String) :
    Routine.Triple World.device Undisturbed
      (fun w => Frame w₀ base prot good w ∧ Writable prot good name record w)
      (writeObjectFile record name) (fun _ => Frame w₀ base prot good)
      (Frame w₀ base prot good) := by
  refine Routine.Triple.bind (Q := fun _ w => Frame w₀ base prot good w ∧
    w.store.file record.place name = some (some record) ∧ (prot name → good name record)) ?_ ?_
  · refine Routine.Triple.perform ?_ (fun w hw => hw.1) ?_
    · rintro w ⟨hw, hwrite⟩ ⟨-, hsame⟩
      have hgood : prot name → good name record := by
        intro hn
        obtain ⟨r, hr, hrg⟩ := hw.kept name hn
        refine (hwrite hn r hr hrg fun hnull => hsame hnull r ?_).1
        simp [hr]
      refine ⟨hw.files (Store.placed_write hw.placed name record) (Store.records_write ..) ?_, ?_, hgood⟩
      · intro n hn
        rw [Store.stored_write]
        split
        · rename_i hcase
          exact ⟨record, rfl, by rw [hcase.1] at hn ⊢; exact hgood hn⟩
        · exact hw.kept n hn
      · show (w.store.apply _).file _ _ = _
        rw [Store.file_write]
        simp
    · rintro w ⟨hw, hwrite⟩ hguard
      have hfree : w.store.loaded record.place name = none := by
        rcases hguard with hg | hg
        · exact hg.1 (.inl rfl)
        · exact hg.1 (.inr rfl)
      have hsame : record.isNullified → ∀ r ∈ (w.store.stored name).join, r.ident = record.ident := by
        rcases hguard with hg | hg
        · exact hg.2
        · exact hg.2
      refine hw.files (Store.placed_tear_write hw.placed _ _ _) (Store.records_tear_write ..) ?_
      intro n hn
      rw [Store.stored_tear_write]
      split
      · -- The torn file would be the one that is read under this name.
        rename_i hcase
        obtain ⟨rfl, hcase⟩ := hcase
        obtain ⟨r, hr, hrg⟩ := hw.kept n hn
        exfalso
        have hadv := (hwrite hn r hr hrg fun hnull => hsame hnull r (by simp [hr])).2
        unfold Store.loaded at hfree
        unfold Store.stored at hr
        cases hlive : w.store.file .live n with
        | some c =>
          rw [hlive] at hr hcase
          have hp : record.place = .live := by simpa using hcase
          rw [hp, hlive] at hfree
          simp only [Option.some_or, Option.some.injEq] at hr
          subst hr
          cases hfree
        | none =>
          rw [hlive, Option.none_or] at hr
          have hrp : r.place = .nullified := hw.placed .nullified n r (by simp [Store.loaded, hr])
          have hp : record.place = .nullified :=
            ObjectRecord.place_eq_nullified.mpr (hadv (ObjectRecord.place_eq_nullified.mp hrp))
          rw [hp, hr] at hfree
          cases hfree
      · exact hw.kept n hn
  · intro _
    have hremoved : ∀ w : World H, (Frame w₀ base prot good w ∧
        w.store.file record.place name = some (some record) ∧ (prot name → good name record)) →
        Frame w₀ base prot good { w with store := w.store.apply (.remove record.place.other name) } := by
      rintro w ⟨hw, hfile, hgood⟩
      refine hw.files (Store.placed_remove hw.placed _ _) (Store.records_remove ..) ?_
      intro n hn
      by_cases hname : n = name
      · subst hname
        refine ⟨record, ?_, hgood hn⟩
        unfold Store.stored
        rw [Store.file_remove, Store.file_remove]
        cases hp : record.place with
        | live =>
          rw [hp] at hfile
          simp [Place.other, hfile]
        | nullified =>
          rw [hp] at hfile
          simp [Place.other, hfile]
      · rw [Store.stored_remove_of_ne _ _ hname]
        exact hw.kept n hn
    exact Routine.Triple.tryPerform (fun w hw _ => hremoved w hw) (fun w hw _ => hw.1)
      (fun w hw _ => hw.1) (fun w hw _ => hw.1) (fun w hw _ => hw.1)

omit [EncodeHex H] in
/-- A file that is not protected goes. -/
theorem removeLive_frame {name : String} {e : DriverError} (hname : ¬ prot name) :
    Routine.Preserves World.device Undisturbed (Frame w₀ base prot good)
      (Routine.perform (.remove .live name) e : Task H Unit) := by
  refine Routine.Triple.perform ?_ (fun w hw => hw) (fun w hw _ => hw)
  intro w hw _
  refine hw.files (Store.placed_remove hw.placed _ _) (Store.records_remove ..) ?_
  intro n hn
  have hne : n ≠ name := fun h => hname (h ▸ hn)
  rw [Store.stored_remove_of_ne _ _ hne]
  exact hw.kept n hn

theorem nullifyObjectFile_frame {record : ObjectRecord H} {name : String}
    (hname : prot name → record.spentName name = name)
    (hgood : ∀ n r, prot n → good n r → r.ident = record.ident → good n record)
    (hnull : record.isNullified = true) :
    Routine.Preserves World.device Undisturbed (Frame w₀ base prot good)
      (nullifyObjectFile record name) := by
  unfold nullifyObjectFile
  refine Routine.Triple.bind (Q := fun _ => Frame w₀ base prot good)
    ((writeObjectFile_frame record (record.spentName name)).imp ?_ (fun _ _ h => h) (fun _ h => h)) ?_
  · intro w hw
    refine ⟨hw, fun hn r _ hrg hident => ⟨hgood _ r hn hrg (hident hnull), fun _ => hnull⟩⟩
  · intro _
    dsimp only
    split
    · rename_i hne
      exact Routine.Triple.bind (removeLive_frame fun hn => hne (hname hn)) fun _ =>
        Routine.Triple.ret fun _ hw => hw
    · exact Routine.Triple.ret fun _ hw => hw

omit [EncodeHex H] in
theorem report_frame (f : World H → Report) :
    Routine.Preserves World.device Undisturbed (Frame w₀ base prot good)
      (Routine.modify fun w => { w with report := f w } : Task H Unit) :=
  Routine.Triple.modify fun w hw => hw.report (f w)

end Files

omit [DecidableEq H] [EncodeHex H] in
theorem Store.Advanced.trans {s : Store H} {n : String} {r r' : ObjectRecord H}
    (h : s.Advanced n r) (h' : r.Advances r') : s.Advanced n r' := by
  obtain ⟨r₀, hr₀, hadv⟩ := h
  exact ⟨r₀, hr₀, hadv.trans h'⟩

/-! ## Settled objects -/

section Settled

variable {w₀ : World H} {base : List (TransactionRecord H)} {prot : String → Prop}

/-- No input of the record under a protected name is spent and has to move to another name. -/
def StaysNamed (w₀ : World H) (prot : String → Prop) (r : TransactionRecord H) : Prop :=
  ∀ n ∈ r.inputFiles, prot n → ∀ r₀, w₀.store.stored n = some (some r₀) → r.spends r₀.obj →
    r₀.isNullified = false → r₀.spentName n = n

theorem persistInput_frame {r : TransactionRecord H} (hr : StaysNamed w₀ prot r) (acc : List (String × String))
    {name : String} (hmem : name ∈ r.inputFiles) :
    Routine.Preserves World.device Undisturbed (Frame w₀ base prot w₀.store.Advanced)
      (persistInput r acc name) := by
  refine Routine.Triple.bind (parseStored_spec name fun _ hw => hw) fun o => ?_
  cases o with
  | none => exact Routine.Triple.ret fun _ hw => hw.1
  | some record =>
    dsimp only
    split
    · exact Routine.Triple.ret fun _ hw => hw.1
    · rename_i hspent
      simp only [Bool.or_eq_true, Bool.not_eq_true', not_or, Bool.not_eq_false, Bool.not_eq_true] at hspent
      intro w hw
      have hname : prot name → ({ record with status := .nullified } : ObjectRecord H).spentName name = name := by
        intro hn
        obtain ⟨r', hr', r₀, hr₀, hident, hrank⟩ := hw.1.kept name hn
        rw [hw.2] at hr'
        cases hr'
        have hobj : record.obj = r₀.obj := congrArg Prod.snd hident
        have hcls : record.cls = r₀.cls := congrArg Prod.fst hident
        have hfree : r₀.isNullified = false := by
          cases hnull : r₀.isNullified with
          | false => rfl
          | true =>
            have hadv : r₀.Advances record := ⟨hident, hrank⟩
            rw [hadv.isNullified hnull] at hspent
            exact absurd hspent.2 (by simp)
        have hstays := hr name hmem hn r₀ hr₀ (by rw [← hobj]; exact hspent.1) hfree
        simpa [ObjectRecord.spentName, hobj, hcls] using hstays
      have hnullify : Routine.Preserves World.device Undisturbed
          (Frame w₀ base prot w₀.store.Advanced)
          (nullifyObjectFile { record with status := .nullified } name) :=
        nullifyObjectFile_frame hname
          (fun n r' _ hr' hident => hr'.trans (.of_nullified hident.symm rfl)) rfl
      refine hnullify.bind (fun spentName => ?_) w hw.1
      split
      · refine (report_frame _).bind fun _ => ?_
        exact (report_frame _).bind fun _ => .pure _
      · exact (report_frame _).bind fun _ => .pure _

omit [EncodeHex H] in
theorem persistOutput_frame (r : TransactionRecord H) (name : String) :
    Routine.Preserves World.device Undisturbed (Frame w₀ base prot w₀.store.Advanced)
      (persistOutput r name) := by
  refine Routine.Triple.bind (parseStored_spec name fun _ hw => hw) fun o => ?_
  cases o with
  | none => exact Routine.Triple.ret fun _ hw => hw.1
  | some record =>
    dsimp only
    split
    · exact Routine.Triple.ret fun _ hw => hw.1
    · refine Routine.Triple.bind ((writeObjectFile_frame _ name).imp ?_ (fun _ _ h => h)
        (fun _ h => h)) fun _ => report_frame _
      rintro w ⟨hw, hstored⟩
      refine ⟨hw, fun hn r' hr' hgood _ => ?_⟩
      rw [hstored] at hr'
      cases hr'
      have hadv := settledOutput_advances r record
      exact ⟨hgood.trans hadv, hadv.isNullified⟩

omit [EncodeHex H] in
theorem renameLive_frame {good : String → ObjectRecord H → Prop} {old new : String} (hold : ¬ prot old) :
    Routine.Triple World.device Undisturbed
      (fun w => Frame w₀ base prot good w ∧ w.store.stored new = none)
      (renameLiveObjectFile old new) (fun _ => Frame w₀ base prot good) (Frame w₀ base prot good) := by
  refine Routine.Triple.get_bind fun w hw => ?_
  split
  · exact Routine.Triple.throw fun w' hw' => hw' ▸ hw.1
  · refine Routine.Triple.perform ?_ (fun w' hw' => hw' ▸ hw.1) (fun w' hw' _ => hw' ▸ hw.1)
    rintro w' rfl -
    refine hw.1.files (Store.placed_rename hw.1.placed _ _) (Store.records_rename ..) ?_
    intro n hn
    have hne : n ≠ old := fun h => hold (h ▸ hn)
    have hne' : n ≠ new := by
      rintro rfl
      obtain ⟨r, hr, -⟩ := hw.1.kept n hn
      rw [hw.2] at hr
      cases hr
    rw [Store.stored_rename_of_ne _ hne hne']
    exact hw.1.kept n hn

omit [EncodeHex H] in
theorem finishPendingName_frame (r : TransactionRecord H) {locked held : List String}
    (hheld : ∀ n, prot n → n ∈ held ∨ n ∈ locked) (pending : PendingName) :
    Routine.Preserves World.device Undisturbed (Frame w₀ base prot w₀.store.Advanced)
      (finishPendingName r locked held pending) := by
  refine Routine.Triple.bind (parseLive_spec pending.fileName fun _ hw => hw) fun o => ?_
  cases o with
  | none => exact Routine.Triple.ret fun _ hw => hw.1
  | some record =>
    dsimp only
    split
    · exact Routine.Triple.ret fun _ hw => hw.1
    · split
      · exact Routine.Triple.ret fun _ hw => hw.1
      · rename_i hfree
        refine Routine.Triple.get_bind fun w hw => ?_
        refine Routine.Triple.bind (Q := fun finalName w' => Frame w₀ base prot w₀.store.Advanced w' ∧
          w'.store.stored finalName = none) (Routine.Triple.lift ?_ fun w' hw' => hw' ▸ hw.1)
          fun finalName => ?_
        · rintro finalName w' hok rfl
          exact ⟨hw.1, Store.stored_eq_none_of_hasFile (uniqueFileName_free hok)⟩
        · refine Routine.Triple.bind (renameLive_frame fun hn => hfree (hheld _ hn)) fun _ => ?_
          refine (report_frame _).bind fun _ => ?_
          exact (report_frame _).bind fun _ => .pure _

omit [EncodeHex H] in
theorem finishPendingNames_frame (r : TransactionRecord H) {locked : List String}
    (hheld : ∀ n, prot n → n ∈ w₀.owners.keys ∨ n ∈ locked) :
    Routine.Preserves World.device Undisturbed (Frame w₀ base prot w₀.store.Advanced)
      (finishPendingNames r locked) := by
  unfold finishPendingNames
  split
  · exact .pure _
  · refine Routine.Triple.get_bind fun w hw => ?_
    have hloop : Routine.Preserves World.device Undisturbed (Frame w₀ base prot w₀.store.Advanced)
        (Routine.foldList (fun finished pending => do
          let outcome ← finishPendingName r locked w.owners.keys pending
          pure (finished ++ [(pending, outcome)])) [] r.pendingNames) := by
      refine Routine.Preserves.foldList fun finished pending _ => ?_
      refine (finishPendingName_frame r ?_ pending).bind fun _ => .pure _
      rw [hw.owners]
      exact hheld
    exact Routine.Triple.imp (hloop.bind fun _ => .pure _) (fun w' hw' => hw' ▸ hw)
      (fun _ _ h => h) (fun _ h => h)

/-- A protected name has an object that is on the chain. -/
def Known (w₀ : World H) (prot : String → Prop) : Prop :=
  ∀ n, prot n → ∀ r₀, w₀.store.stored n = some (some r₀) → r₀.status ≠ .unknown

omit [EncodeHex H] in
theorem removeUnknownOutputs_frame (r : TransactionRecord H) (hknown : Known w₀ prot) :
    Routine.Preserves World.device Undisturbed (Frame w₀ base prot w₀.store.Advanced)
      (removeUnknownOutputs r) := by
  refine Routine.Preserves.forList fun name _ => ?_
  refine Routine.Triple.get_bind fun w hw => ?_
  cases hload : w.store.loaded .live name with
  | none => exact Routine.Triple.ret fun w' hw' => hw' ▸ hw
  | some record =>
    dsimp only
    split
    · rename_i hunknown
      have hname : ¬ prot name := by
        intro hn
        obtain ⟨r', hr', r₀, hr₀, hadv⟩ := hw.kept name hn
        have hstored : w.store.stored name = some (some record) := by
          have hfile := Store.loaded_eq_some.mp hload
          unfold Store.stored Store.file
          rw [hfile]
          rfl
        rw [hstored] at hr'
        cases hr'
        exact hadv.known (hknown name hn r₀ hr₀) hunknown.1
      exact Routine.Triple.imp ((removeLive_frame hname).bind fun _ => report_frame _)
        (fun w' hw' => hw' ▸ hw) (fun _ _ h => h) (fun _ h => h)
    · exact Routine.Triple.ret fun w' hw' => hw' ▸ hw

omit [EncodeHex H] in
theorem commit_frame {good : String → ObjectRecord H → Prop} {r : TransactionRecord H}
    {e : DriverError} (hr : OpenFrom base r) :
    Routine.Preserves World.device Undisturbed (Frame w₀ base prot good)
      (Routine.perform (.commit r) e : Task H Unit) := by
  refine Routine.Triple.perform ?_ (fun w hw => hw) (fun w hw _ => hw)
  intro w hw _
  show Frame w₀ base prot good { w with store := w.store.commit r }
  rw [Store.commit_eq]
  refine hw.records (Store.keys_commit hw.keys r) fun r' hr' hopen => ?_
  rcases Store.mem_commit hr' with rfl | ⟨hmem, -⟩
  · exact hr hopen
  · exact hw.opens r' hmem hopen

omit [EncodeHex H] in
theorem Frame.removeTransaction {good : String → ObjectRecord H → Prop} {w : World H} (t : H)
    (hw : Frame w₀ base prot good w) :
    Frame w₀ base prot good { w with store := w.store.removeTransaction t } := by
  refine hw.records ?_ fun r hr hopen => hw.opens r (List.mem_of_mem_filter hr) hopen
  exact hw.keys.sublist (List.filter_sublist.map _)

omit [EncodeHex H] in
theorem removeTransaction_frame {good : String → ObjectRecord H → Prop} (t : H) (e : DriverError) :
    Routine.Preserves World.device Undisturbed (Frame w₀ base prot good)
      (Routine.perform (.removeTransaction t) e : Task H Unit) :=
  Routine.Triple.perform (fun _ hw _ => hw.removeTransaction t) (fun _ hw => hw)
    (fun _ hw _ => hw.removeTransaction t)

theorem persistSettledObjects_frame {r : TransactionRecord H} {locked : List String}
    (hr : StaysNamed w₀ prot r) (hheld : ∀ n, prot n → n ∈ w₀.owners.keys ∨ n ∈ locked)
    (hknown : Known w₀ prot) :
    Routine.Preserves World.device Undisturbed (Frame w₀ base prot w₀.store.Advanced)
      (persistSettledObjects r locked) := by
  unfold persistSettledObjects
  split
  · refine Routine.Preserves.bind (.forList fun name _ => ?_) fun _ => ?_
    · exact Routine.Triple.bind (parseLive_spec name fun _ hw => hw) fun _ =>
        Routine.Triple.ret fun _ hw => hw.1
    · exact (removeUnknownOutputs_frame r hknown).bind fun _ => .pure _
  · refine Routine.Preserves.bind (.foldList fun acc name hmem => persistInput_frame hr acc hmem)
      fun spentNames => ?_
    refine Routine.Preserves.bind (.forList fun name _ => persistOutput_frame r name) fun _ => ?_
    exact (finishPendingNames_frame _ hheld).bind fun _ => .pure _

theorem persistSettledObjects_tx {r : TransactionRecord H} {locked : List String}
    (hr : StaysNamed w₀ prot r) (hheld : ∀ n, prot n → n ∈ w₀.owners.keys ∨ n ∈ locked)
    (hknown : Known w₀ prot) :
    Routine.Triple World.device Undisturbed (Frame w₀ base prot w₀.store.Advanced)
      (persistSettledObjects r locked)
      (fun res w => Frame w₀ base prot w₀.store.Advanced w ∧ SameTx r res.1)
      (Frame w₀ base prot w₀.store.Advanced) := by
  have hframe : Routine.Preserves World.device Undisturbed (Frame w₀ base prot w₀.store.Advanced)
      (persistSettledObjects r locked) := persistSettledObjects_frame hr hheld hknown
  exact (Routine.Triple.and hframe (persistSettledObjects_sameTx r locked)).imp
    (fun w hw => ⟨hw, trivial⟩) (fun _ _ h => h) (fun _ h => h.1)

/-- The record that a pass has settled is written with its names of now. -/
theorem persistRecord_frame {r : TransactionRecord H} {locked : List String}
    (hr : r.state.isTerminal = true → StaysNamed w₀ prot r) (hheld : ∀ n, prot n → n ∈ w₀.owners.keys ∨ n ∈ locked)
    (hknown : Known w₀ prot) :
    Routine.Preserves World.device Undisturbed (Frame w₀ base prot w₀.store.Advanced)
      (persistRecord locked r) := by
  have hreport : ∀ names : List String, Routine.Preserves World.device Undisturbed
      (Frame w₀ base prot w₀.store.Advanced) (Routine.forList reportChanged names) :=
    fun names => .forList fun _ _ => report_frame _
  unfold persistRecord
  split
  · rename_i hterm
    refine Routine.Triple.bind (persistSettledObjects_tx (hr hterm) hheld hknown).attempt fun o => ?_
    cases o with
    | error e => exact hreport _
    | ok res =>
      obtain ⟨r', changed⟩ := res
      cases changed with
      | false => exact fun w hw => hreport _ w hw.1
      | true =>
        intro w hw
        refine Routine.Preserves.bind (commit_frame fun hopen => ?_) (fun _ => hreport _) w hw.1
        rw [hw.2.isOpen, TransactionRecord.isOpen, hterm] at hopen
        cases hopen
  · exact .pure _

theorem persistAndCommit_frame {r : TransactionRecord H} {locked : List String}
    (hterm : r.state.isTerminal = true) (hr : StaysNamed w₀ prot r)
    (hheld : ∀ n, prot n → n ∈ w₀.owners.keys ∨ n ∈ locked) (hknown : Known w₀ prot) :
    Routine.Preserves World.device Undisturbed (Frame w₀ base prot w₀.store.Advanced)
      (persistAndCommit r locked) := by
  refine Routine.Triple.bind (persistSettledObjects_tx hr hheld hknown) fun res => ?_
  obtain ⟨r', changed⟩ := res
  cases changed with
  | false => exact Routine.Triple.ret fun w hw => hw.1
  | true =>
    intro w hw
    refine Routine.Preserves.bind (commit_frame fun hopen => ?_) (fun _ => .pure _) w hw.1
    rw [hw.2.isOpen, TransactionRecord.isOpen, hterm] at hopen
    cases hopen

omit [EncodeHex H] in
theorem cache_frame (f : World H → List (TransactionRecord H)) :
    Routine.Preserves World.device Undisturbed (Frame w₀ base prot w₀.store.Advanced)
      (Routine.modify fun w => { w with reconciled := f w } : Task H Unit) :=
  Routine.Triple.modify fun w hw => hw.cache (f w)

theorem pruneRecord_frame {r : TransactionRecord H} {locked : List String} (now : Nat)
    (hterm : r.state.isTerminal = true) (hr : StaysNamed w₀ prot r)
    (hheld : ∀ n, prot n → n ∈ w₀.owners.keys ∨ n ∈ locked) (hknown : Known w₀ prot) :
    Routine.Preserves World.device Undisturbed (Frame w₀ base prot w₀.store.Advanced)
      (pruneRecord now locked r) := by
  refine Routine.Triple.get_bind fun w hw => ?_
  refine Routine.Triple.imp (A := Frame w₀ base prot w₀.store.Advanced) ?_ (fun w' hw' => hw' ▸ hw)
    (fun _ _ h => h) (fun _ h => h)
  dsimp only
  split
  · refine (persistAndCommit_frame hterm hr hheld hknown).attempt.bind fun o => ?_
    cases o with
    | error e => exact cache_frame _
    | ok r' =>
      refine (cache_frame _).bind fun _ => ?_
      split
      · refine (removeTransaction_frame _ _).attempt.bind fun o => ?_
        cases o with
        | error e => exact .pure _
        | ok u => exact cache_frame _
      · exact .pure _
  · exact Routine.Preserves.pure _

theorem pruneTransactions_frame (now : Nat) (hw₀ : Frame w₀ base prot w₀.store.Advanced w₀)
    (hr : ∀ r ∈ w₀.store.records, r.state.isTerminal → StaysNamed w₀ prot r)
    (hheld : ∀ n, prot n → n ∈ w₀.owners.keys ∨ n ∈ lockedInputs w₀.store.records)
    (hknown : Known w₀ prot) :
    Routine.Triple World.device Undisturbed (fun w => w = w₀) (pruneTransactions now)
      (fun _ => Frame w₀ base prot w₀.store.Advanced) (Frame w₀ base prot w₀.store.Advanced) := by
  refine Routine.Triple.get_bind fun w hw => ?_
  subst hw
  refine Routine.Triple.imp (A := Frame w base prot w.store.Advanced) ?_ (fun w' hw' => hw' ▸ hw₀)
    (fun _ _ h => h) (fun _ h => h)
  refine (cache_frame _).bind fun _ => ?_
  refine Routine.Preserves.forList fun r hmem => ?_
  obtain ⟨hin, hterm⟩ := List.mem_filter.mp hmem
  exact pruneRecord_frame now hterm (hr r hin hterm) hheld hknown

end Settled

/-! ## Settlement -/

section Settlement

variable {w₀ : World H} {prot : String → Prop}

/-- The files of the running proofs. -/
def heldNames (w : World H) : List String :=
  (w.proofs.entries.filter fun e => e.2.stage = .proving).flatMap fun e => e.2.files

/-- Names that a running proof or an open record relies on. -/
def protectedNames (w : World H) (records : List (TransactionRecord H)) : List String :=
  heldNames w ++ lockedInputs records

def Protected (w : World H) (records : List (TransactionRecord H)) (n : String) : Prop :=
  n ∈ protectedNames w records

omit [EncodeHex H] in
theorem mem_heldNames {w : World H} {n : String} :
    n ∈ heldNames w ↔ ∃ i p, w.proofs.lookup i = some p ∧ p.stage = .proving ∧ n ∈ p.files := by
  simp only [heldNames, List.mem_flatMap, List.mem_filter, decide_eq_true_eq]
  constructor
  · rintro ⟨⟨i, p⟩, ⟨hmem, hstage⟩, hn⟩
    exact ⟨i, p, AList.mem_lookup_iff.mpr hmem, hstage, hn⟩
  · rintro ⟨i, p, hp, hstage, hn⟩
    exact ⟨⟨i, p⟩, ⟨AList.mem_lookup_iff.mp hp, hstage⟩, hn⟩

omit [EncodeHex H] in
theorem protected_iff {w : World H} {records : List (TransactionRecord H)} {n : String} :
    Protected w records n ↔ n ∈ heldNames w ∨ n ∈ lockedInputs records := List.mem_append

omit [EncodeHex H] in
theorem OpenFrom.settled {base : List (TransactionRecord H)} {r : TransactionRecord H} (hr : r ∈ base)
    (x : Settlement H) (now : Nat) : OpenFrom base (settled x now r) := by
  intro hopen
  have hsame := settled_sameFiles x now r
  refine ⟨r, hr, ?_, hsame.txFinal, hsame.inputFiles, hsame.nullifiers⟩
  cases hro : r.isOpen with
  | true => rfl
  | false =>
    rw [settled_of_not_open x now hro] at hopen
    rw [hopen] at hro
    cases hro

omit [EncodeHex H] in
/-- The records are settled one by one; no file is touched. -/
theorem settleRecords_frame (x : Settlement H) (now : Nat)
    (hw₀ : Frame w₀ w₀.store.records prot w₀.store.Advanced w₀) :
    Routine.Triple World.device Undisturbed (fun w => w = w₀) (settleRecords x now w₀.store.records)
      (fun _ w => Frame w₀ w₀.store.records prot w₀.store.Advanced w ∧
        ∀ r ∈ w.store.records, ∃ r₀ ∈ w₀.store.records, r = settled x now r₀)
      (Frame w₀ w₀.store.records prot w₀.store.Advanced) := by
  have hstart : ∀ w, w = w₀ → (∀ r ∈ w₀.store.records, r ∈ w₀.store.records) ∧
      Frame w₀ w₀.store.records prot w₀.store.Advanced w ∧
      ∀ r ∈ w.store.records, r ∈ w₀.store.records ∨ ∃ r₀ ∈ w₀.store.records, r = settled x now r₀ := by
    rintro w rfl
    exact ⟨fun _ hr => hr, hw₀, fun r hr => .inl hr⟩
  refine Routine.Triple.imp (Routine.Triple.forList_rest (I := fun rest w =>
    (∀ r ∈ rest, r ∈ w₀.store.records) ∧ Frame w₀ w₀.store.records prot w₀.store.Advanced w ∧
    ∀ r ∈ w.store.records, r ∈ rest ∨ ∃ r₀ ∈ w₀.store.records, r = settled x now r₀) ?_)
    hstart ?_ (fun _ h => h)
  · intro a rest w hw
    obtain ⟨hrest, hframe, hall⟩ := hw
    have ha : a ∈ w₀.store.records := hrest a (by simp)
    split
    · rename_i hsame
      refine ⟨fun r hr => hrest r (List.mem_cons_of_mem a hr), hframe, fun r hr => ?_⟩
      rcases hall r hr with hmem | hset
      · rcases List.mem_cons.mp hmem with rfl | hmem
        · exact .inr ⟨r, ha, hsame.symm⟩
        · exact .inl hmem
      · exact .inr hset
    · refine Routine.Triple.perform (A := fun w' => w' = w) ?_ ?_ ?_ w rfl
      · rintro w' rfl hguard
        have hcommit := commit_frame (e := .io "record.json") (OpenFrom.settled ha x now)
          w' hframe
        refine ⟨fun r hr => hrest r (List.mem_cons_of_mem a hr), hcommit.1 hguard, fun r hr => ?_⟩
        rcases Store.mem_commit hr with rfl | ⟨hmem, hne⟩
        · exact .inr ⟨a, ha, rfl⟩
        · rcases hall r hmem with hmem | hset
          · rcases List.mem_cons.mp hmem with rfl | hmem
            · exact absurd (settled_sameFiles x now r).txFinal.symm hne
            · exact .inl hmem
          · exact .inr hset
      · rintro w' rfl
        exact hframe
      · rintro w' rfl _
        exact hframe
  · rintro _ w ⟨-, hframe, hall⟩
    refine ⟨hframe, fun r hr => ?_⟩
    rcases hall r hr with hnil | hset
    · cases hnil
    · exact hset

/-- No object under a protected name is spent on the chain and has to move to another name. -/
def StaysOnChain (w₀ : World H) (prot : String → Prop) (m : Membership H) : Prop :=
  ∀ n, prot n → ∀ r₀, w₀.store.stored n = some (some r₀) → m.spends r₀.obj → r₀.isNullified = false →
    r₀.spentName n = n

/-- In the pass over all files a name has the record it had before the pass, or the one that
the pass makes of it. -/
def Reconciled (w₁ : World H) (x : Settlement H) (records : List (TransactionRecord H)) (n : String)
    (r : ObjectRecord H) : Prop :=
  ∃ r₁, w₁.store.stored n = some (some r₁) ∧ r.ident = r₁.ident ∧
    (r.status = r₁.status ∨ r.status = (reconciledEntry x records r₁).status)

variable {w₁ : World H} {base records : List (TransactionRecord H)} {x : Settlement H}

omit [EncodeHex H] in
theorem Frame.reconciled {w : World H} (hw₁ : Frame w₀ base prot w₀.store.Advanced w₁)
    (h : Frame w₀ base prot (Reconciled w₁ x records) w) : Frame w₀ base prot w₀.store.Advanced w := by
  refine ⟨h.owners, h.proofs, h.placed, h.keys, h.opens, fun n hn => ?_⟩
  obtain ⟨r, hr, r₁, hr₁, hident, hstatus⟩ := h.kept n hn
  obtain ⟨r', hr', hadv⟩ := hw₁.kept n hn
  rw [hr₁] at hr'
  cases hr'
  refine ⟨r, hr, hadv.trans ⟨hident, ?_⟩⟩
  rcases hstatus with hstatus | hstatus
  · rw [hstatus]
  · rw [hstatus]
    exact reconciledEntry_rank x records r₁

theorem reconcileEntry_frame {entry : String × ObjectRecord H} {p : Place}
    (hw₁ : Frame w₀ base prot w₀.store.Advanced w₁) (hsingle : w₁.store.Single)
    (hchain : ∀ m ∈ x.membership, StaysOnChain w₀ prot m)
    (hentry : w₁.store.loaded p entry.1 = some entry.2) :
    Routine.Preserves World.device Undisturbed (Frame w₀ base prot (Reconciled w₁ x records))
      (reconcileEntry x records entry) := by
  obtain ⟨name, record⟩ := entry
  have hstored : prot name → w₁.store.stored name = some (some record) := by
    intro hn
    obtain ⟨r₁, hr₁, -⟩ := hw₁.kept name hn
    have hsame : record = r₁ := stored_of_loaded hsingle hentry hr₁
    rw [hsame]
    exact hr₁
  unfold reconcileEntry
  dsimp only
  split
  · exact .pure _
  · split
    · rename_i hspent
      simp only [Bool.and_eq_true, Bool.not_eq_true'] at hspent
      obtain ⟨m, hm, hmspent⟩ := newly_spent hspent.1 hspent.2
      have hname : prot name → (reconciledEntry x records record).spentName name = name := by
        intro hn
        obtain ⟨r₁, hr₁, r₀, hr₀, hadv⟩ := hw₁.kept name hn
        rw [hstored hn] at hr₁
        cases hr₁
        have hobj : record.obj = r₀.obj := congrArg Prod.snd hadv.1
        have hcls : record.cls = r₀.cls := congrArg Prod.fst hadv.1
        have hfree : r₀.isNullified = false := by
          cases hnull : r₀.isNullified with
          | false => rfl
          | true =>
            rw [hadv.isNullified hnull] at hspent
            exact absurd hspent.2 (by simp)
        have hstays := hchain m hm name hn r₀ hr₀ (by rw [← hobj]; exact hmspent) hfree
        show (objectFileName record.cls record.obj).getD name = name
        rw [hobj, hcls]
        exact hstays
      refine (nullifyObjectFile_frame hname ?_ hspent.1).bind fun spentName => ?_
      · rintro n r hn ⟨r₁, hr₁, hident, -⟩ hsame
        have hobj : r₁.obj = record.obj := congrArg Prod.snd (hident.symm.trans hsame)
        refine ⟨r₁, hr₁, hsame.symm.trans hident, .inr ?_⟩
        have hstatus : (reconciledEntry x records r₁).status = .nullified :=
          reconciledEntry_spent hm (by rw [hobj]; exact hmspent)
        rw [hstatus]
        simpa [ObjectRecord.isNullified] using hspent.1
      · split
        · exact (report_frame _).bind fun _ => report_frame _
        · exact report_frame _
    · refine Routine.Triple.bind ((writeObjectFile_frame _ name).imp ?_ (fun _ _ h => h)
        (fun _ h => h)) fun _ => report_frame _
      intro w hw
      refine ⟨hw, fun hn r _ hgood _ => ⟨⟨record, hstored hn, rfl, .inr rfl⟩, fun hnull => ?_⟩⟩
      obtain ⟨r₁, hr₁, -, hstatus⟩ := hgood
      rw [hstored hn] at hr₁
      cases hr₁
      have hrank : r.status.rank ≤ (reconciledEntry x records record).status.rank := by
        rcases hstatus with h | h
        · rw [h]
          exact reconciledEntry_rank x records record
        · rw [h]
      exact ObjectRecord.isNullified_iff_rank.mpr
        (Nat.le_trans (ObjectRecord.isNullified_iff_rank.mp hnull) hrank)

/-- The whole pass: the records, the objects of those that it has settled, then all files. -/
theorem settleWith_frame (now : Nat)
    (hw₀ : Frame w₀ w₀.store.records (Protected w₀ w₀.store.records) w₀.store.Advanced w₀)
    (hrecords : ∀ r ∈ changedRecords x now w₀.store.records, r.state.isTerminal = true →
      StaysNamed w₀ (Protected w₀ (w₀.store.records.map (settled x now))) r)
    (hchain : ∀ m ∈ x.membership,
      StaysOnChain w₀ (Protected w₀ (w₀.store.records.map (settled x now))) m)
    (howners : ∀ n ∈ heldNames w₀, n ∈ w₀.owners.keys)
    (hknown : Known w₀ (Protected w₀ w₀.store.records)) :
    Routine.Triple World.device Undisturbed (fun w => w = w₀) (settleWith x now)
      (fun _ w => ∃ records, (∀ r ∈ records, OpenFrom w₀.store.records r) ∧
        Frame w₀ records (Protected w₀ records) w₀.store.Advanced w)
      (fun w => ∃ records, (∀ r ∈ records, OpenFrom w₀.store.records r) ∧
        Frame w₀ records (Protected w₀ records) w₀.store.Advanced w) := by
  refine Routine.Triple.get_bind fun w hw => ?_
  subst hw
  have hself : ∀ r ∈ w.store.records, OpenFrom w.store.records r :=
    fun r hr hopen => ⟨r, hr, hopen, rfl, rfl, rfl⟩
  have hafter : ∀ r ∈ w.store.records.map (settled x now), OpenFrom w.store.records r := by
    intro r hr
    obtain ⟨r₀, hr₀, rfl⟩ := List.mem_map.mp hr
    exact OpenFrom.settled hr₀ x now
  have hsub : ∀ n, Protected w (w.store.records.map (settled x now)) n →
      Protected w w.store.records n := by
    intro n hn
    rcases protected_iff.mp hn with hproof | hlocked
    · exact protected_iff.mpr (.inl hproof)
    · obtain ⟨r, hr, hopen, hn⟩ := mem_lockedInputs.mp hlocked
      obtain ⟨r₀, hr₀, hopen₀, -, hfiles, -⟩ := hafter r hr hopen
      exact protected_iff.mpr (.inr (mem_lockedInputs.mpr ⟨r₀, hr₀, hopen₀, hfiles ▸ hn⟩))
  refine Routine.Triple.bind (Q := fun _ => Frame w (w.store.records.map (settled x now))
    (Protected w (w.store.records.map (settled x now))) w.store.Advanced)
    ((settleRecords_frame x now hw₀).imp (fun _ h => h) ?_ fun w' hw' => ⟨_, hself, hw'⟩) fun _ => ?_
  · rintro _ w' ⟨hw', hall⟩
    refine ⟨hw'.owners, hw'.proofs, hw'.placed, hw'.keys, fun r hr hopen => ?_,
      fun n hn => hw'.kept n (hsub n hn)⟩
    obtain ⟨r₀, hr₀, rfl⟩ := hall r hr
    exact ⟨_, List.mem_map_of_mem hr₀, hopen, rfl, rfl, rfl⟩
  have hfiles : Routine.Preserves World.device Undisturbed
      (Frame w (w.store.records.map (settled x now))
        (Protected w (w.store.records.map (settled x now))) w.store.Advanced)
      (Routine.forList (persistRecord (lockedInputs (w.store.records.map (settled x now))))
        (changedRecords x now w.store.records)) := by
    refine Routine.Preserves.forList fun r hr => persistRecord_frame (hrecords r hr) ?_
      fun n hn => hknown n (hsub n hn)
    intro n hn
    rcases protected_iff.mp hn with hproof | hlocked
    · exact .inl (howners n hproof)
    · exact .inr hlocked
  refine Routine.Triple.bind (Routine.Triple.imp hfiles (fun _ h => h) (fun _ _ h => h)
    fun w' hw' => ⟨_, hafter, hw'⟩) fun _ => ?_
  refine Routine.Triple.get_bind fun w₁ hw₁ => ?_
  refine Routine.Triple.bind (Q := fun entries w' => w' = w₁ ∧ w₁.store.loadObjectFiles = .ok entries)
    (Routine.Triple.lift (fun entries w' hok hw' => ⟨hw', hok⟩)
      fun w' hw' => hw' ▸ ⟨_, hafter, hw₁⟩) fun entries => ?_
  rintro w' ⟨rfl, hload⟩
  obtain ⟨-, hsingle, -, hentries⟩ := Store.loadObjectFiles_ok hload
  have hpass : Routine.Preserves World.device Undisturbed
      (Frame w (w.store.records.map (settled x now))
        (Protected w (w.store.records.map (settled x now)))
        (Reconciled w' x (w.store.records.map (settled x now))))
      (Routine.forList (reconcileEntry x (w.store.records.map (settled x now))) entries) := by
    refine Routine.Preserves.forList fun entry hentry => ?_
    obtain ⟨p, hp⟩ := (hentries entry.1 entry.2).mp hentry
    exact reconcileEntry_frame hw₁ hsingle hchain hp
  have hstart : Frame w (w.store.records.map (settled x now))
      (Protected w (w.store.records.map (settled x now)))
      (Reconciled w' x (w.store.records.map (settled x now))) w' := by
    refine ⟨hw₁.owners, hw₁.proofs, hw₁.placed, hw₁.keys, hw₁.opens, fun n hn => ?_⟩
    obtain ⟨r, hr, -⟩ := hw₁.kept n hn
    exact ⟨r, hr, r, hr, rfl, .inl rfl⟩
  refine Routine.Triple.imp hpass (fun _ h => h) ?_ ?_ w' hstart
  · intro _ w'' hw''
    exact ⟨_, hafter, hw₁.reconciled hw''⟩
  · intro w'' hw''
    exact ⟨_, hafter, hw₁.reconciled hw''⟩

end Settlement

/-! ## Recording -/

section Recording

variable {w₀ : World H} {base : List (TransactionRecord H)} {prot : String → Prop}

omit [EncodeHex H] in
theorem writeFresh_frame {record : ObjectRecord H} {name : String}
    (hname : ∀ r, w₀.store.stored name ≠ some (some r)) :
    Routine.Preserves World.device Undisturbed (Frame w₀ base prot w₀.store.Advanced)
      (writeObjectFile record name) := by
  refine (writeObjectFile_frame record name).imp (fun w hw => ⟨hw, ?_⟩) (fun _ _ h => h) (fun _ h => h)
  rintro - r - ⟨r₀, hr₀, -⟩
  exact absurd hr₀ (hname r₀)

omit [EncodeHex H] in
theorem removeFresh_frame {name : String} (hname : w₀.store.stored name = none) :
    Routine.Preserves World.device Undisturbed (Frame w₀ base prot w₀.store.Advanced)
      (Routine.tryPerform (.remove .live name) : Task H Unit) := by
  refine Routine.Triple.tryPerform ?_ (fun _ hw _ => hw) (fun _ hw _ => hw) (fun _ hw _ => hw)
    (fun _ hw _ => hw)
  intro w hw _
  refine hw.files (Store.placed_remove hw.placed _ _) (Store.records_remove ..) ?_
  intro n hn
  have hne : n ≠ name := by
    rintro rfl
    obtain ⟨r, -, r₀, hr₀, -⟩ := hw.kept n hn
    rw [hname] at hr₀
    cases hr₀
  rw [Store.stored_remove_of_ne _ _ hne]
  exact hw.kept n hn

omit [EncodeHex H] in
theorem writeOutputs_frame {outputs : List (ObjectRecord H × String)} {attempted : List String}
    (houtputs : ∀ o ∈ outputs, w₀.store.stored o.2 = none)
    (hattempted : ∀ n ∈ attempted, w₀.store.stored n = none) :
    Routine.Triple World.device Undisturbed (Frame w₀ base prot w₀.store.Advanced)
      (writeOutputs attempted outputs)
      (fun res w => Frame w₀ base prot w₀.store.Advanced w ∧ ∀ n ∈ res.1, w₀.store.stored n = none)
      (Frame w₀ base prot w₀.store.Advanced) := by
  induction outputs generalizing attempted with
  | nil => exact Routine.Triple.ret fun w hw => ⟨hw, hattempted⟩
  | cons output rest ih =>
    obtain ⟨record, name⟩ := output
    have hname : w₀.store.stored name = none := houtputs (record, name) (by simp)
    have hmore : ∀ n ∈ attempted ++ [name], w₀.store.stored n = none := by
      intro n hn
      rcases List.mem_append.mp hn with hn | hn
      · exact hattempted n hn
      · rw [List.mem_singleton.mp hn]
        exact hname
    refine Routine.Triple.bind (writeFresh_frame (by simp [hname])).attempt fun o => ?_
    cases o with
    | ok u => exact ih (fun o ho => houtputs o (List.mem_cons_of_mem _ ho)) hmore
    | error e => exact Routine.Triple.ret fun w hw => ⟨hw, hmore⟩

omit [EncodeHex H] in
theorem rollbackRecord_frame (t : H) {attempted : List String} (e : DriverError)
    (hattempted : ∀ n ∈ attempted, w₀.store.stored n = none) :
    Routine.Triple World.device Undisturbed (Frame w₀ base prot w₀.store.Advanced)
      (rollbackRecord t attempted e) (fun _ _ => False) (Frame w₀ base prot w₀.store.Advanced) := by
  have hfiles : Routine.Preserves World.device Undisturbed (Frame w₀ base prot w₀.store.Advanced)
      (Routine.forList (fun name => (Routine.tryPerform (.remove .live name) : Task H Unit)) attempted) :=
    .forList fun name hn => removeFresh_frame (hattempted name hn)
  refine Routine.Triple.bind hfiles fun _ => ?_
  refine Routine.Triple.bind (Q := fun _ => Frame w₀ base prot w₀.store.Advanced) ?_ fun _ =>
    Routine.Triple.throw fun _ hw => hw
  exact Routine.Triple.tryPerform (fun _ hw _ => hw.removeTransaction t) (fun _ hw _ => hw)
    (fun _ hw _ => hw.removeTransaction t) (fun _ hw _ => hw) (fun _ hw _ => hw.removeTransaction t)

omit [EncodeHex H] in
theorem commitTransaction_frame (r : TransactionRecord H) :
    Routine.Triple World.device Undisturbed (Frame w₀ base prot w₀.store.Advanced)
      (commitTransaction r) (fun _ => Frame w₀ (base ++ [r]) prot w₀.store.Advanced)
      (Frame w₀ base prot w₀.store.Advanced) := by
  refine Routine.Triple.bind (Q := fun _ => Frame w₀ base prot w₀.store.Advanced)
    (Routine.Triple.perform (fun _ hw _ => hw) (fun _ hw => hw) (fun _ hw _ => hw)) fun _ => ?_
  refine Routine.Triple.perform ?_ (fun w hw => hw) (fun w hw _ => hw)
  intro w hw _
  show Frame w₀ (base ++ [r]) prot w₀.store.Advanced { w with store := w.store.commit r }
  rw [Store.commit_eq]
  refine ⟨hw.owners, hw.proofs, hw.placed, Store.keys_commit hw.keys r, fun r' hr' hopen => ?_, hw.kept⟩
  rcases Store.mem_commit hr' with rfl | ⟨hmem, -⟩
  · exact ⟨r', by simp, hopen, rfl, rfl, rfl⟩
  · obtain ⟨r₀, hr₀, hrest⟩ := hw.opens r' hmem hopen
    exact ⟨r₀, List.mem_append_left _ hr₀, hrest⟩

omit [EncodeHex H] in
theorem writeTransaction_frame (r : TransactionRecord H) {outputs : List (ObjectRecord H × String)}
    (houtputs : ∀ o ∈ outputs, w₀.store.stored o.2 = none) :
    Routine.Triple World.device Undisturbed (Frame w₀ base prot w₀.store.Advanced)
      (writeTransaction r outputs) (fun _ => Frame w₀ (base ++ [r]) prot w₀.store.Advanced)
      (Frame w₀ base prot w₀.store.Advanced) := by
  refine Routine.Triple.bind (writeOutputs_frame houtputs (by simp)) fun res => ?_
  obtain ⟨attempted, failure⟩ := res
  intro w hw
  obtain ⟨hw, hattempted⟩ := hw
  have hback : ∀ e, Routine.Triple World.device Undisturbed (Frame w₀ base prot w₀.store.Advanced)
      (rollbackRecord r.txFinal attempted e) (fun _ => Frame w₀ (base ++ [r]) prot w₀.store.Advanced)
      (Frame w₀ base prot w₀.store.Advanced) := fun e =>
    (rollbackRecord_frame r.txFinal e hattempted).imp (fun _ h => h) (fun _ _ h => h.elim) (fun _ h => h)
  cases failure with
  | some e => exact hback e w hw
  | none =>
    refine Routine.Triple.bind (commitTransaction_frame r).attempt (fun o => ?_) w hw
    cases o with
    | ok u => exact Routine.Triple.ret fun _ hw => hw
    | error e => exact hback e

/-- A recorded transaction has found its inputs live and free. -/
def Accepted (w₀ : World H) (proved : ProvedTransaction H) (files : List String)
    (r : TransactionRecord H) : Prop :=
  r.txFinal = proved.txFinal ∧ r.inputFiles = files ∧ r.nullifiers = proved.nullifiers ∧
    (∀ r' ∈ w₀.store.records, r'.txFinal ≠ proved.txFinal) ∧
    ∀ f ∈ files, f ∉ lockedInputs w₀.store.records

theorem record_frame (proved : ProvedTransaction H) (owner : String) (files : List String) (now : Nat)
    (hw₀ : Frame w₀ w₀.store.records prot w₀.store.Advanced w₀) :
    Routine.Triple World.device Undisturbed (fun w => w = w₀) (record proved owner files now)
      (fun _ w => ∃ r, Accepted w₀ proved files r ∧
        Frame w₀ (w₀.store.records ++ [r]) prot w₀.store.Advanced w)
      (Frame w₀ w₀.store.records prot w₀.store.Advanced) := by
  refine Routine.Triple.bind (Q := fun _ w => w = w₀)
    (Routine.Triple.lift (fun _ w _ hw => hw) fun w hw => hw ▸ hw₀) fun outputFiles => ?_
  refine Routine.Triple.get_bind fun w hw => ?_
  subst hw
  refine Routine.Triple.bind (Q := fun _ w' => w' = w)
    (Routine.Triple.lift (fun _ w' _ hw' => hw') fun w' hw' => hw' ▸ hw₀) fun entries => ?_
  refine Routine.Triple.bind (Q := fun _ w' => w' = w ∧
      checkInputs entries (lockedInputs w.store.records) files = .ok ())
    (Routine.Triple.lift (fun _ w' hok hw' => ⟨hw', hok⟩) fun w' hw' => hw' ▸ hw₀) fun _ => ?_
  rintro w' ⟨rfl, hinputs⟩
  split
  · exact hw₀
  · rename_i hnew
    split
    · exact hw₀
    · rename_i hfree
      have houtputs : ∀ n ∈ outputFiles, w'.store.stored n = none := by
        simpa using hfree
      refine Routine.Triple.bind (A := fun w => w = w') (Q := fun res w => w = w' ∧
        ∀ n ∈ res.1, w'.store.stored n = none)
        (Routine.Triple.lift ?_ fun w hw => hw ▸ hw₀) (fun res => ?_) w' rfl
      · rintro res w hok rfl
        exact ⟨rfl, pendingOutputs_free hok houtputs⟩
      · obtain ⟨outputFiles, pendingNames⟩ := res
        rintro w ⟨rfl, hnames⟩
        refine (writeTransaction_frame _ ?_).imp (fun _ h => h) ?_ (fun _ h => h) w hw₀
        · rintro ⟨o, name⟩ ho
          exact hnames name (List.of_mem_zip ho).2
        · intro _ w'' hw''
          refine ⟨_, ⟨rfl, rfl, rfl, ?_, fun f hf => (checkInputs_ok hinputs f hf).1⟩, hw''⟩
          intro r' hr' heq
          have hsome : (w.store.readRecord proved.txFinal).isSome = true := by
            unfold Store.readRecord
            exact List.find?_isSome.mpr ⟨r', hr', by simpa using heq⟩
          exact hnew hsome

end Recording

/-! ## The other operations -/

section Others

variable {w₀ : World H} {prot : String → Prop}

omit [EncodeHex H] in
theorem deleteTransaction_frame (t : H) (hknown : Known w₀ prot) :
    Routine.Preserves World.device Undisturbed (Frame w₀ w₀.store.records prot w₀.store.Advanced)
      (deleteTransaction t) := by
  refine Routine.Triple.get_bind fun w hw => ?_
  refine Routine.Triple.imp (A := Frame w₀ w₀.store.records prot w₀.store.Advanced) ?_
    (fun w' hw' => hw' ▸ hw) (fun _ _ h => h) (fun _ h => h)
  split
  · exact Routine.Preserves.throw _
  · split
    · exact Routine.Preserves.throw _
    · split
      · exact Routine.Preserves.throw _
      · exact (removeUnknownOutputs_frame _ hknown).bind fun _ => removeTransaction_frame _ _

/-- An update of an open record that keeps its inputs. -/
def KeepsInputs (change : TransactionRecord H → Option (TransactionRecord H)) : Prop :=
  ∀ r r', change r = some r' → r.isOpen = true ∧ r'.txFinal = r.txFinal ∧
    r'.inputFiles = r.inputFiles ∧ r'.nullifiers = r.nullifiers

omit [DecidableEq H] [EncodeHex H] in
theorem markSubmit_keepsInputs (now : Nat) : KeepsInputs (H := H) (markSubmit now) := by
  intro r r' h
  unfold markSubmit at h
  split at h
  · rename_i hstate
    cases h
    simp [TransactionRecord.isOpen, hstate, TransactionState.isTerminal]
  · cases h

omit [DecidableEq H] [EncodeHex H] in
theorem finishSubmit_keepsInputs (now : Nat) (jobId : String) (failed : Bool) :
    KeepsInputs (H := H) (finishSubmit now jobId failed) := by
  intro r r' h
  unfold finishSubmit at h
  split at h
  · rename_i hstate
    cases h
    simp [TransactionRecord.isOpen, hstate, TransactionState.isTerminal]
  · cases h

omit [EncodeHex H] in
theorem updateRecord_frame (t : H) {change : TransactionRecord H → Option (TransactionRecord H)}
    (hchange : KeepsInputs change) :
    Routine.Preserves World.device Undisturbed (Frame w₀ w₀.store.records prot w₀.store.Advanced)
      (updateRecord t change) := by
  refine Routine.Triple.get_bind fun w hw => ?_
  refine Routine.Triple.imp (A := Frame w₀ w₀.store.records prot w₀.store.Advanced) ?_
    (fun w' hw' => hw' ▸ hw) (fun _ _ h => h) (fun _ h => h)
  split
  · exact Routine.Preserves.throw _
  · rename_i r hr
    split
    · exact Routine.Preserves.pure _
    · rename_i r' hr'
      refine commit_frame fun _ => ?_
      obtain ⟨hopen, ht, hfiles, hnullifiers⟩ := hchange r r' hr'
      obtain ⟨r₀, hr₀, hopen₀, ht₀, hfiles₀, hnullifiers₀⟩ :=
        hw.opens r (Store.readRecord_eq_some hr).1 hopen
      exact ⟨r₀, hr₀, hopen₀, ht.trans ht₀, hfiles.trans hfiles₀, hnullifiers.trans hnullifiers₀⟩

theorem renameObject_frame (fileName newName : String)
    (hw₀ : Frame w₀ w₀.store.records prot w₀.store.Advanced w₀)
    (hheld : ∀ n, prot n → n ∈ w₀.owners.keys ∨ n ∈ lockedInputs w₀.store.records) :
    Routine.Triple World.device Undisturbed (fun w => w = w₀) (renameObject fileName newName)
      (fun _ => Frame w₀ w₀.store.records prot w₀.store.Advanced)
      (Frame w₀ w₀.store.records prot w₀.store.Advanced) := by
  refine Routine.Triple.get_bind fun w hw => ?_
  subst hw
  split
  · exact Routine.Triple.throw fun w' hw' => hw' ▸ hw₀
  · exact Routine.Triple.throw fun w' hw' => hw' ▸ hw₀
  · split
    · exact Routine.Triple.throw fun w' hw' => hw' ▸ hw₀
    · refine Routine.Triple.bind (Q := fun _ w' => w' = w)
        (Routine.Triple.lift (fun _ w' _ hw' => hw') fun w' hw' => hw' ▸ hw₀) fun target => ?_
      split
      · exact Routine.Triple.ret fun w' hw' => hw' ▸ hw₀
      · split
        · exact Routine.Triple.throw fun w' hw' => hw' ▸ hw₀
        · rename_i hfree
          split
          · exact Routine.Triple.throw fun w' hw' => hw' ▸ hw₀
          · rename_i hunlocked
            split
            · exact Routine.Triple.throw fun w' hw' => hw' ▸ hw₀
            · split
              · exact Routine.Triple.throw fun w' hw' => hw' ▸ hw₀
              · split
                · exact Routine.Triple.throw fun w' hw' => hw' ▸ hw₀
                · rename_i htaken
                  refine (renameLive_frame fun hn => ?_).imp (fun w' hw' => ?_) (fun _ _ h => h)
                    (fun _ h => h)
                  · rcases hheld fileName hn with h | h
                    · exact hfree (AList.mem_keys.mpr h)
                    · exact hunlocked h
                  · rw [hw']
                    exact ⟨hw₀, Store.stored_eq_none_of_hasFile (by simpa using htaken)⟩

theorem importObject_frame (record : ObjectRecord H) (requested : Option String)
    (hw₀ : Frame w₀ w₀.store.records prot w₀.store.Advanced w₀) :
    Routine.Triple World.device Undisturbed (fun w => w = w₀) (importObject record requested)
      (fun _ => Frame w₀ w₀.store.records prot w₀.store.Advanced)
      (Frame w₀ w₀.store.records prot w₀.store.Advanced) := by
  unfold importObject
  split
  · exact Routine.Triple.throw fun w' hw' => hw' ▸ hw₀
  · split
    · exact Routine.Triple.throw fun w' hw' => hw' ▸ hw₀
    · split
      · exact Routine.Triple.throw fun w' hw' => hw' ▸ hw₀
      · refine Routine.Triple.get_bind fun w hw => ?_
        subst hw
        refine Routine.Triple.bind (Q := fun name w' => w' = w ∧ ∀ r, w.store.stored name ≠ some (some r))
          (Routine.Triple.lift (fun name w' hok hw' => ⟨hw', importFileName_free hok⟩)
            fun w' hw' => hw' ▸ hw₀) fun name => ?_
        rintro w' ⟨rfl, hfree⟩
        exact writeFresh_frame hfree w' hw₀

omit [EncodeHex H] in
theorem discardObject_frame {fileName : String} (hfree : ¬ prot fileName) :
    Routine.Preserves World.device Undisturbed (Frame w₀ w₀.store.records prot w₀.store.Advanced)
      (discardObject fileName) := by
  refine Routine.Triple.bind (parseLive_spec fileName fun _ hw => hw) fun o => ?_
  cases o with
  | none => exact Routine.Triple.throw fun _ hw => hw.1
  | some record =>
    refine Routine.Triple.perform ?_ (fun w hw => hw.1) (fun w hw _ => hw.1)
    rintro w ⟨hw, -⟩ -
    refine hw.files (Store.placed_discard hw.placed _) (Store.records_discard ..) ?_
    intro n hn
    have hne : n ≠ fileName := fun h => hfree (h ▸ hn)
    show ∃ r, (w.store.apply (.discard fileName)).stored n = some (some r) ∧ _
    rw [Store.stored_discard_of_ne _ hne]
    exact hw.kept n hn

end Others

end DigitalObjects.Driver.Objects
