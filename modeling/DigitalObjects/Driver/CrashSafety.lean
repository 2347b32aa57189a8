import DigitalObjects.Lib.Machine
import DigitalObjects.Driver.Operations
set_option autoImplicit false

/-!
What a crash leaves of the object store: it still loads, and every object of it is still there.
This fails in two places only, in the middle of a write over an object and between the two
halves of a move to the nullified directory.
-/

namespace DigitalObjects.Driver.Objects

open Txlib Lib

variable {H : Type} [DecidableEq H] [EncodeHex H]

/-- A write is not cut off over a file with an object in it; no spent object is written under a
name that another object has; and the live copy of an object is removed once its spent copy is
written under the same name. -/
def Uncut (w : World H) : FsOp H → Answer → Prop
  | .write p n record, a =>
    (a = .torn ∨ a = .cut → w.store.loaded p n = none) ∧
    (record.isNullified → (∀ r ∈ w.store.loaded .live n, r.obj = record.obj) ∧
      ∀ r ∈ w.store.loaded .nullified n, r.obj = record.obj)
  | .remove .live n, a =>
    a = .done ∨ w.store.loaded .live n = none ∨ w.store.loaded .nullified n = none
  | _, _ => True

instance (w : World H) : (op : FsOp H) → (a : Answer) → Decidable (Uncut w op a)
  | .write p n record, a => inferInstanceAs (Decidable (
      (a = .torn ∨ a = .cut → w.store.loaded p n = none) ∧
      (record.isNullified → (∀ r ∈ w.store.loaded .live n, r.obj = record.obj) ∧
        ∀ r ∈ w.store.loaded .nullified n, r.obj = record.obj)))
  | .remove .live n, a => inferInstanceAs (Decidable (
      a = .done ∨ w.store.loaded .live n = none ∨ w.store.loaded .nullified n = none))
  | .remove .nullified _, _ | .rename _ _, _ | .discard _, _ | .writePayload _, _ | .commit _, _
  | .removeTransaction _, _ => .isTrue trivial

/-- The store `s` loads, and has every object of `s₀` beside those of files that may go. -/
structure Intact (rem : ObjectRecord H → Prop) (s₀ s : Store H) : Prop where
  placed : s.Placed
  single : s.Single
  kept : ∀ p n r, s₀.loaded p n = some r → ¬ rem r →
    ∃ q m r', s.loaded q m = some r' ∧ r'.obj = r.obj ∧ ¬ rem r'

namespace Intact

variable {rem : ObjectRecord H → Prop} {s₀ s s' : Store H}

omit [DecidableEq H] [EncodeHex H]

theorem refl (hplaced : s.Placed) (hsingle : s.Single) : Intact rem s s :=
  ⟨hplaced, hsingle, fun p n r hr hrem => ⟨p, n, r, hr, rfl, hrem⟩⟩

theorem congr (h : Intact rem s₀ s) (hs : ∀ p n, s'.loaded p n = s.loaded p n) : Intact rem s₀ s' := by
  refine ⟨fun p n r hr => h.placed p n r (hs p n ▸ hr), fun n => ?_, fun p n r hr hrem => ?_⟩
  · rw [hs, hs]
    exact h.single n
  · obtain ⟨q, m, r', hr', hrest⟩ := h.kept p n r hr hrem
    exact ⟨q, m, r', (hs q m).trans hr', hrest⟩

/-- One name gets a record that stands for whatever was there. -/
theorem replace (h : Intact rem s₀ s) {n : String} {record : ObjectRecord H}
    (hsame : ∀ p r, s.loaded p n = some r → r.obj = record.obj ∧ (¬ rem r → ¬ rem record))
    (hs : ∀ p m, s'.loaded p m =
      if m = n then (if p = record.place then some record else none) else s.loaded p m) :
    Intact rem s₀ s' := by
  refine ⟨fun p m r hr => ?_, fun m => ?_, fun p m r hr hrem => ?_⟩
  · rw [hs] at hr
    split at hr
    · split at hr
      · rename_i hp
        cases hr
        exact hp.symm
      · cases hr
    · exact h.placed p m r hr
  · rw [hs, hs]
    split
    · cases record.place <;> simp
    · exact h.single m
  · obtain ⟨q, k, r', hr', hobj, hrem'⟩ := h.kept p m r hr hrem
    by_cases hk : k = n
    · subst hk
      have hrec := hsame q r' hr'
      refine ⟨record.place, k, record, by rw [hs]; simp, hrec.1.symm.trans hobj, hrec.2 hrem'⟩
    · exact ⟨q, k, r', by rw [hs, if_neg hk]; exact hr', hobj, hrem'⟩

/-- A file goes whose object may go, or is elsewhere. -/
theorem remove (h : Intact rem s₀ s) {p : Place} {n : String}
    (hgone : ∀ r, s.loaded p n = some r → ¬ rem r →
      ∃ q m r', s.loaded q m = some r' ∧ (q, m) ≠ (p, n) ∧ r'.obj = r.obj ∧ ¬ rem r')
    (hs : ∀ q m, s'.loaded q m = if q = p ∧ m = n then none else s.loaded q m) : Intact rem s₀ s' := by
  have hother : ∀ q m, (q, m) ≠ (p, n) → s'.loaded q m = s.loaded q m := by
    intro q m hne
    rw [hs, if_neg]
    rintro ⟨rfl, rfl⟩
    exact hne rfl
  refine ⟨fun q m r hr => ?_, fun m => ?_, fun q m r hr hrem => ?_⟩
  · rw [hs] at hr
    split at hr
    · cases hr
    · exact h.placed q m r hr
  · rw [hs, hs]
    rcases h.single m with hm | hm
    · left
      split
      · rfl
      · exact hm
    · right
      split
      · rfl
      · exact hm
  · obtain ⟨q', m', r', hr', hobj, hrem'⟩ := h.kept q m r hr hrem
    by_cases hpn : (q', m') = (p, n)
    · cases hpn
      obtain ⟨q'', m'', r'', hr'', hne, hobj', hrem''⟩ := hgone r' hr' hrem'
      exact ⟨q'', m'', r'', (hother q'' m'' hne).trans hr'', hobj'.trans hobj, hrem''⟩
    · exact ⟨q', m', r', (hother q' m' hpn).trans hr', hobj, hrem'⟩

end Intact

omit [EncodeHex H] in
theorem Store.loaded_commit (s : Store H) (r : TransactionRecord H) (p : Place)
    (n : String) : (s.commit r).loaded p n = s.loaded p n := by
  rw [Store.commit_eq]
  cases p <;> rfl

/-- What may go with the transactions `ts`: their unknown outputs. -/
def Removable (ts : List H) (r : ObjectRecord H) : Prop := r.status = .unknown ∧ r.txFinal ∈ ts

section Removable

variable {ts : List H} {r r' : ObjectRecord H}

omit [DecidableEq H] [EncodeHex H]

theorem not_removable_of_nullified (h : r.isNullified = true) : ¬ Removable ts r := by
  rintro ⟨hunknown, -⟩
  simp [ObjectRecord.isNullified, hunknown] at h

theorem not_removable_of_rank (h : ¬ Removable ts r) (htx : r'.txFinal = r.txFinal)
    (hrank : r.status.rank ≤ r'.status.rank) : ¬ Removable ts r' := by
  rintro ⟨hunknown, hmem⟩
  refine h ⟨?_, htx ▸ hmem⟩
  rw [hunknown] at hrank
  cases hs : r.status with
  | unknown => rfl
  | live => simp [hs, FileStatus.rank] at hrank
  | nullified => simp [hs, FileStatus.rank] at hrank

end Removable

/-- Nothing of the store `s₀` is lost but unknown outputs of `ts`. -/
def Safe (ts : List H) (s₀ : Store H) (w : World H) : Prop := Intact (Removable ts) s₀ w.store

/-! ## Single files -/

section Files

variable {ts : List H} {s₀ : Store H} {w₁ : World H}

/-- A record that is not spent stands for whatever is under its name. -/
def Replaces (ts : List H) (s : Store H) (n : String) (record : ObjectRecord H) : Prop :=
  record.isNullified = false → s.loaded .nullified n = none ∧
    ∀ r, s.loaded .live n = some r → r.obj = record.obj ∧ (¬ Removable ts r → ¬ Removable ts record)

/-- The name has the new record alone; the object is the one that was there. -/
def Replaced (s s' : Store H) (n : String) (record : ObjectRecord H) : Prop :=
  (∀ p r, s.loaded p n = some r → r.obj = record.obj) ∧
  ∀ p m, s'.loaded p m =
    if m = n then (if p = record.place then some record else none) else s.loaded p m

omit [EncodeHex H] in
theorem writeObjectFile_safe {record : ObjectRecord H} {name : String} (h : Safe ts s₀ w₁)
    (hrec : Replaces ts w₁.store name record) :
    Routine.Triple World.device Uncut (fun w => w = w₁) (writeObjectFile record name)
      (fun _ w => Safe ts s₀ w ∧ Replaced w₁.store w.store name record) (Safe ts s₀) := by
  refine Routine.Triple.bind (Q := fun _ w =>
    w.store = w₁.store.apply (.write record.place name record) ∧
    ∀ p r, w₁.store.loaded p name = some r →
      r.obj = record.obj ∧ (¬ Removable ts r → ¬ Removable ts record)) ?_ ?_
  · refine Routine.Triple.perform ?_ ?_ ?_
    · rintro w rfl ⟨-, hguard⟩
      refine ⟨rfl, fun p r hr => ?_⟩
      cases hnull : record.isNullified with
      | false =>
        cases p with
        | live => exact (hrec hnull).2 r hr
        | nullified =>
          rw [(hrec hnull).1] at hr
          cases hr
      | true =>
        refine ⟨?_, fun _ => not_removable_of_nullified hnull⟩
        cases p with
        | live => exact (hguard hnull).1 r hr
        | nullified => exact (hguard hnull).2 r hr
    · rintro w rfl
      exact h
    · rintro w rfl hguard
      have hfree : w.store.loaded record.place name = none := by
        rcases hguard with hg | hg
        · exact hg.1 (.inl rfl)
        · exact hg.1 (.inr rfl)
      refine h.congr fun p n => ?_
      show (w.store.tear _).loaded p n = _
      rw [Store.loaded_tear_write]
      split
      · rename_i hpn
        rw [hpn.1, hpn.2, hfree]
      · rfl
  · intro _
    -- Once the other file is gone, or was never there, the name has the new record only.
    have hdone : ∀ w : World H, w.store = w₁.store.apply (.write record.place name record) → ∀ p m,
        (w.store.apply (.remove record.place.other name)).loaded p m = if m = name then
          (if p = record.place then some record else none) else w₁.store.loaded p m := by
      intro w hw p m
      rw [Store.loaded_remove, hw, Store.loaded_write]
      by_cases hm : m = name
      · cases p <;> cases record.place <;> simp [hm, Place.other]
      · simp [hm]
    have hkept : ∀ w : World H, w.store = w₁.store.apply (.write record.place name record) →
        ∀ a, a ≠ .done → Uncut w (.remove record.place.other name) a → ∀ p m,
        w.store.loaded p m = if m = name then
          (if p = record.place then some record else none) else w₁.store.loaded p m := by
      intro w hw a ha hguard p m
      have hother : w₁.store.loaded record.place.other name = none := by
        cases hp : record.place with
        | live => exact (hrec (ObjectRecord.place_eq_live.mp hp)).1
        | nullified =>
          rw [hp] at hguard hw
          rcases hguard with hg | hg | hg
          · exact absurd hg ha
          · rw [hw, Store.loaded_write] at hg
            simpa [Place.other] using hg
          · rw [hw, Store.loaded_write] at hg
            simp at hg
      rw [hw, Store.loaded_write]
      by_cases hm : m = name
      · subst hm
        cases p <;> cases hp : record.place <;> simp [hp, Place.other] at hother ⊢ <;> exact hother
      · simp [hm]
    have hsame : ∀ {w : World H}, (w.store = w₁.store.apply (.write record.place name record) ∧
        ∀ p r, w₁.store.loaded p name = some r →
          r.obj = record.obj ∧ (¬ Removable ts r → ¬ Removable ts record)) →
        ∀ s : Store H, (∀ p m, s.loaded p m = if m = name then
          (if p = record.place then some record else none) else w₁.store.loaded p m) →
        Intact (Removable ts) s₀ s ∧ Replaced w₁.store s name record :=
      fun hw s hs => ⟨h.replace hw.2 hs, fun p r hr => (hw.2 p r hr).1, hs⟩
    refine Routine.Triple.tryPerform ?_ ?_ ?_ ?_ ?_
    · intro w hw _
      exact hsame hw _ (hdone w hw.1)
    · intro w hw hguard
      exact hsame hw _ (hkept w hw.1 .failed (by simp) hguard)
    · intro w hw hguard
      exact hsame hw _ (hkept w hw.1 .torn (by simp) hguard)
    · intro w hw hguard
      exact (hsame hw _ (hkept w hw.1 .crashed (by simp) hguard)).1
    · intro w hw hguard
      exact (hsame hw _ (hkept w hw.1 .cut (by simp) hguard)).1

/-- The object of the live file `n` is spent: it is under its generated name, and only there. -/
def Moved (s s' : Store H) (n : String) (record : ObjectRecord H) : Prop :=
  (∀ p r, s.loaded p (record.spentName n) = some r → r.obj = record.obj) ∧
  ∀ p m, s'.loaded p m = if m = record.spentName n then (if p = .nullified then some record else none)
    else if p = .live ∧ m = n then none else s.loaded p m

theorem nullifyObjectFile_safe {record : ObjectRecord H} {name : String} (h : Safe ts s₀ w₁)
    (hnull : record.isNullified = true)
    (hlive : ∀ r, w₁.store.loaded .live name = some r → r.obj = record.obj) :
    Routine.Triple World.device Uncut (fun w => w = w₁) (nullifyObjectFile record name)
      (fun _ w => Safe ts s₀ w ∧ Moved w₁.store w.store name record) (Safe ts s₀) := by
  have hplace : record.place = .nullified := ObjectRecord.place_eq_nullified.mpr hnull
  have hrec : Replaces ts w₁.store (record.spentName name) record := by
    intro hfree
    rw [hnull] at hfree
    cases hfree
  refine Routine.Triple.bind (writeObjectFile_safe h hrec) fun _ => ?_
  dsimp only
  split
  · rename_i hne
    refine Routine.Triple.bind (Q := fun _ w => Safe ts s₀ w ∧ Moved w₁.store w.store name record)
      ?_ fun _ => Routine.Triple.ret fun w hw => hw
    refine Routine.Triple.perform ?_ (fun w hw => hw.1) (fun w hw _ => hw.1)
    rintro w ⟨hw, hobj, hall⟩ -
    have hremove := Store.loaded_remove w.store .live
    refine ⟨?_, hobj, fun p m => ?_⟩
    · refine hw.remove (fun r hr _ => ?_) fun q m => hremove q name m
      rw [hall, if_neg (Ne.symm hne)] at hr
      refine ⟨.nullified, record.spentName name, record, ?_, by simp, (hlive r hr).symm,
        not_removable_of_nullified hnull⟩
      rw [hall, if_pos rfl, if_pos hplace.symm]
    · show (w.store.apply (.remove .live name)).loaded p m = _
      rw [hremove, hall, hplace]
      by_cases hm : m = record.spentName name
      · have hmn : m ≠ name := hm ▸ hne
        simp [hm, hne]
      · simp [hm]
  · rename_i heq
    have heq' : record.spentName name = name := not_not.mp heq
    refine Routine.Triple.ret fun w hw => ⟨hw.1, hw.2.1, fun p m => ?_⟩
    rw [hw.2.2, hplace, heq']
    by_cases hm : m = name
    · simp [hm]
    · simp [hm]

end Files

/-! ## Steps that touch one file -/

section Steps

variable {ts : List H} {s₀ : Store H}

omit [EncodeHex H] in
theorem report_safe (f : World H → Report) :
    Routine.Preserves World.device Uncut (Safe ts s₀)
      (Routine.modify fun w => { w with report := f w } : Task H Unit) :=
  Routine.Triple.modify fun _ hw => hw

omit [EncodeHex H] in
theorem commit_safe (r : TransactionRecord H) (e : DriverError) :
    Routine.Preserves World.device Uncut (Safe ts s₀) (Routine.perform (.commit r) e : Task H Unit) :=
  Routine.Triple.perform (fun w hw _ => hw.congr fun p n => w.store.loaded_commit r p n)
    (fun _ hw => hw) (fun _ hw _ => hw)

omit [EncodeHex H] in
theorem removeTransaction_safe (t : H) (e : DriverError) :
    Routine.Preserves World.device Uncut (Safe ts s₀)
      (Routine.perform (.removeTransaction t) e : Task H Unit) :=
  Routine.Triple.perform (fun _ hw _ => hw.congr fun p n => by cases p <;> rfl)
    (fun _ hw => hw) (fun _ hw _ => hw.congr fun p n => by cases p <;> rfl)

omit [EncodeHex H] in
/-- A rename to a name that no file has. -/
theorem Intact.rename {rem : ObjectRecord H → Prop} {s : Store H} (h : Intact rem s₀ s)
    {old new : String} (hfree : s.stored new = none) : Intact rem s₀ (s.apply (.rename old new)) := by
  by_cases hfile : s.file .live old = none
  · refine h.congr fun p n => ?_
    rw [Store.loaded_rename]
    simp [hfile]
  · have hlive : ∀ m, (s.apply (.rename old new)).loaded .live m =
        if m = new then s.loaded .live old else if m = old then none else s.loaded .live m := by
      intro m
      rw [Store.loaded_rename, if_pos ⟨rfl, hfile⟩]
    have hnull : ∀ m, (s.apply (.rename old new)).loaded .nullified m = s.loaded .nullified m := by
      intro m
      rw [Store.loaded_rename]
      simp
    refine ⟨Store.placed_rename h.placed old new, fun m => ?_, fun p n r hr hrem => ?_⟩
    · rw [hlive, hnull]
      by_cases hm : m = new
      · exact .inr (hm ▸ Store.loaded_eq_none_of_stored hfree .nullified)
      · by_cases hmo : m = old
        · rw [if_neg hm, if_pos hmo]
          exact .inl rfl
        · rw [if_neg hm, if_neg hmo]
          exact h.single m
    · obtain ⟨q, m, r', hr', hobj, hrem'⟩ := h.kept p n r hr hrem
      have hne : m ≠ new := by
        rintro rfl
        rw [Store.loaded_eq_none_of_stored hfree] at hr'
        cases hr'
      cases q with
      | nullified => exact ⟨.nullified, m, r', (hnull m).trans hr', hobj, hrem'⟩
      | live =>
        by_cases hmo : m = old
        · subst hmo
          exact ⟨.live, new, r', by rw [hlive, if_pos rfl]; exact hr', hobj, hrem'⟩
        · exact ⟨.live, m, r', by rw [hlive, if_neg hne, if_neg hmo]; exact hr', hobj, hrem'⟩

omit [EncodeHex H] in
theorem renameLive_safe (old new : String) :
    Routine.Triple World.device Uncut (fun w => Safe ts s₀ w ∧ w.store.stored new = none)
      (renameLiveObjectFile old new) (fun _ => Safe ts s₀) (Safe ts s₀) := by
  refine Routine.Triple.get_bind fun w hw => ?_
  split
  · exact Routine.Triple.throw fun w' hw' => hw' ▸ hw.1
  · refine Routine.Triple.perform ?_ (fun w' hw' => hw' ▸ hw.1) (fun w' hw' _ => hw' ▸ hw.1)
    rintro w' rfl -
    exact hw.1.rename hw.2

omit [EncodeHex H] in
theorem removeUnknownOutputs_safe {r : TransactionRecord H} (hr : r.txFinal ∈ ts) :
    Routine.Preserves World.device Uncut (Safe ts s₀) (removeUnknownOutputs r) := by
  refine .forList fun name _ => ?_
  refine Routine.Triple.get_bind fun w hw => ?_
  split
  · rename_i record hload
    split
    · rename_i hunknown
      refine Routine.Triple.bind (Q := fun _ => Safe ts s₀) ?_ fun _ => report_safe _
      refine Routine.Triple.perform ?_ (fun w' hw' => hw' ▸ hw) (fun w' hw' _ => hw' ▸ hw)
      rintro w' rfl -
      refine hw.remove (fun r' hr' hrem => ?_) fun q m => Store.loaded_remove _ _ q name m
      rw [hload] at hr'
      cases hr'
      exact absurd ⟨hunknown.1, hunknown.2 ▸ hr⟩ hrem
    · exact Routine.Triple.ret fun w' hw' => hw' ▸ hw
  · exact Routine.Triple.ret fun w' hw' => hw' ▸ hw

theorem persistInput_safe (r : TransactionRecord H) (acc : List (String × String)) (name : String) :
    Routine.Preserves World.device Uncut (Safe ts s₀) (persistInput r acc name) := by
  refine Routine.Triple.bind (parseStored_spec name fun _ hw => hw) fun o => ?_
  cases o with
  | none => exact Routine.Triple.ret fun _ hw => hw.1
  | some record =>
    dsimp only
    split
    · exact Routine.Triple.ret fun _ hw => hw.1
    · rename_i hspent
      simp only [Bool.or_eq_true, not_or, Bool.not_eq_true] at hspent
      rintro w ⟨hw, hstored⟩
      -- What is read is the live file, as it is not spent yet.
      have hload : w.store.loaded .live name = some record := by
        have hload := Store.loaded_of_stored hw.placed hstored
        rw [ObjectRecord.place_eq_live.mpr hspent.2] at hload
        exact hload
      refine Routine.Triple.bind (A := fun w' => w' = w) (Q := fun _ => Safe ts s₀)
        ((nullifyObjectFile_safe hw rfl ?_).imp (fun _ h => h) (fun _ _ h => h.1) (fun _ h => h))
        (fun spentName => ?_) w rfl
      · intro r' hr'
        rw [hload] at hr'
        cases hr'
        rfl
      · split
        · refine (report_safe _).bind fun _ => ?_
          exact (report_safe _).bind fun _ => Routine.Preserves.pure _
        · exact (report_safe _).bind fun _ => Routine.Preserves.pure _

omit [DecidableEq H] [EncodeHex H] in
/-- A file rewritten where it is, with the same object and no earlier status. -/
theorem replaces_of_rank {w : World H} {record record' : ObjectRecord H} {name : String} {p : Place}
    (h : Safe ts s₀ w) (hload : w.store.loaded p name = some record) (hobj : record'.obj = record.obj)
    (htx : record'.txFinal = record.txFinal) (hrank : record.status.rank ≤ record'.status.rank) :
    Replaces ts w.store name record' := by
  intro hfree
  have hlive : record.isNullified = false := by
    cases hnull : record.isNullified with
    | false => rfl
    | true =>
      have hrank' := Nat.le_trans (ObjectRecord.isNullified_iff_rank.mp hnull) hrank
      rw [ObjectRecord.isNullified_iff_rank.mpr hrank'] at hfree
      cases hfree
  have hp : p = .live := (h.placed p name record hload).symm.trans (ObjectRecord.place_eq_live.mpr hlive)
  subst hp
  constructor
  · rcases h.single name with hnone | hnone
    · rw [hload] at hnone
      cases hnone
    · exact hnone
  · intro r hr
    rw [hload] at hr
    cases hr
    exact ⟨hobj.symm, fun hrem => not_removable_of_rank hrem htx hrank⟩

omit [EncodeHex H] in
theorem persistOutput_safe (r : TransactionRecord H) (name : String) :
    Routine.Preserves World.device Uncut (Safe ts s₀) (persistOutput r name) := by
  refine Routine.Triple.bind (parseStored_spec name fun _ hw => hw) fun o => ?_
  cases o with
  | none => exact Routine.Triple.ret fun _ hw => hw.1
  | some record =>
    dsimp only
    split
    · exact Routine.Triple.ret fun _ hw => hw.1
    · rintro w ⟨hw, hstored⟩
      have hrec : Replaces ts w.store name (settledOutput r record) :=
        replaces_of_rank hw (Store.loaded_of_stored hw.placed hstored) rfl rfl
          (settledOutput_advances r record).2
      refine Routine.Triple.bind (A := fun w' => w' = w) (Q := fun _ => Safe ts s₀)
        ((writeObjectFile_safe hw hrec).imp (fun _ h => h) (fun _ _ h => h.1) (fun _ h => h))
        (fun _ => report_safe _) w rfl

omit [EncodeHex H] in
theorem finishPendingName_safe (r : TransactionRecord H) (locked held : List String)
    (pending : PendingName) :
    Routine.Preserves World.device Uncut (Safe ts s₀) (finishPendingName r locked held pending) := by
  refine Routine.Triple.bind (parseLive_spec pending.fileName fun _ hw => hw) fun o => ?_
  cases o with
  | none => exact Routine.Triple.ret fun _ hw => hw.1
  | some record =>
    dsimp only
    split
    · exact Routine.Triple.ret fun _ hw => hw.1
    · split
      · exact Routine.Triple.ret fun _ hw => hw.1
      · refine Routine.Triple.get_bind fun w hw => ?_
        refine Routine.Triple.bind (Q := fun finalName w' => w' = w ∧ w.store.stored finalName = none)
          (Routine.Triple.lift (fun name w' hok hw' => ⟨hw', ?_⟩) fun w' hw' => hw' ▸ hw.1) fun finalName => ?_
        · exact Store.stored_eq_none_of_hasFile (uniqueFileName_free hok)
        · refine Routine.Triple.bind (Q := fun _ => Safe ts s₀) ((renameLive_safe _ _).imp ?_
            (fun _ _ h => h) (fun _ h => h)) fun _ => ?_
          · rintro w' ⟨rfl, hfree⟩
            exact ⟨hw.1, hfree⟩
          · refine (report_safe _).bind fun _ => ?_
            exact (report_safe _).bind fun _ => Routine.Preserves.pure _

end Steps

/-! ## Settled records -/

section Settled

variable {ts : List H} {s₀ : Store H}

omit [EncodeHex H] in
theorem finishPendingNames_safe (r : TransactionRecord H) (locked : List String) :
    Routine.Preserves World.device Uncut (Safe ts s₀) (finishPendingNames r locked) := by
  unfold finishPendingNames
  split
  · exact .pure _
  · refine Routine.Triple.get_bind fun w hw => ?_
    have hfold : Routine.Preserves World.device Uncut (Safe ts s₀)
        (Routine.foldList (fun (finished : List (PendingName × Finished)) pending => do
          let outcome ← finishPendingName r locked w.owners.keys pending
          pure (finished ++ [(pending, outcome)])) [] r.pendingNames) :=
      .foldList fun finished pending _ =>
        (finishPendingName_safe r locked _ pending).bind fun _ => .pure _
    exact Routine.Triple.imp (hfold.bind fun _ => .pure _) (fun w' hw' => hw' ▸ hw) (fun _ _ h => h)
      (fun _ h => h)

theorem persistSettledObjects_safe {r : TransactionRecord H} (hr : r.state = .expired → r.txFinal ∈ ts)
    (locked : List String) :
    Routine.Preserves World.device Uncut (Safe ts s₀) (persistSettledObjects r locked) := by
  unfold persistSettledObjects
  split
  · rename_i hexpired
    refine Routine.Preserves.bind (.forList fun name _ => ?_) fun _ => ?_
    · refine Routine.Triple.bind (parseLive_spec name fun _ hw => hw) fun _ => ?_
      exact Routine.Triple.ret fun _ hw => hw.1
    · exact (removeUnknownOutputs_safe (hr hexpired)).bind fun _ => .pure _
  · refine Routine.Preserves.bind (.foldList fun acc name _ => persistInput_safe r acc name) fun _ => ?_
    refine Routine.Preserves.bind (.forList fun name _ => persistOutput_safe r name) fun _ => ?_
    exact (finishPendingNames_safe _ locked).bind fun _ => .pure _

theorem persistRecord_safe {r : TransactionRecord H} (hr : r.state = .expired → r.txFinal ∈ ts)
    (locked : List String) :
    Routine.Preserves World.device Uncut (Safe ts s₀) (persistRecord locked r) := by
  have hreport : ∀ names : List String, Routine.Preserves World.device Uncut (Safe ts s₀)
      (Routine.forList (reportChanged (H := H)) names) := fun names => .forList fun _ _ => report_safe _
  unfold persistRecord
  split
  · refine (persistSettledObjects_safe hr locked).attempt.bind fun o => ?_
    split
    · exact (commit_safe _ _).bind fun _ => hreport _
    · exact hreport _
    · exact hreport _
  · exact .pure _

omit [EncodeHex H] in
theorem cache_safe (f : World H → World H) (hf : ∀ w, (f w).store = w.store) :
    Routine.Preserves World.device Uncut (Safe ts s₀) (Routine.modify f : Task H Unit) := by
  refine Routine.Triple.modify fun w hw => ?_
  unfold Safe
  rw [hf]
  exact hw

theorem pruneRecord_safe {r : TransactionRecord H} (hr : r.state = .expired → r.txFinal ∈ ts)
    (now : Nat) (locked : List String) :
    Routine.Preserves World.device Uncut (Safe ts s₀) (pruneRecord now locked r) := by
  refine Routine.Triple.get_bind fun w hw => ?_
  refine Routine.Triple.imp (A := Safe ts s₀) ?_ (fun w' hw' => hw' ▸ hw) (fun _ _ h => h) (fun _ h => h)
  dsimp only
  split
  · have hpersist : Routine.Preserves World.device Uncut (Safe ts s₀) (persistAndCommit r locked) := by
      refine (persistSettledObjects_safe hr locked).bind fun res => ?_
      dsimp only
      split
      · exact (commit_safe _ _).bind fun _ => .pure _
      · exact .pure _
    refine hpersist.attempt.bind fun o => ?_
    split
    · exact cache_safe _ fun _ => rfl
    · rename_i r'
      refine (cache_safe (remember r') fun _ => rfl).bind fun _ => ?_
      split
      · refine (removeTransaction_safe _ _).attempt.bind fun o => ?_
        split
        · exact cache_safe (forget r.txFinal) fun _ => rfl
        · exact .pure _
      · exact .pure _
  · exact Routine.Preserves.pure _

omit [EncodeHex H] in
theorem settleRecords_safe (x : Settlement H) (now : Nat) (records : List (TransactionRecord H)) :
    Routine.Preserves World.device Uncut (Safe ts s₀) (settleRecords x now records) := by
  refine Routine.Preserves.forList fun r _ => ?_
  split
  · exact Routine.Preserves.pure _
  · exact commit_safe _ _

/-- A live file that the pass over all files has yet to see: as it was loaded, or gone because
its object is spent and was written under this very name. -/
def Pending (x : Settlement H) (s : Store H) (e : String × ObjectRecord H) : Prop :=
  e.2.isNullified = false →
    (s.loaded .live e.1 = some e.2 ∧ s.loaded .nullified e.1 = none) ∨
    (s.loaded .live e.1 = none ∧ ∃ m ∈ x.membership, m.spends e.2.obj = true)

/-- In the middle of the pass. -/
def Passing (ts : List H) (s₀ : Store H) (x : Settlement H) (rest : List (String × ObjectRecord H))
    (w : World H) : Prop :=
  Safe ts s₀ w ∧ (rest.map Prod.fst).Nodup ∧ ∀ e ∈ rest, Pending x w.store e

variable {x : Settlement H}

omit [EncodeHex H] in
theorem Passing.report {rest : List (String × ObjectRecord H)} (f : World H → Report) :
    Routine.Preserves World.device Uncut (Passing ts s₀ x rest)
      (Routine.modify fun w => { w with report := f w } : Task H Unit) :=
  Routine.Triple.modify fun _ hw => hw

omit [EncodeHex H] in
theorem Pending.congr {s s' : Store H} {e : String × ObjectRecord H} (h : Pending x s e)
    (hs : ∀ p, s'.loaded p e.1 = s.loaded p e.1) : Pending x s' e := by
  intro hfree
  rw [hs, hs]
  exact h hfree

theorem reconcileEntry_safe (records : List (TransactionRecord H)) (entry : String × ObjectRecord H)
    (rest : List (String × ObjectRecord H)) :
    Routine.Triple World.device Uncut (Passing ts s₀ x (entry :: rest)) (reconcileEntry x records entry)
      (fun _ => Passing ts s₀ x rest) (Safe ts s₀) := by
  rintro w ⟨hw, hnodup, hpending⟩
  obtain ⟨hfresh, hrest⟩ := List.nodup_cons.mp hnodup
  have hentry : Pending x w.store entry := hpending entry (by simp)
  have hothers : ∀ e ∈ rest, e.1 ≠ entry.1 ∧ Pending x w.store e := by
    intro e he
    refine ⟨fun heq => hfresh ?_, hpending e (List.mem_cons_of_mem _ he)⟩
    rw [← heq]
    exact List.mem_map_of_mem he
  unfold reconcileEntry
  dsimp only
  split
  · exact ⟨hw, hrest, fun e he => (hothers e he).2⟩
  · split
    · rename_i hspent
      simp only [Bool.and_eq_true, Bool.not_eq_true'] at hspent
      obtain ⟨m, hm, hmspent⟩ := newly_spent hspent.1 hspent.2
      have hlive : ∀ r, w.store.loaded .live entry.1 = some r →
          r.obj = (reconciledEntry x records entry.2).obj := by
        intro r hr
        rcases hentry hspent.2 with h | h
        · rw [h.1] at hr
          cases hr
          rfl
        · rw [h.1] at hr
          cases hr
      refine Routine.Triple.bind (A := fun w' => w' = w) (Q := fun _ => Passing ts s₀ x rest)
        ((nullifyObjectFile_safe hw hspent.1 hlive).imp (fun _ h => h) ?_ (fun _ h => h))
        (fun spentName => ?_) w rfl
      · rintro _ w' ⟨hw', hobj, hall⟩
        refine ⟨hw', hrest, fun e he => ?_⟩
        obtain ⟨hne, hbefore⟩ := hothers e he
        by_cases hname : e.1 = (reconciledEntry x records entry.2).spentName entry.1
        · -- The spent object takes over this name; a live object under it was the same one.
          intro hfree
          refine .inr ⟨by rw [hall, if_pos hname]; rfl, ?_⟩
          rcases hbefore hfree with h | h
          · refine ⟨m, hm, ?_⟩
            rw [hobj .live e.2 (hname ▸ h.1)]
            exact hmspent
          · exact h.2
        · refine hbefore.congr fun p => ?_
          rw [hall, if_neg hname, if_neg fun h => hne h.2]
      · have hreport : Routine.Preserves World.device Uncut (Passing ts s₀ x rest)
            (reportChanged spentName) := Passing.report _
        have hend : ∀ w, Passing ts s₀ x rest w → Safe ts s₀ w := fun _ h => h.1
        split
        · exact Routine.Triple.imp ((Passing.report _).bind fun _ => hreport) (fun _ h => h)
            (fun _ _ h => h) hend
        · exact Routine.Triple.imp hreport (fun _ h => h) (fun _ _ h => h) hend
    · rename_i hsame
      have hrec : Replaces ts w.store entry.1 (reconciledEntry x records entry.2) := by
        intro hfree
        have hrank := reconciledEntry_rank x records entry.2
        have hlive : entry.2.isNullified = false := by
          cases hnull : entry.2.isNullified with
          | false => rfl
          | true =>
            have hrank' := Nat.le_trans (ObjectRecord.isNullified_iff_rank.mp hnull) hrank
            rw [ObjectRecord.isNullified_iff_rank.mpr hrank'] at hfree
            cases hfree
        rcases hentry hlive with h | ⟨-, m, hm, hmspent⟩
        · exact replaces_of_rank hw h.1 rfl rfl hrank hfree
        · have hstatus : (reconciledEntry x records entry.2).status = .nullified :=
            reconciledEntry_spent hm hmspent
          simp [ObjectRecord.isNullified, hstatus] at hfree
      refine Routine.Triple.bind (A := fun w' => w' = w) (Q := fun _ => Passing ts s₀ x rest)
        ((writeObjectFile_safe hw hrec).imp (fun _ h => h) ?_ (fun _ h => h)) (fun _ => ?_) w rfl
      · rintro _ w' ⟨hw', -, hall⟩
        refine ⟨hw', hrest, fun e he => ?_⟩
        obtain ⟨hne, hbefore⟩ := hothers e he
        refine hbefore.congr fun p => ?_
        rw [hall, if_neg hne]
      · exact Routine.Triple.imp (Passing.report _) (fun _ h => h) (fun _ _ h => h) fun _ h => h.1

theorem settleWith_safe (now : Nat)
    (hts : ∀ records : List (TransactionRecord H), s₀.records = records →
      ∀ r ∈ changedRecords x now records, r.state = .expired → r.txFinal ∈ ts) {w₀ : World H}
    (hw₀ : Safe ts s₀ w₀) (hstore : w₀.store = s₀) :
    Routine.Triple World.device Uncut (fun w => w = w₀) (settleWith x now)
      (fun _ => Safe ts s₀) (Safe ts s₀) := by
  refine Routine.Triple.get_bind fun w hw => ?_
  subst hw
  refine Routine.Triple.imp (A := Safe ts s₀) ?_ (fun w' hw' => hw' ▸ hw₀) (fun _ _ h => h) (fun _ h => h)
  refine (settleRecords_safe x now _).bind fun _ => ?_
  refine Routine.Preserves.bind (.forList fun r hr => persistRecord_safe
    (hts w.store.records (by rw [hstore]) r hr) _) fun _ => ?_
  refine Routine.Triple.get_bind fun w₁ hw₁ => ?_
  refine Routine.Triple.bind (Q := fun entries w' => w' = w₁ ∧ w₁.store.loadObjectFiles = .ok entries)
    (Routine.Triple.lift (fun entries w' hok hw' => ⟨hw', hok⟩) fun w' hw' => hw' ▸ hw₁) fun entries => ?_
  rintro w' ⟨rfl, hload⟩
  obtain ⟨hplaced, hsingle, hnodup, hentries⟩ := Store.loadObjectFiles_ok hload
  have hstart : Passing ts s₀ x entries w' := by
    refine ⟨hw₁, hnodup, fun e he hfree => .inl ?_⟩
    obtain ⟨p, hp⟩ := (hentries e.1 e.2).mp he
    have hlive : p = .live := (hplaced p e.1 e.2 hp).symm.trans (ObjectRecord.place_eq_live.mpr hfree)
    subst hlive
    refine ⟨hp, ?_⟩
    rcases hsingle e.1 with h | h
    · rw [hp] at h
      cases h
    · exact h
  refine (Routine.Triple.forList_rest (I := Passing ts s₀ x)
    fun entry rest => reconcileEntry_safe _ entry rest).imp (fun _ h => h) (fun _ _ h => h.1)
    (fun _ h => h) w' hstart

end Settled

/-! ## Recording -/

section Recording

/-- Files are added under names that had none; every other name is as it was. -/
structure Added (s₀ : Store H) (w : World H) : Prop where
  placed : w.store.Placed
  others : ∀ p n, s₀.stored n ≠ none → w.store.loaded p n = s₀.loaded p n
  unspent : ∀ n, s₀.stored n = none → w.store.loaded .nullified n = none

variable {s₀ : Store H}

omit [DecidableEq H] [EncodeHex H] in
theorem Added.safe {w : World H} (h : Added s₀ w) (hsingle : s₀.Single) : Safe [] s₀ w := by
  refine ⟨h.placed, fun n => ?_, fun p n r hr hrem => ⟨p, n, r, ?_, rfl, hrem⟩⟩
  · by_cases hn : s₀.stored n = none
    · exact .inr (h.unspent n hn)
    · rw [h.others _ _ hn, h.others _ _ hn]
      exact hsingle n
  · have hn : s₀.stored n ≠ none := by
      intro hn
      rw [Store.loaded_eq_none_of_stored hn] at hr
      cases hr
    rw [h.others p n hn]
    exact hr

omit [DecidableEq H] [EncodeHex H] in
/-- One name that had no file changes, and only its live file. -/
theorem Added.change {w w' : World H} {n : String} (h : Added s₀ w) (hplaced : w'.store.Placed)
    (hn : s₀.stored n = none)
    (hothers : ∀ p m, (p, m) ≠ (.live, n) → w'.store.loaded p m = w.store.loaded p m) : Added s₀ w' := by
  refine ⟨hplaced, fun p m hm => ?_, fun m hm => ?_⟩
  · rw [hothers p m fun heq => hm (by cases heq; exact hn)]
    exact h.others p m hm
  · rw [hothers .nullified m (by simp)]
    exact h.unspent m hm

omit [EncodeHex H] in
theorem removeFresh_added {p : Place} {name : String} (hname : s₀.stored name = none) :
    Routine.Preserves World.device Uncut (Added s₀) (Routine.tryPerform (.remove p name) : Task H Unit) := by
  refine Routine.Triple.tryPerform ?_ (fun _ hw _ => hw) (fun _ hw _ => hw) (fun _ hw _ => hw)
    (fun _ hw _ => hw)
  intro w hw _
  refine hw.change (Store.placed_remove hw.placed p name) hname fun q m hne => ?_
  show (w.store.apply (.remove p name)).loaded q m = _
  rw [Store.loaded_remove]
  split
  · rename_i hqm
    obtain ⟨rfl, rfl⟩ := hqm
    cases q with
    | live => exact absurd rfl hne
    | nullified => exact (hw.unspent m hname).symm
  · rfl

omit [EncodeHex H] in
theorem writeFresh_added {record : ObjectRecord H} {name : String} (hrecord : record.isNullified = false)
    (hname : s₀.stored name = none) :
    Routine.Preserves World.device Uncut (Added s₀) (writeObjectFile record name) := by
  have hplace : record.place = .live := ObjectRecord.place_eq_live.mpr hrecord
  refine Routine.Triple.bind (Q := fun _ => Added s₀) ?_ fun _ => removeFresh_added hname
  refine Routine.Triple.perform ?_ (fun _ hw => hw) ?_
  · intro w hw _
    refine hw.change (Store.placed_write hw.placed name record) hname fun q m hne => ?_
    show (w.store.apply (.write record.place name record)).loaded q m = _
    rw [Store.loaded_write, hplace, if_neg]
    rintro ⟨rfl, rfl⟩
    exact hne rfl
  · intro w hw _
    refine hw.change (Store.placed_tear_write hw.placed _ name record) hname fun q m hne => ?_
    show (w.store.tear (.write record.place name record)).loaded q m = _
    rw [Store.loaded_tear_write, hplace, if_neg]
    rintro ⟨rfl, rfl⟩
    exact hne rfl

omit [EncodeHex H] in
theorem writeOutputs_added {outputs : List (ObjectRecord H × String)} {attempted : List String}
    (houtputs : ∀ o ∈ outputs, o.1.isNullified = false ∧ s₀.stored o.2 = none)
    (hattempted : ∀ n ∈ attempted, s₀.stored n = none) :
    Routine.Triple World.device Uncut (Added s₀) (writeOutputs attempted outputs)
      (fun res w => Added s₀ w ∧ ∀ n ∈ res.1, s₀.stored n = none) (Added s₀) := by
  induction outputs generalizing attempted with
  | nil => exact Routine.Triple.ret fun w hw => ⟨hw, hattempted⟩
  | cons output rest ih =>
    obtain ⟨record, name⟩ := output
    obtain ⟨hrecord, hname⟩ := houtputs (record, name) (by simp)
    have hmore : ∀ n ∈ attempted ++ [name], s₀.stored n = none := by
      intro n hn
      rcases List.mem_append.mp hn with hn | hn
      · exact hattempted n hn
      · rw [List.mem_singleton.mp hn]
        exact hname
    refine Routine.Triple.bind (writeFresh_added hrecord hname).attempt fun o => ?_
    cases o with
    | ok u => exact ih (fun o ho => houtputs o (List.mem_cons_of_mem _ ho)) hmore
    | error e => exact Routine.Triple.ret fun w hw => ⟨hw, hmore⟩

omit [DecidableEq H] [EncodeHex H] in
theorem Added.congr {w w' : World H} (h : Added s₀ w)
    (hs : ∀ p n, w'.store.loaded p n = w.store.loaded p n) : Added s₀ w' := by
  refine ⟨fun p n r hr => h.placed p n r (hs p n ▸ hr), fun p n hn => ?_, fun n hn => ?_⟩
  · rw [hs]
    exact h.others p n hn
  · rw [hs]
    exact h.unspent n hn

omit [EncodeHex H] in
theorem rollbackRecord_added (t : H) {attempted : List String} (e : DriverError)
    (hattempted : ∀ n ∈ attempted, s₀.stored n = none) :
    Routine.Preserves World.device Uncut (Added s₀) (rollbackRecord t attempted e) := by
  have hfiles : Routine.Preserves World.device Uncut (Added s₀)
      (Routine.forList (fun name => (Routine.tryPerform (.remove .live name) : Task H Unit)) attempted) :=
    .forList fun name hn => removeFresh_added (hattempted name hn)
  have hgone : ∀ w : World H, Added s₀ w → Added s₀ { w with store := w.store.removeTransaction t } :=
    fun w hw => hw.congr fun p n => by cases p <;> rfl
  refine hfiles.bind fun _ => ?_
  refine Routine.Triple.bind (Q := fun _ => Added s₀) ?_ fun _ => Routine.Triple.throw fun _ hw => hw
  exact Routine.Triple.tryPerform (fun w hw _ => hgone w hw) (fun _ hw _ => hw)
    (fun w hw _ => hgone w hw) (fun _ hw _ => hw) (fun w hw _ => hgone w hw)

omit [EncodeHex H] in
theorem writeTransaction_added (r : TransactionRecord H) {outputs : List (ObjectRecord H × String)}
    (houtputs : ∀ o ∈ outputs, o.1.isNullified = false ∧ s₀.stored o.2 = none) :
    Routine.Preserves World.device Uncut (Added s₀) (writeTransaction r outputs) := by
  have hcommit : Routine.Preserves World.device Uncut (Added s₀) (commitTransaction r) := by
    refine Routine.Triple.bind (Q := fun _ => Added s₀)
      (Routine.Triple.perform (fun _ hw _ => hw) (fun _ hw => hw) (fun _ hw _ => hw)) fun _ => ?_
    exact Routine.Triple.perform (fun w hw _ => hw.congr fun p n => w.store.loaded_commit r p n)
      (fun _ hw => hw) (fun _ hw _ => hw)
  refine Routine.Triple.bind (writeOutputs_added houtputs (by simp)) fun res => ?_
  obtain ⟨attempted, failure⟩ := res
  rintro w ⟨hw, hattempted⟩
  cases failure with
  | some e => exact rollbackRecord_added r.txFinal e hattempted w hw
  | none =>
    refine Routine.Preserves.bind hcommit.attempt (fun o => ?_) w hw
    cases o with
    | ok u => exact Routine.Preserves.pure _
    | error e => exact rollbackRecord_added r.txFinal e hattempted

theorem record_added (proved : ProvedTransaction H) (owner : String) (files : List String) (now : Nat)
    {w₀ : World H} (hw₀ : Added w₀.store w₀) :
    Routine.Triple World.device Uncut (fun w => w = w₀) (record proved owner files now)
      (fun _ => Added w₀.store) (Added w₀.store) := by
  refine Routine.Triple.bind (Q := fun _ w => w = w₀)
    (Routine.Triple.lift (fun _ w _ hw => hw) fun w hw => hw ▸ hw₀) fun outputFiles => ?_
  refine Routine.Triple.get_bind fun w hw => ?_
  subst hw
  refine Routine.Triple.bind (Q := fun _ w' => w' = w)
    (Routine.Triple.lift (fun _ w' _ hw' => hw') fun w' hw' => hw' ▸ hw₀) fun entries => ?_
  refine Routine.Triple.bind (Q := fun _ w' => w' = w)
    (Routine.Triple.lift (fun _ w' _ hw' => hw') fun w' hw' => hw' ▸ hw₀) fun _ => ?_
  rintro w' rfl
  split
  · exact hw₀
  · split
    · exact hw₀
    · rename_i hfree
      have houtputs : ∀ n ∈ outputFiles, w'.store.stored n = none := by
        simpa using hfree
      refine Routine.Triple.bind (A := fun w => w = w') (Q := fun res w => w = w' ∧
        ∀ n ∈ res.1, w'.store.stored n = none)
        (Routine.Triple.lift ?_ fun w hw => hw ▸ hw₀) (fun res => ?_) w' rfl
      · rintro res w hok rfl
        exact ⟨rfl, pendingOutputs_free hok houtputs⟩
      · obtain ⟨outputFiles, pendingNames⟩ := res
        rintro w ⟨rfl, hnames⟩
        refine writeTransaction_added _ ?_ w hw₀
        rintro ⟨o, name⟩ ho
        obtain ⟨hout, hname⟩ := List.of_mem_zip ho
        obtain ⟨output, -, rfl⟩ := List.mem_map.mp hout
        exact ⟨rfl, hnames name hname⟩

end Recording

/-! ## The other operations -/

section Others

variable {ts : List H} {s₀ : Store H}

omit [EncodeHex H] in
theorem deleteTransaction_safe {t : H} (ht : t ∈ ts) :
    Routine.Preserves World.device Uncut (Safe ts s₀) (deleteTransaction t) := by
  refine Routine.Triple.get_bind fun w hw => ?_
  refine Routine.Triple.imp (A := Safe ts s₀) ?_ (fun w' hw' => hw' ▸ hw) (fun _ _ h => h) (fun _ h => h)
  split
  · exact Routine.Preserves.throw _
  · rename_i r hr
    split
    · exact Routine.Preserves.throw _
    · split
      · exact Routine.Preserves.throw _
      · have hmem : r.txFinal ∈ ts := (Store.readRecord_eq_some hr).2 ▸ ht
        exact (removeUnknownOutputs_safe hmem).bind fun _ => removeTransaction_safe _ _

omit [EncodeHex H] in
theorem updateRecord_safe (t : H) (change : TransactionRecord H → Option (TransactionRecord H)) :
    Routine.Preserves World.device Uncut (Safe ts s₀) (updateRecord t change) := by
  refine Routine.Triple.get_bind fun w hw => ?_
  refine Routine.Triple.imp (A := Safe ts s₀) ?_ (fun w' hw' => hw' ▸ hw) (fun _ _ h => h) (fun _ h => h)
  split
  · exact Routine.Preserves.throw _
  · split
    · exact Routine.Preserves.pure _
    · exact commit_safe _ _

theorem pruneTransactions_safe (now : Nat) {w₀ : World H} (hw₀ : Safe ts s₀ w₀)
    (hts : ∀ r ∈ w₀.store.records, r.state = .expired → r.txFinal ∈ ts) :
    Routine.Triple World.device Uncut (fun w => w = w₀) (pruneTransactions now)
      (fun _ => Safe ts s₀) (Safe ts s₀) := by
  refine Routine.Triple.get_bind fun w hw => ?_
  subst hw
  refine Routine.Triple.imp (A := Safe ts s₀) ?_ (fun w' hw' => hw' ▸ hw₀) (fun _ _ h => h) (fun _ h => h)
  refine Routine.Triple.bind (Q := fun _ => Safe ts s₀) (cache_safe _ fun _ => rfl) fun _ => ?_
  refine Routine.Preserves.forList fun r hr => pruneRecord_safe ?_ _ _
  exact hts r (List.mem_filter.mp hr).1

theorem renameObject_safe (fileName newName : String) :
    Routine.Preserves World.device Uncut (Safe ts s₀) (renameObject fileName newName) := by
  refine Routine.Triple.get_bind fun w hw => ?_
  have hthrow : ∀ e : DriverError, Routine.Triple World.device Uncut (fun w' => w' = w)
      (.throw e : Task H Unit) (fun _ => Safe ts s₀) (Safe ts s₀) :=
    fun e => Routine.Triple.throw fun w' hw' => hw' ▸ hw
  split
  · exact hthrow _
  · exact hthrow _
  · split
    · exact hthrow _
    · refine Routine.Triple.bind (Q := fun _ w' => w' = w)
        (Routine.Triple.lift (fun _ w' _ hw' => hw') fun w' hw' => hw' ▸ hw) fun target => ?_
      split
      · exact Routine.Triple.ret fun w' hw' => hw' ▸ hw
      · split
        · exact hthrow _
        · split
          · exact hthrow _
          · split
            · exact hthrow _
            · split
              · exact hthrow _
              · split
                · exact hthrow _
                · rename_i htaken
                  refine (renameLive_safe fileName target).imp (fun w' hw' => ?_) (fun _ _ h => h)
                    (fun _ h => h)
                  rw [hw']
                  exact ⟨hw, Store.stored_eq_none_of_hasFile (by simpa using htaken)⟩

theorem importObject_safe (record : ObjectRecord H) (requested : Option String) :
    Routine.Preserves World.device Uncut (Safe ts s₀) (importObject record requested) := by
  unfold importObject
  split
  · exact Routine.Preserves.throw _
  · split
    · exact Routine.Preserves.throw _
    · split
      · exact Routine.Preserves.throw _
      · refine Routine.Triple.get_bind fun w hw => ?_
        refine Routine.Triple.bind (Q := fun name w' => w' = w ∧ ∀ p, w.store.loaded p name = none)
          (Routine.Triple.lift (fun name w' hok hw' => ⟨hw', importFileName_unloaded hok⟩)
            fun w' hw' => hw' ▸ hw) fun name => ?_
        rintro w' ⟨rfl, hfree⟩
        have hrec : Replaces ts w'.store name { record with status := .live } := by
          intro _
          refine ⟨hfree .nullified, fun r hr => ?_⟩
          rw [hfree .live] at hr
          cases hr
        exact (writeObjectFile_safe hw hrec).imp (fun _ h => h) (fun _ _ h => h.1) (fun _ h => h) w' rfl

omit [EncodeHex H] in
theorem discardObject_intact (fileName : String) {w₀ : World H}
    (hw₀ : Intact (fun r => w₀.store.loaded .live fileName = some r) w₀.store w₀.store) :
    Routine.Triple World.device Uncut (fun w => w = w₀) (discardObject fileName)
      (fun _ w => Intact (fun r => w₀.store.loaded .live fileName = some r) w₀.store w.store)
      (fun w => Intact (fun r => w₀.store.loaded .live fileName = some r) w₀.store w.store) := by
  refine Routine.Triple.bind (parseLive_spec fileName fun w hw => hw ▸ hw₀) fun o => ?_
  cases o with
  | none => exact Routine.Triple.throw fun w hw => hw.1 ▸ hw₀
  | some record =>
    refine Routine.Triple.perform ?_ (fun w hw => hw.1 ▸ hw₀) (fun w hw _ => hw.1 ▸ hw₀)
    rintro w ⟨rfl, -⟩ -
    exact hw₀.remove (fun r hr hrem => absurd hr hrem) fun q m => Store.loaded_discard _ q fileName m

end Others

/-! ## Whole runs -/

/-- The object files that an action is meant to remove: unknown outputs of a transaction that
it deletes or finds expired, and the file that `discard_object_unsafe` moves away. -/
def Removes (w : World H) : Action H → ObjectRecord H → Prop
  | .delete t _ => Removable [t]
  | .settle x now _ => Removable (((changedRecords x now w.store.records).filter fun r =>
      r.state = .expired).map TransactionRecord.txFinal)
  | .prune _ _ => Removable ((w.store.records.filter fun r => r.state = .expired).map
      TransactionRecord.txFinal)
  | .discard fileName _ => fun r => w.store.loaded .live fileName = some r
  | _ => fun _ => False

/-- The store loads before and after, and every object of before is there after, unless the
action is meant to remove it. -/
def Survives (w : World H) (a : Action H) (w' : World H) : Prop :=
  ∃ es es', w.store.loadObjectFiles = .ok es ∧ w'.store.loadObjectFiles = .ok es' ∧
    ∀ e ∈ es, ¬ Removes w a e.2 → ∃ e' ∈ es', e'.2.obj = e.2.obj

omit [EncodeHex H] in
theorem Intact.survives {w w' : World H} {a : Action H} (hplaced : w.store.Placed)
    (hsingle : w.store.Single) (h : Intact (Removes w a) w.store w'.store) : Survives w a w' := by
  obtain ⟨es, hes⟩ := Store.loadObjectFiles_of hplaced hsingle
  obtain ⟨es', hes'⟩ := Store.loadObjectFiles_of h.placed h.single
  refine ⟨es, es', hes, hes', fun e he hrem => ?_⟩
  obtain ⟨p, hp⟩ := ((Store.loadObjectFiles_ok hes).2.2.2 e.1 e.2).mp he
  obtain ⟨q, m, r, hr, hobj, -⟩ := h.kept p e.1 e.2 hp hrem
  exact ⟨(m, r), ((Store.loadObjectFiles_ok hes').2.2.2 m r).mpr ⟨q, hr⟩, hobj⟩

omit [DecidableEq H] [EncodeHex H] in
theorem Intact.mono {rem rem' : ObjectRecord H → Prop} {s₀ s : Store H} (h : Intact rem s₀ s)
    (hrem : ∀ r, rem r ↔ rem' r) : Intact rem' s₀ s := by
  have heq : rem = rem' := funext fun r => propext (hrem r)
  exact heq ▸ h

omit [DecidableEq H] [EncodeHex H] in
theorem removable_nil (r : ObjectRecord H) : Removable [] r ↔ False := by
  simp [Removable]

/-- What the section under the lock leaves. -/
theorem task_intact {w : World H} {a : Action H} {t : Task H Unit × List Answer} (hplaced : w.store.Placed)
    (hsingle : w.store.Single) (ht : t ∈ w.task a) :
    Routine.Triple World.device Uncut (fun w' => w' = w.fresh) t.1
      (fun _ w' => Intact (Removes w a) w.store w'.store)
      (fun w' => Intact (Removes w a) w.store w'.store) := by
  have hstart : ∀ ts, Safe ts w.store w.fresh := fun ts => .refl hplaced hsingle
  have hnil : ∀ w' : World H, Safe [] w.store w' → Intact (fun _ => False) w.store w'.store :=
    fun w' hw' => hw'.mono removable_nil
  cases a with
  | prove id owner inputs => cases ht
  | release id => cases ht
  | crash => cases ht
  | record id proved now answers =>
    obtain ⟨p, -, rfl⟩ := Option.map_eq_some_iff.mp ht
    have hadded : Added w.fresh.store w.fresh :=
      ⟨hplaced, fun _ _ _ => rfl, fun n hn => Store.loaded_eq_none_of_stored hn .nullified⟩
    exact (record_added proved p.owner p.files now hadded).imp (fun _ h => h)
      (fun _ w' hw' => hnil w' (hw'.safe hsingle)) (fun w' hw' => hnil w' (hw'.safe hsingle))
  | delete t answers =>
    cases ht
    exact Routine.Triple.imp (deleteTransaction_safe (List.mem_singleton.mpr rfl))
      (fun w' hw' => hw' ▸ hstart [t]) (fun _ _ h => h) (fun _ h => h)
  | submitMark t now answers =>
    cases ht
    exact Routine.Triple.imp (updateRecord_safe t _) (fun w' hw' => hw' ▸ hstart [])
      (fun _ w' hw' => hnil w' hw') hnil
  | submitFinish t now jobId failed answers =>
    cases ht
    exact Routine.Triple.imp (updateRecord_safe t _) (fun w' hw' => hw' ▸ hstart [])
      (fun _ w' hw' => hnil w' hw') hnil
  | settle x now answers =>
    cases ht
    refine settleWith_safe now ?_ (hstart _) rfl
    rintro records rfl r hr hexpired
    exact List.mem_map_of_mem (List.mem_filter.mpr ⟨hr, by simpa using hexpired⟩)
  | prune now answers =>
    cases ht
    refine pruneTransactions_safe now (hstart _) fun r hr hexpired => ?_
    exact List.mem_map_of_mem (List.mem_filter.mpr ⟨hr, by simpa using hexpired⟩)
  | rename fileName newName answers =>
    cases ht
    exact Routine.Triple.imp (renameObject_safe fileName newName) (fun w' hw' => hw' ▸ hstart [])
      (fun _ w' hw' => hnil w' hw') hnil
  | importObject record requested answers =>
    cases ht
    exact Routine.Triple.imp (importObject_safe record requested) (fun w' hw' => hw' ▸ hstart [])
      (fun _ w' hw' => hnil w' hw') hnil
  | discard fileName answers =>
    cases ht
    exact discardObject_intact fileName (.refl hplaced hsingle)

theorem step_intact {w w' : World H} {a : Action H} (hplaced : w.store.Placed) (hsingle : w.store.Single)
    (hguard : World.Obeys Uncut w a) (hs : w.step a = some w') :
    Intact (Removes w a) w.store w'.store := by
  rcases World.step_store hs with ⟨-, hstore⟩ | ⟨t, ht, hstore⟩
  · rw [hstore]
    exact .refl hplaced hsingle
  · rw [hstore]
    exact (task_intact hplaced hsingle ht).exec rfl (hguard t ht)

/-- No step of a run loses an object, wherever it crashes, unless a write is cut off over an
object or the two halves of a move are parted. -/
theorem World.objects_survive (as : List (Action H)) (a : Action H) (w w' : World H)
    (hguard : RunMeets World.step (World.Obeys Uncut) World.init as)
    (hrun : runSteps World.step World.init as = some w) (hlast : World.Obeys Uncut w a)
    (hstep : w.step a = some w') : Survives w a w' := by
  have hload : w.store.Placed ∧ w.store.Single := by
    refine runSteps_invariant (I := fun w => w.store.Placed ∧ w.store.Single)
      (fun s b s' hs hb hs' => ?_) ⟨?_, fun n => .inl rfl⟩ hguard hrun
    · have hnext := step_intact hs.1 hs.2 hb hs'
      exact ⟨hnext.placed, hnext.single⟩
    · intro p n record h
      cases p with
      | live => cases h
      | nullified => cases h
  exact (step_intact hload.1 hload.2 hlast hstep).survives hload.1 hload.2

open Sample in
/-- An object under its generated name is spent. The crash comes after the spent copy is written
and before the live one is removed: the name is in both directories and nothing loads. -/
theorem World.crash_in_move : ∃ w w' : World Nat,
    runSteps World.step World.init [.importObject (file 1) none []] = some w ∧
    w.step (.settle ⟨[], none, [], [], some ⟨[1], [101]⟩, []⟩ 5 [.done, .crashed]) = some w' ∧
    ¬ Survives w (.settle ⟨[], none, [], [], some ⟨[1], [101]⟩, []⟩ 5 [.done, .crashed]) w' := by
  have hview : (runSteps World.step World.init [.importObject (file 1) none [],
      .settle ⟨[], none, [], [], some ⟨[1], [101]⟩, []⟩ 5 [.done, .crashed]]).map
        (fun w => w.store.loadObjectFiles.toOption) = some none := by
    decide +kernel
  obtain ⟨w', hw', hload⟩ := Option.map_eq_some_iff.mp hview
  obtain ⟨w, hw, hlast⟩ := Option.bind_eq_some_iff.mp hw'
  obtain ⟨w'', hw'', hend⟩ := Option.bind_eq_some_iff.mp hlast
  cases hend
  refine ⟨w, w', ?_, hw'', ?_⟩
  · show (World.step World.init _).bind _ = some w
    rw [hw]
    rfl
  · rintro ⟨es, es', -, hes', -⟩
    rw [hes'] at hload
    cases hload

open Sample in
/-- Under a name that a player chose, the same crash leaves the object in both files. -/
theorem World.objects_survive_move : ∃ w w' : World Nat,
    runSteps World.step World.init [.importObject (file 1) (some "sword.dobj") []] = some w ∧
    w.step (.settle ⟨[], none, [], [], some ⟨[1], [101]⟩, []⟩ 5 [.done, .failed, .crashed]) = some w' ∧
    w'.store.stored "sword.dobj" = some (some (file 1)) ∧
    Survives w (.settle ⟨[], none, [], [], some ⟨[1], [101]⟩, []⟩ 5 [.done, .failed, .crashed]) w' := by
  have hview : (runSteps World.step World.init [.importObject (file 1) (some "sword.dobj") [],
      .settle ⟨[], none, [], [], some ⟨[1], [101]⟩, []⟩ 5 [.done, .failed, .crashed]]).map
        (fun w => w.store.stored "sword.dobj") = some (some (some (file 1))) := by
    decide +kernel
  have hguard : RunMeets World.step (World.Obeys Uncut) World.init
      [.importObject (file 1) (some "sword.dobj") [],
        .settle ⟨[], none, [], [], some ⟨[1], [101]⟩, []⟩ 5 [.done, .failed, .crashed]] := by
    decide +kernel
  obtain ⟨w', hw', hstored⟩ := Option.map_eq_some_iff.mp hview
  obtain ⟨w, hw, hlast⟩ := Option.bind_eq_some_iff.mp hw'
  obtain ⟨w'', hw'', hend⟩ := Option.bind_eq_some_iff.mp hlast
  cases hend
  have hrun : runSteps World.step World.init [.importObject (file 1) (some "sword.dobj") []] = some w := by
    show (World.step World.init _).bind _ = some w
    rw [hw]
    rfl
  exact ⟨w, w', hrun, hw'', hstored,
    World.objects_survive [.importObject (file 1) (some "sword.dobj") []] _ w w'
      ⟨hguard.1, fun _ _ => trivial⟩ hrun (hguard.2 w hw).1 hw''⟩

end DigitalObjects.Driver.Objects
