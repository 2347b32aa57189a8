import DigitalObjects.Lib.Machine
import DigitalObjects.Driver.Protection
set_option autoImplicit false

/-!
No object is spent by two operations of the driver. Holds and open records keep each other out
by file name, in every interleaving; the name keeps its object as long as no spent object under
it has to move to another name.
-/

namespace DigitalObjects.Driver.Objects

open Txlib Lib

variable {H : Type} [DecidableEq H] [EncodeHex H]

/-! ## The invariant -/

/-- The open ones of `records` beside the proofs and the files of `w`. -/
structure Admissible (w : World H) (records : List (TransactionRecord H)) : Prop where
  disjoint : ∀ r ∈ records, ∀ r' ∈ records, r.isOpen → r'.isOpen → r.txFinal ≠ r'.txFinal →
    ∀ f ∈ r.inputFiles, f ∉ r'.inputFiles
  own : ∀ i p, w.proofs.lookup i = some p → ∀ r ∈ records, r.isOpen → ∀ f ∈ p.files, f ∈ r.inputFiles →
    p.stage = .recorded (some r.txFinal)
  spent : ∀ r ∈ records, r.isOpen → ∀ f ∈ r.inputFiles, ∃ stored,
    w.store.stored f = some (some stored) ∧ stored.status ≠ .unknown ∧ r.spends stored.obj

structure Inv (w : World H) : Prop where
  placed : w.store.Placed
  keys : (w.store.records.map TransactionRecord.txFinal).Nodup
  admissible : Admissible w w.store.records
  holders : ∀ i j p q, w.proofs.lookup i = some p → w.proofs.lookup j = some q → i ≠ j → ∀ f ∈ p.files, f ∉ q.files
  owned : ∀ i p, w.proofs.lookup i = some p → ∀ f ∈ p.files, f ∈ w.owners
  resolved : ∀ i p, w.proofs.lookup i = some p → p.stage = .proving → ∀ input ∈ p.inputs, ∃ stored,
    w.store.stored input.fileName = some (some stored) ∧ stored.status ≠ .unknown ∧
      stored.obj = input.obj

omit [EncodeHex H] in
theorem Inv.init : Inv (World.init : World H) := by
  refine ⟨?_, by simp [World.init, Store.empty], ⟨?_, ?_, ?_⟩, ?_, ?_, ?_⟩
  · intro p n record h
    cases p with
    | live => cases h
    | nullified => cases h
  all_goals simp [World.init, Store.empty]

omit [DecidableEq H] [EncodeHex H] in
theorem Proof.mem_files {p : Proof H} {f : String} : f ∈ p.files ↔ ∃ input ∈ p.inputs, input.fileName = f := by
  simp [Proof.files]

namespace Inv

variable {w₀ w : World H}

omit [EncodeHex H]

/-- What is protected has a file. -/
theorem protected_stored (h : Inv w₀) {records : List (TransactionRecord H)}
    (hrecords : Admissible w₀ records) {n : String} (hn : Protected w₀ records n) :
    ∃ stored, w₀.store.stored n = some (some stored) ∧ stored.status ≠ .unknown := by
  rcases protected_iff.mp hn with hproof | hlocked
  · obtain ⟨i, p, hp, hstage, hn⟩ := mem_heldNames.mp hproof
    obtain ⟨input, hinput, rfl⟩ := Proof.mem_files.mp hn
    obtain ⟨stored, hs, hknown, -⟩ := h.resolved i p hp hstage input hinput
    exact ⟨stored, hs, hknown⟩
  · obtain ⟨r, hr, hopen, hn⟩ := mem_lockedInputs.mp hlocked
    obtain ⟨stored, hs, hknown, -⟩ := hrecords.spent r hr hopen n hn
    exact ⟨stored, hs, hknown⟩

theorem known (h : Inv w₀) : Known w₀ (Protected w₀ w₀.store.records) := by
  intro n hn r₀ hr₀
  obtain ⟨stored, hs, hknown⟩ := h.protected_stored h.admissible hn
  rw [hr₀] at hs
  cases hs
  exact hknown

theorem held (h : Inv w₀) : ∀ n ∈ heldNames w₀, n ∈ w₀.owners.keys := by
  intro n hn
  obtain ⟨i, p, hp, -, hn⟩ := mem_heldNames.mp hn
  exact AList.mem_keys.mp (h.owned i p hp n hn)

theorem held_or_locked (h : Inv w₀) : ∀ n, Protected w₀ w₀.store.records n →
    n ∈ w₀.owners.keys ∨ n ∈ lockedInputs w₀.store.records := by
  intro n hn
  rcases protected_iff.mp hn with hproof | hlocked
  · exact .inl (h.held n hproof)
  · exact .inr hlocked

theorem frame (h : Inv w₀) :
    Frame w₀ w₀.store.records (Protected w₀ w₀.store.records) w₀.store.Advanced w₀ := by
  refine ⟨rfl, rfl, h.placed, h.keys, fun r hr hopen => ⟨r, hr, hopen, rfl, rfl, rfl⟩, fun n hn => ?_⟩
  obtain ⟨stored, hs, -⟩ := h.protected_stored h.admissible hn
  exact ⟨stored, hs, stored, hs, .refl stored⟩

/-- The state that an operation leaves, with the records that it may have. -/
theorem of_frame (h : Inv w₀) {records : List (TransactionRecord H)} (hrecords : Admissible w₀ records)
    (hw : Frame w₀ records (Protected w₀ records) w₀.store.Advanced w) : Inv w := by
  have hkept : ∀ n stored₀, Protected w₀ records n → w₀.store.stored n = some (some stored₀) →
      stored₀.status ≠ .unknown → ∃ stored, w.store.stored n = some (some stored) ∧
        stored.status ≠ .unknown ∧ stored.obj = stored₀.obj := by
    intro n stored₀ hn hs hknown
    obtain ⟨r, hr, r₀, hr₀, hadv⟩ := hw.kept n hn
    rw [hs] at hr₀
    cases hr₀
    exact ⟨r, hr, hadv.known hknown, congrArg Prod.snd hadv.1⟩
  refine ⟨hw.placed, hw.keys, ⟨?_, ?_, ?_⟩, ?_, ?_, ?_⟩
  · intro r hr r' hr' hopen hopen' hne f hf
    obtain ⟨r₀, hr₀, hopen₀, ht, hfiles, -⟩ := hw.opens r hr hopen
    obtain ⟨r₁, hr₁, hopen₁, ht', hfiles', -⟩ := hw.opens r' hr' hopen'
    rw [hfiles'] 
    exact hrecords.disjoint r₀ hr₀ r₁ hr₁ hopen₀ hopen₁ (by rw [← ht, ← ht']; exact hne) f (hfiles ▸ hf)
  · intro i p hp r hr hopen f hf hfr
    obtain ⟨r₀, hr₀, hopen₀, ht, hfiles, -⟩ := hw.opens r hr hopen
    rw [hw.proofs] at hp
    rw [ht]
    exact hrecords.own i p hp r₀ hr₀ hopen₀ f hf (hfiles ▸ hfr)
  · intro r hr hopen f hf
    obtain ⟨r₀, hr₀, hopen₀, -, hfiles, hnullifiers⟩ := hw.opens r hr hopen
    rw [hfiles] at hf
    obtain ⟨stored₀, hs, hknown, hspends⟩ := hrecords.spent r₀ hr₀ hopen₀ f hf
    obtain ⟨stored, hs', hknown', hobj⟩ :=
      hkept f stored₀ (protected_iff.mpr (.inr (mem_lockedInputs.mpr ⟨r₀, hr₀, hopen₀, hf⟩))) hs hknown
    refine ⟨stored, hs', hknown', ?_⟩
    unfold TransactionRecord.spends at hspends ⊢
    rw [hobj, hnullifiers]
    exact hspends
  · rw [hw.proofs]
    exact h.holders
  · rw [hw.proofs, hw.owners]
    exact h.owned
  · intro i p hp hstage input hinput
    rw [hw.proofs] at hp
    obtain ⟨stored₀, hs, hknown, hobj⟩ := h.resolved i p hp hstage input hinput
    have hheld : input.fileName ∈ heldNames w₀ :=
      mem_heldNames.mpr ⟨i, p, hp, hstage, Proof.mem_files.mpr ⟨input, hinput, rfl⟩⟩
    obtain ⟨stored, hs', hknown', hobj'⟩ :=
      hkept input.fileName stored₀ (protected_iff.mpr (.inl hheld)) hs hknown
    exact ⟨stored, hs', hknown', hobj'.trans hobj⟩

theorem admissible_of_open (h : Inv w₀) {records : List (TransactionRecord H)}
    (hopens : ∀ r ∈ records, OpenFrom w₀.store.records r) : Admissible w₀ records := by
  refine ⟨?_, ?_, ?_⟩
  · intro r hr r' hr' hopen hopen' hne f hf
    obtain ⟨r₀, hr₀, hopen₀, ht, hfiles, -⟩ := hopens r hr hopen
    obtain ⟨r₁, hr₁, hopen₁, ht', hfiles', -⟩ := hopens r' hr' hopen'
    rw [hfiles']
    exact h.admissible.disjoint r₀ hr₀ r₁ hr₁ hopen₀ hopen₁ (by rw [← ht, ← ht']; exact hne) f (hfiles ▸ hf)
  · intro i p hp r hr hopen f hf hfr
    obtain ⟨r₀, hr₀, hopen₀, ht, hfiles, -⟩ := hopens r hr hopen
    rw [ht]
    exact h.admissible.own i p hp r₀ hr₀ hopen₀ f hf (hfiles ▸ hfr)
  · intro r hr hopen f hf
    obtain ⟨r₀, hr₀, hopen₀, -, hfiles, hnullifiers⟩ := hopens r hr hopen
    obtain ⟨stored, hs, hknown, hspends⟩ := h.admissible.spent r₀ hr₀ hopen₀ f (hfiles ▸ hf)
    refine ⟨stored, hs, hknown, ?_⟩
    unfold TransactionRecord.spends at hspends ⊢
    rw [hnullifiers]
    exact hspends

theorem report (h : Inv w₀) (rep : Report) : Inv { w₀ with report := rep } :=
  ⟨h.placed, h.keys, ⟨h.admissible.disjoint, h.admissible.own, h.admissible.spent⟩, h.holders, h.owned,
    h.resolved⟩

theorem crash (h : Inv w₀) : Inv w₀.crash :=
  ⟨h.placed, h.keys, ⟨h.admissible.disjoint, by simp [World.crash], h.admissible.spent⟩,
    by simp [World.crash], by simp [World.crash], by simp [World.crash]⟩

/-- An operation that leaves the frame leaves the invariant. -/
theorem triple {α : Type} (h : Inv w₀) {m : Task H α}
    (hm : Routine.Triple World.device Undisturbed (fun w => w = w₀) m
      (fun _ => Frame w₀ w₀.store.records (Protected w₀ w₀.store.records) w₀.store.Advanced)
      (Frame w₀ w₀.store.records (Protected w₀ w₀.store.records) w₀.store.Advanced)) :
    Routine.Triple World.device Undisturbed (fun w => w = w₀) m (fun _ => Inv) Inv :=
  hm.imp (fun _ hw => hw) (fun _ _ hw => h.of_frame h.admissible hw)
    (fun _ hw => h.of_frame h.admissible hw)

theorem triple_of_preserves {α : Type} (h : Inv w₀) {m : Task H α}
    (hm : Routine.Preserves World.device Undisturbed
      (Frame w₀ w₀.store.records (Protected w₀ w₀.store.records) w₀.store.Advanced) m) :
    Routine.Triple World.device Undisturbed (fun w => w = w₀) m (fun _ => Inv) Inv :=
  h.triple (Routine.Triple.imp hm (fun _ hw => hw ▸ h.frame) (fun _ _ hw => hw) (fun _ hw => hw))

theorem perform {task : Task H Unit} {answers : List Answer}
    (htask : Routine.Triple World.device Undisturbed (fun w => w = w₀.fresh) task (fun _ => Inv) Inv)
    (hf : task.Follows World.device Undisturbed w₀.fresh answers) : Inv (w₀.perform task answers) := by
  have hrun : Inv (task.exec World.device w₀.fresh answers).2 := htask.exec rfl hf
  unfold World.perform World.after
  split
  · exact hrun.crash
  · exact hrun

/-! ## Proofs -/

theorem mem_insertAll {files : List String} {owner f : String} {owners : AList fun _ : String => String} :
    f ∈ files.foldl (fun owners f => owners.insert f owner) owners ↔ f ∈ files ∨ f ∈ owners := by
  induction files generalizing owners with
  | nil => simp
  | cons g files ih =>
    rw [List.foldl_cons, ih, AList.mem_insert, List.mem_cons]
    tauto

theorem mem_eraseAll {files : List String} {f : String} {owners : AList fun _ : String => String} :
    f ∈ files.foldl (fun owners f => owners.erase f) owners ↔ f ∉ files ∧ f ∈ owners := by
  induction files generalizing owners with
  | nil => simp
  | cons g files ih =>
    rw [List.foldl_cons, ih, AList.mem_erase, List.mem_cons]
    tauto

theorem resolveInputs_ok {entries : List (String × ObjectRecord H)} {inputs : List (String × ClassRef H)}
    {resolved : List (ResolvedInput H)} (h : resolveInputs entries inputs = some resolved) :
    ∀ input ∈ resolved, ∃ record, (input.fileName, record) ∈ entries ∧ record.status = .live ∧
      record.obj = input.obj := by
  induction inputs generalizing resolved with
  | nil =>
    cases h
    simp
  | cons i rest ih =>
    obtain ⟨fileName, required⟩ := i
    unfold resolveInputs at h
    split at h
    · cases h
    · rename_i e he
      split at h
      · rename_i hlive
        obtain ⟨resolved', hrest, rfl⟩ := Option.map_eq_some_iff.mp h
        intro input hinput
        rcases List.mem_cons.mp hinput with rfl | hinput
        · have hname : e.1 = fileName := by simpa using List.find?_some he
          refine ⟨e.2, ?_, hlive.1, rfl⟩
          rw [← hname]
          exact List.mem_of_find?_eq_some he
        · exact ih hrest input hinput
      · cases h

theorem prove {id : Nat} {owner : String} {inputs : List (String × ClassRef H)} (h : Inv w₀)
    (hs : w₀.prove id owner inputs = some w) : Inv w := by
  unfold World.prove at hs
  split at hs
  · rename_i hnew
    split at hs
    · cases hs
    · rename_i entries hload
      obtain ⟨resolved, hresolved, htake⟩ := Option.bind_eq_some_iff.mp hs
      obtain ⟨hplaced, -, -, hentries⟩ := Store.loadObjectFiles_ok hload
      unfold World.take at htake
      dsimp only at htake
      split at htake
      · cases htake
      · rename_i hfree
        simp only [List.any_eq_true, Bool.or_eq_true, decide_eq_true_eq, not_exists, not_and,
          not_or] at hfree
        cases htake
        have hlookup : ∀ i p, (w₀.proofs.insert id ⟨owner, resolved, .proving⟩).lookup i = some p →
            (i = id ∧ p = ⟨owner, resolved, .proving⟩) ∨ (i ≠ id ∧ w₀.proofs.lookup i = some p) := by
          intro i p hp
          by_cases hi : i = id
          · subst hi
            rw [AList.lookup_insert] at hp
            cases hp
            exact .inl ⟨rfl, rfl⟩
          · rw [AList.lookup_insert_ne hi] at hp
            exact .inr ⟨hi, hp⟩
        refine ⟨h.placed, h.keys, ⟨h.admissible.disjoint, ?_, h.admissible.spent⟩, ?_, ?_, ?_⟩
        · intro i p hp r hr hopen f hf hfr
          rcases hlookup i p hp with ⟨-, rfl⟩ | ⟨-, hp⟩
          · exact absurd (mem_lockedInputs.mpr ⟨r, hr, hopen, hfr⟩) (hfree f hf).2
          · exact h.admissible.own i p hp r hr hopen f hf hfr
        · intro i j p q hp hq hne f hf hfq
          rcases hlookup i p hp with ⟨hi, rfl⟩ | ⟨-, hp'⟩
          · rcases hlookup j q hq with ⟨hj, -⟩ | ⟨-, hq'⟩
            · exact hne (hi.trans hj.symm)
            · exact (hfree f hf).1 (h.owned j q hq' f hfq)
          · rcases hlookup j q hq with ⟨-, rfl⟩ | ⟨-, hq'⟩
            · exact (hfree f hfq).1 (h.owned i p hp' f hf)
            · exact h.holders i j p q hp' hq' hne f hf hfq
        · intro i p hp f hf
          rcases hlookup i p hp with ⟨-, rfl⟩ | ⟨-, hp⟩
          · exact mem_insertAll.mpr (.inl hf)
          · exact mem_insertAll.mpr (.inr (h.owned i p hp f hf))
        · intro i p hp hstage input hinput
          rcases hlookup i p hp with ⟨-, rfl⟩ | ⟨-, hp⟩
          · obtain ⟨record, hmem, hlive, hobj⟩ := resolveInputs_ok hresolved input hinput
            obtain ⟨place, hloaded⟩ := (hentries _ _).mp hmem
            have hplace : place = .live := by
              rw [← hplaced place _ record hloaded]
              exact ObjectRecord.place_eq_live.mpr (by simp [ObjectRecord.isNullified, hlive])
            subst hplace
            have hfile : w₀.store.file .live input.fileName = some (some record) :=
              Store.loaded_eq_some.mp hloaded
            exact ⟨record, by simp [Store.stored, hfile], by simp [hlive], hobj⟩
          · exact h.resolved i p hp hstage input hinput
  · cases hs

theorem release {id : Nat} (h : Inv w₀) (hs : w₀.release id = some w) : Inv w := by
  obtain ⟨p₀, hp₀, rfl⟩ := Option.map_eq_some_iff.mp hs
  have hlookup : ∀ i p, (w₀.proofs.erase id).lookup i = some p →
      i ≠ id ∧ w₀.proofs.lookup i = some p := by
    intro i p hp
    by_cases hi : i = id
    · subst hi
      rw [AList.lookup_erase] at hp
      cases hp
    · rw [AList.lookup_erase_ne hi] at hp
      exact ⟨hi, hp⟩
  refine ⟨h.placed, h.keys, ⟨h.admissible.disjoint, ?_, h.admissible.spent⟩, ?_, ?_, ?_⟩
  · intro i p hp
    exact h.admissible.own i p (hlookup i p hp).2
  · intro i j p q hp hq
    exact h.holders i j p q (hlookup i p hp).2 (hlookup j q hq).2
  · intro i p hp f hf
    obtain ⟨hne, hp⟩ := hlookup i p hp
    exact mem_eraseAll.mpr ⟨h.holders i id p p₀ hp hp₀ hne f hf, h.owned i p hp f hf⟩
  · intro i p hp
    exact h.resolved i p (hlookup i p hp).2

/-- A proof that goes to `record` is no longer resolved. -/
theorem setStage {id : Nat} {p : Proof H} (h : Inv w₀) (hp : w₀.proofs.lookup id = some p)
    (hproving : p.stage = .proving) (t : Option H) :
    Inv { w₀ with proofs := w₀.proofs.insert id { p with stage := .recorded t } } := by
  have hlookup : ∀ i q, (w₀.proofs.insert id { p with stage := .recorded t }).lookup i = some q →
      ∃ q₀, w₀.proofs.lookup i = some q₀ ∧ q.files = q₀.files ∧
        ((i = id ∧ q.stage = .recorded t ∧ q₀ = p) ∨ (i ≠ id ∧ q = q₀)) := by
    intro i q hq
    by_cases hi : i = id
    · subst hi
      rw [AList.lookup_insert] at hq
      cases hq
      exact ⟨p, hp, rfl, .inl ⟨rfl, rfl, rfl⟩⟩
    · rw [AList.lookup_insert_ne hi] at hq
      exact ⟨q, hq, rfl, .inr ⟨hi, rfl⟩⟩
  refine ⟨h.placed, h.keys, ⟨h.admissible.disjoint, ?_, h.admissible.spent⟩, ?_, ?_, ?_⟩
  · intro i q hq r hr hopen f hf hfr
    obtain ⟨q₀, hq₀, hfiles, hcase⟩ := hlookup i q hq
    have hown := h.admissible.own i q₀ hq₀ r hr hopen f (hfiles ▸ hf) hfr
    rcases hcase with ⟨-, -, rfl⟩ | ⟨-, rfl⟩
    · rw [hproving] at hown
      cases hown
    · exact hown
  · intro i j q q' hq hq' hne f hf
    obtain ⟨q₀, hq₀, hfiles, -⟩ := hlookup i q hq
    obtain ⟨q₁, hq₁, hfiles', -⟩ := hlookup j q' hq'
    rw [hfiles']
    exact h.holders i j q₀ q₁ hq₀ hq₁ hne f (hfiles ▸ hf)
  · intro i q hq f hf
    obtain ⟨q₀, hq₀, hfiles, -⟩ := hlookup i q hq
    exact h.owned i q₀ hq₀ f (hfiles ▸ hf)
  · intro i q hq hstage
    obtain ⟨q₀, hq₀, -, hcase⟩ := hlookup i q hq
    rcases hcase with ⟨-, hrec, -⟩ | ⟨-, rfl⟩
    · rw [hrec] at hstage
      cases hstage
    · exact h.resolved i q hq₀ hstage

/-- The frame does not depend on what is protected beyond the need. -/
theorem frame_setStage {id : Nat} {p : Proof H} {t : Option H} {records : List (TransactionRecord H)}
    (hp : w₀.proofs.lookup id = some p)
    (hlocked : ∀ n ∈ lockedInputs records, Protected w₀ w₀.store.records n)
    (hw : Frame w₀ records (Protected w₀ w₀.store.records) w₀.store.Advanced w) :
    Frame { w₀ with proofs := w₀.proofs.insert id { p with stage := .recorded t } } records
      (Protected { w₀ with proofs := w₀.proofs.insert id { p with stage := .recorded t } } records)
      w₀.store.Advanced { w with proofs := w.proofs.insert id { p with stage := .recorded t } } := by
  refine ⟨hw.owners, by rw [hw.proofs], hw.placed, hw.keys, hw.opens, fun n hn => hw.kept n ?_⟩
  rcases protected_iff.mp hn with hheld | hlock
  · obtain ⟨i, q, hq, hstage, hfile⟩ := mem_heldNames.mp hheld
    by_cases hi : i = id
    · subst hi
      simp only [AList.lookup_insert, Option.some.injEq] at hq
      subst hq
      cases hstage
    · simp only [AList.lookup_insert_ne hi] at hq
      exact protected_iff.mpr (.inl (mem_heldNames.mpr ⟨i, q, hq, hstage, hfile⟩))
  · exact hlocked n hlock

theorem covers_spends {p : Proof H} {proved : ProvedTransaction H} (h : p.covers proved = true)
    {input : ResolvedInput H} (hinput : input ∈ p.inputs) {r : TransactionRecord H}
    (hr : r.nullifiers = proved.nullifiers) : r.spends input.obj = true := by
  have hcover := List.all_eq_true.mp h input hinput
  unfold TransactionRecord.spends
  cases hnull : input.obj.nullifier with
  | none => simp [hnull] at hcover
  | some nullifier =>
    rw [hr]
    simpa [hnull] using hcover

theorem accepted {id : Nat} {p : Proof H} {proved : ProvedTransaction H} {r : TransactionRecord H}
    (h : Inv w₀) (hp : w₀.proofs.lookup id = some p) (hproving : p.stage = .proving)
    (hcovers : p.covers proved = true) (hr : Accepted w₀ proved p.files r) :
    Admissible { w₀ with proofs := w₀.proofs.insert id { p with stage := .recorded (some proved.txFinal) } }
      (w₀.store.records ++ [r]) := by
  obtain ⟨ht, hfiles, hnullifiers, hnew, hfree⟩ := hr
  have hold := (h.setStage hp hproving (some proved.txFinal)).admissible
  have hunlocked : ∀ r' ∈ w₀.store.records, r'.isOpen = true → ∀ f ∈ p.files, f ∉ r'.inputFiles :=
    fun r' hr' hopen f hf hfr => hfree f hf (mem_lockedInputs.mpr ⟨r', hr', hopen, hfr⟩)
  refine ⟨?_, ?_, ?_⟩
  · intro r₁ hr₁ r₂ hr₂ hopen₁ hopen₂ hne f hf hf'
    rcases List.mem_append.mp hr₁ with hr₁ | hr₁
    · rcases List.mem_append.mp hr₂ with hr₂ | hr₂
      · exact h.admissible.disjoint r₁ hr₁ r₂ hr₂ hopen₁ hopen₂ hne f hf hf'
      · rw [List.mem_singleton.mp hr₂, hfiles] at hf'
        exact hunlocked r₁ hr₁ hopen₁ f hf' hf
    · rcases List.mem_append.mp hr₂ with hr₂ | hr₂
      · rw [List.mem_singleton.mp hr₁, hfiles] at hf
        exact hunlocked r₂ hr₂ hopen₂ f hf hf'
      · rw [List.mem_singleton.mp hr₁, List.mem_singleton.mp hr₂] at hne
        exact hne rfl
  · intro i q hq r' hr' hopen f hf hfr
    rcases List.mem_append.mp hr' with hr' | hr'
    · exact hold.own i q hq r' hr' hopen f hf hfr
    · rw [List.mem_singleton.mp hr'] at hfr ⊢
      rw [hfiles] at hfr
      by_cases hi : i = id
      · subst hi
        simp only [AList.lookup_insert, Option.some.injEq] at hq
        rw [← hq, ht]
      · simp only [AList.lookup_insert_ne hi] at hq
        exact absurd hfr (h.holders i id q p hq hp hi f hf)
  · intro r' hr' hopen f hf
    rcases List.mem_append.mp hr' with hr' | hr'
    · exact h.admissible.spent r' hr' hopen f hf
    · rw [List.mem_singleton.mp hr'] at hf ⊢
      rw [hfiles] at hf
      obtain ⟨input, hinput, rfl⟩ := Proof.mem_files.mp hf
      obtain ⟨stored, hs, hknown, hobj⟩ := h.resolved id p hp hproving input hinput
      refine ⟨stored, hs, hknown, ?_⟩
      rw [hobj]
      exact covers_spends hcovers hinput hnullifiers

end Inv

theorem Inv.recordProof {w₀ w : World H} {id : Nat} {proved : ProvedTransaction H} {now : Nat}
    {answers : List Answer} (h : Inv w₀)
    (hf : ∀ p ∈ w₀.proofs.lookup id,
      (record proved p.owner p.files now).Follows World.device Undisturbed w₀.fresh answers)
    (hs : w₀.recordProof id proved now answers = some w) : Inv w := by
  have hfresh : Inv w₀.fresh := h.report _
  unfold World.recordProof at hs
  split at hs
  · rename_i p hp
    split at hs
    · rename_i hguard
      have hend := (record_frame proved p.owner p.files now hfresh.frame w₀.fresh rfl).exec (hf p hp)
      have hrolled : ∀ w' : World H,
          Frame w₀.fresh w₀.fresh.store.records (Protected w₀.fresh w₀.fresh.store.records)
            w₀.fresh.store.Advanced w' →
          Inv { w' with proofs := w'.proofs.insert id { p with stage := .recorded none } } := by
        intro w' hw'
        have hstage := hfresh.setStage hp hguard.1 none
        exact hstage.of_frame hstage.admissible
          (frame_setStage hp (fun n hn => protected_iff.mpr (.inr hn)) hw')
      dsimp only at hs
      cases ho : ((record proved p.owner p.files now).exec World.device w₀.fresh answers).1 with
      | crashed =>
        rw [ho] at hs hend
        cases hs
        exact (hfresh.of_frame hfresh.admissible hend).crash
      | failed e =>
        rw [ho] at hs hend
        cases hs
        exact hrolled _ hend
      | returned u =>
        rw [ho] at hs hend
        cases hs
        obtain ⟨r, haccepted, hframe⟩ := hend
        have hstage := hfresh.setStage hp hguard.1 (some proved.txFinal)
        refine hstage.of_frame (hfresh.accepted hp hguard.1 hguard.2 haccepted)
          (frame_setStage hp ?_ hframe)
        intro n hn
        obtain ⟨r', hr', hopen, hn⟩ := mem_lockedInputs.mp hn
        rcases List.mem_append.mp hr' with hr' | hr'
        · exact protected_iff.mpr (.inr (mem_lockedInputs.mpr ⟨r', hr', hopen, hn⟩))
        · rw [List.mem_singleton.mp hr', haccepted.2.1] at hn
          exact protected_iff.mpr (.inl (mem_heldNames.mpr ⟨id, p, hp, hguard.1, hn⟩))
    · cases hs
  · cases hs

/-! ## Whole runs -/

/-- No object under one of the names is spent, still live, and filed under another name than
the generated one, to which it would move. -/
def Unmoved (w : World H) (names : List String) (spent : Object H → Bool) : Prop :=
  ∀ n ∈ names, ∀ r ∈ (w.store.stored n).join, spent r.obj = true → r.isNullified = false →
    r.spentName n = n

instance (w : World H) (names : List String) (spent : Object H → Bool) :
    Decidable (Unmoved w names spent) :=
  inferInstanceAs (Decidable (∀ n ∈ names, ∀ r ∈ (w.store.stored n).join, spent r.obj = true →
    r.isNullified = false → r.spentName n = n))

/-- The steps after which every name still has its object: no settlement nullifies a file that
a running proof holds or an open record spends under a name that it would lose by that, no
such file is discarded, no write over an object is cut off, and no spent object is written under
the name of another one. -/
def Clean (w : World H) : Action H → Prop
  | .prove _ _ _ => True
  | .release _ => True
  | .record id proved now answers => ∀ p ∈ w.proofs.lookup id,
    (record proved p.owner p.files now).Follows World.device Undisturbed w.fresh answers
  | .delete t answers => (deleteTransaction t).Follows World.device Undisturbed w.fresh answers
  | .submitMark t now answers =>
    (updateRecord t (markSubmit now)).Follows World.device Undisturbed w.fresh answers
  | .submitFinish t now jobId failed answers =>
    (updateRecord t (finishSubmit now jobId failed)).Follows World.device Undisturbed w.fresh answers
  | .settle x now answers =>
    (∀ m ∈ x.membership, Unmoved w (protectedNames w (w.store.records.map (settled x now))) m.spends) ∧
      (settleWith x now).Follows World.device Undisturbed w.fresh answers
  | .prune now answers =>
    (∀ r ∈ w.store.records, r.state.isTerminal = true →
      Unmoved w (r.inputFiles.filter fun n => n ∈ protectedNames w w.store.records) r.spends) ∧
      (pruneTransactions now).Follows World.device Undisturbed w.fresh answers
  | .rename fileName newName answers =>
    (renameObject fileName newName).Follows World.device Undisturbed w.fresh answers
  | .importObject record requested answers =>
    (importObject record requested).Follows World.device Undisturbed w.fresh answers
  | .discard fileName answers => fileName ∉ protectedNames w w.store.records ∧
    (discardObject fileName).Follows World.device Undisturbed w.fresh answers
  | .crash => True

instance (w : World H) : (a : Action H) → Decidable (Clean w a)
  | .prove _ _ _ => .isTrue trivial
  | .release _ => .isTrue trivial
  | .record id proved now answers => inferInstanceAs (Decidable (∀ p ∈ w.proofs.lookup id,
      (record proved p.owner p.files now).Follows World.device Undisturbed w.fresh answers))
  | .delete t answers => inferInstanceAs (Decidable
      ((deleteTransaction t).Follows World.device Undisturbed w.fresh answers))
  | .submitMark t now answers => inferInstanceAs (Decidable
      ((updateRecord t (markSubmit now)).Follows World.device Undisturbed w.fresh answers))
  | .submitFinish t now jobId failed answers => inferInstanceAs (Decidable
      ((updateRecord t (finishSubmit now jobId failed)).Follows World.device Undisturbed w.fresh answers))
  | .settle x now answers => inferInstanceAs (Decidable ((∀ m ∈ x.membership,
      Unmoved w (protectedNames w (w.store.records.map (settled x now))) m.spends) ∧
      (settleWith x now).Follows World.device Undisturbed w.fresh answers))
  | .prune now answers => inferInstanceAs (Decidable ((∀ r ∈ w.store.records, r.state.isTerminal = true →
      Unmoved w (r.inputFiles.filter fun n => n ∈ protectedNames w w.store.records) r.spends) ∧
      (pruneTransactions now).Follows World.device Undisturbed w.fresh answers))
  | .rename fileName newName answers => inferInstanceAs (Decidable
      ((renameObject fileName newName).Follows World.device Undisturbed w.fresh answers))
  | .importObject record requested answers => inferInstanceAs (Decidable
      ((importObject record requested).Follows World.device Undisturbed w.fresh answers))
  | .discard fileName answers => inferInstanceAs (Decidable
      (fileName ∉ protectedNames w w.store.records ∧
        (discardObject fileName).Follows World.device Undisturbed w.fresh answers))
  | .crash => .isTrue trivial

omit [EncodeHex H] in
/-- What a pass has just settled was open before, so nobody else relies on its inputs. -/
theorem Inv.settled_unprotected {w : World H} {x : Settlement H} {now : Nat} (h : Inv w)
    {r : TransactionRecord H} (hr : r ∈ changedRecords x now w.store.records)
    (hterm : r.state.isTerminal = true) {n : String} (hn : n ∈ r.inputFiles) :
    ¬ Protected w (w.store.records.map (settled x now)) n := by
  obtain ⟨r₀, hr₀, rfl⟩ := List.mem_map.mp hr
  obtain ⟨hmem, hchanged⟩ := List.mem_filter.mp hr₀
  have hopen : r₀.isOpen = true := by
    cases ho : r₀.isOpen with
    | true => rfl
    | false =>
      rw [settled_of_not_open x now ho] at hchanged
      simp at hchanged
  rw [(settled_sameFiles x now r₀).inputFiles] at hn
  intro hprot
  rcases protected_iff.mp hprot with hheld | hlocked
  · obtain ⟨i, p, hp, hstage, hfile⟩ := mem_heldNames.mp hheld
    have hown := h.admissible.own i p hp r₀ hmem hopen n hfile hn
    rw [hstage] at hown
    cases hown
  · obtain ⟨r', hr', hopen', hn'⟩ := mem_lockedInputs.mp hlocked
    obtain ⟨r₁, hr₁, rfl⟩ := List.mem_map.mp hr'
    obtain ⟨r₂, hr₂, hopen₂, ht, hfiles, -⟩ := OpenFrom.settled hr₁ x now hopen'
    by_cases heq : r₂.txFinal = r₀.txFinal
    · have hsame : r₁ = r₀ := by
        refine List.inj_on_of_nodup_map h.keys hr₁ hmem ?_
        rw [← heq, ← ht]
        exact (settled_sameFiles x now r₁).txFinal.symm
      rw [hsame, TransactionRecord.isOpen, hterm] at hopen'
      cases hopen'
    · exact h.admissible.disjoint r₂ hr₂ r₀ hmem hopen₂ hopen heq n (hfiles ▸ hn') hn

theorem Inv.settle {w : World H} {x : Settlement H} {now : Nat} {answers : List Answer} (h : Inv w)
    (hclean : Clean w (.settle x now answers)) : Inv (w.perform (settleWith x now) answers) := by
  have hfresh : Inv w.fresh := h.report _
  obtain ⟨hchain, hfollows⟩ := hclean
  refine Inv.perform ((settleWith_frame now hfresh.frame ?_ ?_ hfresh.held hfresh.known).imp
    (fun _ hw => hw) ?_ ?_) hfollows
  · intro r hr hterm n hn hprot
    exact absurd hprot (hfresh.settled_unprotected hr hterm hn)
  · intro m hm n hn r₀ hr₀ hspent hfree
    refine hchain m hm n hn r₀ ?_ hspent hfree
    show (w.fresh.store.stored n).join = some r₀
    rw [hr₀]
    rfl
  · rintro _ w' ⟨records, hopens, hw'⟩
    exact hfresh.of_frame (hfresh.admissible_of_open hopens) hw'
  · rintro w' ⟨records, hopens, hw'⟩
    exact hfresh.of_frame (hfresh.admissible_of_open hopens) hw'

theorem Inv.prune {w : World H} {now : Nat} {answers : List Answer} (h : Inv w)
    (hclean : Clean w (.prune now answers)) : Inv (w.perform (pruneTransactions now) answers) := by
  have hfresh : Inv w.fresh := h.report _
  obtain ⟨hstays, hfollows⟩ := hclean
  refine Inv.perform (hfresh.triple (pruneTransactions_frame now hfresh.frame ?_
    hfresh.held_or_locked hfresh.known)) hfollows
  intro r hr hterm n hn hprot r₀ hr₀ hspent hfree
  refine hstays r hr hterm n (List.mem_filter.mpr ⟨hn, decide_eq_true hprot⟩) r₀ ?_ hspent hfree
  show (w.fresh.store.stored n).join = some r₀
  rw [hr₀]
  rfl

theorem Inv.step {w w' : World H} {a : Action H} (h : Inv w) (hclean : Clean w a)
    (hs : w.step a = some w') : Inv w' := by
  have hfresh : Inv w.fresh := h.report _
  cases a with
  | prove id owner inputs => exact h.prove hs
  | release id => exact h.release hs
  | record id proved now answers => exact h.recordProof hclean hs
  | delete t answers =>
    cases hs
    exact Inv.perform (hfresh.triple_of_preserves (deleteTransaction_frame t hfresh.known)) hclean
  | submitMark t now answers =>
    cases hs
    exact Inv.perform (hfresh.triple_of_preserves
      (updateRecord_frame t (markSubmit_keepsInputs now))) hclean
  | submitFinish t now jobId failed answers =>
    cases hs
    exact Inv.perform (hfresh.triple_of_preserves
      (updateRecord_frame t (finishSubmit_keepsInputs now jobId failed))) hclean
  | settle x now answers =>
    cases hs
    exact h.settle hclean
  | prune now answers =>
    cases hs
    exact h.prune hclean
  | rename fileName newName answers =>
    cases hs
    exact Inv.perform (hfresh.triple
      (renameObject_frame fileName newName hfresh.frame hfresh.held_or_locked)) hclean
  | importObject record requested answers =>
    cases hs
    exact Inv.perform (hfresh.triple (importObject_frame record requested hfresh.frame)) hclean
  | discard fileName answers =>
    cases hs
    exact Inv.perform (hfresh.triple_of_preserves (discardObject_frame hclean.1)) hclean.2
  | crash =>
    cases hs
    exact h.crash

/-- Nothing is spent twice: open records have no input in common, running proofs hold no file
in common, no held file is an input of another open record, and every input of an open record
is the object that the record spends. -/
structure Exclusive (w : World H) : Prop where
  records : ∀ r ∈ w.store.records, ∀ r' ∈ w.store.records, r.isOpen → r'.isOpen →
    r.txFinal ≠ r'.txFinal → ∀ f ∈ r.inputFiles, f ∉ r'.inputFiles
  holds : ∀ i j p q, w.proofs.lookup i = some p → w.proofs.lookup j = some q → i ≠ j →
    ∀ f ∈ p.files, f ∉ q.files
  held : ∀ i p, w.proofs.lookup i = some p → ∀ r ∈ w.store.records, r.isOpen → ∀ f ∈ p.files,
    f ∈ r.inputFiles → p.stage = .recorded (some r.txFinal)
  contents : ∀ r ∈ w.store.records, r.isOpen → ∀ f ∈ r.inputFiles, ∃ stored,
    w.store.stored f = some (some stored) ∧ r.spends stored.obj

/-- In every state of every clean run. -/
theorem World.spends_once (as : List (Action H)) (w : World H)
    (hclean : RunMeets World.step Clean World.init as)
    (hrun : runSteps World.step World.init as = some w) : Exclusive w := by
  have h : Inv w := runSteps_invariant (fun _ _ _ => Inv.step) Inv.init hclean hrun
  refine ⟨h.admissible.disjoint, h.holders, h.admissible.own, fun r hr hopen f hf => ?_⟩
  obtain ⟨stored, hs, -, hspends⟩ := h.admissible.spent r hr hopen f hf
  exact ⟨stored, hs, hspends⟩

/-! ## Two runs -/

namespace Sample

/-- Two objects under names that a player chose, and a proof that spends the first. -/
def start : List (Action Nat) :=
  [.importObject (file 1) (some "sword.dobj") [], .importObject (file 2) (some "blade.dobj") [],
    .prove 1 "run" [("sword.dobj", ⟨cls, 1⟩)]]

def proved : ProvedTransaction Nat := ⟨7, ⟨"game", "Sharpen"⟩, 0, [(cls, obj 3)], [101], []⟩

/-- The chain reports the nullifiers `spent`. -/
def sync (spent : List Nat) : Action Nat :=
  .settle ⟨[], none, [], [], some ⟨[1, 2], spent⟩, []⟩ 5 []

end Sample

open Sample

/-- The object of a running proof is spent elsewhere: its file moves to the generated name, the
other object is renamed to the free one, and `record` takes it for the input. -/
theorem World.spends_renamed_object : ∃ w : World Nat,
    runSteps World.step World.init
      (start ++ [sync [101], .rename "blade.dobj" "sword.dobj" [], .record 1 proved 9 []]) = some w ∧
    ¬ Exclusive w := by
  have hview : (runSteps World.step World.init
      (start ++ [sync [101], .rename "blade.dobj" "sword.dobj" [], .record 1 proved 9 []])).map
        (fun w => (w.store.records, w.store.stored "sword.dobj")) =
      some ([.ofProved proved "run" ["sword.dobj"] ["game__sword_3_3.dobj"] [] 9],
        some (some (file 2))) := by
    decide +kernel
  obtain ⟨w, hw, hview⟩ := Option.map_eq_some_iff.mp hview
  obtain ⟨hrecords, hstored⟩ := Prod.mk.injEq .. ▸ hview
  refine ⟨w, hw, fun h => ?_⟩
  obtain ⟨stored, hs, hspends⟩ := h.contents _ (hrecords ▸ List.mem_singleton.mpr rfl) (by decide)
    "sword.dobj" (by decide)
  rw [hstored] at hs
  cases hs
  revert hspends
  decide

/-- While the other object is renamed and the chain is read, the input keeps its name. -/
theorem World.spends_once_renamed : ∃ w : World Nat,
    runSteps World.step World.init
      (start ++ [.rename "blade.dobj" "axe.dobj" [], sync [102], .record 1 proved 9 [], .release 1]) =
        some w ∧
    w.store.records.length = 1 ∧ Exclusive w := by
  have hview : (runSteps World.step World.init
      (start ++ [.rename "blade.dobj" "axe.dobj" [], sync [102], .record 1 proved 9 [],
        .release 1])).map (fun w => w.store.records.length) = some 1 := by
    decide +kernel
  obtain ⟨w, hw, hlength⟩ := Option.map_eq_some_iff.mp hview
  exact ⟨w, hw, hlength, World.spends_once _ w (by decide +kernel) hw⟩

end DigitalObjects.Driver.Objects
