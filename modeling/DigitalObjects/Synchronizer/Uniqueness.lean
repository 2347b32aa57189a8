import DigitalObjects.Synchronizer.StateMachine
import DigitalObjects.Pod2.Terms
set_option autoImplicit false

/-!
The invariant of the synchronizer over whole runs. The created array is read as the
list of every state ever created, in order, and the two sets together as a ledger in
which a state is spent when its nullifier is out.
-/

namespace DigitalObjects.Synchronizer

open Pod2 Lib Txlib

variable {V : Type} [Values V]

/-- The array holds the list from index zero on. -/
def Represents (a : Pod2.Array V) (l : List V) : Prop := ∀ i, a.lookup i = l[i]?

omit [Values V] in
theorem Represents.nil : Represents (∅ : Pod2.Array V) [] := by
  intro i
  simp

omit [Values V] in
theorem Represents.unique {a b : Pod2.Array V} {l : List V} (ha : Represents a l)
    (hb : Represents b l) : a = b := by
  apply Finmap.ext_lookup
  intro i
  rw [ha i, hb i]

omit [Values V] in
theorem Represents.append {a : Pod2.Array V} {l : List V} (h : Represents a l) (v : V) :
    Represents (a.insert l.length v) (l ++ [v]) := by
  intro i
  rw [lookup_insert_ite, h i]
  by_cases hi : i = l.length
  · simp [hi]
  · rw [if_neg hi]
    by_cases hlt : i < l.length
    · rw [List.getElem?_append_left hlt]
    · rw [List.getElem?_eq_none (by omega), List.getElem?_eq_none]
      simp only [List.length_append, List.length_cons, List.length_nil]
      omega

/-- The ledger of a list of created states and a set of nullifiers. -/
def book (l : List V) (nullifiers : Finset V) : Book V :=
  ⟨{x | x ∈ l}, {x | ∃ n ∈ nullifiers, Nullify n x}⟩

theorem firstCollision_eq_none {d c : String} {present : V → Bool} {seen vs : List V} :
    firstCollision d c present seen vs = none ↔
      vs.Nodup ∧ (∀ v ∈ vs, v ∉ seen) ∧ ∀ v ∈ vs, present v = false := by
  induction vs generalizing seen with
  | nil => simp [firstCollision]
  | cons v vs ih =>
    by_cases hs : v ∈ seen
    · simp [firstCollision, hs]
    by_cases hp : present v = true
    · simp [firstCollision, hs, hp]
    simp only [firstCollision, if_neg hs, if_neg hp, ih, List.nodup_cons, List.mem_cons,
      forall_eq_or_imp, not_or, Bool.not_eq_true] at hp ⊢
    constructor
    · rintro ⟨hnd, hseen, hpres⟩
      exact ⟨⟨fun hv => (hseen v hv).1 rfl, hnd⟩, ⟨hs, fun x hx => (hseen x hx).2⟩, hp, hpres⟩
    · rintro ⟨⟨hv, hnd⟩, ⟨-, hseen⟩, -, hpres⟩
      refine ⟨hnd, fun x hx => ⟨?_, hseen x hx⟩, hpres⟩
      rintro rfl
      exact hv hx

/-- The created array, the count and the additions of a slot tell one list `l`, which begins
with the list `base` of the committed head. -/
structure WorkingState.Tally (w : WorkingState V) (base l : List V) : Prop where
  represents : Represents w.created l
  count : w.createdCount = l.length
  nodup : l.Nodup
  extends_base : base <+: l
  added : ∀ x i, (x, i) ∈ w.createdAdded ↔ base.length ≤ i ∧ l[i]? = some x

/-- What the derivation of a slot keeps true of its working state. `base` lists the
created states of the committed head and `l` those of the working state. -/
structure WorkingState.Inv (w : WorkingState V) (base l : List V) : Prop where
  represents : Represents w.created l
  count : w.createdCount = l.length
  nodup : l.Nodup
  extends_base : base <+: l
  added : ∀ x i, (x, i) ∈ w.createdAdded ↔ base.length ≤ i ∧ l[i]? = some x
  singular : (book l w.nullifiers).Singular (identity : Lineage V V)

theorem WorkingState.Inv.tally {w : WorkingState V} {base l : List V} (h : w.Inv base l) :
    w.Tally base l :=
  ⟨h.represents, h.count, h.nodup, h.extends_base, h.added⟩

omit [Values V] in
theorem appendCreated_spec (objs : List V) {w : WorkingState V} {base l : List V}
    (hrep : Represents w.created l) (hcount : w.createdCount = l.length) (hbase : base <+: l)
    (hadded : ∀ x i, (x, i) ∈ w.createdAdded ↔ base.length ≤ i ∧ l[i]? = some x) :
    ∃ w', appendCreated w objs = .ok w' ∧
      Represents w'.created (l ++ objs) ∧ w'.createdCount = (l ++ objs).length ∧
      (∀ x i, (x, i) ∈ w'.createdAdded ↔ base.length ≤ i ∧ (l ++ objs)[i]? = some x) ∧
      w'.nullifiers = w.nullifiers ∧ w'.recentStateRoots = w.recentStateRoots ∧
      w'.nextStateHistory = w.nextStateHistory ∧ w'.nullifierCount = w.nullifierCount := by
  induction objs generalizing w l with
  | nil => exact ⟨w, rfl, by simpa using hrep, by simpa using hcount, by simpa using hadded,
      rfl, rfl, rfl, rfl⟩
  | cons obj objs ih =>
    have hfree : (w.created.lookup w.createdCount).isSome = false := by
      rw [hrep, hcount, List.getElem?_eq_none (Nat.le_refl _)]
      rfl
    have hlen := hbase.length_le
    obtain ⟨w', hw', hrest⟩ := @ih
      { w with
        created := w.created.insert w.createdCount obj
        createdAdded := (obj, w.createdCount) :: w.createdAdded
        createdCount := w.createdCount + 1 } (l ++ [obj])
      (by rw [hcount]; exact hrep.append obj) (by simp [hcount])
      (hbase.trans (List.prefix_append l [obj])) (by
        intro x i
        simp only [List.mem_cons, Prod.mk.injEq, hadded, hcount]
        by_cases hi : i = l.length
        · subst hi
          simp [hlen, eq_comm]
        · by_cases hlt : i < l.length
          · simp [hi, List.getElem?_append_left hlt]
          · have h1 : l[i]? = none := List.getElem?_eq_none (by omega)
            have h2 : (l ++ [obj])[i]? = none := List.getElem?_eq_none (by simp; omega)
            simp [hi, h1, h2])
    refine ⟨w', ?_, ?_⟩
    · rw [appendCreated, hfree]
      exact hw'
    · simpa [List.append_assoc] using hrest

theorem insertNullifiers_spec {w : WorkingState V} {ns : List V} (hnd : ns.Nodup)
    (hfresh : ∀ n ∈ ns, n ∉ w.nullifiers) :
    ∃ w', insertNullifiers w ns = .ok w' ∧ w'.nullifiers = w.nullifiers ∪ ns.toFinset ∧
      w'.created = w.created ∧ w'.createdCount = w.createdCount ∧
      w'.createdAdded = w.createdAdded ∧ w'.recentStateRoots = w.recentStateRoots ∧
      w'.nextStateHistory = w.nextStateHistory ∧
      w'.nullifierCount = w.nullifierCount + ns.length := by
  induction ns generalizing w with
  | nil => exact ⟨w, rfl, by simp, rfl, rfl, rfl, rfl, rfl, rfl⟩
  | cons n ns ih =>
    rw [List.nodup_cons] at hnd
    have hn : n ∉ w.nullifiers := hfresh n List.mem_cons_self
    obtain ⟨w', hw', hnull, hcre, hcnt, hadd, hroots, hhist, hcount⟩ := @ih
      { w with nullifiers := insert n w.nullifiers, nullifierCount := w.nullifierCount + 1 } hnd.2
      (by
        intro m hm
        rw [Finset.mem_insert, not_or]
        exact ⟨fun h => hnd.1 (h ▸ hm), hfresh m (List.mem_cons_of_mem n hm)⟩)
    refine ⟨w', ?_, ?_, hcre, hcnt, hadd, hroots, hhist, ?_⟩
    · rw [insertNullifiers, if_neg hn]
      exact hw'
    · rw [hnull, List.toFinset_cons]
      ext x
      simp
    · simp only [hcount, List.length_cons]
      omega

omit [Values V] in
theorem getElem?_of_initial {base l : List V} (h : base <+: l) {i : Nat} (hi : i < base.length) :
    l[i]? = base[i]? := by
  obtain ⟨t, rfl⟩ := h
  exact List.getElem?_append_left hi

/-- The created index has the rows of the list, each at its position. -/
def StateLogDb.Indexes (log : StateLogDb V) (l : List V) : Prop :=
  ∀ x i, (∃ r ∈ log.createdIndex, r.commitment = x ∧ r.arrayIndex = i) ↔ l[i]? = some x

/-- What the state log says about the list of created states at its head. -/
structure StateLogDb.Inv (log : StateLogDb V) (l : List V) : Prop where
  index : ∀ x i, (∃ r ∈ log.createdIndex, r.commitment = x ∧ r.arrayIndex = i) ↔ l[i]? = some x
  past : ∀ row ∈ log.slots, ∀ s, row.state = some s →
    s.metadata.stateRoot = s.stateHeader.hash ∧
    ∃ a old, Represents a old ∧ s.roots.created = ofArray a ∧ old <+: l

/-- The creation check is exact when the prefetched positions cover the committed states:
the slot's own additions cover the rest, and a position counts only where the array holds
the commitment. -/
theorem alreadyCreated_prior {w : WorkingState V} {prior : List (V × Nat)} {base l : List V} {x : V}
    (hw : w.Tally base l)
    (hprior : ∀ i : Nat, base[i]? = some x → ∃ j, prior.lookup x = some j ∧ base[j]? = some x) :
    alreadyCreated w prior x = true ↔ x ∈ l := by
  rw [alreadyCreated, Bool.or_eq_true]
  constructor
  · rintro (h | h)
    · rw [List.lookup_isSome_iff] at h
      obtain ⟨⟨y, i⟩, hmem', hy⟩ := h
      rw [beq_iff_eq] at hy
      obtain rfl : x = y := hy
      exact List.mem_of_getElem? ((hw.added x i).mp hmem').2
    · cases hl : prior.lookup x with
      | none => simp [hl] at h
      | some i =>
        simp only [hl, createdArrayHolds, decide_eq_true_eq] at h
        rw [hw.represents i] at h
        exact List.mem_of_getElem? h
  · intro h
    obtain ⟨i, hi⟩ := List.getElem?_of_mem h
    by_cases hlt : i < base.length
    · have hb : base[i]? = some x := by
        rw [← hi, getElem?_of_initial hw.extends_base hlt]
      obtain ⟨j, hl, hj⟩ := hprior i hb
      refine .inr ?_
      simp only [hl, createdArrayHolds, decide_eq_true_eq]
      rw [hw.represents j,
        getElem?_of_initial hw.extends_base (List.getElem?_eq_some_iff.mp hj).1, hj]
    · refine .inl ?_
      rw [List.lookup_isSome_iff]
      exact ⟨(x, i), (hw.added x i).mpr ⟨by omega, hi⟩, by simp⟩

omit [Values V] in
theorem StateLogDb.mem_createdIndices [DecidableEq V] {log : StateLogDb V} {candidates : List V}
    {x : V} (hx : x ∈ candidates) (i : Nat) :
    (x, i) ∈ log.createdIndices candidates ↔
      ∃ r ∈ log.createdIndex, r.commitment = x ∧ r.arrayIndex = i := by
  simp only [createdIndices, List.mem_map, List.mem_filter, decide_eq_true_eq, Prod.mk.injEq]
  constructor
  · rintro ⟨r, ⟨hr, -⟩, hc, hi⟩
    exact ⟨r, hr, hc, hi⟩
  · rintro ⟨r, hr, hc, hi⟩
    exact ⟨r, ⟨hr, hc ▸ hx⟩, hc, hi⟩

omit [Values V] in
/-- A commitment with a row is found, at the position of one of its rows. -/
theorem StateLogDb.lookup_createdIndices [DecidableEq V] {log : StateLogDb V} {candidates : List V}
    {x : V} (hx : x ∈ candidates) {r : CreatedRow V} (hr : r ∈ log.createdIndex)
    (hrx : r.commitment = x) :
    ∃ q ∈ log.createdIndex, q.commitment = x ∧
      (log.createdIndices candidates).lookup x = some q.arrayIndex := by
  cases hl : (log.createdIndices candidates).lookup x with
  | none =>
    rw [List.lookup_eq_none_iff] at hl
    have hne := hl (x, r.arrayIndex) ((mem_createdIndices hx _).mpr ⟨r, hr, hrx, rfl⟩)
    simp at hne
  | some j =>
    obtain ⟨l₁, l₂, heq, -⟩ := List.lookup_eq_some_iff.mp hl
    have hj : (x, j) ∈ log.createdIndices candidates := by
      rw [heq]
      simp
    obtain ⟨q, hq, hqx, hqj⟩ := (mem_createdIndices hx j).mp hj
    exact ⟨q, hq, hqx, by rw [hqj]⟩

theorem alreadyCreated_iff {w : WorkingState V} {log : StateLogDb V} {base l candidates : List V}
    {x : V} (hw : w.Tally base l) (hlog : log.Indexes base) (hx : x ∈ candidates) :
    alreadyCreated w (log.createdIndices candidates) x = true ↔ x ∈ l := by
  refine alreadyCreated_prior hw ?_
  intro i hi
  obtain ⟨r, hr, hrx, -⟩ := (hlog x i).mpr hi
  obtain ⟨q, hq, hqx, hl⟩ := StateLogDb.lookup_createdIndices hx hr hrx
  exact ⟨q.arrayIndex, hl, (hlog x q.arrayIndex).mp ⟨q, hq, hqx, rfl⟩⟩

theorem book_run {l cs : List V} {ns nullifiers : Finset V} {es : List (Event V)}
    (hc : ∀ x, x ∈ cs ↔ x ∈ news es) (hn : ∀ n, n ∈ ns ↔ ∃ x ∈ olds es, Nullify n x)
    (hk : ∀ x ∈ olds es, ∃ n, Nullify n x) :
    (book l nullifiers).run (es.map Event.move) = book (l ++ cs) (nullifiers ∪ ns) := by
  have hcreated : ((book l nullifiers).run (es.map Event.move)).created =
      (book (l ++ cs) (nullifiers ∪ ns)).created := by
    rw [Book.run_created]
    ext x
    simp [book, hc, news]
  have hspent : ((book l nullifiers).run (es.map Event.move)).spent =
      (book (l ++ cs) (nullifiers ∪ ns)).spent := by
    rw [Book.run_spent]
    ext x
    simp only [book, Set.mem_union, Set.mem_ofPred_eq, Finset.mem_union]
    constructor
    · rintro (⟨n, hmem, hx⟩ | hx)
      · exact ⟨n, .inl hmem, hx⟩
      · obtain ⟨n, hnx⟩ := hk x hx
        exact ⟨n, .inr ((hn n).mpr ⟨x, hx, hnx⟩), hnx⟩
    · rintro ⟨n, hmem | hmem, hx⟩
      · exact .inl ⟨n, hmem, hx⟩
      · obtain ⟨y, hy, hny⟩ := (hn n).mp hmem
        rw [hx.injective hny]
        exact .inr hy
  cases hb : (book l nullifiers).run (es.map Event.move)
  cases hb' : book (l ++ cs) (nullifiers ∪ ns)
  rw [hb, hb'] at hcreated hspent
  exact congrArg₂ Book.mk hcreated hspent

theorem Payload.Verified.certified {G : Guard V} {p : Payload V} (hp : p.Verified G) :
    ∃ (inputs : Finset V) (es : List (Event V)),
      Certified p.stateRoot p.txFinal (ofSet p.nullifiers.toFinset) (ofSet p.created.toFinset)
        inputs es ∧
      ∀ m ∈ es.map Event.move, m.Respects (identity : Lineage V V) := by
  obtain ⟨t⟩ := hp
  obtain ⟨inputs, -, hcert⟩ := TxFinalized.certified t
  exact ⟨inputs, _, hcert, t.replay.txSteps.respects⟩

/-- Applying a verified payload, grounded at an earlier state and free of collisions,
keeps every identity at one live state. -/
theorem singular_of_verified {G : Guard V} {p : Payload V} {h : StateHeader V} {a : Pod2.Array V}
    {old l : List V} {nullifiers : Finset V} (hp : p.Verified G) (hroot : p.stateRoot = h.hash)
    (hrep : Represents a old) (hcreated : h.createdRoot = ofArray a) (hold : old <+: l)
    (hfresh : ∀ x ∈ p.created, x ∉ l) (hunspent : ∀ n ∈ p.nullifiers, n ∉ nullifiers)
    (hs : (book l nullifiers).Singular (identity : Lineage V V)) :
    (book (l ++ p.created) (nullifiers ∪ p.nullifiers.toFinset)).Singular
      (identity : Lineage V V) := by
  obtain ⟨inputs, es, hcert, hresp⟩ := hp.certified
  have hc : ∀ x, x ∈ p.created ↔ x ∈ news es := by
    intro x
    have heq := ofSet_inj.mp hcert.created_eq
    rw [← List.mem_toFinset, heq, List.mem_toFinset]
  have hn : ∀ n, n ∈ p.nullifiers.toFinset ↔ ∃ x ∈ olds es, Nullify n x := by
    obtain ⟨s, heq, hs⟩ := hcert.nullifiers_eq
    rw [ofSet_inj] at heq
    rw [heq]
    exact hs
  have hin : {x | x ∈ inputs} ⊆ (book l nullifiers).created := by
    -- The inputs are entries of the created array that the header commits to.
    intro x hx
    obtain ⟨c, i, hslot, hi⟩ := hcert.grounded x hx
    rw [hroot] at hslot
    rw [StateHeader.created_of_hash hslot, hcreated] at hi
    obtain ⟨b, j, hb, rfl, hj⟩ := hi
    rw [ofArray_inj] at hb
    subst hb
    rw [hrep j] at hj
    exact hold.subset (List.mem_of_getElem? hj)
  have hall : (book l nullifiers).AllowsAll ∅ (es.map Event.move) := by
    have hseq := (Book.allowsAll_iff _ _ _).mpr hcert.sequential
    refine hseq.lift hin (fun x hx => hfresh x ((hc x).mpr hx)) ?_
    rintro x hx ⟨n, hmem, hnx⟩
    have hnp := (hn n).mpr ⟨x, hx, hnx⟩
    exact hunspent n (List.mem_toFinset.mp hnp) hmem
  have hrun := hs.run hall hresp
  rwa [book_run hc hn hcert.keyed] at hrun

/-- Every root the working state accepts for grounding is the root of a committed state. -/
def WorkingState.Grounds (w : WorkingState V) (log : StateLogDb V) : Prop :=
  ∀ root block, w.recentStateRoots.lookup root = some block →
    ∃ row ∈ log.slots, ∃ s, row.state = some s ∧ s.metadata.stateRoot = root

/-- The states that a call of `apply_payload` put in the created array. -/
def Attempt.created (a : Attempt V) : List V :=
  if a.rejection = none then a.payload.created else []

def Attempt.nullifiers (a : Attempt V) : List V :=
  if a.rejection = none then a.payload.nullifiers else []

/-- What one call saw and answered, when the created list and the nullifiers before it
are `l` and `nullifiers`. -/
structure Attempt.Sound (G : Guard V) (a : Attempt V) (l : List V) (nullifiers : Finset V) : Prop
    where
  created_eq : Represents a.before.created l
  nullifiers_eq : a.before.nullifiers = nullifiers
  verified : a.payload.Verified G
  fresh : a.rejection = none → ∀ x ∈ a.payload.created, x ∉ l
  unspent : a.rejection = none → ∀ n ∈ a.payload.nullifiers, n ∉ nullifiers

/-- The one specification of `apply_payload` from a sound working state. -/
theorem applyPayload_spec {G : Guard V} {w : WorkingState V} {log : StateLogDb V}
    {base l candidates : List V} {p : Payload V} {blockNumber : Nat}
    {r : Option String × WorkingState V} (hw : w.Inv base l) (hg : w.Grounds log)
    (hlog : log.Inv base) (hp : p.Verified G) (hcand : p.created ⊆ candidates)
    (h : applyPayload w p (log.createdIndices candidates) blockNumber = .ok r) :
    Attempt.Sound G ⟨w, p, r.1⟩ l w.nullifiers ∧
      r.2.Inv base (l ++ Attempt.created ⟨w, p, r.1⟩) ∧
      r.2.nullifiers = w.nullifiers ∪ (Attempt.nullifiers ⟨w, p, r.1⟩).toFinset ∧
      r.2.Grounds log := by
  -- A rejection leaves the state untouched, whatever its reason.
  have rejected : ∀ {reason : String}, r = (some reason, w) →
      Attempt.Sound G ⟨w, p, r.1⟩ l w.nullifiers ∧
      r.2.Inv base (l ++ Attempt.created ⟨w, p, r.1⟩) ∧
      r.2.nullifiers = w.nullifiers ∪ (Attempt.nullifiers ⟨w, p, r.1⟩).toFinset ∧
      r.2.Grounds log := by
    rintro reason rfl
    refine ⟨⟨hw.represents, rfl, hp, fun h => ?_, fun h => ?_⟩, ?_, ?_, hg⟩
    · cases h
    · cases h
    · simpa [Attempt.created] using hw
    · simp [Attempt.nullifiers]
  unfold applyPayload at h
  cases hroot : w.recentStateRoots.lookup p.stateRoot with
  | none =>
    simp only [hroot, Except.ok.injEq] at h
    exact rejected h.symm
  | some b =>
    simp only [hroot] at h
    by_cases hage : groundingAgedOut blockNumber b = true
    · simp only [hage, if_true, Except.ok.injEq] at h
      exact rejected h.symm
    simp only [hage] at h
    cases hcc : createdCollision w (log.createdIndices candidates) p with
    | some reason =>
      simp only [hcc] at h
      exact rejected (Except.ok.inj h).symm
    | none =>
      cases hnc : nullifierCollision w p with
      | some reason =>
        simp only [hcc, hnc] at h
        exact rejected (Except.ok.inj h).symm
      | none =>
        obtain ⟨hcnd, -, hcabs⟩ := firstCollision_eq_none.mp hcc
        obtain ⟨hnnd, -, hnabs⟩ := firstCollision_eq_none.mp hnc
        have hfresh : ∀ x ∈ p.created, x ∉ l := by
          intro x hx hxl
          have hyes := (alreadyCreated_iff hw.tally hlog.index (hcand hx)).mpr hxl
          rw [hcabs x hx] at hyes
          cases hyes
        have hunspent : ∀ n ∈ p.nullifiers, n ∉ w.nullifiers := by
          intro n hn
          simpa using hnabs n hn
        obtain ⟨w₁, h₁, hrep, hcount, hadded, hnull₁, hroots₁, -⟩ :=
          appendCreated_spec p.created hw.represents hw.count hw.extends_base hw.added
        obtain ⟨w₂, h₂, hnull₂, hcre₂, hcnt₂, hadd₂, hroots₂, -⟩ :=
          insertNullifiers_spec (w := w₁) hnnd (by rw [hnull₁]; exact hunspent)
        simp only [hcc, hnc, h₁, h₂, bind, Except.bind] at h
        obtain rfl := Except.ok.inj h
        obtain ⟨row, hrow, st, hst, hsroot⟩ := hg p.stateRoot b hroot
        obtain ⟨hhash, a, old, hrepa, hcroot, hold⟩ := hlog.past row hrow st hst
        have hsing := singular_of_verified hp (hsroot.symm.trans hhash) hrepa hcroot
          (hold.trans hw.extends_base) hfresh hunspent hw.singular
        refine ⟨⟨hw.represents, rfl, hp, fun _ => hfresh, fun _ => hunspent⟩, ?_, ?_, ?_⟩
        · refine ⟨?_, ?_, ?_, ?_, ?_, ?_⟩
          · simpa [Attempt.created, hcre₂] using hrep
          · simpa [Attempt.created, hcnt₂] using hcount
          · simp only [Attempt.created, if_true]
            exact List.nodup_append.mpr ⟨hw.nodup, hcnd, fun x hx y hy hxy =>
              hfresh y hy (hxy ▸ hx)⟩
          · exact hw.extends_base.trans (List.prefix_append _ _)
          · simpa [Attempt.created, hadd₂] using hadded
          · simpa [Attempt.created, hnull₂, hnull₁] using hsing
        · simp [Attempt.nullifiers, hnull₂, hnull₁]
        · intro root block hl
          rw [hroots₂, hroots₁] at hl
          exact hg root block hl

def createdBy (as : List (Attempt V)) : List V := as.flatMap Attempt.created

def nullifiersBy (as : List (Attempt V)) : List V := as.flatMap Attempt.nullifiers

/-- Calls made one after another, each from what the calls before it left. -/
def Attempts (G : Guard V) : List V → Finset V → List (Attempt V) → Prop
  | _, _, [] => True
  | l, ns, a :: as =>
    a.Sound G l ns ∧ Attempts G (l ++ a.created) (ns ∪ a.nullifiers.toFinset) as

theorem Attempts.append {G : Guard V} {l : List V} {ns : Finset V} {as bs : List (Attempt V)}
    (h : Attempts G l ns as)
    (h' : Attempts G (l ++ createdBy as) (ns ∪ (nullifiersBy as).toFinset) bs) :
    Attempts G l ns (as ++ bs) := by
  induction as generalizing l ns with
  | nil => simpa [createdBy, nullifiersBy] using h'
  | cons a as ih =>
    refine ⟨h.1, ih h.2 ?_⟩
    simpa [createdBy, nullifiersBy, List.append_assoc, Finset.union_assoc] using h'

/-- A step of the derivation: its calls are sound and the working state grows by them. -/
structure Advances (G : Guard V) (log : StateLogDb V) (base l : List V) (w w' : WorkingState V)
    (as : List (Attempt V)) : Prop where
  inv : w'.Inv base (l ++ createdBy as)
  nullifiers : w'.nullifiers = w.nullifiers ∪ (nullifiersBy as).toFinset
  grounds : w'.Grounds log
  attempts : Attempts G l w.nullifiers as

theorem Advances.refl {G : Guard V} {log : StateLogDb V} {base l : List V} {w : WorkingState V}
    (hw : w.Inv base l) (hg : w.Grounds log) : Advances G log base l w w [] :=
  ⟨by simpa [createdBy] using hw, by simp [nullifiersBy], hg, trivial⟩

theorem Advances.trans {G : Guard V} {log : StateLogDb V} {base l : List V}
    {w w₁ w₂ : WorkingState V} {as bs : List (Attempt V)} (h : Advances G log base l w w₁ as)
    (h' : Advances G log base (l ++ createdBy as) w₁ w₂ bs) :
    Advances G log base l w w₂ (as ++ bs) where
  inv := by simpa [createdBy, List.append_assoc] using h'.inv
  nullifiers := by
    rw [h'.nullifiers, h.nullifiers]
    simp [nullifiersBy, Finset.union_assoc]
  grounds := h'.grounds
  attempts := h.attempts.append (h.nullifiers ▸ h'.attempts)

omit [Values V] in
theorem bind_eq_ok {ε α β : Type} {x : Except ε α} {f : α → Except ε β} {r : β}
    (h : x >>= f = .ok r) : ∃ a, x = .ok a ∧ f a = .ok r := by
  cases x with
  | error e => cases h
  | ok a => exact ⟨a, rfl, h⟩

/-- The payloads that survived parsing. -/
def parsedPayloads (blobs : List (Option (Nat × Payload V))) : List (Payload V) :=
  blobs.flatMap fun b => b.elim [] fun (_, p) => [p]

theorem applyTxBlobs_spec {G : Guard V} {log : StateLogDb V} {base candidates : List V}
    {blockNumber : Nat} (hlog : log.Inv base) {blobs : List (Option (Nat × Payload V))}
    {statuses : List (BlobStatus V)} {l : List V} {w : WorkingState V}
    {r : WorkingState V × List (BlobStatus V) × List (Attempt V)}
    (hp : ∀ p ∈ parsedPayloads blobs, p.Verified G ∧ p.created ⊆ candidates)
    (hw : w.Inv base l) (hg : w.Grounds log)
    (h : applyTxBlobs (log.createdIndices candidates) blockNumber w blobs statuses = .ok r) :
    Advances G log base l w r.1 r.2.2 := by
  induction blobs generalizing statuses l w r with
  | nil =>
    cases statuses <;>
      · simp only [applyTxBlobs, Except.ok.injEq] at h
        subst h
        exact .refl hw hg
  | cons b blobs ih =>
    cases statuses with
    | nil =>
      cases b <;>
        · simp only [applyTxBlobs, Except.ok.injEq] at h
          subst h
          exact .refl hw hg
    | cons s statuses =>
      cases b with
      | none =>
        rw [applyTxBlobs] at h
        obtain ⟨⟨w', ss, as⟩, hrest, h⟩ := bind_eq_ok h
        cases h
        have htail := ih hp hw hg hrest
        exact htail
      | some ip =>
        obtain ⟨i, p⟩ := ip
        rw [applyTxBlobs] at h
        obtain ⟨⟨rejection, w₁⟩, hstep, h⟩ := bind_eq_ok h
        obtain ⟨⟨w', ss, as⟩, hrest, h⟩ := bind_eq_ok h
        cases h
        have hpp := hp p (by simp [parsedPayloads])
        obtain ⟨hsound, hinv, hnull, hgr⟩ := applyPayload_spec hw hg hlog hpp.1 hpp.2 hstep
        have hfirst : Advances G log base l w w₁ [⟨w, p, rejection⟩] :=
          ⟨by simpa [createdBy] using hinv, by simpa [nullifiersBy] using hnull, hgr,
            hsound, trivial⟩
        have htail := ih (fun q hq => hp q (by
          simp only [parsedPayloads, List.flatMap_cons, List.mem_append] at hq ⊢
          exact .inr hq)) hfirst.inv hgr hrest
        exact hfirst.trans htail

theorem applyTxs_spec {G : Guard V} {log : StateLogDb V} {base candidates : List V}
    {blockNumber : Nat} (hlog : log.Inv base) {txs : List (TargetTx V (Payload V))} {l : List V}
    {w : WorkingState V} {r : WorkingState V × List (TxStatus V) × List (Attempt V)}
    (hp : ∀ t ∈ txs, ∀ p ∈ parsedPayloads t.blobs, p.Verified G ∧ p.created ⊆ candidates)
    (hw : w.Inv base l) (hg : w.Grounds log)
    (h : applyTxs (log.createdIndices candidates) blockNumber w txs = .ok r) :
    Advances G log base l w r.1 r.2.2 := by
  induction txs generalizing l w r with
  | nil =>
    cases h
    exact .refl hw hg
  | cons t txs ih =>
    rw [applyTxs] at h
    obtain ⟨⟨w₁, ss, as⟩, hstep, h⟩ := bind_eq_ok h
    obtain ⟨⟨w₂, sts, bs⟩, hrest, h⟩ := bind_eq_ok h
    cases h
    have hfirst := applyTxBlobs_spec hlog (hp t List.mem_cons_self) hw hg hstep
    have htail := ih (fun t' ht' => hp t' (List.mem_cons_of_mem t ht')) hfirst.inv hfirst.grounds
      hrest
    exact hfirst.trans htail

/-- A parser that only lets verified payloads through. -/
def BlobParser.Sound (G : Guard V) (parser : BlobParser V) : Prop :=
  ∀ bytes p, parser bytes = .ok (some p) → p.Verified G

theorem parseTxBlobs_verified {G : Guard V} {parser : BlobParser V} (hparser : parser.Sound G)
    {blobs : List (Option (Nat × Bytes))} {statuses : List (BlobStatus V)} :
    ∀ p ∈ parsedPayloads (parseTxBlobs parser blobs statuses).1, p.Verified G := by
  induction blobs generalizing statuses with
  | nil => cases statuses <;> simp [parseTxBlobs, parsedPayloads]
  | cons b blobs ih =>
    cases statuses with
    | nil => cases b <;> simp [parseTxBlobs, parsedPayloads]
    | cons s statuses =>
      have ih := @ih statuses
      simp only [parsedPayloads] at ih
      cases b with
      | none => simpa [parseTxBlobs, parsedPayloads] using ih
      | some ib =>
        obtain ⟨i, bytes⟩ := ib
        cases hb : parser bytes with
        | error err => simpa [parseTxBlobs, parsedPayloads, hb] using ih
        | ok o =>
          cases o with
          | none => simpa [parseTxBlobs, parsedPayloads, hb] using ih
          | some q =>
            simp only [parseTxBlobs, hb, parsedPayloads, List.flatMap_cons, Option.elim_some,
              List.singleton_append, List.mem_cons, forall_eq_or_imp]
            exact ⟨hparser bytes q hb, ih⟩

/-- The invariant of the node: the head state commits to the list of every state created
so far and to the nullifier set, and together they hold one live state per identity. -/
structure Node.Inv (n : Node V) (l : List V) (nullifiers : Finset V) : Prop where
  log : n.stateLog.Inv l
  head : match n.stateLog.donStateAtHead with
    | none => l = [] ∧ nullifiers = ∅
    | some s => (∃ a, Represents a l ∧ s.roots.created = ofArray a) ∧
        s.roots.nullifiers = ofSet nullifiers ∧ s.metadata.createdCount = l.length
  nodup : l.Nodup
  singular : (book l nullifiers).Singular (identity : Lineage V V)

theorem Node.Inv.genesis : (Node.genesis : Node V).Inv [] ∅ where
  log := by
    refine ⟨?_, ?_⟩
    · simp [Node.genesis]
    · simp [Node.genesis]
  head := ⟨rfl, rfl⟩
  nodup := List.nodup_nil
  singular := by
    have h : book ([] : List V) ∅ = Book.empty := by simp [book, Book.empty]
    rw [h]
    exact Book.Singular.empty _

theorem startWorking_spec {n : Node V} {l : List V} {ns : Finset V} {min : Nat}
    {w : WorkingState V} (hn : n.Inv l ns)
    (h : startWorking n.containers n.stateLog.donStateAtHead
      (n.stateLog.recentStateRoots min) = .ok w) :
    w.Inv l l ∧ w.nullifiers = ns ∧ w.Grounds n.stateLog := by
  unfold startWorking at h
  obtain ⟨created, hcre, h⟩ := bind_eq_ok h
  obtain ⟨nullifiers, hnull, h⟩ := bind_eq_ok h
  obtain ⟨history, hhist, h⟩ := bind_eq_ok h
  obtain rfl := Except.ok.inj h
  have hcroot := ContainerDb.openArray_root hcre
  have hnroot := ContainerDb.openSet_root hnull
  have hhead := hn.head
  have hbase : Represents created l ∧ nullifiers = ns ∧
      (n.stateLog.donStateAtHead.elim 0 fun s => s.metadata.createdCount) = l.length := by
    cases hs : n.stateLog.donStateAtHead with
    | none =>
      rw [hs] at hhead hcroot hnroot
      obtain ⟨rfl, rfl⟩ := hhead
      have hc : created = ∅ := by
        rw [← ofArray_inj, hcroot, Values.ofArray_empty]
        rfl
      have hns : nullifiers = ∅ := by
        rw [← ofSet_inj, hnroot, Values.ofSet_empty]
        rfl
      exact ⟨hc ▸ Represents.nil, hns, rfl⟩
    | some s =>
      rw [hs] at hhead hcroot hnroot
      obtain ⟨⟨a, ha, hra⟩, hrn, hcount⟩ := hhead
      have hc : created = a := by rw [← ofArray_inj, hcroot]; exact hra
      have hns : nullifiers = ns := by rw [← ofSet_inj, hnroot]; exact hrn
      exact ⟨hc ▸ ha, hns, hcount⟩
  obtain ⟨hrep, rfl, hcount⟩ := hbase
  refine ⟨⟨hrep, hcount, hn.nodup, List.prefix_refl l, ?_, hn.singular⟩, rfl, ?_⟩
  · intro x i
    constructor
    · intro hmem
      cases hmem
    · rintro ⟨hi, hx⟩
      rw [List.getElem?_eq_none hi] at hx
      cases hx
  · intro root block hl
    obtain ⟨l₁, l₂, heq, -⟩ := List.lookup_eq_some_iff.mp hl
    dsimp only at heq
    have hmem : (root, block) ∈ n.stateLog.recentStateRoots min := by
      rw [← List.mem_reverse, heq]
      simp
    exact StateLogDb.mem_recentStateRoots hmem

theorem finishState_spec {base : Option (DonState V)} {block : ExecutionBlock}
    {w : WorkingState V} {r : DonState V × Pod2.Array V} (h : finishState base block w = .ok r) :
    r.1.roots.created = ofArray w.created ∧ r.1.roots.nullifiers = ofSet w.nullifiers ∧
      r.1.metadata.createdCount = w.createdCount ∧
      r.1.metadata.stateRoot = r.1.stateHeader.hash := by
  unfold finishState at h
  dsimp only at h
  split at h
  · cases h
  · obtain rfl := Except.ok.inj h
    exact ⟨rfl, rfl, rfl, rfl⟩

theorem deriveSlot_spec {G : Guard V} {parser : BlobParser V} {n : Node V} {l : List V}
    {ns : Finset V} {min : Nat} {block : ExecutionBlock} {txs : List (TargetTx V Bytes)}
    {r : DerivedSlot V × List (TxStatus V) × ContainerDb V × List (Attempt V)}
    (hparser : parser.Sound G) (hn : n.Inv l ns)
    (h : deriveSlot parser n n.stateLog.donStateAtHead (n.stateLog.recentStateRoots min) block txs
      = .ok r) :
    ∃ w w' : WorkingState V, w.nullifiers = ns ∧ Advances G n.stateLog l l w w' r.2.2.2 ∧
      r.1.createdAdded = w'.createdAdded ∧
      r.1.state.roots.created = ofArray w'.created ∧
      r.1.state.roots.nullifiers = ofSet w'.nullifiers ∧
      r.1.state.metadata.createdCount = w'.createdCount ∧
      r.1.state.metadata.stateRoot = r.1.state.stateHeader.hash := by
  unfold deriveSlot deriveSlotState at h
  obtain ⟨w, hstart, h⟩ := bind_eq_ok h
  obtain ⟨⟨w', statuses, attempts⟩, happly, h⟩ := bind_eq_ok h
  obtain ⟨⟨state, history⟩, hfinish, h⟩ := bind_eq_ok h
  obtain rfl := Except.ok.inj h
  obtain ⟨hw, hnull, hg⟩ := startWorking_spec hn hstart
  refine ⟨w, w', hnull, ?_, rfl, finishState_spec hfinish⟩
  refine applyTxs_spec hn.log ?_ hw hg happly
  intro t ht p hp
  constructor
  · obtain ⟨t₀, -, rfl⟩ := List.mem_map.mp ht
    exact parseTxBlobs_verified hparser p hp
  · intro x hx
    obtain ⟨b, hb, hpb⟩ := List.mem_flatMap.mp hp
    refine List.mem_flatMap.mpr ⟨t, ht, List.mem_flatMap.mpr ⟨b, hb, ?_⟩⟩
    cases b with
    | none => cases hpb
    | some ip =>
      obtain rfl := List.mem_singleton.mp hpb
      exact hx

theorem commitSlot_spec {log log' : StateLogDb V} {p : ProcessedSlot V}
    (h : commitSlot log p = .ok log') :
    log'.slots = ⟨p.slot, p.derived.map DerivedSlot.state⟩ :: log.slots ∧
    log'.createdIndex = (p.derived.elim [] fun d => d.createdAdded.map fun (c, i) =>
      (⟨c, i, p.slot⟩ : CreatedRow V)) ++ log.createdIndex ∧
    log'.txStatuses = statusRows p.slot p.txStatuses ++ log.txStatuses := by
  unfold commitSlot at h
  dsimp only at h
  split at h
  · cases h
  split at h
  · cases h
  split at h
  · cases h
  · obtain rfl := Except.ok.inj h
    exact ⟨rfl, rfl, rfl⟩

/-- The rows of a slot continue the index where the committed list ends. -/
theorem StateLogDb.Indexes.commit {log log' : StateLogDb V} {l l' : List V} {w : WorkingState V}
    {d : DerivedSlot V} {slot : Nat} {statuses : List (TxStatus V)} (hlog : log.Indexes l)
    (hw : w.Tally l l') (hadded : d.createdAdded = w.createdAdded)
    (h : commitSlot log ⟨slot, some d, statuses⟩ = .ok log') : log'.Indexes l' := by
  obtain ⟨-, hindex, -⟩ := commitSlot_spec h
  intro x i
  have hold := hlog x i
  have hnew := hw.added x i
  rw [hindex]
  simp only [Option.elim_some, List.mem_append, or_and_right, exists_or]
  rw [hold]
  have hadd : (∃ r : CreatedRow V,
      r ∈ d.createdAdded.map (fun (c, i) => (⟨c, i, slot⟩ : CreatedRow V)) ∧
        r.commitment = x ∧ r.arrayIndex = i) ↔ (x, i) ∈ w.createdAdded := by
    rw [hadded]
    constructor
    · rintro ⟨r, hr, rfl, rfl⟩
      obtain ⟨⟨c, j⟩, hmem, rfl⟩ := List.mem_map.mp hr
      exact hmem
    · intro hmem
      exact ⟨⟨x, i, slot⟩, List.mem_map.mpr ⟨(x, i), hmem, rfl⟩, rfl, rfl⟩
  rw [hadd, hnew]
  by_cases hi : i < l.length
  · rw [getElem?_of_initial hw.extends_base hi]
    simp [Nat.not_le_of_lt hi]
  · rw [List.getElem?_eq_none (Nat.le_of_not_lt hi)]
    simp [Nat.le_of_not_lt hi]

/-- A slot without an execution block changes nothing but the slot table. -/
theorem Node.Inv.skip {n : Node V} {l : List V} {ns : Finset V} {log' : StateLogDb V} {slot : Nat}
    (hn : n.Inv l ns) (h : commitSlot n.stateLog ⟨slot, none, []⟩ = .ok log') :
    Node.Inv ⟨n.containers, log'⟩ l ns := by
  obtain ⟨hslots, hindex, -⟩ := commitSlot_spec h
  have hhead : log'.donStateAtHead = n.stateLog.donStateAtHead := by
    rw [StateLogDb.donStateAtHead, hslots]
    rfl
  refine ⟨⟨?_, ?_⟩, ?_, hn.nodup, hn.singular⟩
  · rw [hindex]
    exact hn.log.index
  · rw [hslots]
    intro row hrow s hs
    rcases List.mem_cons.mp hrow with rfl | hrow
    · cases hs
    · exact hn.log.past row hrow s hs
  · rw [show (⟨n.containers, log'⟩ : Node V).stateLog.donStateAtHead = _ from hhead]
    exact hn.head

/-- A slot with an execution block commits what its derivation advanced to. -/
theorem Node.Inv.commit {G : Guard V} {n : Node V} {l : List V} {ns : Finset V}
    {w w' : WorkingState V} {as : List (Attempt V)} {d : DerivedSlot V} {log' : StateLogDb V}
    {db : ContainerDb V} {slot : Nat} {statuses : List (TxStatus V)} (hn : n.Inv l ns)
    (hnull : w.nullifiers = ns) (hadv : Advances G n.stateLog l l w w' as)
    (hadded : d.createdAdded = w'.createdAdded)
    (hcreated : d.state.roots.created = ofArray w'.created)
    (hnullifiers : d.state.roots.nullifiers = ofSet w'.nullifiers)
    (hcount : d.state.metadata.createdCount = w'.createdCount)
    (hroot : d.state.metadata.stateRoot = d.state.stateHeader.hash)
    (h : commitSlot n.stateLog ⟨slot, some d, statuses⟩ = .ok log') :
    Node.Inv ⟨db, log'⟩ (l ++ createdBy as) (ns ∪ (nullifiersBy as).toFinset) := by
  obtain ⟨hslots, -, -⟩ := commitSlot_spec h
  have hns : w'.nullifiers = ns ∪ (nullifiersBy as).toFinset := by rw [hadv.nullifiers, hnull]
  refine ⟨⟨?_, ?_⟩, ?_, hadv.inv.nodup, ?_⟩
  · exact StateLogDb.Indexes.commit hn.log.index hadv.inv.tally hadded h
  · intro row hrow s hs
    rw [hslots] at hrow
    rcases List.mem_cons.mp hrow with rfl | hrow
    · simp only [Option.map_some, Option.some.injEq] at hs
      subst hs
      exact ⟨hroot, w'.created, _, hadv.inv.represents, hcreated, List.prefix_refl _⟩
    · obtain ⟨hhash, a, old, ha, hra, hpre⟩ := hn.log.past row hrow s hs
      exact ⟨hhash, a, old, ha, hra, hpre.trans (List.prefix_append _ _)⟩
  · have hhead : log'.donStateAtHead = some d.state := by
      rw [StateLogDb.donStateAtHead, hslots]
      rfl
    rw [show (⟨db, log'⟩ : Node V).stateLog.donStateAtHead = _ from hhead]
    exact ⟨⟨w'.created, hadv.inv.represents, hcreated⟩, by rw [hnullifiers, hns],
      by rw [hcount, hadv.inv.count]⟩
  · rw [← hns]
    exact hadv.inv.singular

theorem Node.commitSlotAt_spec {G : Guard V} {parser : BlobParser V} {number : Nat}
    {n n' : Node V} {slot : Slot} {as : List (Attempt V)} {l : List V} {ns : Finset V}
    (hparser : parser.Sound G) (hn : n.Inv l ns)
    (h : n.commitSlotAt parser number slot = .ok (n', as)) :
    n'.Inv (l ++ createdBy as) (ns ∪ (nullifiersBy as).toFinset) ∧ Attempts G l ns as := by
  unfold commitSlotAt at h
  obtain ⟨⟨processed, db, attempts⟩, hderive, h⟩ := bind_eq_ok h
  obtain ⟨log, hcommit, h⟩ := bind_eq_ok h
  cases h
  unfold deriveFromContext at hderive
  cases hpay : slot.payload with
  | none =>
    simp only [fetchSlotContext, hpay] at hderive
    cases hderive
    refine ⟨?_, trivial⟩
    simpa [createdBy, nullifiersBy] using hn.skip hcommit
  | some block =>
    simp only [fetchSlotContext, hpay] at hderive
    obtain ⟨⟨derived, statuses, db', attempts'⟩, hslot, hderive⟩ := bind_eq_ok hderive
    cases hderive
    obtain ⟨w, w', hnull, hadv, hadded, hcre, hnul, hcount, hroot⟩ :=
      deriveSlot_spec hparser hn hslot
    refine ⟨hn.commit hnull hadv hadded hcre hnul hcount hroot hcommit, ?_⟩
    rw [← hnull]
    exact hadv.attempts

theorem Node.processSlot_spec {G : Guard V} {parser : BlobParser V} {initStartSlot : Nat}
    {n n' : Node V} {slot : Slot} {as : List (Attempt V)} {l : List V} {ns : Finset V}
    (hparser : parser.Sound G) (hn : n.Inv l ns)
    (h : n.processSlot parser initStartSlot slot = .ok (n', as)) :
    n'.Inv (l ++ createdBy as) (ns ∪ (nullifiersBy as).toFinset) ∧ Attempts G l ns as :=
  commitSlotAt_spec hparser hn h

/-- The invariant holds along every run, and every call of a run is sound. -/
theorem Node.run_spec {G : Guard V} {parser : BlobParser V} {initStartSlot : Nat}
    (hparser : parser.Sound G) {slots : List Slot} {n n' : Node V}
    {as : List (Attempt V)} {l : List V} {ns : Finset V} (hn : n.Inv l ns)
    (h : n.run parser initStartSlot slots = .ok (n', as)) :
    n'.Inv (l ++ createdBy as) (ns ∪ (nullifiersBy as).toFinset) ∧ Attempts G l ns as := by
  induction slots generalizing n as l ns with
  | nil =>
    cases h
    refine ⟨?_, trivial⟩
    simpa [createdBy, nullifiersBy] using hn
  | cons slot slots ih =>
    rw [run] at h
    obtain ⟨⟨n₁, as₁⟩, hstep, h⟩ := bind_eq_ok h
    obtain ⟨⟨n₂, as₂⟩, hrest, h⟩ := bind_eq_ok h
    cases h
    obtain ⟨hinv, hatt⟩ := processSlot_spec hparser hn hstep
    obtain ⟨hinv', hatt'⟩ := ih hinv hrest
    refine ⟨?_, hatt.append hatt'⟩
    simpa [createdBy, nullifiersBy, List.append_assoc, Finset.union_assoc] using hinv'

/-- The containers that the head state of a node commits to. -/
def Node.Commits (n : Node V) (created : Pod2.Array V) (nullifiers : Finset V) : Prop :=
  let roots := n.stateLog.donStateAtHead.elim StateRoots.empty DonState.roots
  roots.created = ofArray created ∧ roots.nullifiers = ofSet nullifiers

theorem Node.Inv.commits {n : Node V} {l : List V} {ns : Finset V} (h : n.Inv l ns) :
    ∃ a, Represents a l ∧ n.Commits a ns := by
  have hhead := h.head
  unfold Commits
  cases hs : n.stateLog.donStateAtHead with
  | none =>
    rw [hs] at hhead
    obtain ⟨rfl, rfl⟩ := hhead
    exact ⟨∅, Represents.nil, Values.ofArray_empty.symm, Values.ofSet_empty.symm⟩
  | some s =>
    rw [hs] at hhead
    obtain ⟨⟨a, ha, hra⟩, hrn, -⟩ := hhead
    exact ⟨a, ha, hra, hrn⟩

/-- Object uniqueness, for the containers of a state and the calls that led to it. -/
structure UniqueObjects (created : Pod2.Array V) (nullifiers : Finset V) (as : List (Attempt V)) :
    Prop where
  single : ∀ id i j x y, created.lookup i = some x → created.lookup j = some y →
    Entry x "stable_identifier" id → Entry y "stable_identifier" id →
    (¬ ∃ nf ∈ nullifiers, Nullify nf x) → (¬ ∃ nf ∈ nullifiers, Nullify nf y) → i = j ∧ x = y
  nullified_created : ∀ nf ∈ nullifiers, ∀ x, Nullify nf x → ∃ i, created.lookup i = some x
  born_once : ∀ initial new, DictInsert initial (ofStr "stable_identifier") initial new →
    ∀ pre a mid b post, as = pre ++ a :: (mid ++ b :: post) →
      a.rejection = none → new ∈ a.payload.created → b.rejection = none → new ∉ b.payload.created

/-! A history of two slots. The blob of the first slot is grounded at a root that no slot
has, and the blob of the second at the root of the first. -/

def sampleBlock (n : Nat) : ExecutionBlock := ⟨n, n, []⟩

def sampleSlot (n : Nat) : Slot := ⟨some (sampleBlock n), [⟨n, [.ok (0, [n])]⟩]⟩

def sampleParser (p q : Payload V) : BlobParser V := fun bytes =>
  if bytes = [0] then .ok (some p) else if bytes = [1] then .ok (some q) else .ok none

def sampleHeader (n : Nat) : StateHeader V := stateHeader (sampleBlock n) (ofArray ∅) (ofSet ∅) empty

def sampleHistory : Pod2.Array V := (∅ : Pod2.Array V).insert 0 (sampleHeader 0).hash

def sampleState : DonState V :=
  ⟨⟨ofArray ∅, ofSet ∅, empty, ofArray sampleHistory⟩, ⟨(sampleHeader 0).hash, sampleBlock 0, 0, 0, 1⟩⟩

def missingRoot : String := "Blob proof state_root not found in recent state root history"

/-- The node after the first slot, with the statuses of its blobs. -/
def sampleNode (rows : List (TxStatusRow V)) : Node V :=
  ⟨⟨[∅, sampleHistory], [∅]⟩, ⟨[⟨1, some sampleState⟩], [], rows⟩⟩

def rejectedRow (t : V) : TxStatusRow V := ⟨1, 0, 0, some t, some (capError missingRoot)⟩

def sampleWorking : WorkingState V := ⟨0, 0, ∅, ∅, sampleHistory, [((sampleHeader 0).hash, 0)], []⟩

/-- A mining payload for the object `m`, grounded at the header `h`. -/
def minedPayload (h : StateHeader V) (m : Dictionary V) : Payload V :=
  ⟨[], ofDict (scopeDict (ofSet {stamped m}) (ofSet ∅) empty empty), h.hash, [], [stamped m]⟩

def sampleObject : Dictionary V := (∅ : Dictionary V).insert "type" (ofStr "Stone")

/-- Two payloads for one transaction, grounded at a root from elsewhere and at the root of
the first slot. -/
def staleMine : Payload V := minedPayload (sampleHeader 7) sampleObject

def freshMine : Payload V := minedPayload (sampleHeader 0) sampleObject

theorem minedPayload_verified (h : StateHeader V) :
    (minedPayload h sampleObject).Verified fun _ _ _ _ _ => True := by
  have hm : "stable_identifier" ∉ (sampleObject : Dictionary V) := by
    simp [sampleObject, Finmap.notMem_empty]
  have htype : (sampleObject : Dictionary V).lookup "type" = some (ofStr "Stone") := by
    simp [sampleObject]
  have ht := TxFinalized.mine (fun _ _ _ _ _ => True) h.array h.lookup_created hm htype trivial
  refine ⟨?_⟩
  simpa [Payload.finalizedStatement, minedPayload, StateHeader.hash] using ht

theorem sampleParser_sound {G : Guard V} {p q : Payload V} (hp : p.Verified G)
    (hq : q.Verified G) : (sampleParser p q).Sound G := by
  intro bytes r hr
  unfold sampleParser at hr
  split at hr
  · cases hr
    exact hp
  · split at hr
    · cases hr
      exact hq
    · cases hr

theorem mineParser_sound :
    (sampleParser (staleMine : Payload V) freshMine).Sound fun _ _ _ _ _ => True :=
  sampleParser_sound (minedPayload_verified _) (minedPayload_verified _)

theorem sample_first (p q : Payload V) :
    ∃ a, Node.genesis.processSlot (sampleParser p q) 1 (sampleSlot 0) =
      .ok (sampleNode [rejectedRow p.txFinal], [a]) ∧ a.payload = p ∧
        a.rejection = some missingRoot := by
  simp [Node.processSlot, deriveFromContext, deriveSlot, deriveSlotState, startWorking,
    Node.genesis, Node.nextSlot, sampleBlock, parseBlobs, parseTxBlobs, sampleParser, sampleSlot,
    fetchSlotContext, fetchTargetBlobs, Except.toOption,
    StateLogDb.donStateAtHead, StateLogDb.recentStateRoots, ContainerDb.openArray,
    ContainerDb.openSet, StateRoots.empty, bind, Except.bind, applyTxs, applyTxBlobs, applyPayload,
    finishState, commitSlot, statusRows, StateLogDb.createdIndices, StateLogDb.lastProcessedSlot,
    sampleNode, sampleState, sampleHeader, sampleHistory, missingRoot, rejectedRow]

theorem sample_start (rows : List (TxStatusRow V)) :
    startWorking (sampleNode rows).containers (some sampleState) [((sampleHeader 0).hash, 0)] =
      .ok sampleWorking := by
  have hopen : (sampleNode rows).containers.openArray (ofArray sampleHistory) =
      .ok sampleHistory := ContainerDb.openArray_mem (by simp [sampleNode])
  simp [startWorking, sampleState, hopen, ContainerDb.openArray_empty, ContainerDb.openSet_empty,
    sampleWorking, bind, Except.bind]

/-- The working state after the payload of the second slot. -/
def sampleApplied (o : V) : WorkingState V :=
  { sampleWorking with
    created := (∅ : Pod2.Array V).insert 0 o, createdAdded := [(o, 0)], createdCount := 1 }

theorem sample_apply {q : Payload V} {o : V} (hq : q.stateRoot = (sampleHeader 0).hash)
    (hc : q.created = [o]) (hn : q.nullifiers = []) :
    applyPayload sampleWorking q [] 1 = .ok (none, sampleApplied o) := by
  have hage : groundingAgedOut 1 0 = false := by decide
  simp [applyPayload, sampleWorking, sampleApplied, hq, hc, hn, hage, createdCollision,
    nullifierCollision, firstCollision, alreadyCreated, appendCreated, insertNullifiers, bind,
    Except.bind]

theorem sample_applyTxs {p q : Payload V} {o : V} (hq : q.stateRoot = (sampleHeader 0).hash)
    (hc : q.created = [o]) (hn : q.nullifiers = []) :
    applyTxs [] 1 sampleWorking (parseBlobs (sampleParser p q) (fetchTargetBlobs [⟨1, [.ok (0, [1])]⟩])) =
      .ok (sampleApplied o, [⟨1, [⟨some q.txFinal, none⟩]⟩], [⟨sampleWorking, q, none⟩]) := by
  simp [parseBlobs, parseTxBlobs, fetchTargetBlobs, Except.toOption, sampleParser, applyTxs, applyTxBlobs, bind, Except.bind,
    sample_apply hq hc hn]

theorem sample_roots (rows : List (TxStatusRow V)) :
    (sampleNode rows).stateLog.recentStateRoots 0 = [((sampleHeader 0).hash, 0)] := by
  simp [StateLogDb.recentStateRoots, sampleNode, sampleState, sampleBlock]

theorem sample_finish (o : V) :
    ∃ r, finishState (some sampleState) (sampleBlock 1) (sampleApplied o) = .ok r := by
  have hfree : (sampleHistory : Pod2.Array V).lookup 1 = none := by simp [sampleHistory]
  simp [finishState, sampleApplied, sampleWorking, sampleState, hfree]

omit [Values V] in
theorem minBlock_zero {s : DonState V} (h : s.metadata.block.number = 0) (age : Nat) :
    ((some s).elim 0 fun s => s.metadata.block.number - age) = 0 := by
  rw [Option.elim_some, h, Nat.zero_sub]

/-- Any second slot whose blobs lead to `sampleApplied` is committed. -/
theorem sample_second {parser : BlobParser V} (rows : List (TxStatusRow V))
    {txs : List TargetBlobTx} {o : V} {sts : List (TxStatus V)} {as : List (Attempt V)}
    (happly : applyTxs [] 1 sampleWorking (parseBlobs parser (fetchTargetBlobs txs)) =
      .ok (sampleApplied o, sts, as))
    (hkeys : ((statusRows 2 sts ++ rows).map fun r => (r.txHash, r.txBlobIndex)).Nodup) :
    ∃ n, (sampleNode rows).processSlot parser 1 ⟨some (sampleBlock 1), txs⟩ = .ok (n, as) ∧
      n.stateLog.txStatuses = statusRows 2 sts ++ rows := by
  obtain ⟨r, hr⟩ := sample_finish o
  have hhead : (sampleNode rows).stateLog.donStateAtHead = some sampleState := rfl
  have hlog : (sampleNode rows).stateLog.createdIndex = [] := rfl
  have hslots : (sampleNode rows).stateLog.slots.map SlotRow.slot = [1] := rfl
  have hlast : (sampleNode rows).stateLog.lastProcessedSlot = some 1 := rfl
  have hstat : (sampleNode rows).stateLog.txStatuses = rows := rfl
  have hblock : (sampleBlock 1).number = 1 := rfl
  have hadded : (sampleApplied o).createdAdded = [(o, 0)] := rfl
  have hmin := minBlock_zero (show (sampleState : DonState V).metadata.block.number = 0 from rfl)
  have hder : deriveFromContext parser (sampleNode rows) 2
      (fetchSlotContext ⟨some (sampleBlock 1), txs⟩) =
      .ok (⟨2, some ⟨r.1, [(o, 0)]⟩, sts⟩,
        ⟨(sampleApplied o).created :: r.2 :: (sampleNode rows).containers.arrays,
          (sampleApplied o).nullifiers :: (sampleNode rows).containers.sets⟩, as) := by
    simp only [deriveFromContext, fetchSlotContext, Option.elim_some, hhead, hmin, sample_roots,
      deriveSlot, deriveSlotState, sample_start, bind, Except.bind, StateLogDb.createdIndices, hlog,
      List.filter_nil, List.map_nil, hblock, happly, hr, hadded]
  rw [List.map_append] at hkeys
  simp [Node.processSlot, Node.nextSlot, hlast, hder, commitSlot, hslots, hlog, hstat, hkeys, bind,
    Except.bind]

theorem sample_run {p q : Payload V} {o : V} (hq : q.stateRoot = (sampleHeader 0).hash)
    (hc : q.created = [o]) (hn : q.nullifiers = []) :
    ∃ n a, Node.genesis.processSlot (sampleParser p q) 1 (sampleSlot 0) =
        .ok (sampleNode [rejectedRow p.txFinal], [a]) ∧
      a.payload = p ∧ a.rejection = some missingRoot ∧
      (sampleNode [rejectedRow p.txFinal]).processSlot (sampleParser p q) 1 (sampleSlot 1) =
        .ok (n, [⟨sampleWorking, q, none⟩]) ∧
      n.stateLog.txStatuses = [⟨2, 1, 0, some q.txFinal, none⟩, rejectedRow p.txFinal] := by
  obtain ⟨a, hfirst, hap, har⟩ := sample_first p q
  obtain ⟨n, hsecond, hrows⟩ := sample_second [rejectedRow p.txFinal]
    (sample_applyTxs (p := p) hq hc hn) (by simp [statusRows, rejectedRow])
  exact ⟨n, a, hfirst, hap, har, hsecond, by simpa [statusRows] using hrows⟩

/-- Object uniqueness over whole histories: in every state reached from genesis, at most
one state of each stable identifier is created and not nullified, every nullified state
was created, and a birth state is created by at most one applied payload. -/
theorem Node.object_uniqueness {G : Guard V} {parser : BlobParser V} {initStartSlot : Nat}
    {slots : List Slot} {n : Node V} {as : List (Attempt V)}
    (hparser : parser.Sound G)
    (hrun : Node.genesis.run parser initStartSlot slots = .ok (n, as)) :
    ∃ (created : Pod2.Array V) (nullifiers : Finset V), n.Commits created nullifiers ∧
      UniqueObjects created nullifiers as := by
  obtain ⟨hinv, -⟩ := Node.run_spec hparser Node.Inv.genesis hrun
  simp only [List.nil_append, Finset.empty_union] at hinv
  obtain ⟨a, hrep, hcommits⟩ := hinv.commits
  refine ⟨a, _, hcommits, ?_, ?_, ?_⟩
  · intro id i j x y hx hy hxid hyid hxs hys
    rw [hrep] at hx hy
    obtain rfl : x = y := hinv.singular.single id x y (List.mem_of_getElem? hx) hxs
      (List.mem_of_getElem? hy) hys hxid hyid
    obtain ⟨hi, hxi⟩ := List.getElem?_eq_some_iff.mp hx
    obtain ⟨hj, hxj⟩ := List.getElem?_eq_some_iff.mp hy
    exact ⟨(hinv.nodup.getElem_inj_iff).mp (hxi.trans hxj.symm), rfl⟩
  · intro nf hnf x hx
    obtain ⟨i, hi⟩ := List.getElem?_of_mem (hinv.singular.spent_created ⟨nf, hnf, hx⟩)
    exact ⟨i, (hrep i).trans hi⟩
  · intro initial new _ pre p mid q post heq hp hpn hq hqn
    have hnd := hinv.nodup
    rw [heq] at hnd
    simp only [createdBy, List.flatMap_append, List.flatMap_cons, Attempt.created, hp, hq,
      if_true] at hnd
    have htail := (List.nodup_append.mp hnd).2.1
    exact (List.nodup_append.mp htail).2.2 new hpn new (by simp [hqn]) rfl

theorem Node.object_uniqueness_two_slots :
    ∃ (n : Node Term) (as : List (Attempt Term)) (created : Pod2.Array Term)
      (nullifiers : Finset Term),
      Node.genesis.run (sampleParser staleMine freshMine) 1 [sampleSlot 0, sampleSlot 1] =
        .ok (n, as) ∧
      as.map Attempt.rejection = [some missingRoot, none] ∧
      n.Commits created nullifiers ∧ UniqueObjects created nullifiers as := by
  obtain ⟨n, a, hfirst, -, ha, hsecond, -⟩ :=
    sample_run (p := (staleMine : Payload Term)) (q := freshMine) rfl rfl rfl
  have hrun : Node.genesis.run (sampleParser staleMine freshMine) 1 [sampleSlot 0, sampleSlot 1] =
      .ok (n, [a, ⟨sampleWorking, freshMine, none⟩]) := by
    simp [Node.run, hfirst, hsecond, bind, Except.bind]
  obtain ⟨created, nullifiers, hcommits, hunique⟩ :=
    Node.object_uniqueness mineParser_sound hrun
  exact ⟨n, _, created, nullifiers, hrun, by simp [ha], hcommits, hunique⟩

end DigitalObjects.Synchronizer
