import DigitalObjects.Txlib.Replay
set_option autoImplicit false

/-!
`TxFinalized`, the public entry point of txlib, and what it certifies. The replay
of a transaction is compared with a flat run of its events over two sets.
-/

namespace DigitalObjects.Txlib

open Pod2 Lib

variable {V : Type} [Values V]

/-- The literal dictionary that pins the schema of a transaction, without its inputs. -/
def scopeDict (created nullifiers chainStart chainEnd : V) : Dictionary V :=
  ((((∅ : Dictionary V).insert "chain_end" chainEnd).insert "chain_start" chainStart).insert
    "nullifiers" nullifiers).insert "created" created

/-- Build a replay tx dict (the event chain is separate). -/
def buildTx (inputs created nullifiers : Finset V) (chainStart chainEnd : V) : Dictionary V :=
  (scopeDict (ofSet created) (ofSet nullifiers) chainStart chainEnd).insert "inputs" (ofSet inputs)

omit [Values V] in
theorem lookup_scopeDict (c n s e : V) (k : String) :
    (scopeDict c n s e).lookup k =
      if k = "created" then some c else if k = "nullifiers" then some n
      else if k = "chain_start" then some s else if k = "chain_end" then some e else none := by
  simp only [scopeDict, lookup_insert_ite, Finmap.lookup_empty]

theorem lookup_buildTx (i c n : Finset V) (s e : V) (k : String) :
    (buildTx i c n s e).lookup k =
      if k = "inputs" then some (ofSet i) else (scopeDict (ofSet c) (ofSet n) s e).lookup k := by
  rw [buildTx, lookup_insert_ite]

@[simp] theorem buildTx_insert_created (i c n c' : Finset V) (s e : V) :
    (buildTx i c n s e).insert "created" (ofSet c') = buildTx i c' n s e := by
  apply Finmap.ext_lookup
  intro k
  rw [lookup_insert_ite, lookup_buildTx, lookup_buildTx, lookup_scopeDict, lookup_scopeDict]
  by_cases h : k = "created" <;> simp [h]

@[simp] theorem buildTx_insert_nullifiers (i c n n' : Finset V) (s e : V) :
    (buildTx i c n s e).insert "nullifiers" (ofSet n') = buildTx i c n' s e := by
  apply Finmap.ext_lookup
  intro k
  rw [lookup_insert_ite, lookup_buildTx, lookup_buildTx, lookup_scopeDict, lookup_scopeDict]
  by_cases h : k = "nullifiers" <;> simp [h]

@[simp] theorem buildTx_insert_chainStart (i c n : Finset V) (s e s' : V) :
    (buildTx i c n s e).insert "chain_start" s' = buildTx i c n s' e := by
  apply Finmap.ext_lookup
  intro k
  rw [lookup_insert_ite, lookup_buildTx, lookup_buildTx, lookup_scopeDict, lookup_scopeDict]
  by_cases h : k = "chain_start" <;> simp [h]

@[simp] theorem buildTx_insert_chainEnd (i c n : Finset V) (s e e' : V) :
    (buildTx i c n s e).insert "chain_end" e' = buildTx i c n s e' := by
  apply Finmap.ext_lookup
  intro k
  rw [lookup_insert_ite, lookup_buildTx, lookup_buildTx, lookup_scopeDict, lookup_scopeDict]
  by_cases h : k = "chain_end" <;> simp [h]

@[simp] theorem buildTx_erase_inputs (i c n : Finset V) (s e : V) :
    (buildTx i c n s e).erase "inputs" = scopeDict (ofSet c) (ofSet n) s e := by
  apply Finmap.ext_lookup
  intro k
  rw [lookup_erase_ite, lookup_buildTx, lookup_scopeDict]
  by_cases h : k = "inputs" <;> simp [h]

theorem buildTx_mem (i c n : Finset V) (s e : V) {k : String}
    (hk : k ∈ ["inputs", "created", "nullifiers", "chain_start", "chain_end"]) :
    k ∈ buildTx i c n s e := by
  simp only [List.mem_cons, List.not_mem_nil, or_false] at hk
  rw [← Finmap.lookup_isSome, lookup_buildTx, lookup_scopeDict]
  rcases hk with rfl | rfl | rfl | rfl | rfl <;> simp

/-- The two sets a transaction grows. -/
structure TxSets (V : Type) where
  created : Finset V
  nullifiers : Finset V

/-- The replay dictionary of the sets, in the scope of an action. -/
def TxSets.tx (inputs : Finset V) (s : TxSets V) (chainStart chainEnd : V) : V :=
  ofDict (buildTx inputs s.created s.nullifiers chainStart chainEnd)

/-- What one event asks of the sets and does to them. -/
inductive Effect (inputs : Finset V) : Event V → TxSets V → TxSets V → Prop
  | insert {s : TxSets V} {new : V} (fresh : new ∉ s.created) :
      Effect inputs (.insert new) s ⟨insert new s.created, s.nullifiers⟩
  | mutate {s : TxSets V} {old new nullifier : V} (source : old ∈ inputs ∨ old ∈ s.created)
      (nullify : Nullify nullifier old) (unspent : nullifier ∉ s.nullifiers)
      (fresh : new ∉ s.created) :
      Effect inputs (.mutate old new) s
        ⟨insert new s.created, insert nullifier s.nullifiers⟩
  | delete {s : TxSets V} {old nullifier : V} (source : old ∈ inputs ∨ old ∈ s.created)
      (nullify : Nullify nullifier old) (unspent : nullifier ∉ s.nullifiers) :
      Effect inputs (.delete old) s ⟨s.created, insert nullifier s.nullifiers⟩

/-- A flat left-to-right run of events. -/
def Effects (inputs : Finset V) : List (Event V) → TxSets V → TxSets V → Prop
  | [], s, s' => s' = s
  | e :: es, s, s' => ∃ mid, Effect inputs e s mid ∧ Effects inputs es mid s'

theorem Effects.append {inputs : Finset V} {es fs : List (Event V)} {s mid s' : TxSets V}
    (h : Effects inputs es s mid) (h' : Effects inputs fs mid s') :
    Effects inputs (es ++ fs) s s' := by
  induction es generalizing s with
  | nil =>
    cases h
    exact h'
  | cons e es ih =>
    obtain ⟨next, hstep, hrest⟩ := h
    exact ⟨next, hstep, ih hrest⟩

theorem Effects.single {inputs : Finset V} {e : Event V} {s s' : TxSets V}
    (h : Effect inputs e s s') : Effects inputs [e] s s' := ⟨s', h, rfl⟩

section Replay

variable {G : Guard V} {stateHeader : V} {inputs : Finset V} {s : TxSets V} {cs ce : V}

theorem TxSets.entry_created {v : V} (h : Entry (s.tx inputs cs ce) "created" v) :
    v = ofSet s.created := by
  simpa [tx, lookup_buildTx, lookup_scopeDict, eq_comm] using h

theorem TxSets.entry_nullifiers {v : V} (h : Entry (s.tx inputs cs ce) "nullifiers" v) :
    v = ofSet s.nullifiers := by
  simpa [tx, lookup_buildTx, lookup_scopeDict, eq_comm] using h

theorem TxSets.update_created {c : Finset V} {a : V}
    (h : DictUpdate (s.tx inputs cs ce) (ofStr "created") (ofSet c) a) :
    a = TxSets.tx inputs ⟨c, s.nullifiers⟩ cs ce := by
  rw [tx, dictUpdate_ofDict, buildTx_insert_created] at h
  exact h.2

theorem TxSets.update_nullifiers {n : Finset V} {a : V}
    (h : DictUpdate (s.tx inputs cs ce) (ofStr "nullifiers") (ofSet n) a) :
    a = TxSets.tx inputs ⟨s.created, n⟩ cs ce := by
  rw [tx, dictUpdate_ofDict, buildTx_insert_nullifiers] at h
  exact h.2

/-- The source of a consumed state is one of the two sets named by the literal. -/
theorem TxSets.source_mem {k source old : V} (hk : SetContains sourceKeys k)
    (he : DictContains (s.tx inputs cs ce) k source) (hc : SetContains source old) :
    old ∈ inputs ∨ old ∈ s.created := by
  rw [sourceKeys, setContains_ofSet, Finset.mem_insert, Finset.mem_singleton] at hk
  rcases hk with rfl | rfl
  · have hs : source = ofSet inputs := by
      simpa [tx, lookup_buildTx, eq_comm] using he
    rw [hs, setContains_ofSet] at hc
    exact .inl hc
  · rw [entry_created he, setContains_ofSet] at hc
    exact .inr hc

theorem ReplayNullify.effect {a old source : V} (r : ReplayNullify (s.tx inputs cs ce) a old source) :
    ∃ n, Nullify n old ∧ n ∉ s.nullifiers ∧
      a = TxSets.tx inputs ⟨s.created, insert n s.nullifiers⟩ cs ce := by
  have hset := r.setInsert
  rw [TxSets.entry_nullifiers r.midTx_nullifiers, setInsert_ofSet] at hset
  have hupd := r.update
  rw [hset.2] at hupd
  exact ⟨r.nullifier, ⟨r.key, r.objKeyHash, r.old_key, r.hash_key, r.hash_nullifier⟩, hset.1,
    TxSets.update_nullifiers hupd⟩

theorem ReplayActionInsert.effect {a c c' : V}
    (r : ReplayActionInsert G stateHeader (s.tx inputs cs ce) a c c') :
    ∃ s' : TxSets V, a = s'.tx inputs cs ce ∧ Effect inputs r.event s s' := by
  have hset := r.setInsert
  rw [TxSets.entry_created r.beforeTx_created, setInsert_ofSet] at hset
  have hupd := r.update
  rw [hset.2] at hupd
  exact ⟨_, TxSets.update_created hupd, .insert hset.1⟩

theorem ReplayInsert.effect {a c c' : V}
    (r : ReplayInsert G stateHeader (s.tx inputs cs ce) a c c') :
    ∃ s' : TxSets V, a = s'.tx inputs cs ce ∧ Effect inputs r.event s s' := by
  have hset := r.setInsert
  rw [TxSets.entry_created r.beforeTx_created, setInsert_ofSet] at hset
  have hupd := r.update
  rw [hset.2] at hupd
  exact ⟨_, TxSets.update_created hupd, .insert hset.1⟩

theorem ReplayMutate.effect {a c c' : V}
    (r : ReplayMutate G stateHeader (s.tx inputs cs ce) a c c') :
    ∃ s' : TxSets V, a = s'.tx inputs cs ce ∧ Effect inputs r.toEvent s s' := by
  -- The source is read from the transaction before `new` is put in `created`.
  have hsource := TxSets.source_mem r.event.source_key r.event.source_entry r.event.nullify.contains
  have hset := r.event.setInsert
  rw [TxSets.entry_created r.event.beforeTx_created, setInsert_ofSet] at hset
  have hupd := r.event.update
  rw [hset.2] at hupd
  have hnull := r.event.nullify
  rw [TxSets.update_created hupd] at hnull
  obtain ⟨n, hn, hfresh, ha⟩ := hnull.effect
  exact ⟨_, ha, .mutate hsource hn hfresh hset.1⟩

theorem ReplayDelete.effect {a c c' : V}
    (r : ReplayDelete G stateHeader (s.tx inputs cs ce) a c c') :
    ∃ s' : TxSets V, a = s'.tx inputs cs ce ∧ Effect inputs r.event s s' := by
  have hsource := TxSets.source_mem r.source_key r.source_entry r.nullify.contains
  obtain ⟨n, hn, hfresh, ha⟩ := r.nullify.effect
  exact ⟨_, ha, .delete hsource hn hfresh⟩

end Replay

/-- Whatever the nesting, a replay does to the sets what the flat run of its events does. -/
theorem Replay.effects {G : Guard V} {stateHeader : V} {inputs : Finset V} {w : Walk}
    {b a c c' : V} (r : Replay G stateHeader w b a c c') {s : TxSets V} {cs ce : V}
    (hb : b = s.tx inputs cs ce) :
    ∃ s' : TxSets V, a = s'.tx inputs cs ce ∧ Effects inputs r.events s s' := by
  induction r generalizing s cs ce with
  | contentsElement _ ih => exact ih hb
  | contentsInsert _ ih => exact ih hb
  | contentsMutate _ ih => exact ih hb
  | contentsDelete _ ih => exact ih hb
  | contentsAction _ ih => exact ih hb
  | stepInsert _ _ head _ ih =>
    subst hb
    obtain ⟨mid, hmid, heff⟩ := head.effect
    obtain ⟨s', ha, hrest⟩ := ih hmid
    exact ⟨s', ha, mid, heff, hrest⟩
  | stepMutate _ _ head _ ih =>
    subst hb
    obtain ⟨mid, hmid, heff⟩ := head.effect
    obtain ⟨s', ha, hrest⟩ := ih hmid
    exact ⟨s', ha, mid, heff, hrest⟩
  | stepDelete _ _ head _ ih =>
    subst hb
    obtain ⟨mid, hmid, heff⟩ := head.effect
    obtain ⟨s', ha, hrest⟩ := ih hmid
    exact ⟨s', ha, mid, heff, hrest⟩
  | stepAction _ _ _ _ ihHead ihTail =>
    obtain ⟨mid, hmid, heff⟩ := ihHead hb
    obtain ⟨s', ha, hrest⟩ := ihTail hmid
    exact ⟨s', ha, heff.append hrest⟩
  | elementInsert r =>
    subst hb
    obtain ⟨s', ha, heff⟩ := r.effect
    exact ⟨s', ha, Effects.single heff⟩
  | elementMutate r =>
    subst hb
    obtain ⟨s', ha, heff⟩ := r.effect
    exact ⟨s', ha, Effects.single heff⟩
  | elementDelete r =>
    subst hb
    obtain ⟨s', ha, heff⟩ := r.effect
    exact ⟨s', ha, Effects.single heff⟩
  | elementAction _ ih => exact ih hb
  | action _ _ _ _ _ _ _ _ _ endCreated endNullifiers scopeStart scopeEnd _ copyCreated
      copyNullifiers ih =>
    -- The scratch dictionary has the scope of the action; only its sets come back.
    subst hb
    rw [TxSets.tx, dictUpdate_ofDict, buildTx_insert_chainStart] at scopeStart
    rw [scopeStart.2, dictUpdate_ofDict, buildTx_insert_chainEnd] at scopeEnd
    obtain ⟨s', rfl, heff⟩ := ih scopeEnd.2
    rw [TxSets.entry_created endCreated] at copyCreated
    rw [TxSets.update_created copyCreated, TxSets.entry_nullifiers endNullifiers] at copyNullifiers
    have ha := TxSets.update_nullifiers copyNullifiers
    exact ⟨s', ha, heff⟩
  | actionsAction _ ih => exact ih hb
  | actionsStep _ ih => exact ih hb
  | actionsInsert r =>
    subst hb
    obtain ⟨s', ha, heff⟩ := r.effect
    exact ⟨s', ha, Effects.single heff⟩
  | step _ _ _ _ ihHead ihTail =>
    obtain ⟨mid, hmid, heff⟩ := ihHead hb
    obtain ⟨s', ha, hrest⟩ := ihTail hmid
    exact ⟨s', ha, heff.append hrest⟩

/-- The states that a list of events consumes, in order. -/
def olds (es : List (Event V)) : List V := consumed (es.map Event.move)

/-- The states that a list of events produces, in order. -/
def news (es : List (Event V)) : List V := produced (es.map Event.move)

/-- The sets as a ledger: a state is spent when its nullifier is out. -/
def TxSets.book (s : TxSets V) : Book V :=
  ⟨{x | x ∈ s.created}, {x | ∃ n ∈ s.nullifiers, Nullify n x}⟩

theorem Effect.allows {inputs : Finset V} {e : Event V} {s s' : TxSets V}
    (h : Effect inputs e s s') : s.book.Allows {x | x ∈ inputs} e.move := by
  -- A spent state shares its nullifier with the one consumed, so it is that state.
  have unspent : ∀ {old n : V}, Nullify n old → n ∉ s.nullifiers → old ∉ s.book.spent := by
    rintro old n hn hfresh ⟨m, hm, hold⟩
    rw [hold.functional hn] at hm
    exact hfresh hm
  cases h with
  | insert fresh =>
    refine ⟨fun x hx => ?_, fun x hx => ?_, fun y hy => ?_⟩
    · cases hx
    · cases hx
    · cases hy
      exact fresh
  | mutate source nullify hns fresh =>
    refine ⟨fun x hx => ?_, fun x hx => ?_, fun y hy => ?_⟩
    · cases hx
      exact source
    · cases hx
      exact unspent nullify hns
    · cases hy
      exact fresh
  | delete source nullify hns =>
    refine ⟨fun x hx => ?_, fun x hx => ?_, fun y hy => ?_⟩
    · cases hx
      exact source
    · cases hx
      exact unspent nullify hns
    · cases hy

theorem Effect.mem_created {inputs : Finset V} {e : Event V} {s s' : TxSets V}
    (h : Effect inputs e s s') (y : V) :
    y ∈ s'.created ↔ y ∈ s.created ∨ e.move.produced = some y := by
  cases h <;> simp [Event.move, or_comm, eq_comm]

theorem Effect.mem_nullifiers {inputs : Finset V} {e : Event V} {s s' : TxSets V}
    (h : Effect inputs e s s') (n : V) :
    n ∈ s'.nullifiers ↔ n ∈ s.nullifiers ∨ ∃ x, e.move.consumed = some x ∧ Nullify n x := by
  -- A consumed state has one nullifier.
  have image : ∀ {old m : V}, Nullify m old → (Nullify n old ↔ n = m) := by
    intro old m hm
    exact ⟨fun hn => hn.functional hm, fun hn => hn ▸ hm⟩
  cases h with
  | insert fresh => simp [Event.move]
  | mutate source nullify unspent fresh => simp [Event.move, image nullify, or_comm]
  | delete source nullify unspent => simp [Event.move, image nullify, or_comm]

theorem Effect.keyed {inputs : Finset V} {e : Event V} {s s' : TxSets V}
    (h : Effect inputs e s s') {x : V} (hx : e.move.consumed = some x) : ∃ n, Nullify n x := by
  cases h with
  | insert fresh => cases hx
  | mutate source nullify unspent fresh =>
    cases hx
    exact ⟨_, nullify⟩
  | delete source nullify unspent =>
    cases hx
    exact ⟨_, nullify⟩

theorem Effect.book {inputs : Finset V} {e : Event V} {s s' : TxSets V}
    (h : Effect inputs e s s') : s'.book = s.book.apply e.move := by
  have hspent : s'.book.spent = (s.book.apply e.move).spent := by
    ext x
    rw [mem_apply_spent]
    constructor
    · rintro ⟨n, hn, hx⟩
      rcases (h.mem_nullifiers n).mp hn with hn | ⟨y, hy, hny⟩
      · exact .inl ⟨n, hn, hx⟩
      · rw [hx.injective hny]
        exact .inr hy
    · rintro (⟨n, hn, hx⟩ | hx)
      · exact ⟨n, (h.mem_nullifiers n).mpr (.inl hn), hx⟩
      · obtain ⟨n, hn⟩ := h.keyed hx
        exact ⟨n, (h.mem_nullifiers n).mpr (.inr ⟨x, hx, hn⟩), hn⟩
  have hcreated : s'.book.created = (s.book.apply e.move).created := by
    ext y
    exact h.mem_created y
  cases hb : s'.book
  rw [hb] at hspent hcreated
  simp only at hspent hcreated
  rw [hspent, hcreated]

theorem Effects.allowsAll {inputs : Finset V} {es : List (Event V)} {s s' : TxSets V}
    (h : Effects inputs es s s') :
    s.book.AllowsAll {x | x ∈ inputs} (es.map Event.move) := by
  induction es generalizing s with
  | nil => trivial
  | cons e es ih =>
    obtain ⟨mid, hstep, hrest⟩ := h
    refine ⟨hstep.allows, ?_⟩
    rw [← hstep.book]
    exact ih hrest

theorem Effects.mem_created {inputs : Finset V} {es : List (Event V)} {s s' : TxSets V}
    (h : Effects inputs es s s') (y : V) :
    y ∈ s'.created ↔ y ∈ s.created ∨ y ∈ news es := by
  induction es generalizing s with
  | nil =>
    cases h
    simp [news, produced]
  | cons e es ih =>
    obtain ⟨mid, hstep, hrest⟩ := h
    rw [ih hrest, hstep.mem_created, news, news, List.map_cons, mem_produced_cons, or_assoc]

theorem Effects.mem_nullifiers {inputs : Finset V} {es : List (Event V)} {s s' : TxSets V}
    (h : Effects inputs es s s') (n : V) :
    n ∈ s'.nullifiers ↔ n ∈ s.nullifiers ∨ ∃ x ∈ olds es, Nullify n x := by
  induction es generalizing s with
  | nil =>
    cases h
    simp [olds, consumed]
  | cons e es ih =>
    obtain ⟨mid, hstep, hrest⟩ := h
    rw [ih hrest, hstep.mem_nullifiers, or_assoc]
    simp only [olds, List.map_cons, mem_consumed_cons, or_and_right, exists_or]

theorem Effects.keyed {inputs : Finset V} {es : List (Event V)} {s s' : TxSets V}
    (h : Effects inputs es s s') : ∀ x ∈ olds es, ∃ n, Nullify n x := by
  induction es generalizing s with
  | nil => simp [olds, consumed]
  | cons e es ih =>
    obtain ⟨mid, hstep, hrest⟩ := h
    intro x hx
    rcases mem_consumed_cons.mp hx with hx | hx
    · exact hstep.keyed hx
    · exact ih hrest x hx

/-- `InputsGrounded` with its fast paths: each input is an entry of `created`. -/
inductive InputsGrounded (created : V) : V → Prop
  | none {inputs : V} (equal : inputs = empty) : InputsGrounded created inputs
  | single {inputs : V} (input index : V)
      (contains : ArrayContains created index input)
      (insert : SetInsert empty input inputs) : InputsGrounded created inputs
  | pair {inputs : V} (firstInput secondInput setFirst firstIndex secondIndex : V)
      (contains_first : ArrayContains created firstIndex firstInput)
      (insert_first : SetInsert empty firstInput setFirst)
      (contains_second : ArrayContains created secondIndex secondInput)
      (insert_second : SetInsert setFirst secondInput inputs) : InputsGrounded created inputs
  | recursive {inputs : V} (firstInput secondInput mid prevInputs firstIndex secondIndex : V)
      (contains_first : ArrayContains created firstIndex firstInput)
      (insert_first : SetInsert prevInputs firstInput mid)
      (contains_second : ArrayContains created secondIndex secondInput)
      (insert_second : SetInsert mid secondInput inputs)
      (rest : InputsGrounded created prevInputs) : InputsGrounded created inputs

/-- Field slots of `record StateHeader`. -/
def stateHeaderBlockNumberSlot : Nat := 0
def stateHeaderBlockTimestampSlot : Nat := 1
def stateHeaderBlockHashSlot : Nat := 2
def stateHeaderCreatedSlot : Nat := 3
def stateHeaderNullifiersSlot : Nat := 4
def stateHeaderPriorStateHistorySlot : Nat := 5

/-- Compact committed view of app state used for grounding transactions. -/
structure StateHeader (V : Type) where
  blockNumber : Int
  blockTimestamp : Int
  blockHash : V
  createdRoot : V
  nullifiersRoot : V
  priorStateHistoryRoot : V

/-- Array view used as the state root record. -/
def StateHeader.array (h : StateHeader V) : Pod2.Array V :=
  (((((((∅ : Pod2.Array V)).insert stateHeaderPriorStateHistorySlot h.priorStateHistoryRoot).insert
    stateHeaderNullifiersSlot h.nullifiersRoot).insert
    stateHeaderCreatedSlot h.createdRoot).insert
    stateHeaderBlockHashSlot h.blockHash).insert
    stateHeaderBlockTimestampSlot (ofInt h.blockTimestamp)).insert
    stateHeaderBlockNumberSlot (ofInt h.blockNumber)

/-- Commitment of the state root array. -/
def StateHeader.hash (h : StateHeader V) : V := ofArray h.array

theorem StateHeader.lookup_created (h : StateHeader V) :
    h.array.lookup stateHeaderCreatedSlot = some h.createdRoot := by
  simp [array, stateHeaderCreatedSlot, stateHeaderBlockNumberSlot,
    stateHeaderBlockTimestampSlot, stateHeaderBlockHashSlot]

theorem StateHeader.created_of_hash {h : StateHeader V} {c : V}
    (hc : ArrayContains h.hash (ofInt stateHeaderCreatedSlot) c) : c = h.createdRoot := by
  rw [hash, arrayContains_ofArray, lookup_created] at hc
  exact (Option.some.inj hc).symm

def maxStateRootAgeBlocks : Int := 50400

/-- Whether inclusion at `block` would exceed the grounding age limit. -/
def groundingAgedOut (block groundingBlock : Int) : Bool :=
  block - groundingBlock > maxStateRootAgeBlocks

structure TxFinalBindings (afterTx txFinal nullifiers created : V) : Prop where
  delete : DictDelete afterTx (ofStr "inputs") txFinal
  nullifiers_entry : DictContains txFinal (ofStr "nullifiers") nullifiers
  created_entry : DictContains txFinal (ofStr "created") created

structure TxFinalized (G : Guard V) (stateHeader txFinal nullifiers created : V) where
  (beforeTx afterTx chainStart chainFinal : V)
  (inputs headerCreated : V)
  beforeTx_inputs : Entry beforeTx "inputs" inputs
  stateHeader_created : ArrayContains stateHeader (ofInt stateHeaderCreatedSlot) headerCreated
  grounded : InputsGrounded headerCreated inputs
  seed : Hash inputs empty chainStart
  schema : DictInsert (ofDict (scopeDict empty empty empty empty)) (ofStr "inputs") inputs beforeTx
  bindings : TxFinalBindings afterTx txFinal nullifiers created
  replay : Replay G stateHeader .actions beforeTx afterTx chainStart chainFinal

theorem setInsert_empty {v new : V} : SetInsert empty v new ↔ new = ofSet {v} := by
  have h : (empty : V) = ofSet ∅ := (ofSet_eq_empty.mpr rfl).symm
  rw [h, setInsert_ofSet]
  simp

/-- The inputs are a set of entries of `created`. -/
theorem InputsGrounded.grounds {created inputs : V} (h : InputsGrounded created inputs) :
    ∃ s : Finset V, inputs = ofSet s ∧ ∀ x ∈ s, ∃ i, ArrayContains created i x := by
  induction h with
  | none equal => exact ⟨∅, by rw [equal, ofSet_eq_empty.mpr rfl], by simp⟩
  | single input index contains insert =>
    refine ⟨{input}, setInsert_empty.mp insert, ?_⟩
    simp only [Finset.mem_singleton, forall_eq]
    exact ⟨index, contains⟩
  | pair x y setFirst i j containsX insertX containsY insertY =>
    rw [setInsert_empty.mp insertX, setInsert_ofSet] at insertY
    refine ⟨_, insertY.2, ?_⟩
    simp only [Finset.mem_insert, Finset.mem_singleton, forall_eq_or_imp, forall_eq]
    exact ⟨⟨j, containsY⟩, ⟨i, containsX⟩⟩
  | recursive x y mid prev i j containsX insertX containsY insertY _ ih =>
    obtain ⟨s, rfl, hs⟩ := ih
    rw [setInsert_ofSet] at insertX
    rw [insertX.2, setInsert_ofSet] at insertY
    refine ⟨_, insertY.2, ?_⟩
    simp only [Finset.mem_insert, forall_eq_or_imp]
    exact ⟨⟨j, containsY⟩, ⟨i, containsX⟩, hs⟩

/-- What a finalized transaction is, in terms of its flat list of events. -/
structure Certified (stateHeader txFinal nullifiers created : V) (inputs : Finset V)
    (events : List (Event V)) : Prop where
  nonempty : events ≠ []
  available : ∀ pre e post, events = pre ++ e :: post → ∀ old, e.move.consumed = some old →
    old ∈ inputs ∨ old ∈ news pre
  consumed_once : (olds events).Nodup
  produced_once : (news events).Nodup
  created_eq : created = ofSet (news events).toFinset
  nullifiers_eq : ∃ s : Finset V, nullifiers = ofSet s ∧
    ∀ n, n ∈ s ↔ ∃ old ∈ olds events, Nullify n old
  keyed : ∀ old ∈ olds events, ∃ n, Nullify n old
  grounded : ∀ x ∈ inputs, ∃ c i,
    ArrayContains stateHeader (ofInt stateHeaderCreatedSlot) c ∧ ArrayContains c i x
  txFinal_eq : txFinal = ofDict (scopeDict created nullifiers empty empty)

/-- The start of every transaction: nothing created, nothing spent, no scope. -/
def TxSets.start : TxSets V := ⟨∅, ∅⟩

theorem TxSets.start_book : (TxSets.start : TxSets V).book = Book.empty := by
  simp [start, book, Book.empty]

variable {G : Guard V} {stateHeader txFinal nullifiers created : V}

theorem TxFinalized.beforeTx_eq (t : TxFinalized G stateHeader txFinal nullifiers created)
    {s : Finset V} (hs : t.inputs = ofSet s) :
    t.beforeTx = TxSets.start.tx s empty empty := by
  have h := t.schema
  have hempty : (empty : V) = ofSet ∅ := (ofSet_eq_empty.mpr rfl).symm
  rw [dictInsert_ofDict, hs] at h
  rw [h.2, TxSets.tx, buildTx, TxSets.start, ← hempty]

/-- The replay of a finalized transaction is a flat run from nothing to its public sets. -/
theorem TxFinalized.flat (t : TxFinalized G stateHeader txFinal nullifiers created)
    {inputs : Finset V} (hin : t.inputs = ofSet inputs) :
    ∃ s : TxSets V, Effects inputs t.replay.events TxSets.start s ∧
      created = ofSet s.created ∧ nullifiers = ofSet s.nullifiers ∧
      txFinal = ofDict (scopeDict created nullifiers empty empty) := by
  obtain ⟨s, hafter, heff⟩ := t.replay.effects (t.beforeTx_eq hin)
  have hdel := t.bindings.delete
  rw [hafter, TxSets.tx, dictDelete_ofDict, buildTx_erase_inputs] at hdel
  have hnull := t.bindings.nullifiers_entry
  have hcre := t.bindings.created_entry
  rw [hdel.2, dictContains_ofDict, lookup_scopeDict] at hnull hcre
  simp only [String.reduceEq, if_false, if_true, Option.some.injEq] at hnull hcre
  refine ⟨s, heff, hcre.symm, hnull.symm, ?_⟩
  rw [hdel.2, hnull, hcre]

theorem TxFinalized.certified (t : TxFinalized G stateHeader txFinal nullifiers created) :
    ∃ inputs : Finset V, t.inputs = ofSet inputs ∧
      Certified stateHeader txFinal nullifiers created inputs t.replay.events := by
  obtain ⟨inputs, hin, hground⟩ := t.grounded.grounds
  obtain ⟨s, heff, hcre, hnull, hfinal⟩ := t.flat hin
  have hseq := heff.allowsAll
  rw [TxSets.start_book, Book.allowsAll_iff] at hseq
  refine ⟨inputs, hin, t.replay.events_ne_nil, ?_, hseq.consumed_nodup, hseq.produced_nodup, ?_,
    ⟨s.nullifiers, hnull, ?_⟩, heff.keyed, ?_, hfinal⟩
  · intro pre e post heq old hold
    have hav := hseq.available (pre.map Event.move) e.move (post.map Event.move)
      (by rw [heq, List.map_append, List.map_cons]) old hold
    rcases hav with h | h | h
    · exact .inl h
    · exact absurd h (Set.notMem_empty old)
    · exact .inr h
  · refine hcre.trans ?_
    rw [ofSet_inj]
    ext y
    rw [heff.mem_created, List.mem_toFinset]
    simp [TxSets.start]
  · intro n
    rw [heff.mem_nullifiers]
    simp [TxSets.start]
  · intro x hx
    obtain ⟨i, hi⟩ := hground x hx
    exact ⟨t.headerCreated, i, t.stateHeader_created, hi⟩

/-- The moves of a certified transaction, checked from an empty book. -/
theorem Certified.sequential {inputs : Finset V} {events : List (Event V)}
    (h : Certified stateHeader txFinal nullifiers created inputs events) :
    Book.empty.Sequential {x | x ∈ inputs} (events.map Event.move) := by
  refine ⟨?_, h.consumed_once, fun x _ => Set.notMem_empty x, h.produced_once,
    fun x _ => Set.notMem_empty x⟩
  intro pre m post heq x hx
  obtain ⟨pre', rest, hev, rfl, hrest⟩ := List.map_eq_append_iff.mp heq
  obtain ⟨e, post', rfl, rfl, rfl⟩ := List.map_eq_cons_iff.mp hrest
  rcases h.available pre' e post' hev x hx with hx | hx
  · exact .inl hx
  · exact .inr (.inr hx)

/-- Soundness of `TxFinalized`: every derivation certifies a flat list of events, and
its public `tx_final` is a function of the public sets alone. -/
theorem TxFinalized.sound (t : TxFinalized G stateHeader txFinal nullifiers created) :
    (∃ inputs : Finset V, t.inputs = ofSet inputs ∧
      TxSteps (hash t.inputs empty) t.replay.events t.chainFinal ∧
      Certified stateHeader txFinal nullifiers created inputs t.replay.events) ∧
    ∀ (G' : Guard V) (stateHeader' txFinal' : V),
      TxFinalized G' stateHeader' txFinal' nullifiers created → txFinal' = txFinal := by
  obtain ⟨inputs, hin, hcert⟩ := t.certified
  refine ⟨⟨inputs, hin, ?_, hcert⟩, ?_⟩
  · rw [← show t.chainStart = _ from t.seed]
    exact t.replay.txSteps
  · intro G' stateHeader' txFinal' t'
    obtain ⟨inputs', hin', hcert'⟩ := t'.certified
    rw [hcert.txFinal_eq, hcert'.txFinal_eq]

/-- The object that an insert of `m` records: `m` stamped with its own commitment. -/
def stamped (m : Dictionary V) : V := ofDict (m.insert "stable_identifier" (ofDict m))

/-- A transaction that only inserts one typed object finalizes against any header: it
grounds nothing. -/
def TxFinalized.mine (G : Guard V) (header : Pod2.Array V) {c type : V} {m : Dictionary V}
    (hc : header.lookup stateHeaderCreatedSlot = some c) (hm : "stable_identifier" ∉ m)
    (htype : m.lookup "type" = some type)
    (hguard : G type (stamped m) (ofArray header) (hash empty empty)
      (hash (hash empty empty) (hash empty (stamped m)))) :
    TxFinalized G (ofArray header)
      (ofDict (scopeDict (ofSet {stamped m}) (ofSet ∅) empty empty)) (ofSet ∅)
      (ofSet {stamped m}) where
  beforeTx := TxSets.start.tx ∅ empty empty
  afterTx := TxSets.tx ∅ ⟨{stamped m}, ∅⟩ empty empty
  chainStart := hash empty empty
  chainFinal := hash (hash empty empty) (hash empty (stamped m))
  inputs := empty
  headerCreated := c
  beforeTx_inputs := by
    simp [Entry, TxSets.tx, lookup_buildTx, empty, Values.ofSet_empty]
  stateHeader_created := by simpa using hc
  grounded := .none rfl
  seed := rfl
  schema := by
    have hempty : (empty : V) = ofSet ∅ := (ofSet_eq_empty.mpr rfl).symm
    rw [dictInsert_ofDict, ← Finmap.lookup_eq_none, lookup_scopeDict, TxSets.tx, buildTx,
      TxSets.start, ← hempty]
    simp
  bindings := by
    refine ⟨?_, ?_, ?_⟩
    · rw [TxSets.tx, dictDelete_ofDict, buildTx_erase_inputs]
      exact ⟨buildTx_mem _ _ _ _ _ (by simp), rfl⟩
    · simp [lookup_scopeDict]
    · simp [lookup_scopeDict]
  replay := .actionsInsert {
    new := stamped m
    pair := ofDict (((∅ : Dictionary V).insert "initial" (ofDict m)).insert "new_created"
      (ofSet {stamped m}))
    guard := type
    initial := ofDict m
    newCreated := ofSet {stamped m}
    created := ofSet ∅
    pair_initial := by simp [Entry]
    pair_newCreated := by simp [Entry]
    beforeTx_created := by simp [Entry, TxSets.tx, TxSets.start, lookup_buildTx, lookup_scopeDict]
    txInsert := by
      rw [txInsert_iff, stamped]
      refine ⟨?_, by simp [hm], rfl⟩
      rw [Entry, dictContains_ofDict, lookup_insert_ite, if_neg (by decide), htype]
    setInsert := by simp
    update := by
      rw [TxSets.tx, dictUpdate_ofDict, buildTx_insert_created]
      exact ⟨buildTx_mem _ _ _ _ _ (by simp), rfl⟩
    dispatch := hguard }

end DigitalObjects.Txlib
