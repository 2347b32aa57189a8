import DigitalObjects.Txlib.Replayer
set_option autoImplicit false

/-!
Replay construction against the flat run of the recorded events: it fails exactly
where the run does, never panics, and ends with the sets of the run.
-/

namespace DigitalObjects.Txlib

open Pod2 Lib
open Outcome (require Meets)

variable {V : Type} [Values V] {G : Guard V}

theorem Effect.functional {inputs : Finset V} {e : Event V} {s a b : TxSets V}
    (ha : Effect inputs e s a) (hb : Effect inputs e s b) : a = b := by
  cases ha with
  | insert => cases hb; rfl
  | mutate _ hn =>
    cases hb with
    | mutate _ hm => rw [hn.functional hm]
  | delete _ hn =>
    cases hb with
    | delete _ hm => rw [hn.functional hm]

theorem Effects.functional {inputs : Finset V} {es : List (Event V)} {s a b : TxSets V}
    (ha : Effects inputs es s a) (hb : Effects inputs es s b) : a = b := by
  induction es generalizing s with
  | nil => exact ha.trans hb.symm
  | cons e es ih =>
    obtain ⟨m, hm, ha⟩ := ha
    obtain ⟨m', hm', hb⟩ := hb
    rw [← hm.functional hm'] at hb
    exact ih ha hb

theorem Effects.split {inputs : Finset V} {es fs : List (Event V)} {s s' : TxSets V}
    (h : Effects inputs (es ++ fs) s s') :
    ∃ mid, Effects inputs es s mid ∧ Effects inputs fs mid s' := by
  induction es generalizing s with
  | nil => exact ⟨s, rfl, h⟩
  | cons e es ih =>
    obtain ⟨m, hm, hrest⟩ := h
    obtain ⟨mid, hes, hfs⟩ := ih hrest
    exact ⟨mid, ⟨m, hm, hes⟩, hfs⟩

/-- No run of the events from the sets. -/
def Stuck (inputs : Finset V) (es : List (Event V)) (s : TxSets V) : Prop :=
  ∀ s', ¬ Effects inputs es s s'

theorem Stuck.append {inputs : Finset V} {es : List (Event V)} {s : TxSets V}
    (h : Stuck inputs es s) (fs : List (Event V)) : Stuck inputs (es ++ fs) s := by
  intro s' hs'
  obtain ⟨mid, hes, -⟩ := hs'.split
  exact h mid hes

theorem Stuck.after {inputs : Finset V} {es fs : List (Event V)} {s mid : TxSets V}
    (hes : Effects inputs es s mid) (h : Stuck inputs fs mid) : Stuck inputs (es ++ fs) s := by
  intro s' hs'
  obtain ⟨mid', hes', hfs⟩ := hs'.split
  rw [← hes.functional hes'] at hfs
  exact h s' hfs

theorem stuck_single {inputs : Finset V} {e : Event V} {s : TxSets V}
    (h : ∀ s', ¬ Effect inputs e s s') : Stuck inputs [e] s := by
  rintro s' ⟨mid, he, -⟩
  exact h mid he

theorem nullify_ofDict {n : V} {old : Dictionary V} : Nullify n (ofDict old) ↔
    ∃ key, old.lookup "key" = some key ∧ n = objectNullifierFromKeyHash (hash (ofDict old) key) := by
  rw [nullify_iff]
  simp [Entry, objectNullifierFromKeyHash]

omit [Values V] in
theorem txWith_ok {tx : Dictionary V} {key : String} (h : key ∈ tx) (value : V) :
    txWith tx key value = .ok (tx.insert key value) := by
  rw [txWith, Outcome.require_pos h]
  rfl

theorem insertState_meets (set : Finset V) (value : V) (error : TxError V) :
    (insertState set value error).Meets (fun s => value ∉ set ∧ s = insert value set)
      (fun _ => value ∈ set) := by
  by_cases h : value ∈ set <;> simp [insertState, h]

theorem dispatchTo_meets {evidence : Statement G} {g : GuardStatement G}
    {type state chainStart chainEnd : V} {R : TxError V → Prop} (hev : evidence = .guard g)
    (htype : g.type = type) (hstate : g.state = state) (hstart : g.chainStart = chainStart)
    (hend : g.chainEnd = chainEnd) :
    (dispatchTo evidence type state chainStart chainEnd).Meets
      (fun r => r.1 = g.stateHeader) R := by
  subst hev
  exact Meets.require_bind ⟨htype, hstate, hstart, hend⟩ rfl

namespace ReplayFrame

def sets (f : ReplayFrame V) : TxSets V := ⟨f.created, f.nullifiers⟩

theorem entry_created (f : ReplayFrame V) :
    Entry (ofDict f.toTxDict) "created" (ofSet f.created) := by
  simp [Entry, toTxDict, lookup_buildTx, lookup_scopeDict]

theorem entry_nullifiers (f : ReplayFrame V) :
    Entry (ofDict f.toTxDict) "nullifiers" (ofSet f.nullifiers) := by
  simp [Entry, toTxDict, lookup_buildTx, lookup_scopeDict]

theorem entry_chainStart (f : ReplayFrame V) :
    Entry (ofDict f.toTxDict) "chain_start" f.chainStart := by
  simp [Entry, toTxDict, lookup_buildTx, lookup_scopeDict]

theorem entry_chainEnd (f : ReplayFrame V) :
    Entry (ofDict f.toTxDict) "chain_end" f.chainEnd := by
  simp [Entry, toTxDict, lookup_buildTx, lookup_scopeDict]

theorem mem_toTxDict (f : ReplayFrame V) {k : String}
    (hk : k ∈ ["inputs", "created", "nullifiers", "chain_start", "chain_end"]) :
    k ∈ f.toTxDict := buildTx_mem _ _ _ _ _ hk

theorem writeCreated (f : ReplayFrame V) (c : Finset V) :
    txWith f.toTxDict "created" (ofSet c) = .ok (f.advance c f.nullifiers).toTxDict := by
  rw [txWith_ok (f.mem_toTxDict (by simp)), toTxDict, buildTx_insert_created]
  rfl

theorem writeNullifiers (f : ReplayFrame V) (n : Finset V) :
    txWith f.toTxDict "nullifiers" (ofSet n) = .ok (f.advance f.created n).toTxDict := by
  rw [txWith_ok (f.mem_toTxDict (by simp)), toTxDict, buildTx_insert_nullifiers]
  rfl

theorem writeChainStart (f : ReplayFrame V) (c : V) :
    txWith f.toTxDict "chain_start" c = .ok (f.rescope c f.chainEnd).toTxDict := by
  rw [txWith_ok (f.mem_toTxDict (by simp)), toTxDict, buildTx_insert_chainStart]
  rfl

theorem writeChainEnd (f : ReplayFrame V) (c : V) :
    txWith f.toTxDict "chain_end" c = .ok (f.rescope f.chainStart c).toTxDict := by
  rw [txWith_ok (f.mem_toTxDict (by simp)), toTxDict, buildTx_insert_chainEnd]
  rfl

theorem update_created (f : ReplayFrame V) (c : Finset V) :
    DictUpdate (ofDict f.toTxDict) (ofStr "created") (ofSet c)
      (ofDict (f.advance c f.nullifiers).toTxDict) := by
  rw [dictUpdate_ofDict, toTxDict, buildTx_insert_created]
  exact ⟨f.mem_toTxDict (by simp), rfl⟩

theorem update_nullifiers (f : ReplayFrame V) (n : Finset V) :
    DictUpdate (ofDict f.toTxDict) (ofStr "nullifiers") (ofSet n)
      (ofDict (f.advance f.created n).toTxDict) := by
  rw [dictUpdate_ofDict, toTxDict, buildTx_insert_nullifiers]
  exact ⟨f.mem_toTxDict (by simp), rfl⟩

theorem update_chainStart (f : ReplayFrame V) (c : V) :
    DictUpdate (ofDict f.toTxDict) (ofStr "chain_start") c
      (ofDict (f.rescope c f.chainEnd).toTxDict) := by
  rw [dictUpdate_ofDict, toTxDict, buildTx_insert_chainStart]
  exact ⟨f.mem_toTxDict (by simp), rfl⟩

theorem update_chainEnd (f : ReplayFrame V) (c : V) :
    DictUpdate (ofDict f.toTxDict) (ofStr "chain_end") c
      (ofDict (f.rescope f.chainStart c).toTxDict) := by
  rw [dictUpdate_ofDict, toTxDict, buildTx_insert_chainEnd]
  exact ⟨f.mem_toTxDict (by simp), rfl⟩

end ReplayFrame

/-- What a successful `consume` has found. -/
structure Consumed (f : ReplayFrame V) (old : Dictionary V) (sourceKey : String)
    (source newNullifiers : Finset V) : Prop where
  listed : SetContains sourceKeys (ofStr sourceKey : V)
  entry : DictContains (ofDict f.toTxDict) (ofStr sourceKey) (ofSet source)
  available : ofDict old ∈ source
  grounded : ofDict old ∈ f.inputs ∨ ofDict old ∈ f.created
  nullified : ∃ key, old.lookup "key" = some key ∧
    objectNullifierFromKeyHash (hash (ofDict old) key) ∉ f.nullifiers ∧
    newNullifiers = insert (objectNullifierFromKeyHash (hash (ofDict old) key)) f.nullifiers

theorem ReplayFrame.sourceFor_mem (f : ReplayFrame V) (old : Dictionary V) :
    ofDict old ∈ (f.sourceFor old).2 ↔ ofDict old ∈ f.inputs ∨ ofDict old ∈ f.created := by
  by_cases h : ofDict old ∈ f.inputs <;> simp [sourceFor, h]

theorem ReplayFrame.sourceFor_entry (f : ReplayFrame V) (old : Dictionary V) :
    SetContains sourceKeys (ofStr (f.sourceFor old).1 : V) ∧
      DictContains (ofDict f.toTxDict) (ofStr (f.sourceFor old).1) (ofSet (f.sourceFor old).2) := by
  by_cases h : ofDict old ∈ f.inputs
  · simp [sourceFor, h, sourceKeys, toTxDict, lookup_buildTx]
  · simp [sourceFor, h, sourceKeys, toTxDict, lookup_buildTx, lookup_scopeDict]

theorem objectKeyHash_meets (old : Dictionary V) :
    (objectKeyHash old).Meets
      (fun k => ∃ key, old.lookup "key" = some key ∧ k = hash (ofDict old) key)
      (fun _ => old.lookup "key" = none) := by
  unfold objectKeyHash
  cases h : old.lookup "key" with
  | none => rfl
  | some key => exact ⟨key, rfl, rfl⟩

theorem ReplayFrame.consume_meets (f : ReplayFrame V) (old : Dictionary V) :
    (f.consume old).Meets (fun k => Consumed f old k.sourceKey k.source k.newNullifiers)
      (fun _ => ¬ ((ofDict old ∈ f.inputs ∨ ofDict old ∈ f.created) ∧
        ∃ n, Nullify n (ofDict old) ∧ n ∉ f.nullifiers)) := by
  unfold consume
  by_cases hsrc : ofDict old ∈ f.inputs ∨ ofDict old ∈ f.created
  · have hmem := (f.sourceFor_mem old).mpr hsrc
    simp only [hmem, not_true, if_false]
    refine (objectKeyHash_meets old).bind ?_ ?_
    · rintro e hnone ⟨-, n, hn, -⟩
      obtain ⟨key, hkey, -⟩ := nullify_ofDict.mp hn
      rw [hnone] at hkey
      cases hkey
    · rintro okh ⟨key, hkey, rfl⟩
      refine (insertState_meets _ _ _).bind ?_ ?_
      · rintro e hin ⟨-, n, hn, hfresh⟩
        obtain ⟨key', hkey', rfl⟩ := nullify_ofDict.mp hn
        rw [hkey, Option.some.injEq] at hkey'
        subst hkey'
        exact hfresh hin
      · rintro ns ⟨hfresh, rfl⟩
        obtain ⟨hlisted, hentry⟩ := f.sourceFor_entry old
        exact ⟨hlisted, hentry, hmem, hsrc, key, hkey, hfresh, rfl⟩
  · have hmem : ofDict old ∉ (f.sourceFor old).2 := fun h => hsrc ((f.sourceFor_mem old).mp h)
    simp only [hmem, not_false_iff, if_true]
    exact fun h => hsrc h.1

theorem Consumed.delete {f : ReplayFrame V} {old : Dictionary V} {k : String} {src ns : Finset V}
    (h : Consumed f old k src ns) :
    Effect f.inputs (.delete (ofDict old)) f.sets ⟨f.created, ns⟩ := by
  obtain ⟨key, hkey, hfresh, rfl⟩ := h.nullified
  exact .delete h.grounded (nullify_ofDict.mpr ⟨key, hkey, rfl⟩) hfresh

theorem Consumed.mutate {f : ReplayFrame V} {old new : Dictionary V} {k : String}
    {src ns : Finset V} (h : Consumed f old k src ns) (hnew : ofDict new ∉ f.created) :
    Effect f.inputs (.mutate (ofDict old) (ofDict new)) f.sets
      ⟨insert (ofDict new) f.created, ns⟩ := by
  obtain ⟨key, hkey, hfresh, rfl⟩ := h.nullified
  exact .mutate h.grounded (nullify_ofDict.mpr ⟨key, hkey, rfl⟩) hfresh hnew

/-- A replay result that continues the frame by a run of the events. -/
structure Fits {P : V → V → V → V → V → Type} (header : V) (frame : ReplayFrame V) (c c' : V)
    (es : List (Event V)) (r : Replayed P) : Prop where
  stateHeader : r.st.stateHeader = header
  beforeTx : r.st.beforeTx = ofDict frame.toTxDict
  afterTx : r.st.afterTx = ofDict (frame.advance r.created r.nullifiers).toTxDict
  beforeChain : r.st.beforeChain = c
  afterChain : r.st.afterChain = c'
  chain : r.chain = c'
  effects : Effects frame.inputs es frame.sets ⟨r.created, r.nullifiers⟩

/-- The evidence is the statement of the type's guard about the state, with the
transaction's header and the bounds of the action. -/
def Attests (evidence : Option (Statement G)) (type state header chainStart chainEnd : V) : Prop :=
  ∃ g, evidence = some (.guard g) ∧ g.type = type ∧ g.state = state ∧ g.stateHeader = header ∧
    g.chainStart = chainStart ∧ g.chainEnd = chainEnd

theorem insertPair_initial (initial : Dictionary V) (c : Finset V) :
    Entry (ofDict (insertPair initial c)) "initial" (ofDict initial) := by
  simp [Entry, insertPair]

theorem insertPair_newCreated (initial : Dictionary V) (c : Finset V) :
    Entry (ofDict (insertPair initial c)) "new_created" (ofSet c) := by
  simp [Entry, insertPair]

theorem buildReplayInsert_meets {e : InsertEvent G} {frame : ReplayFrame V}
    {evidence : Statement G} {header : V}
    (hg : Attests (some evidence) e.type (ofDict e.new) header frame.chainStart frame.chainEnd) :
    (buildReplayInsert e frame evidence).Meets
      (fun r => Fits header frame e.prevChain e.chainAfter [.insert (ofDict e.new)]
        ⟨r.1, e.chainAfter, r.2, frame.nullifiers⟩)
      (fun _ => Stuck frame.inputs [.insert (ofDict e.new)] frame.sets) := by
  obtain ⟨g, hev, htype, hstate, hheader, hstart, hend⟩ := hg
  rw [Option.some.injEq] at hev
  refine (insertState_meets _ _ _).bind ?_ ?_
  · intro _ hin
    refine stuck_single fun s' hs' => ?_
    cases hs' with
    | insert fresh => exact fresh hin
  · rintro newCreated ⟨hfresh, rfl⟩
    rw [frame.writeCreated, Outcome.ok_bind]
    refine Meets.require_bind (insertPair_initial _ _) ?_
    refine Meets.require_bind frame.entry_created ?_
    refine Meets.require_bind (insertPair_newCreated _ _) ?_
    refine Meets.require_bind (setInsert_ofSet.mpr ⟨hfresh, rfl⟩) ?_
    refine Meets.require_bind (frame.update_created _) ?_
    refine Meets.require_bind frame.entry_chainStart ?_
    refine Meets.require_bind frame.entry_chainEnd ?_
    refine (dispatchTo_meets hev htype hstate hstart hend).bind (fun _ h => h) ?_
    rintro rebound hrebound
    exact ⟨hrebound.trans hheader, rfl, rfl, rfl, rfl, rfl, Effects.single (.insert hfresh)⟩

theorem buildReplayNullify_ok {f g : ReplayFrame V} {old : Dictionary V} {k : String}
    {src ns : Finset V} {R : TxError V → Prop} (h : Consumed f old k src ns)
    (hns : g.nullifiers = f.nullifiers) :
    (buildReplayNullify old g.toTxDict (g.advance g.created ns).toTxDict f.nullifiers ns src).Meets
      (fun _ => True) R := by
  obtain ⟨key, hkey, hfresh, rfl⟩ := h.nullified
  refine Meets.require_bind (setContains_ofSet.mpr h.available) ?_
  rw [expectField, hkey]
  refine Meets.require_bind (dictContains_ofDict.mpr hkey) ?_
  refine Meets.require_bind (hns ▸ g.entry_nullifiers) ?_
  refine Meets.require_bind (setInsert_ofSet.mpr ⟨hfresh, rfl⟩) ?_
  exact Meets.require_bind (g.update_nullifiers _) trivial

theorem buildReplayMutateEvent_meets {new old : Dictionary V} {f : ReplayFrame V} {k : String}
    {src ns : Finset V} {R : TxError V → Prop} (h : Consumed f old k src ns)
    (hnew : ofDict new ∉ f.created) :
    (buildReplayMutateEvent new old f ⟨f.toTxDict, insert (ofDict new) f.created, ns, k, src⟩).Meets
      (fun r => r.1 = (f.advance (insert (ofDict new) f.created) ns).toTxDict) R := by
  unfold buildReplayMutateEvent
  simp only [f.writeCreated, Outcome.ok_bind, ReplayFrame.writeNullifiers]
  refine (buildReplayNullify_ok (g := f.advance (insert (ofDict new) f.created) f.nullifiers)
    h rfl).bind (fun _ h => h) fun _ _ => ?_
  refine Meets.require_bind h.listed ?_
  refine Meets.require_bind h.entry ?_
  refine Meets.require_bind f.entry_created ?_
  refine Meets.require_bind (setInsert_ofSet.mpr ⟨hnew, rfl⟩) ?_
  exact Meets.require_bind (f.update_created _) rfl

theorem mutateScratch_meets (f : ReplayFrame V) (old new : Dictionary V) :
    (f.mutateScratch old new).Meets
      (fun m => m.btx = f.toTxDict ∧ Consumed f old m.sourceKey m.source m.newNullifiers ∧
        ofDict new ∉ f.created ∧ m.newCreated = insert (ofDict new) f.created)
      (fun _ => Stuck f.inputs [.mutate (ofDict old) (ofDict new)] f.sets) := by
  refine (f.consume_meets old).bind ?_ ?_
  · intro _ hno
    refine stuck_single fun s' hs' => ?_
    cases hs' with
    | mutate source nullify unspent _ => exact hno ⟨source, _, nullify, unspent⟩
  · intro k hk
    refine (insertState_meets _ _ _).bind ?_ ?_
    · intro _ hin
      refine stuck_single fun s' hs' => ?_
      cases hs' with
      | mutate _ _ _ fresh => exact fresh hin
    · rintro newCreated ⟨hfresh, rfl⟩
      exact ⟨rfl, hk, hfresh, rfl⟩

theorem buildReplayMutate_meets {e : MutateEvent G} {frame : ReplayFrame V}
    {evidence : Statement G} {header : V}
    (hg : Attests (some evidence) e.type (ofDict e.new) header frame.chainStart frame.chainEnd) :
    (buildReplayMutate e frame evidence).Meets
      (fun r => Fits header frame e.prevChain e.chainAfter [.mutate (ofDict e.old) (ofDict e.new)]
        ⟨r.1, e.chainAfter, r.2.1, r.2.2⟩)
      (fun _ => Stuck frame.inputs [.mutate (ofDict e.old) (ofDict e.new)] frame.sets) := by
  obtain ⟨g, hev, htype, hstate, hheader, hstart, hend⟩ := hg
  rw [Option.some.injEq] at hev
  refine (mutateScratch_meets frame e.old e.new).bind (fun _ h => h) ?_
  rintro ⟨btx, newCreated, newNullifiers, sourceKey, source⟩ ⟨hbtx, hcons, hfresh, hcreated⟩
  simp only at hbtx hcons hcreated
  subst hbtx hcreated
  refine (buildReplayMutateEvent_meets hcons hfresh).bind (fun _ h => h) ?_
  intro stEvent hevent
  refine Meets.require_bind frame.entry_chainStart ?_
  refine Meets.require_bind frame.entry_chainEnd ?_
  refine (dispatchTo_meets hev htype hstate hstart hend).bind (fun _ h => h) ?_
  intro rebound hrebound
  exact ⟨hrebound.trans hheader, rfl, congrArg ofDict hevent, rfl, rfl, rfl,
    Effects.single (hcons.mutate hfresh)⟩

theorem buildReplayDelete_meets {e : DeleteEvent G} {frame : ReplayFrame V}
    {evidence : Statement G} {header : V}
    (hg : Attests (some evidence) e.type (ofDict e.old) header frame.chainStart frame.chainEnd) :
    (buildReplayDelete e frame evidence).Meets
      (fun r => Fits header frame e.prevChain e.chainAfter [.delete (ofDict e.old)]
        ⟨r.1, e.chainAfter, r.2.1, r.2.2⟩)
      (fun _ => Stuck frame.inputs [.delete (ofDict e.old)] frame.sets) := by
  obtain ⟨g, hev, htype, hstate, hheader, hstart, hend⟩ := hg
  rw [Option.some.injEq] at hev
  refine (frame.consume_meets e.old).bind ?_ ?_
  · intro _ hno
    refine stuck_single fun s' hs' => ?_
    cases hs' with
    | delete source nullify unspent => exact hno ⟨source, _, nullify, unspent⟩
  · intro k hk
    rw [frame.writeNullifiers, Outcome.ok_bind]
    refine (buildReplayNullify_ok (g := frame) hk rfl).bind (fun _ h => h) fun _ _ => ?_
    refine Meets.require_bind (by simp [Entry]) ?_
    refine Meets.require_bind (by simp [Entry]) ?_
    refine Meets.require_bind hk.listed ?_
    refine Meets.require_bind hk.entry ?_
    refine Meets.require_bind frame.entry_chainStart ?_
    refine Meets.require_bind frame.entry_chainEnd ?_
    refine (dispatchTo_meets hev htype hstate hstart hend).bind (fun _ h => h) ?_
    intro rebound hrebound
    exact ⟨hrebound.trans hheader, rfl, rfl, rfl, rfl, rfl, Effects.single hk.delete⟩

section Join

variable {P Q R : V → V → V → V → V → Type} {header : V} {frame : ReplayFrame V}
  {es fs : List (Event V)} {c m c' : V}

theorem Fits.map {r : Replayed P} (f : ∀ {h b a c c' : V}, P h b a c c' → Q h b a c c')
    (h : Fits header frame c c' es r) : Fits header frame c c' es (r.map f) :=
  ⟨h.stateHeader, h.beforeTx, h.afterTx, h.beforeChain, h.afterChain, h.chain, h.effects⟩

theorem applyStep_meets
    (mk : ∀ {h b a c c' : V} (midTx midChain : V), P h b midTx c midChain →
      Q h midTx a midChain c' → R h b a c c')
    {head : Proven P} {tail : Proven Q} {E : TxError V → Prop}
    (hheader : tail.stateHeader = head.stateHeader) (htx : tail.beforeTx = head.afterTx)
    (hchain : tail.beforeChain = head.afterChain) :
    (applyStep (P := P) (Q := Q) (R := R) mk head tail).Meets (fun r => r.stateHeader = head.stateHeader ∧
      r.beforeTx = head.beforeTx ∧ r.afterTx = tail.afterTx ∧
      r.beforeChain = head.beforeChain ∧ r.afterChain = tail.afterChain) E := by
  obtain ⟨h, b, midTx, c, midChain, p⟩ := head
  obtain ⟨h', midTx', a, midChain', c', q⟩ := tail
  simp only at hheader htx hchain
  subst hheader htx hchain
  simp [applyStep]

/-- A head and the replay of what follows it, joined into one step. -/
theorem Fits.join {head : Replayed P} {tail : Replayed Q}
    (mk : ∀ {h b a c c' : V} (midTx midChain : V), P h b midTx c midChain →
      Q h midTx a midChain c' → R h b a c c') {E : TxError V → Prop}
    (hh : Fits header frame c m es head)
    (ht : Fits header (frame.advance head.created head.nullifiers) m c' fs tail) :
    (applyStep (P := P) (Q := Q) (R := R) mk head.st tail.st).Meets
      (fun st => Fits header frame c c' (es ++ fs) { tail with st }) E := by
  have hheader : tail.st.stateHeader = head.st.stateHeader :=
    ht.stateHeader.trans hh.stateHeader.symm
  have htx : tail.st.beforeTx = head.st.afterTx := ht.beforeTx.trans hh.afterTx.symm
  have hchain : tail.st.beforeChain = head.st.afterChain := ht.beforeChain.trans hh.afterChain.symm
  refine (applyStep_meets (P := P) (Q := Q) (R := R) mk hheader htx hchain).mono ?_ (fun _ h => h)
  rintro st ⟨h1, h2, h3, h4, h5⟩
  exact ⟨h1.trans hh.stateHeader, h2.trans hh.beforeTx, h3.trans ht.afterTx,
    h4.trans hh.beforeChain, h5.trans ht.afterChain, ht.chain, hh.effects.append ht.effects⟩

theorem joinContents_meets
    {element : ∀ {h b a c c' : V}, P h b a c c' → Replay G h .element b a c c'}
    {step : ∀ {h b a c c' : V} (midTx midChain : V), P h b midTx c midChain →
      Replay G h .contents midTx a midChain c' → Replay G h .contents b a c c'}
    {rest : ChainEvents G}
    {replayRest : V → ReplayFrame V → TxResult V (Replayed (Recursive G .contents))}
    {head : Replayed P} (hh : Fits header frame c m es head)
    (hnil : rest.length = 0 → c' = m ∧ fs = [])
    (hrest : rest.length ≠ 0 →
      (replayRest m (frame.advance head.created head.nullifiers)).Meets
        (Fits header (frame.advance head.created head.nullifiers) m c' fs)
        (fun _ => Stuck frame.inputs fs (frame.advance head.created head.nullifiers).sets)) :
    (joinContents element step frame rest replayRest head).Meets
      (Fits header frame c c' (es ++ fs)) (fun _ => Stuck frame.inputs (es ++ fs) frame.sets) := by
  unfold joinContents
  by_cases h : rest.length = 0
  · obtain ⟨rfl, rfl⟩ := hnil h
    rw [if_pos h, List.append_nil]
    exact hh.map _
  · rw [if_neg h, hh.chain]
    refine (hrest h).bind (fun _ hstuck => hstuck.after hh.effects) fun tail ht => ?_
    have hjoin := hh.join (Q := Recursive G .contents) (R := Recursive G .contents)
      (E := fun _ => Stuck frame.inputs (es ++ fs) frame.sets) step ht
    exact hjoin.bind (fun _ h => h) fun st hst => hst

theorem buildReplayAction_meets
    {replayContents : V → ReplayFrame V → TxResult V (Replayed (Recursive G .contents))}
    (hcontents : (replayContents c (frame.rescope c c')).Meets
      (Fits header (frame.rescope c c') c c' es) (fun _ => Stuck frame.inputs es frame.sets)) :
    (buildReplayAction replayContents c frame c').Meets (Fits header frame c c' es)
      (fun _ => Stuck frame.inputs es frame.sets) := by
  unfold buildReplayAction
  simp only [frame.writeChainStart, Outcome.ok_bind, ReplayFrame.writeChainEnd]
  refine hcontents.bind (fun _ h => h) fun r hr => ?_
  simp only [frame.writeCreated, Outcome.ok_bind, ReplayFrame.writeNullifiers]
  refine Meets.require_bind (by simp [Entry]) ?_
  refine Meets.require_bind (frame.update_chainStart c) ?_
  refine Meets.require_bind ((frame.rescope c frame.chainEnd).update_chainEnd c') ?_
  refine Meets.require_bind ((frame.rescope c c').advance r.created r.nullifiers).entry_created ?_
  refine Meets.require_bind (by simp [Entry]) ?_
  refine Meets.require_bind (frame.update_created r.created) ?_
  refine Meets.require_bind
    ((frame.rescope c c').advance r.created r.nullifiers).entry_nullifiers ?_
  refine Meets.require_bind
    ((frame.advance r.created frame.nullifiers).update_nullifiers r.nullifiers) ?_
  refine Meets.require_bind ⟨hr.beforeTx, hr.afterTx, hr.beforeChain, hr.afterChain⟩ ?_
  exact ⟨hr.stateHeader, rfl, rfl, rfl, rfl, rfl, hr.effects⟩

end Join

namespace ChainEvents

/-- The recorded chain positions follow one another, and no action is empty. -/
def Linked : V → ChainEvents G → V → Prop
  | c, nil, c' => c' = c
  | c, insert e rest, c' => e.prevChain = c ∧ Linked e.chainAfter rest c'
  | c, mutate e rest, c' => e.prevChain = c ∧ Linked e.chainAfter rest c'
  | c, delete e rest, c' => e.prevChain = c ∧ Linked e.chainAfter rest c'
  | c, action chainAfter contents rest, c' =>
    contents.length ≠ 0 ∧ Linked c contents chainAfter ∧ Linked chainAfter rest c'

/-- The evidence of every event is its guard's statement about the innermost action. -/
def Guarded (header : V) : V → V → V → ChainEvents G → Prop
  | _, _, _, nil => True
  | chainStart, chainEnd, _, insert e rest =>
    Attests e.guardEvidence e.type (ofDict e.new) header chainStart chainEnd ∧
      Guarded header chainStart chainEnd e.chainAfter rest
  | chainStart, chainEnd, _, mutate e rest =>
    Attests e.guardEvidence e.type (ofDict e.new) header chainStart chainEnd ∧
      Guarded header chainStart chainEnd e.chainAfter rest
  | chainStart, chainEnd, _, delete e rest =>
    Attests e.guardEvidence e.type (ofDict e.old) header chainStart chainEnd ∧
      Guarded header chainStart chainEnd e.chainAfter rest
  | chainStart, chainEnd, c, action chainAfter contents rest =>
    Guarded header c chainAfter c contents ∧ Guarded header chainStart chainEnd chainAfter rest

theorem eq_nil_of_length {events : ChainEvents G} (h : events.length = 0) : events = nil := by
  cases events <;> simp_all [length]

theorem Linked.of_length {c c' : V} {events : ChainEvents G} (hl : Linked c events c')
    (h : events.length = 0) : c' = c ∧ events.events = [] := by
  rw [eq_nil_of_length h] at hl ⊢
  exact ⟨hl, rfl⟩

end ChainEvents

omit [Values V] in
theorem expectEvidence_meets {evidence : Option (Statement G)} {message : String}
    {type state header cs ce : V} {R : TxError V → Prop}
    (h : Attests evidence type state header cs ce) :
    (expectEvidence evidence message).Meets
      (fun st => Attests (some st) type state header cs ce) R := by
  obtain ⟨g, rfl, hg⟩ := h
  exact ⟨g, rfl, hg⟩

/-- Replay construction of a body does what the flat run of its events does. -/
theorem buildReplayContents_meets {header c c' : V} {events : ChainEvents G}
    (frame : ReplayFrame V) (hne : events.length ≠ 0) (hl : events.Linked c c')
    (hg : events.Guarded header frame.chainStart frame.chainEnd c) :
    (buildReplayContents events c frame).Meets (Fits header frame c c' events.events)
      (fun _ => Stuck frame.inputs events.events frame.sets) := by
  induction events generalizing frame c c' with
  | nil => exact absurd rfl hne
  | insert e rest ih =>
    obtain ⟨rfl, hl⟩ := hl
    obtain ⟨hev, hg⟩ := hg
    refine (expectEvidence_meets hev).bind (fun _ h => h) fun evidence hev => ?_
    refine (buildReplayInsert_meets hev).bind (fun _ h => h.append _) fun r hr => ?_
    exact joinContents_meets hr hl.of_length fun h => ih _ h hl hg
  | mutate e rest ih =>
    obtain ⟨rfl, hl⟩ := hl
    obtain ⟨hev, hg⟩ := hg
    refine (expectEvidence_meets hev).bind (fun _ h => h) fun evidence hev => ?_
    refine (buildReplayMutate_meets hev).bind (fun _ h => h.append _) fun r hr => ?_
    exact joinContents_meets hr hl.of_length fun h => ih _ h hl hg
  | delete e rest ih =>
    obtain ⟨rfl, hl⟩ := hl
    obtain ⟨hev, hg⟩ := hg
    refine (expectEvidence_meets hev).bind (fun _ h => h) fun evidence hev => ?_
    refine (buildReplayDelete_meets hev).bind (fun _ h => h.append _) fun r hr => ?_
    exact joinContents_meets hr hl.of_length fun h => ih _ h hl hg
  | action chainAfter contents rest ihContents ihRest =>
    obtain ⟨hcne, hcl, hl⟩ := hl
    obtain ⟨hcg, hg⟩ := hg
    have hcontents := ihContents (frame.rescope c chainAfter) hcne hcl hcg
    refine (buildReplayAction_meets hcontents).bind (fun _ h => h.append _) fun head hhead => ?_
    exact joinContents_meets hhead hl.of_length fun h => ihRest _ h hl hg

theorem buildReplayActionInsert_meets {e : InsertEvent G} {frame : ReplayFrame V} {header : V}
    (hg : Attests e.guardEvidence e.type (ofDict e.new) header e.prevChain e.chainAfter) :
    (buildReplayActionInsert e frame).Meets
      (fun r => Fits header frame e.prevChain e.chainAfter [.insert (ofDict e.new)]
        ⟨r.1, e.chainAfter, r.2.1, r.2.2⟩)
      (fun _ => Stuck frame.inputs [.insert (ofDict e.new)] frame.sets) := by
  refine (expectEvidence_meets hg).bind (fun _ h => h) fun evidence hev => ?_
  obtain ⟨g, hev, htype, hstate, hheader, hstart, hend⟩ := hev
  rw [Option.some.injEq] at hev
  refine (insertState_meets _ _ _).bind ?_ ?_
  · intro _ hin
    refine stuck_single fun s' hs' => ?_
    cases hs' with
    | insert fresh => exact fresh hin
  · rintro newCreated ⟨hfresh, rfl⟩
    rw [frame.writeCreated, Outcome.ok_bind]
    refine Meets.require_bind (insertPair_initial _ _) ?_
    refine Meets.require_bind frame.entry_created ?_
    refine Meets.require_bind (insertPair_newCreated _ _) ?_
    refine Meets.require_bind (setInsert_ofSet.mpr ⟨hfresh, rfl⟩) ?_
    refine Meets.require_bind (frame.update_created _) ?_
    refine (dispatchTo_meets hev htype hstate hstart hend).bind (fun _ h => h) ?_
    intro dispatch hdispatch
    exact ⟨hdispatch.trans hheader, rfl, rfl, rfl, rfl, rfl, Effects.single (.insert hfresh)⟩

/-- Only actions stand at top level. -/
def ChainEvents.TopLevel : ChainEvents G → Prop
  | nil => True
  | action _ _ rest => rest.TopLevel
  | _ => False

theorem buildReplaySingle_meets {header c c' : V} {contents : ChainEvents G}
    {frame : ReplayFrame V} (hne : contents.length ≠ 0) (hl : contents.Linked c c')
    (hg : contents.Guarded header c c' c) :
    (buildReplaySingle contents c frame c').Meets (Fits header frame c c' contents.events)
      (fun _ => Stuck frame.inputs contents.events frame.sets) := by
  unfold buildReplaySingle
  split
  · obtain ⟨rfl, rfl⟩ := hl
    refine (buildReplayActionInsert_meets hg.1).bind (fun _ h => h) fun r hr => ?_
    exact ⟨hr.stateHeader, hr.beforeTx, hr.afterTx, hr.beforeChain, hr.afterChain, rfl,
      hr.effects⟩
  · have hcontents := buildReplayContents_meets (frame.rescope c c') hne hl hg
    exact (buildReplayAction_meets hcontents).bind (fun _ h => h) fun r hr => hr.map _

/-- The same for the top-level walk, fast path included. -/
theorem buildReplayActions_meets {header c c' : V} {events : ChainEvents G}
    (frame : ReplayFrame V) (hne : events.length ≠ 0) (htop : events.TopLevel)
    (hl : events.Linked c c')
    (hg : events.Guarded header frame.chainStart frame.chainEnd c) :
    (buildReplayActions events c frame).Meets (Fits header frame c c' events.events)
      (fun _ => Stuck frame.inputs events.events frame.sets) := by
  induction events generalizing frame c c' with
  | nil => exact absurd rfl hne
  | insert _ _ _ => exact htop.elim
  | mutate _ _ _ => exact htop.elim
  | delete _ _ _ => exact htop.elim
  | action chainAfter contents rest _ ih =>
    obtain ⟨hcne, hcl, hl⟩ := hl
    obtain ⟨hcg, hg⟩ := hg
    unfold buildReplayActions
    by_cases h : rest.length = 0
    · obtain ⟨rfl, hnil⟩ := hl.of_length h
      rw [if_pos h, ChainEvents.events, hnil, List.append_nil]
      exact buildReplaySingle_meets hcne hcl hcg
    · rw [if_neg h]
      have hcontents := buildReplayContents_meets (frame.rescope c chainAfter) hcne hcl hcg
      refine (buildReplayAction_meets hcontents).bind (fun _ h => h.append _) fun head hh => ?_
      rw [hh.chain]
      have hrest := ih (frame.advance head.created head.nullifiers) h htop hl hg
      refine hrest.bind (fun _ hstuck => hstuck.after hh.effects) fun tail ht => ?_
      have hjoin := hh.join (Q := Recursive G .actions) (R := Recursive G .actions)
        (E := fun _ => Stuck frame.inputs (contents.events ++ rest.events) frame.sets)
        (fun m mc p q => .actionsStep (.step m mc p q)) ht
      exact hjoin.bind (fun _ h => h) fun st hst => hst

end DigitalObjects.Txlib
