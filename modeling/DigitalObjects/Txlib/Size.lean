import DigitalObjects.Txlib.Finalize
set_option autoImplicit false

/-!
How large a finalized transaction is: whatever evidence was attached, `finalize` returns the
sets of the flat run of the calls, with one entry for each state that they create or consume.
-/

namespace DigitalObjects.Txlib

open Pod2 Lib
open Outcome (require Ensures bind_eq_ok)

variable {V : Type} [Values V] {G : Guard V}

/-! ## The chain that a replay ends at -/

section Chain

variable {P Q R : V → V → V → V → V → Type}

theorem applyStep_afterChain
    (mk : ∀ {h b a c c' : V} (midTx midChain : V), P h b midTx c midChain →
      Q h midTx a midChain c' → R h b a c c') (head : Proven P) (tail : Proven Q) :
    (applyStep (P := P) (Q := Q) (R := R) mk head tail).Ensures
      fun st => st.afterChain = tail.afterChain := by
  intro st h
  unfold applyStep at h
  dsimp only at h
  split at h
  · cases h
    rfl
  · cases h

theorem joinContents_afterChain {c' : V}
    {element : ∀ {h b a c c' : V}, P h b a c c' → Replay G h .element b a c c'}
    {step : ∀ {h b a c c' : V} (midTx midChain : V), P h b midTx c midChain →
      Replay G h .contents midTx a midChain c' → Replay G h .contents b a c c'}
    {frame : ReplayFrame V} {rest : ChainEvents G}
    {replayRest : V → ReplayFrame V → TxResult V (Replayed (Recursive G .contents))}
    {head : Replayed P} (hnil : rest.length = 0 → head.st.afterChain = c')
    (hrest : ∀ c f, (replayRest c f).Ensures fun r => r.st.afterChain = c') :
    (joinContents element step frame rest replayRest head).Ensures
      fun r => r.st.afterChain = c' := by
  unfold joinContents
  split
  case isTrue h => exact .of_ok (hnil h)
  case isFalse =>
    refine .bind fun tail htail => ?_
    refine .bind fun st hst => ?_
    have hafter := applyStep_afterChain (P := P) (Q := Recursive G .contents)
      (R := Recursive G .contents) step head.st tail.st st hst
    exact .of_ok (hafter.trans (hrest _ _ tail htail))

theorem buildReplayAction_afterChain
    (replayContents : V → ReplayFrame V → TxResult V (Replayed (Recursive G .contents)))
    (chain : V) (parent : ReplayFrame V) (chainAfter : V) :
    (buildReplayAction replayContents chain parent chainAfter).Ensures
      fun r => r.st.afterChain = chainAfter ∧ r.chain = chainAfter := by
  unfold buildReplayAction
  iterate 14 refine .bind fun _ _ => ?_
  exact .of_ok ⟨rfl, rfl⟩

theorem buildReplayInsert_afterChain (e : InsertEvent G) (frame : ReplayFrame V)
    (evidence : Statement G) :
    (buildReplayInsert e frame evidence).Ensures fun r => r.1.afterChain = e.chainAfter := by
  unfold buildReplayInsert
  iterate 10 refine .bind fun _ _ => ?_
  exact .of_ok rfl

theorem buildReplayMutate_afterChain (e : MutateEvent G) (frame : ReplayFrame V)
    (evidence : Statement G) :
    (buildReplayMutate e frame evidence).Ensures fun r => r.1.afterChain = e.chainAfter := by
  unfold buildReplayMutate
  iterate 5 refine .bind fun _ _ => ?_
  exact .of_ok rfl

theorem buildReplayDelete_afterChain (e : DeleteEvent G) (frame : ReplayFrame V)
    (evidence : Statement G) :
    (buildReplayDelete e frame evidence).Ensures fun r => r.1.afterChain = e.chainAfter := by
  unfold buildReplayDelete
  iterate 10 refine .bind fun _ _ => ?_
  exact .of_ok rfl

theorem buildReplayContents_afterChain {c c' : V} {events : ChainEvents G} (hl : events.Linked c c')
    (x : V) (frame : ReplayFrame V) :
    (buildReplayContents events x frame).Ensures fun r => r.st.afterChain = c' := by
  induction events generalizing c c' x frame with
  | nil =>
    intro r h
    cases h
  | insert e rest ih =>
    refine .bind fun evidence _ => .bind fun r hr => ?_
    have hhead := buildReplayInsert_afterChain e frame evidence r hr
    exact joinContents_afterChain (fun h => hhead.trans (hl.2.of_length h).1.symm) fun c f => ih hl.2 c f
  | mutate e rest ih =>
    refine .bind fun evidence _ => .bind fun r hr => ?_
    have hhead := buildReplayMutate_afterChain e frame evidence r hr
    exact joinContents_afterChain (fun h => hhead.trans (hl.2.of_length h).1.symm) fun c f => ih hl.2 c f
  | delete e rest ih =>
    refine .bind fun evidence _ => .bind fun r hr => ?_
    have hhead := buildReplayDelete_afterChain e frame evidence r hr
    exact joinContents_afterChain (fun h => hhead.trans (hl.2.of_length h).1.symm) fun c f => ih hl.2 c f
  | action chainAfter contents rest _ ih =>
    refine .bind fun head hh => ?_
    have hhead := (buildReplayAction_afterChain _ _ _ _ head hh).1
    exact joinContents_afterChain (fun h => hhead.trans (hl.2.2.of_length h).1.symm)
      fun c f => ih hl.2.2 c f

theorem buildReplayActionInsert_afterChain (e : InsertEvent G) (parent : ReplayFrame V) :
    (buildReplayActionInsert e parent).Ensures fun r => r.1.afterChain = e.chainAfter := by
  unfold buildReplayActionInsert
  iterate 9 refine .bind fun _ _ => ?_
  exact .of_ok rfl

theorem buildReplayActions_afterChain {c c' : V} {events : ChainEvents G} (hl : events.Linked c c')
    (x : V) (frame : ReplayFrame V) :
    (buildReplayActions events x frame).Ensures fun r => r.st.afterChain = c' := by
  induction events generalizing c c' x frame with
  | nil =>
    intro r h
    cases h
  | insert _ _ _ =>
    intro r h
    cases h
  | mutate _ _ _ =>
    intro r h
    cases h
  | delete _ _ _ =>
    intro r h
    cases h
  | action chainAfter contents rest _ ih =>
    obtain ⟨-, hcl, hl⟩ := hl
    unfold buildReplayActions
    split
    case isTrue h =>
      obtain ⟨rfl, -⟩ := hl.of_length h
      unfold buildReplaySingle
      split
      case h_1 =>
        refine .bind fun r hr => ?_
        have hafter := buildReplayActionInsert_afterChain _ frame r hr
        exact .of_ok (hafter.trans hcl.2.symm)
      case h_2 =>
        refine .bind fun r hr => ?_
        exact .of_ok (buildReplayAction_afterChain _ _ _ _ r hr).1
    case isFalse =>
      refine .bind fun head _ => .bind fun tail htail => .bind fun st hst => ?_
      have hafter := applyStep_afterChain (P := Recursive G .action) (Q := Recursive G .actions)
        (R := Recursive G .actions) (fun m mc p q => .actionsStep (.step m mc p q)) head.st tail.st st hst
      exact .of_ok (hafter.trans (ih hl _ _ tail htail))

end Chain

/-! ## The sets of a finalized transaction -/

theorem TxBuilder.finalize_chain {b : TxBuilder G} (hs : b.Sound) :
    b.finalize.Ensures fun r => b.actionStack = [] ∧ r.st.inputs = ofSet b.inputsSet ∧
      r.st.chainStart = b.chainStart ∧ r.st.chainFinal = b.chain := by
  unfold finalize
  refine .bind fun ⟨hclosed⟩ _ => .bind fun _ _ => .bind fun replayed hreplayed => ?_
  have hnil := List.eq_nil_of_length_eq_zero hclosed
  obtain ⟨c, hlinked, hstack⟩ := hs.linked
  rw [hnil] at hstack
  have hchain := buildReplayActions_afterChain hlinked _ _ replayed hreplayed
  iterate 9 refine .bind fun _ _ => ?_
  exact .of_ok ⟨hnil, rfl, rfl, hchain.trans hstack.symm⟩

/-- A finalized transaction is the flat run of the calls. -/
theorem TxBuilder.finalize_effects {inputs : List (Dictionary V)} {grounding : GroundingWitness V}
    {calls : List (BuilderCall G)} {b₀ b : TxBuilder G} {r : FinalizedTx G}
    (hnew : TxBuilder.new G inputs grounding = .ok b₀) (hrun : b₀.run calls = .ok b)
    (h : b.finalize = .ok r) :
    Effects (inputs.map ofDict).toFinset (callEvents calls) TxSets.start
      ⟨r.tx.created, r.tx.nullifiers⟩ := by
  obtain ⟨hs₀, hrec₀, -, -, hset₀, -⟩ := new_spec hnew
  obtain ⟨hs, hcont⟩ := run_spec hs₀ hrun
  obtain ⟨hnil, hin, hstart, hfinal⟩ := finalize_chain hs r h
  have hinputs : r.st.inputs = ofSet (inputs.map ofDict).toFinset := by
    rw [hin, hcont.inputsSet, hset₀]
  have hevents : b.events.events = callEvents calls := by
    have hrec := hcont.recorded
    rwa [hrec₀, List.nil_append, recorded, hnil, List.reverse_nil, List.flatMap_nil,
      List.append_nil] at hrec
  obtain ⟨c, hlinked, hstack⟩ := hs.linked
  rw [hnil] at hstack
  cases hstack
  have hsteps := hlinked.txSteps
  rw [← hstart, ← hfinal] at hsteps
  have hsame := (r.st.replay.txSteps.unique hsteps).trans hevents
  obtain ⟨s, heff, hcreated, hnullifiers, -⟩ := r.st.flat hinputs
  rw [ofSet_inj] at hcreated hnullifiers
  rw [hcreated, hnullifiers, ← hsame]
  exact heff

theorem Effect.card {inputs : Finset V} {e : Event V} {s s' : TxSets V} (h : Effect inputs e s s') :
    s'.created.card = s.created.card + (news [e]).length ∧
      s'.nullifiers.card = s.nullifiers.card + (olds [e]).length := by
  cases h with
  | insert fresh =>
    simp [Finset.card_insert_of_notMem fresh, news, olds, produced, consumed, Event.move]
  | mutate _ _ unspent fresh =>
    simp [Finset.card_insert_of_notMem fresh, Finset.card_insert_of_notMem unspent, news, olds,
      produced, consumed, Event.move]
  | delete _ _ unspent =>
    simp [Finset.card_insert_of_notMem unspent, news, olds, produced, consumed, Event.move]

omit [Values V] in
theorem news_cons (e : Event V) (es : List (Event V)) : news (e :: es) = news [e] ++ news es := by
  simp [news, produced, List.filterMap_cons]
  split <;> simp

omit [Values V] in
theorem olds_cons (e : Event V) (es : List (Event V)) : olds (e :: es) = olds [e] ++ olds es := by
  simp [olds, consumed, List.filterMap_cons]
  split <;> simp

/-- Every created state and every consumed one takes one place. -/
theorem Effects.card {inputs : Finset V} {es : List (Event V)} {s s' : TxSets V}
    (h : Effects inputs es s s') :
    s'.created.card = s.created.card + (news es).length ∧
      s'.nullifiers.card = s.nullifiers.card + (olds es).length := by
  induction es generalizing s with
  | nil =>
    cases h
    simp [news, olds, produced, consumed]
  | cons e es ih =>
    obtain ⟨mid, hstep, hrest⟩ := h
    obtain ⟨hc, hn⟩ := hstep.card
    obtain ⟨hc', hn'⟩ := ih hrest
    rw [news_cons, olds_cons, List.length_append, List.length_append]
    omega

/-! ## Transactions that mint any number of objects -/

/-- Guarded calls whose flat run is possible finalize. -/
theorem TxBuilder.finalize_of_flatRun {inputs : List (Dictionary V)} {grounding : GroundingWitness V}
    {calls : List (BuilderCall G)} {b₀ b : TxBuilder G}
    (hnew : TxBuilder.new G inputs grounding = .ok b₀) (hrun : b₀.run calls = .ok b)
    (hclosed : b.actionStack = []) (hne : 0 < b.events.length)
    (hguards : b.events.Guarded grounding.stateHeader.hash empty empty b.chainStart)
    (hflat : FlatRun (inputs.map ofDict).toFinset (callEvents calls))
    (hkeyed : ∀ x ∈ olds (callEvents calls), Keyed x) : ∃ r, b.finalize = .ok r := by
  obtain ⟨hs₀, hrec₀, hinputs₀, hheader₀, hset₀, hseed₀⟩ := new_spec hnew
  obtain ⟨hs, hcont⟩ := run_spec hs₀ hrun
  have hin : b.inputsSet = (inputs.map ofDict).toFinset := hcont.inputsSet.trans hset₀
  have hevents : b.events.events = callEvents calls := by
    have hrec := hcont.recorded
    rwa [hrec₀, List.nil_append, recorded, hclosed, List.reverse_nil, List.flatMap_nil,
      List.append_nil] at hrec
  have hmeets := finalize_meets hs (by rw [hin, hcont.inputs, hinputs₀])
    (by rw [hcont.chainStart, hseed₀, hcont.inputsSet]) (by rw [hclosed]; rfl) hne
    (by rw [hcont.stateHeader, hheader₀]; exact hguards)
  rw [hevents, hin, effects_iff_flatRun] at hmeets
  rcases hmeets.ok_or_err with ⟨r, hr, -⟩ | ⟨e, -, hno⟩
  · exact ⟨r, hr⟩
  · exact absurd ⟨hflat, hkeyed⟩ hno

section Mint

variable (grounding : GroundingWitness V) (type : V)

/-- An object that can be inserted: typed, and without an identifier of its own. -/
structure Mintable where
  object : Dictionary V
  fresh : "stable_identifier" ∉ object
  typed : object.lookup "type" = some type

variable {type}

def mintChain (c : V) (m : Mintable type) : V := hash c (hash empty (stamped m.object))

def mintGuard (c : V) (m : Mintable type) : Statement (fun _ _ _ _ _ : V => True) :=
  .guard ⟨type, stamped m.object, grounding.stateHeader.hash, c, mintChain c m, trivial⟩

/-- One action for each object, which inserts it. -/
def mintCalls : Nat → V → List (Mintable type) → List (BuilderCall (fun _ _ _ _ _ : V => True))
  | _, _, [] => []
  | k, c, m :: ms =>
    .beginAction :: .insert m.object :: .setGuard ⟨k, 0⟩ (mintGuard grounding c m) :: .endAction k ::
      mintCalls (k + 1) (mintChain c m) ms

def mintEvents : V → List (Mintable type) → ChainEvents (fun _ _ _ _ _ : V => True)
  | _, [] => .nil
  | c, m :: ms =>
    .action (mintChain c m) (.insert (.record c m.fresh m.typed (some (mintGuard grounding c m))) .nil)
      (mintEvents (mintChain c m) ms)

theorem ChainEvents.append_assoc (es fs gs : ChainEvents G) :
    (es.append fs).append gs = es.append (fs.append gs) := by
  induction es with
  | nil => rfl
  | insert e rest ih => simp [append, ih]
  | mutate e rest ih => simp [append, ih]
  | delete e rest ih => simp [append, ih]
  | action chainAfter contents rest _ ih => simp [append, ih]

theorem ChainEvents.append_nil (es : ChainEvents G) : es.append .nil = es := by
  induction es with
  | nil => rfl
  | insert e rest ih => simp [append, ih]
  | mutate e rest ih => simp [append, ih]
  | delete e rest ih => simp [append, ih]
  | action chainAfter contents rest _ ih => simp [append, ih]

theorem mintCalls_run (k : Nat) (c : V) (es : ChainEvents (fun _ _ _ _ _ : V => True))
    (ms : List (Mintable type)) :
    (nestedBuilder grounding c es [] k).run (mintCalls grounding k c ms) =
      .ok (nestedBuilder grounding (ms.foldl mintChain c) (es.append (mintEvents grounding c ms)) []
        (k + ms.length)) := by
  induction ms generalizing k c es with
  | nil => simp [mintCalls, mintEvents, TxBuilder.run, ChainEvents.append_nil]
  | cons m ms ih =>
    have hinsert := TxBuilder.insert_ok
      (b := nestedBuilder grounding c es [⟨.nil, k⟩] (k + 1)) (by simp [nestedBuilder])
      m.fresh m.typed
    rw [mintCalls, TxBuilder.run]
    change (BuilderCall.run (nestedBuilder grounding c es [⟨.nil, k⟩] (k + 1))
      (.insert m.object) >>= fun b => b.run _) = _
    have hguard : BuilderCall.run (TxBuilder.pushEvent
        { nestedBuilder grounding c es [⟨.nil, k⟩] (k + 1) with chain := mintChain c m }
        (.insert (.record c m.fresh m.typed none) .nil)) (.setGuard ⟨k, 0⟩ (mintGuard grounding c m)) =
        .ok (nestedBuilder grounding (mintChain c m) es [⟨.insert (.record c m.fresh m.typed
          (some (mintGuard grounding c m))) .nil, k⟩] (k + 1)) := by
      simp [BuilderCall.run, TxBuilder.setGuard, TxBuilder.pushEvent, nestedBuilder,
        ChainEvents.append, ChainEvents.setGuard, ChainEvents.attach, require, InsertEvent.record]
    have hend : BuilderCall.run (nestedBuilder grounding (mintChain c m) es [⟨.insert (.record c
          m.fresh m.typed (some (mintGuard grounding c m))) .nil, k⟩] (k + 1)) (.endAction k) =
        .ok (nestedBuilder grounding (mintChain c m) (es.append (.action (mintChain c m) (.insert
          (.record c m.fresh m.typed (some (mintGuard grounding c m))) .nil) .nil)) [] (k + 1)) := by
      simp [BuilderCall.run, TxBuilder.endAction, TxBuilder.verifyScopeGuards, TxBuilder.pushEvent,
        nestedBuilder, ChainEvents.guardsSet, ChainEvents.length, require, InsertEvent.record]
    rw [hinsert, Outcome.ok_bind, TxBuilder.run]
    change (BuilderCall.run (TxBuilder.pushEvent
      { nestedBuilder grounding c es [⟨.nil, k⟩] (k + 1) with chain := mintChain c m }
      (.insert (.record c m.fresh m.typed none) .nil)) _ >>= fun b => b.run _) = _
    rw [hguard, Outcome.ok_bind, TxBuilder.run, hend, Outcome.ok_bind, ih, ChainEvents.append_assoc]
    have hcount : k + 1 + ms.length = k + (ms.length + 1) := by omega
    simp [mintEvents, ChainEvents.append, hcount]

theorem mintEvents_guarded (s e c : V) (ms : List (Mintable type)) :
    (mintEvents grounding c ms).Guarded grounding.stateHeader.hash s e c := by
  induction ms generalizing c with
  | nil => trivial
  | cons m ms ih => exact ⟨⟨⟨_, rfl, rfl, rfl, rfl, rfl, rfl⟩, trivial⟩, ih (mintChain c m)⟩

theorem callEvents_mintCalls (k : Nat) (c : V) (ms : List (Mintable type)) :
    callEvents (mintCalls grounding k c ms) = ms.map fun m => .insert (stamped m.object) := by
  induction ms generalizing k c with
  | nil => rfl
  | cons m ms ih =>
    have htail := ih (k + 1) (mintChain c m)
    simp only [callEvents, mintCalls, List.flatMap_cons, BuilderCall.events, List.map_cons,
      List.nil_append, List.singleton_append] at htail ⊢
    rw [htail]

omit [Values V] in
theorem news_inserts (xs : List V) : news (xs.map Event.insert) = xs := by
  induction xs with
  | nil => rfl
  | cons x xs ih =>
    rw [List.map_cons, news_cons, ih]
    rfl

omit [Values V] in
theorem olds_inserts (xs : List V) : olds (xs.map Event.insert) = [] := by
  induction xs with
  | nil => rfl
  | cons x xs ih =>
    rw [List.map_cons, olds_cons, ih]
    rfl

/-- Any number of distinct objects, at least one, can be minted in one transaction. -/
theorem mint_finalizes (ms : List (Mintable type)) (hne : ms ≠ [])
    (hnodup : (ms.map fun m => stamped m.object).Nodup) :
    ∃ b r, (nestedBuilder grounding nestedStart .nil [] 0).run (mintCalls grounding 0 nestedStart ms) =
        .ok b ∧ b.finalize = .ok r := by
  have hevents : callEvents (mintCalls grounding 0 nestedStart ms) =
      (ms.map fun m => stamped m.object).map Event.insert := by
    rw [callEvents_mintCalls, List.map_map]
    rfl
  have hrun := mintCalls_run grounding 0 nestedStart .nil ms
  obtain ⟨m, rest, rfl⟩ := List.exists_cons_of_ne_nil hne
  have hflat : FlatRun ((([] : List (Dictionary V)).map ofDict).toFinset)
      (callEvents (mintCalls grounding 0 nestedStart (m :: rest))) := by
    rw [hevents]
    refine ⟨?_, by rw [olds_inserts]; exact List.nodup_nil, by rw [news_inserts]; exact hnodup, by simp⟩
    intro pre e post heq old hold
    have hmem : e ∈ ((m :: rest).map fun m => stamped m.object).map Event.insert := by
      rw [heq]
      simp
    obtain ⟨x, -, rfl⟩ := List.mem_map.mp hmem
    cases hold
  obtain ⟨r, hr⟩ := TxBuilder.finalize_of_flatRun (nestedCalls_new grounding) hrun rfl
    (by simp [nestedBuilder, mintEvents, ChainEvents.append, ChainEvents.length])
    (mintEvents_guarded grounding _ _ _ _) hflat
    (by rw [hevents, olds_inserts]; simp)
  exact ⟨_, r, hrun, hr⟩

end Mint

end DigitalObjects.Txlib
