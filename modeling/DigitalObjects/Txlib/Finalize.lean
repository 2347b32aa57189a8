import DigitalObjects.Txlib.Completeness
import DigitalObjects.Pod2.Terms
import Mathlib.Data.Fintype.Basic
set_option autoImplicit false

/-!
Runs of the builder. What the calls record is kept by one invariant over the open
scopes, and `finalize` is compared with the flat run of all events of the calls.
-/

namespace DigitalObjects.Txlib

open Pod2 Lib
open Outcome (require Meets bind_eq_ok)

variable {V : Type} [Values V] {G : Guard V}

namespace ChainEvents

theorem Linked.append {c m c' : V} {es fs : ChainEvents G} (h : Linked c es m)
    (h' : Linked m fs c') : Linked c (es.append fs) c' := by
  induction es generalizing c with
  | nil =>
    cases h
    exact h'
  | insert e rest ih => exact ⟨h.1, ih h.2⟩
  | mutate e rest ih => exact ⟨h.1, ih h.2⟩
  | delete e rest ih => exact ⟨h.1, ih h.2⟩
  | action chainAfter contents rest _ ih => exact ⟨h.1, h.2.1, ih h.2.2⟩

theorem events_append (es fs : ChainEvents G) :
    (es.append fs).events = es.events ++ fs.events := by
  induction es with
  | nil => rfl
  | insert e rest ih => simp [append, events, ih]
  | mutate e rest ih => simp [append, events, ih]
  | delete e rest ih => simp [append, events, ih]
  | action chainAfter contents rest _ ih => simp [append, events, ih]

theorem TopLevel.append {es fs : ChainEvents G} (h : es.TopLevel) (h' : fs.TopLevel) :
    (es.append fs).TopLevel := by
  induction es with
  | nil => exact h'
  | insert e rest ih => exact h.elim
  | mutate e rest ih => exact h.elim
  | delete e rest ih => exact h.elim
  | action chainAfter contents rest _ ih => exact ih h

/-- Recorded positions are chain steps of the recorded events. -/
theorem Linked.txSteps {c c' : V} {es : ChainEvents G} (h : Linked c es c') :
    TxSteps c es.events c' := by
  induction es generalizing c c' with
  | nil => exact h
  | insert e rest ih =>
    obtain ⟨rfl, h⟩ := h
    exact ⟨e.chainAfter, ⟨_, _, e.txStmt⟩, ih h⟩
  | mutate e rest ih =>
    obtain ⟨rfl, h⟩ := h
    exact ⟨e.chainAfter, ⟨_, e.txStmt⟩, ih h⟩
  | delete e rest ih =>
    obtain ⟨rfl, h⟩ := h
    exact ⟨e.chainAfter, ⟨_, e.txStmt⟩, ih h⟩
  | action chainAfter contents rest ihContents ih =>
    exact (ihContents h.2.1).append (ih h.2.2)

theorem setGuard_linked {guard : Statement G} {es es' : ChainEvents G} {n : Nat}
    (h : setGuard guard es n = .ok es') :
    es'.events = es.events ∧ ∀ c c', Linked c es c' → Linked c es' c' := by
  induction es generalizing es' n with
  | nil => cases h
  | insert e rest ih =>
    cases n with
    | zero =>
      obtain ⟨_, -, h⟩ := bind_eq_ok h
      cases h
      exact ⟨rfl, fun _ _ hl => hl⟩
    | succ n =>
      obtain ⟨rest', hrest, h⟩ := bind_eq_ok h
      cases h
      have hr := ih hrest
      exact ⟨by rw [events, hr.1, events], fun _ _ hl => ⟨hl.1, hr.2 _ _ hl.2⟩⟩
  | mutate e rest ih =>
    cases n with
    | zero =>
      obtain ⟨_, -, h⟩ := bind_eq_ok h
      cases h
      exact ⟨rfl, fun _ _ hl => hl⟩
    | succ n =>
      obtain ⟨rest', hrest, h⟩ := bind_eq_ok h
      cases h
      have hr := ih hrest
      exact ⟨by rw [events, hr.1, events], fun _ _ hl => ⟨hl.1, hr.2 _ _ hl.2⟩⟩
  | delete e rest ih =>
    cases n with
    | zero =>
      obtain ⟨_, -, h⟩ := bind_eq_ok h
      cases h
      exact ⟨rfl, fun _ _ hl => hl⟩
    | succ n =>
      obtain ⟨rest', hrest, h⟩ := bind_eq_ok h
      cases h
      have hr := ih hrest
      exact ⟨by rw [events, hr.1, events], fun _ _ hl => ⟨hl.1, hr.2 _ _ hl.2⟩⟩
  | action chainAfter contents rest _ ih =>
    cases n with
    | zero => cases h
    | succ n =>
      obtain ⟨rest', hrest, h⟩ := bind_eq_ok h
      cases h
      have hr := ih hrest
      exact ⟨by rw [events, hr.1, events], fun _ _ hl => ⟨hl.1, hl.2.1, hr.2 _ _ hl.2.2⟩⟩

end ChainEvents

/-- Open scopes, the top one first: each begins where the one below it stands. -/
def Stacked (c : V) : List (ActionScope G) → V → Prop
  | [], c' => c' = c
  | scope :: scopes, c' => ∃ mid, Stacked c scopes mid ∧ scope.events.Linked mid c'

namespace TxBuilder

/-- The chain from its seed through the closed actions and the open scopes. -/
structure Sound (b : TxBuilder G) : Prop where
  top : b.events.TopLevel
  linked : ∃ c, b.events.Linked b.chainStart c ∧ Stacked c b.actionStack b.chain

/-- Everything recorded so far, the open scopes included. -/
def recorded (b : TxBuilder G) : List (Event V) :=
  b.events.events ++ b.actionStack.reverse.flatMap fun s => s.events.events

def inputsSet (b : TxBuilder G) : Finset V := b.stInputsGrounded.inputsSet

/-- `b'` is `b` after recording `es`; the rest of a builder never changes. -/
structure Continues (b : TxBuilder G) (es : List (Event V)) (b' : TxBuilder G) : Prop where
  chainStart : b'.chainStart = b.chainStart
  stateHeader : b'.stateHeader = b.stateHeader
  inputs : b'.inputs = b.inputs
  inputsSet : b'.inputsSet = b.inputsSet
  recorded : b'.recorded = b.recorded ++ es

theorem pushEvent_spec {b : TxBuilder G} {chain : V} {event : ChainEvents G} (hs : b.Sound)
    (hl : event.Linked b.chain chain) (hopen : b.actionStack = [] → event.TopLevel) :
    (pushEvent { b with chain } event).Sound ∧
      b.Continues event.events (pushEvent { b with chain } event) := by
  obtain ⟨c, hclosed, hstack⟩ := hs.linked
  cases hst : b.actionStack with
  | nil =>
    rw [hst] at hstack
    have heq : b.chain = c := hstack
    rw [heq] at hl
    refine ⟨⟨?_, chain, ?_, ?_⟩, ?_⟩
    · simpa [pushEvent, hst] using hs.top.append (hopen hst)
    · simpa [pushEvent, hst] using hclosed.append hl
    · simp [pushEvent, Stacked]
    · constructor <;>
        simp [pushEvent, hst, recorded, TxBuilder.inputsSet, ChainEvents.events_append]
  | cons scope scopes =>
    rw [hst] at hstack
    obtain ⟨mid, hbelow, hscope⟩ := hstack
    refine ⟨⟨?_, c, ?_, ?_⟩, ?_⟩
    · simpa [pushEvent, hst] using hs.top
    · simpa [pushEvent, hst] using hclosed
    · simp only [pushEvent]
      exact ⟨mid, hbelow, hscope.append hl⟩
    · constructor <;>
        simp [pushEvent, hst, recorded, TxBuilder.inputsSet, ChainEvents.events_append]

theorem beginAction_spec {b : TxBuilder G} (hs : b.Sound) :
    b.beginAction.1.Sound ∧ b.Continues [] b.beginAction.1 := by
  obtain ⟨c, hclosed, hstack⟩ := hs.linked
  refine ⟨⟨hs.top, c, hclosed, b.chain, hstack, rfl⟩, ?_⟩
  constructor <;> simp [beginAction, recorded, TxBuilder.inputsSet, ChainEvents.events]

theorem insert_spec {b b' : TxBuilder G} {initial new : Dictionary V} {handle : EventHandle}
    (hs : b.Sound) (h : b.insert initial = .ok (b', new, handle)) :
    b'.Sound ∧ b.Continues [.insert (stamped initial)] b' := by
  obtain ⟨⟨hopen⟩, -, h⟩ := bind_eq_ok h
  obtain ⟨new', hnew, h⟩ := bind_eq_ok h
  obtain ⟨_, -, hnew⟩ := bind_eq_ok hnew
  cases hnew
  obtain ⟨type, -, h⟩ := bind_eq_ok h
  obtain ⟨⟨_⟩, -, h⟩ := bind_eq_ok h
  obtain ⟨⟨_⟩, -, h⟩ := bind_eq_ok h
  obtain ⟨_, -, h⟩ := bind_eq_ok h
  cases h
  exact pushEvent_spec hs ⟨rfl, rfl⟩ (fun hst => absurd (by rw [hst]; rfl) hopen)

theorem mutate_spec {b b' : TxBuilder G} {new old : Dictionary V} {handle : EventHandle}
    (hs : b.Sound) (h : b.mutate new old = .ok (b', handle)) :
    b'.Sound ∧ b.Continues [.mutate (ofDict old) (ofDict new)] b' := by
  obtain ⟨⟨hopen⟩, -, h⟩ := bind_eq_ok h
  obtain ⟨newType, -, h⟩ := bind_eq_ok h
  obtain ⟨oldType, -, h⟩ := bind_eq_ok h
  obtain ⟨_, -, h⟩ := bind_eq_ok h
  obtain ⟨newId, -, h⟩ := bind_eq_ok h
  obtain ⟨oldId, -, h⟩ := bind_eq_ok h
  obtain ⟨⟨_⟩, -, h⟩ := bind_eq_ok h
  obtain ⟨⟨_⟩, -, h⟩ := bind_eq_ok h
  obtain ⟨⟨_⟩, -, h⟩ := bind_eq_ok h
  obtain ⟨⟨_⟩, -, h⟩ := bind_eq_ok h
  obtain ⟨⟨_⟩, -, h⟩ := bind_eq_ok h
  obtain ⟨_, -, h⟩ := bind_eq_ok h
  cases h
  exact pushEvent_spec hs ⟨rfl, rfl⟩ (fun hst => absurd (by rw [hst]; rfl) hopen)

theorem delete_spec {b b' : TxBuilder G} {old : Dictionary V} {handle : EventHandle}
    (hs : b.Sound) (h : b.delete old = .ok (b', handle)) :
    b'.Sound ∧ b.Continues [.delete (ofDict old)] b' := by
  obtain ⟨⟨hopen⟩, -, h⟩ := bind_eq_ok h
  obtain ⟨type, -, h⟩ := bind_eq_ok h
  obtain ⟨⟨_⟩, -, h⟩ := bind_eq_ok h
  obtain ⟨_, -, h⟩ := bind_eq_ok h
  cases h
  exact pushEvent_spec hs ⟨rfl, rfl⟩ (fun hst => absurd (by rw [hst]; rfl) hopen)

/-- The object that `rekey` records. -/
def rekeyed (old : Dictionary V) (newKey : V) : Dictionary V :=
  (old.insert "key" empty).insert "key" newKey

theorem rekey_spec {b b' : TxBuilder G} {old new : Dictionary V} {newKey : V}
    {handle : EventHandle} (hs : b.Sound) (h : b.rekey old newKey = .ok (b', new, handle)) :
    b'.Sound ∧ b.Continues [.mutate (ofDict old) (ofDict (rekeyed old newKey))] b' := by
  obtain ⟨mid, hmid, h⟩ := bind_eq_ok h
  obtain ⟨_, -, hmid⟩ := bind_eq_ok hmid
  cases hmid
  obtain ⟨new', hnew, h⟩ := bind_eq_ok h
  obtain ⟨_, -, hnew⟩ := bind_eq_ok hnew
  cases hnew
  obtain ⟨⟨b'', handle'⟩, hmutate, h⟩ := bind_eq_ok h
  obtain ⟨_, -, h⟩ := bind_eq_ok h
  obtain ⟨_, -, h⟩ := bind_eq_ok h
  cases h
  exact mutate_spec hs hmutate

theorem setGuard_spec {b b' : TxBuilder G} {handle : EventHandle} {guard : Statement G}
    (hs : b.Sound) (h : b.setGuard handle guard = .ok b') : b'.Sound ∧ b.Continues [] b' := by
  obtain ⟨c, hclosed, hstack⟩ := hs.linked
  unfold setGuard at h
  cases hst : b.actionStack with
  | nil =>
    rw [hst] at h
    cases h
  | cons scope scopes =>
    rw [hst] at h hstack
    obtain ⟨_, -, h⟩ := bind_eq_ok h
    obtain ⟨events, hset, h⟩ := bind_eq_ok h
    cases h
    obtain ⟨hevents, hlinked⟩ := ChainEvents.setGuard_linked hset
    obtain ⟨mid, hbelow, hscope⟩ := hstack
    refine ⟨⟨hs.top, c, hclosed, mid, hbelow, hlinked _ _ hscope⟩, ?_⟩
    constructor <;> simp [recorded, TxBuilder.inputsSet, hst, hevents]

theorem endAction_spec {b b' : TxBuilder G} {scopeId : Nat} (hs : b.Sound)
    (h : b.endAction scopeId = .ok b') : b'.Sound ∧ b.Continues [] b' := by
  obtain ⟨c, hclosed, hstack⟩ := hs.linked
  obtain ⟨_, -, h⟩ := bind_eq_ok h
  cases hst : b.actionStack with
  | nil =>
    rw [hst] at h
    cases h
  | cons scope scopes =>
    rw [hst] at h hstack
    obtain ⟨_, -, h⟩ := bind_eq_ok h
    obtain ⟨⟨hne⟩, -, h⟩ := bind_eq_ok h
    cases h
    obtain ⟨mid, hbelow, hscope⟩ := hstack
    -- Before the pushed action, the chain stands where the closed scope began.
    have hbefore : Sound { b with actionStack := scopes, chain := mid } :=
      ⟨hs.top, c, hclosed, hbelow⟩
    have hl : (ChainEvents.action b.chain scope.events .nil).Linked mid b.chain :=
      ⟨by omega, hscope, rfl⟩
    obtain ⟨hsound, hcont⟩ := pushEvent_spec hbefore hl (fun _ => trivial)
    refine ⟨hsound, hcont.chainStart, hcont.stateHeader, hcont.inputs, hcont.inputsSet, ?_⟩
    refine hcont.recorded.trans ?_
    simp [recorded, hst, ChainEvents.events]

theorem Continues.trans {b b' b'' : TxBuilder G} {es fs : List (Event V)}
    (h : b.Continues es b') (h' : b'.Continues fs b'') : b.Continues (es ++ fs) b'' where
  chainStart := h'.chainStart.trans h.chainStart
  stateHeader := h'.stateHeader.trans h.stateHeader
  inputs := h'.inputs.trans h.inputs
  inputsSet := h'.inputsSet.trans h.inputsSet
  recorded := by rw [h'.recorded, h.recorded, List.append_assoc]

end TxBuilder

/-- The event that a call asks to record. -/
def BuilderCall.events : BuilderCall G → List (Event V)
  | .beginAction => []
  | .insert initial => [.insert (stamped initial)]
  | .mutate new old => [.mutate (ofDict old) (ofDict new)]
  | .rekey old newKey => [.mutate (ofDict old) (ofDict (TxBuilder.rekeyed old newKey))]
  | .delete old => [.delete (ofDict old)]
  | .setGuard _ _ => []
  | .endAction _ => []

theorem BuilderCall.run_spec {b b' : TxBuilder G} {call : BuilderCall G} (hs : b.Sound)
    (h : call.run b = .ok b') : b'.Sound ∧ b.Continues call.events b' := by
  cases call with
  | beginAction =>
    cases h
    exact TxBuilder.beginAction_spec hs
  | insert initial =>
    obtain ⟨r, hr, h⟩ := bind_eq_ok h
    cases h
    exact TxBuilder.insert_spec hs hr
  | mutate new old =>
    obtain ⟨r, hr, h⟩ := bind_eq_ok h
    cases h
    exact TxBuilder.mutate_spec hs hr
  | rekey old newKey =>
    obtain ⟨r, hr, h⟩ := bind_eq_ok h
    cases h
    exact TxBuilder.rekey_spec hs hr
  | delete old =>
    obtain ⟨r, hr, h⟩ := bind_eq_ok h
    cases h
    exact TxBuilder.delete_spec hs hr
  | setGuard handle guard => exact TxBuilder.setGuard_spec hs h
  | endAction scopeId => exact TxBuilder.endAction_spec hs h

/-- The events of a whole sequence of calls, whatever scopes they are made in. -/
def callEvents (calls : List (BuilderCall G)) : List (Event V) := calls.flatMap BuilderCall.events

theorem TxBuilder.run_spec {b b' : TxBuilder G} {calls : List (BuilderCall G)} (hs : b.Sound)
    (h : b.run calls = .ok b') : b'.Sound ∧ b.Continues (callEvents calls) b' := by
  induction calls generalizing b with
  | nil =>
    cases h
    exact ⟨hs, rfl, rfl, rfl, rfl, by simp [callEvents]⟩
  | cons call calls ih =>
    obtain ⟨mid, hmid, h⟩ := bind_eq_ok h
    obtain ⟨hsmid, hcall⟩ := BuilderCall.run_spec hs hmid
    obtain ⟨hs', hrest⟩ := ih hsmid h
    exact ⟨hs', hcall.trans hrest⟩

/-! ## The grounded inputs -/

theorem extendSet_eq {set : Finset V} {obj : Dictionary V}
    {r : {s : Finset V // SetInsert (ofSet set) (ofDict obj) (ofSet s)}}
    (h : extendSet set obj = .ok r) : r.1 = insert (ofDict obj) set := by
  obtain ⟨_, -, h⟩ := bind_eq_ok h
  cases h
  rfl

theorem peelInputs_eq {root : V} {grounding : GroundingWitness V} {inputs : List (Dictionary V)}
    {st r : GroundedInputs root} (h : peelInputs root grounding inputs st = .ok r) :
    r.inputsSet = st.inputsSet ∪ (inputs.map ofDict).toFinset := by
  induction inputs, st using peelInputs.induct with
  | case1 st =>
    cases h
    simp
  | case2 => cases h
  | case3 first second rest st ih =>
    obtain ⟨mid, hmid, h⟩ := bind_eq_ok h
    obtain ⟨next, hnext, h⟩ := bind_eq_ok h
    obtain ⟨stFirst, -, h⟩ := bind_eq_ok h
    obtain ⟨stSecond, -, h⟩ := bind_eq_ok h
    refine (ih mid next stFirst stSecond h).trans ?_
    simp only [extendSet_eq hnext, extendSet_eq hmid]
    ext x
    simp only [List.map_cons, List.toFinset_cons, Finset.mem_union, Finset.mem_insert]
    tauto

theorem buildInputsGrounded_eq {inputs : List (Dictionary V)} {grounding : GroundingWitness V}
    {r : GroundedInputs grounding.stateHeader.createdRoot}
    (h : buildInputsGrounded inputs grounding = .ok r) :
    r.inputsSet = (inputs.map ofDict).toFinset := by
  unfold buildInputsGrounded at h
  cases inputs with
  | nil =>
    cases h
    rfl
  | cons obj rest =>
    simp only at h
    split at h
    · obtain ⟨set, hset, h⟩ := bind_eq_ok h
      obtain ⟨_, -, h⟩ := bind_eq_ok h
      refine (peelInputs_eq h).trans ?_
      simp only [extendSet_eq hset]
      ext x
      simp
    · cases rest with
      | nil => cases h
      | cons second rest =>
        obtain ⟨setFirst, hfirst, h⟩ := bind_eq_ok h
        obtain ⟨pair, hpair, h⟩ := bind_eq_ok h
        obtain ⟨_, -, h⟩ := bind_eq_ok h
        obtain ⟨_, -, h⟩ := bind_eq_ok h
        refine (peelInputs_eq h).trans ?_
        simp only [extendSet_eq hpair, extendSet_eq hfirst]
        ext x
        simp only [List.map_cons, List.toFinset_cons, Finset.mem_union, Finset.mem_insert,
          Finset.notMem_empty, or_false]
        tauto

theorem TxBuilder.new_spec {inputs : List (Dictionary V)} {grounding : GroundingWitness V}
    {b : TxBuilder G} (h : TxBuilder.new G inputs grounding = .ok b) :
    b.Sound ∧ b.recorded = [] ∧ b.inputs = inputs ∧ b.stateHeader = grounding.stateHeader ∧
      b.inputsSet = (inputs.map ofDict).toFinset ∧
      b.chainStart = hash (ofSet b.inputsSet) empty := by
  obtain ⟨st, hst, h⟩ := bind_eq_ok h
  cases h
  refine ⟨⟨trivial, _, rfl, rfl⟩, ?_, rfl, rfl, buildInputsGrounded_eq hst, rfl⟩
  simp [recorded, ChainEvents.events]

/-! ## Finalization -/

theorem checkSpent_meets (ns : Finset V) (inputs : List (Dictionary V)) :
    (checkSpent ns inputs).Meets (fun _ => ∀ x ∈ inputs, ∃ n ∈ ns, Nullify n (ofDict x))
      (fun _ => ¬ ∀ x ∈ inputs, ∃ n ∈ ns, Nullify n (ofDict x)) := by
  induction inputs with
  | nil => simp [checkSpent]
  | cons input inputs ih =>
    unfold checkSpent objectNullifierHash
    cases hkey : input.lookup "key" with
    | none =>
      have hhash : objectKeyHash input = .err .missingKey := by
        unfold objectKeyHash
        rw [hkey]
      rw [hhash]
      intro hall
      obtain ⟨n, -, hn⟩ := hall input List.mem_cons_self
      obtain ⟨key, hk, -⟩ := nullify_ofDict.mp hn
      rw [hkey] at hk
      cases hk
    | some key =>
      have hhash : objectKeyHash input = .ok (hash (ofDict input) key) := by
        unfold objectKeyHash
        rw [hkey]
      have hn := nullify_ofDict.mpr ⟨key, hkey, rfl⟩
      simp only [hhash, Outcome.ok_bind, Outcome.pure_eq]
      by_cases hmem : objectNullifierFromKeyHash (hash (ofDict input) key) ∈ ns
      · rw [if_neg (not_not.mpr hmem)]
        refine ih.mono ?_ ?_
        · intro _ hall x hx
          rcases List.mem_cons.mp hx with rfl | hx
          · exact ⟨_, hmem, hn⟩
          · exact hall x hx
        · intro _ hnot hall
          exact hnot fun x hx => hall x (List.mem_cons_of_mem _ hx)
      · rw [if_pos hmem]
        intro hall
        obtain ⟨n, hin, hnul⟩ := hall input List.mem_cons_self
        rw [hnul.functional hn] at hin
        exact hmem hin

/-- The inputs are spent exactly when the events consume them. -/
theorem Effects.spent_iff {inputs : Finset V} {es : List (Event V)} {s : TxSets V}
    (h : Effects inputs es TxSets.start s) (x : V) :
    (∃ n ∈ s.nullifiers, Nullify n x) ↔ x ∈ olds es := by
  constructor
  · rintro ⟨n, hn, hx⟩
    rcases (h.mem_nullifiers n).mp hn with hn | ⟨y, hy, hny⟩
    · simp [TxSets.start] at hn
    · rw [hx.injective hny]
      exact hy
  · intro hx
    obtain ⟨n, hn⟩ := h.keyed x hx
    exact ⟨n, (h.mem_nullifiers n).mpr (.inr ⟨x, hx, hn⟩), hn⟩

theorem schema_buildTx (inputs : Finset V) :
    DictInsert (ofDict (scopeDict empty empty empty empty)) (ofStr "inputs") (ofSet inputs)
      (ofDict (buildTx inputs ∅ ∅ empty empty)) := by
  rw [dictInsert_ofDict, ← Finmap.lookup_eq_none, lookup_scopeDict, buildTx, ofSet_empty_eq]
  simp

theorem TxBuilder.finalize_meets {b : TxBuilder G} (hs : b.Sound)
    (hin : b.inputsSet = (b.inputs.map ofDict).toFinset)
    (hseed : b.chainStart = hash (ofSet b.inputsSet) empty)
    (hclosed : b.actionStack.length = 0) (hne : 0 < b.events.length)
    (hg : b.events.Guarded b.stateHeader.hash empty empty b.chainStart) :
    b.finalize.Meets
      (fun r => r.tx.stateHeader = b.stateHeader ∧ r.st.inputs = ofSet b.inputsSet ∧
        r.st.chainFinal = b.chain ∧
        Effects b.inputsSet b.events.events TxSets.start ⟨r.tx.created, r.tx.nullifiers⟩ ∧
        ∀ x ∈ b.inputsSet, x ∈ olds b.events.events)
      (fun _ => ¬ ∃ s, Effects b.inputsSet b.events.events TxSets.start s ∧
        ∀ x ∈ b.inputsSet, x ∈ olds b.events.events) := by
  obtain ⟨c, hlinked, hstack⟩ := hs.linked
  rw [List.eq_nil_of_length_eq_zero hclosed] at hstack
  cases hstack
  refine Meets.require_bind hclosed ?_
  refine Meets.require_bind hne ?_
  have hreplay := buildReplayActions_meets ⟨b.inputsSet, ∅, ∅, empty, empty⟩ (by omega) hs.top
    hlinked hg
  refine hreplay.bind ?_ fun r hr => ?_
  · rintro _ hstuck ⟨s, hs, -⟩
    exact hstuck s hs
  have heff : Effects b.inputsSet b.events.events TxSets.start ⟨r.created, r.nullifiers⟩ :=
    hr.effects
  have hspent : (∀ x ∈ b.inputs, ∃ n ∈ r.nullifiers, Nullify n (ofDict x)) ↔
      ∀ x ∈ b.inputsSet, x ∈ olds b.events.events := by
    simp only [hin, ← heff.spent_iff, List.mem_toFinset, List.forall_mem_map]
  refine (checkSpent_meets r.nullifiers b.inputs).bind ?_ fun _ hall => ?_
  · rintro _ hunspent ⟨s, -, hall⟩
    exact hunspent (hspent.mpr hall)
  refine Meets.require_bind (by simp [Entry, lookup_buildTx]) ?_
  refine Meets.require_bind (by simpa using b.stateHeader.lookup_created) ?_
  refine Meets.require_bind hseed ?_
  refine Meets.require_bind (schema_buildTx _) ?_
  refine Meets.check_bind (dictDelete_ofDict.mpr ⟨buildTx_mem _ _ _ _ _ (by simp), rfl⟩) ?_
  refine Meets.require_bind (by simp [lookup_scopeDict]) ?_
  refine Meets.require_bind (by simp [lookup_scopeDict]) ?_
  refine Meets.require_bind ⟨hr.stateHeader, hr.beforeTx, hr.afterTx, hr.beforeChain⟩ ?_
  exact ⟨rfl, rfl, hr.afterChain, heff, hspent.mp hall⟩

/-! ## The flat run in terms of the events alone -/

/-- Every consumed state is an input or was produced by an earlier event, nothing is
consumed or produced twice, and no input is left. -/
structure FlatRun (inputs : Finset V) (es : List (Event V)) : Prop where
  available : ∀ pre e post, es = pre ++ e :: post → ∀ old, e.move.consumed = some old →
    old ∈ inputs ∨ old ∈ news pre
  consumed_once : (olds es).Nodup
  produced_once : (news es).Nodup
  spent : ∀ x ∈ inputs, x ∈ olds es

/-- Nullifiers need a key. -/
def Keyed (x : V) : Prop := ∃ n, Nullify n x

theorem Effect.of_allows {inputs : Finset V} {e : Event V} {s : TxSets V}
    (h : s.book.Allows {x | x ∈ inputs} e.move)
    (hkey : ∀ x, e.move.consumed = some x → Keyed x) : ∃ s', Effect inputs e s s' := by
  have unspent : ∀ {old n : V}, e.move.consumed = some old → Nullify n old → n ∉ s.nullifiers :=
    fun hold hn hmem => h.unspent _ hold ⟨_, hmem, hn⟩
  cases e with
  | insert new => exact ⟨_, .insert (h.fresh new rfl)⟩
  | mutate old new =>
    obtain ⟨n, hn⟩ := hkey old rfl
    exact ⟨_, .mutate (h.available old rfl) hn (unspent rfl hn) (h.fresh new rfl)⟩
  | delete old =>
    obtain ⟨n, hn⟩ := hkey old rfl
    exact ⟨_, .delete (h.available old rfl) hn (unspent rfl hn)⟩

theorem Effects.of_allowsAll {inputs : Finset V} {es : List (Event V)} {s : TxSets V}
    (h : s.book.AllowsAll {x | x ∈ inputs} (es.map Event.move))
    (hkey : ∀ x ∈ olds es, Keyed x) : ∃ s', Effects inputs es s s' := by
  induction es generalizing s with
  | nil => exact ⟨s, rfl⟩
  | cons e es ih =>
    obtain ⟨mid, hmid⟩ := Effect.of_allows h.1 fun x hx => hkey x (mem_consumed_cons.mpr (.inl hx))
    have hrest := h.2
    rw [← hmid.book] at hrest
    obtain ⟨s', hs'⟩ := ih hrest fun x hx => hkey x (mem_consumed_cons.mpr (.inr hx))
    exact ⟨s', mid, hmid, hs'⟩

theorem effects_iff_flatRun {inputs : Finset V} {es : List (Event V)} :
    (∃ s, Effects inputs es TxSets.start s ∧ ∀ x ∈ inputs, x ∈ olds es) ↔
      FlatRun inputs es ∧ ∀ x ∈ olds es, Keyed x := by
  constructor
  · rintro ⟨s, heff, hspent⟩
    have hseq := heff.allowsAll
    rw [TxSets.start_book, Book.allowsAll_iff] at hseq
    refine ⟨⟨?_, hseq.consumed_nodup, hseq.produced_nodup, hspent⟩, heff.keyed⟩
    intro pre e post heq old hold
    have hav := hseq.available (pre.map Event.move) e.move (post.map Event.move)
      (by rw [heq, List.map_append, List.map_cons]) old hold
    rcases hav with h | h | h
    · exact .inl h
    · exact absurd h (Set.notMem_empty old)
    · exact .inr h
  · rintro ⟨hflat, hkey⟩
    have hseq : Book.empty.Sequential {x | x ∈ inputs} (es.map Event.move) := by
      refine ⟨?_, hflat.consumed_once, fun x _ => Set.notMem_empty x, hflat.produced_once,
        fun x _ => Set.notMem_empty x⟩
      intro pre m post heq x hx
      obtain ⟨pre', rest, hev, rfl, hrest⟩ := List.map_eq_append_iff.mp heq
      obtain ⟨e, post', rfl, rfl, rfl⟩ := List.map_eq_cons_iff.mp hrest
      rcases hflat.available pre' e post' hev x hx with hx | hx
      · exact .inl hx
      · exact .inr (.inr hx)
    rw [← Book.allowsAll_iff, ← TxSets.start_book] at hseq
    obtain ⟨s, hs⟩ := Effects.of_allowsAll hseq hkey
    exact ⟨s, hs, hflat.spent⟩

/-- Builder completeness. After any sequence of calls that passes the asserts and attaches
to each event its guard's statement, `finalize` succeeds exactly when the flat run of the
events of the calls does and every consumed state has a key. It then returns the sets of
that run with a derivation whose replay is of these events; otherwise it is an error and
never a panic. -/
theorem TxBuilder.finalize_flat {inputs : List (Dictionary V)} {grounding : GroundingWitness V}
    {calls : List (BuilderCall G)} {b₀ b : TxBuilder G}
    (hnew : TxBuilder.new G inputs grounding = .ok b₀) (hrun : b₀.run calls = .ok b)
    (hclosed : b.actionStack.length = 0) (hne : 0 < b.events.length)
    (hguards : b.events.Guarded grounding.stateHeader.hash empty empty b.chainStart) :
    ((∃ r, b.finalize = .ok r) ↔ FlatRun (inputs.map ofDict).toFinset (callEvents calls) ∧
      ∀ x ∈ olds (callEvents calls), Keyed x) ∧
    (∀ r, b.finalize = .ok r →
      r.tx.created = (news (callEvents calls)).toFinset ∧
      (∀ n, n ∈ r.tx.nullifiers ↔ ∃ x ∈ olds (callEvents calls), Nullify n x) ∧
      r.tx.stateHeader = grounding.stateHeader ∧
      r.st.inputs = ofSet (inputs.map ofDict).toFinset ∧
      r.st.replay.events = callEvents calls) ∧
    ((¬ ∃ r, b.finalize = .ok r) → ∃ e, b.finalize = .err e) := by
  obtain ⟨hs₀, hrec₀, hinputs₀, hheader₀, hset₀, hseed₀⟩ := new_spec hnew
  obtain ⟨hs, hcont⟩ := run_spec hs₀ hrun
  have hin : b.inputsSet = (inputs.map ofDict).toFinset := hcont.inputsSet.trans hset₀
  have hseed : b.chainStart = hash (ofSet b.inputsSet) empty := by
    rw [hcont.chainStart, hseed₀, hcont.inputsSet]
  have hevents : b.events.events = callEvents calls := by
    have hrec := hcont.recorded
    rwa [hrec₀, List.nil_append, recorded, List.eq_nil_of_length_eq_zero hclosed,
      List.reverse_nil, List.flatMap_nil, List.append_nil] at hrec
  have hheader : b.stateHeader = grounding.stateHeader := hcont.stateHeader.trans hheader₀
  have hmeets := finalize_meets hs (by rw [hin, hcont.inputs, hinputs₀]) hseed hclosed hne
    (by rw [hheader]; exact hguards)
  rw [hevents, hin, effects_iff_flatRun] at hmeets
  refine ⟨⟨?_, ?_⟩, ?_, ?_⟩
  · rintro ⟨r, hr⟩
    obtain ⟨-, -, -, heff, hspent⟩ := hmeets.of_ok hr
    exact effects_iff_flatRun.mp ⟨_, heff, hspent⟩
  · intro hflat
    rcases hmeets.ok_or_err with ⟨r, hr, -⟩ | ⟨e, -, hno⟩
    · exact ⟨r, hr⟩
    · exact absurd hflat hno
  · intro r hr
    obtain ⟨hsh, hrin, hchain, heff, -⟩ := hmeets.of_ok hr
    refine ⟨?_, ?_, hsh.trans hheader, hrin, ?_⟩
    · ext y
      rw [heff.mem_created, List.mem_toFinset]
      simp [TxSets.start]
    · intro n
      rw [heff.mem_nullifiers]
      simp [TxSets.start]
    · obtain ⟨c, hlinked, hstack⟩ := hs.linked
      rw [List.eq_nil_of_length_eq_zero hclosed] at hstack
      cases hstack
      have hstart : b.chainStart = r.st.chainStart := by
        rw [hseed, hin, ← hrin]
        exact Eq.symm r.st.seed
      have hsteps := hlinked.txSteps
      rw [hstart, ← hchain] at hsteps
      exact (r.st.replay.txSteps.unique hsteps).trans hevents
  · intro hno
    rcases hmeets.ok_or_err with ⟨r, hr, -⟩ | ⟨e, he, -⟩
    · exact absurd ⟨r, hr⟩ hno
    · exact ⟨e, he⟩

/-! ## A nested transaction that inserts an object and deletes it in a sub-action -/

theorem entry_stamped {m : Dictionary V} {type : V} (htype : m.lookup "type" = some type) :
    (m.insert "stable_identifier" (ofDict m)).lookup "type" = some type := by
  rw [lookup_insert_ite, if_neg (by decide), htype]

/-- The event that `insert` records at `chain`. -/
def InsertEvent.record (chain : V) {m : Dictionary V} {type : V} (hid : "stable_identifier" ∉ m)
    (htype : m.lookup "type" = some type) (guardEvidence : Option (Statement G)) :
    InsertEvent G where
  new := m.insert "stable_identifier" (ofDict m)
  initial := m
  prevChain := chain
  chainAfter := hash chain (hash empty (stamped m))
  type := type
  txStmt := txInsert_iff.mpr ⟨dictContains_ofDict.mpr (entry_stamped htype),
    dictInsert_ofDict.mpr ⟨hid, rfl⟩, rfl⟩
  guardEvidence := guardEvidence

/-- The event that `delete` records at `chain`. -/
def DeleteEvent.record (chain : V) {old : Dictionary V} {type : V}
    (htype : old.lookup "type" = some type) (guardEvidence : Option (Statement G)) :
    DeleteEvent G where
  old := old
  prevChain := chain
  chainAfter := hash chain (hash (ofDict old) empty)
  type := type
  txStmt := txDelete_iff.mpr ⟨dictContains_ofDict.mpr htype, rfl⟩
  guardEvidence := guardEvidence

theorem TxBuilder.insert_ok {b : TxBuilder G} {m : Dictionary V} {type : V}
    (hopen : b.actionStack ≠ []) (hid : "stable_identifier" ∉ m)
    (htype : m.lookup "type" = some type) :
    BuilderCall.run b (.insert m) =
      .ok (pushEvent { b with chain := hash b.chain (hash empty (stamped m)) }
        (.insert (.record b.chain hid htype none) .nil)) := by
  obtain ⟨scope, scopes, hst⟩ := List.exists_cons_of_ne_nil hopen
  have hlook := entry_stamped htype
  have hdc : Entry (ofDict (m.insert "stable_identifier" (ofDict m))) "type" type :=
    dictContains_ofDict.mpr hlook
  have hdi : DictInsert (ofDict m) (ofStr "stable_identifier") (ofDict m)
      (ofDict (m.insert "stable_identifier" (ofDict m))) := dictInsert_ofDict.mpr ⟨hid, rfl⟩
  have hne : b.actionStack.length ≠ 0 := by simp [hst]
  simp [BuilderCall.run, TxBuilder.insert, withStableIdentifier, objectType, expectField, hlook,
    Outcome.require_pos hne, Outcome.require_pos hid, Outcome.require_pos hdc,
    Outcome.require_pos hdi, handleForLastEvent, pushEvent, hst, stamped, InsertEvent.record]

theorem TxBuilder.delete_ok {b : TxBuilder G} {old : Dictionary V} {type : V}
    (hopen : b.actionStack ≠ []) (htype : old.lookup "type" = some type) :
    BuilderCall.run b (.delete old) =
      .ok (pushEvent { b with chain := hash b.chain (hash (ofDict old) empty) }
        (.delete (.record b.chain htype none) .nil)) := by
  obtain ⟨scope, scopes, hst⟩ := List.exists_cons_of_ne_nil hopen
  have hdc : Entry (ofDict old) "type" type := dictContains_ofDict.mpr htype
  have hne : b.actionStack.length ≠ 0 := by simp [hst]
  simp [BuilderCall.run, TxBuilder.delete, objectType, expectField, htype,
    Outcome.require_pos hne, Outcome.require_pos hdc, handleForLastEvent, pushEvent, hst,
    DeleteEvent.record]

section Nested

variable (grounding : GroundingWitness V) (type : V) (m : Dictionary V)

def nestedStart : V := hash (ofSet ∅) empty

def nestedMid : V := hash nestedStart (hash empty (stamped m))

def nestedEnd : V := hash (nestedMid m) (hash (stamped m) empty)

def nestedGuard (start : V) : Statement (fun _ _ _ _ _ : V => True) :=
  .guard ⟨type, stamped m, grounding.stateHeader.hash, start, nestedEnd m, trivial⟩

/-- Insert `m`, then delete what was inserted from a sub-action. -/
def nestedCalls : List (BuilderCall (fun _ _ _ _ _ : V => True)) :=
  [.beginAction, .insert m, .setGuard ⟨0, 0⟩ (nestedGuard grounding type m nestedStart),
    .beginAction, .delete (m.insert "stable_identifier" (ofDict m)),
    .setGuard ⟨1, 0⟩ (nestedGuard grounding type m (nestedMid m)), .endAction 1, .endAction 0]

/-- The builder of the example between two calls. -/
def nestedBuilder (chain : V) (events : ChainEvents (fun _ _ _ _ _ : V => True))
    (actionStack : List (ActionScope (fun _ _ _ _ _ : V => True))) (nextScopeId : Nat) :
    TxBuilder (fun _ _ _ _ _ : V => True) where
  chain := chain
  chainStart := nestedStart
  stateHeader := grounding.stateHeader
  inputs := []
  stInputsGrounded := noInputs grounding
  events := events
  actionStack := actionStack
  nextScopeId := nextScopeId

variable {type m}

/-- The recorded events at the end. -/
def nestedEvents (hid : "stable_identifier" ∉ m) (htype : m.lookup "type" = some type) :
    ChainEvents (fun _ _ _ _ _ : V => True) :=
  .action (nestedEnd m)
    (.insert (.record nestedStart hid htype
      (some (nestedGuard grounding type m nestedStart)))
      (.action (nestedEnd m) (.delete (.record (nestedMid m) (entry_stamped htype)
        (some (nestedGuard grounding type m (nestedMid m)))) .nil) .nil)) .nil

theorem nestedCalls_run (hid : "stable_identifier" ∉ m) (htype : m.lookup "type" = some type) :
    (nestedBuilder grounding nestedStart .nil [] 0).run (nestedCalls grounding type m) =
      .ok (nestedBuilder grounding (nestedEnd m) (nestedEvents grounding hid htype) [] 2) := by
  have hinsert := TxBuilder.insert_ok
    (b := nestedBuilder grounding nestedStart .nil [⟨.nil, 0⟩] 1) (by simp [nestedBuilder])
    hid htype
  have hdelete := TxBuilder.delete_ok
    (b := nestedBuilder grounding (nestedMid m) .nil [⟨.nil, 1⟩,
      ⟨.insert (.record nestedStart hid htype
        (some (nestedGuard grounding type m nestedStart))) .nil, 0⟩] 2)
    (by simp [nestedBuilder]) (entry_stamped htype)
  rw [nestedCalls, TxBuilder.run]
  change (BuilderCall.run (nestedBuilder grounding nestedStart .nil [⟨.nil, 0⟩] 1)
    (.insert m) >>= fun b => b.run _) = _
  rw [hinsert]
  change (BuilderCall.run (nestedBuilder grounding (nestedMid m) .nil [⟨.nil, 1⟩,
      ⟨.insert (.record nestedStart hid htype
        (some (nestedGuard grounding type m nestedStart))) .nil, 0⟩] 2)
    (.delete (m.insert "stable_identifier" (ofDict m))) >>= fun b => b.run _) = _
  rw [hdelete]
  rfl

theorem nestedEvents_guarded (hid : "stable_identifier" ∉ m)
    (htype : m.lookup "type" = some type) :
    (nestedEvents grounding hid htype).Guarded grounding.stateHeader.hash empty empty
      nestedStart :=
  ⟨⟨⟨_, rfl, rfl, rfl, rfl, rfl, rfl⟩, ⟨⟨_, rfl, rfl, rfl, rfl, rfl, rfl⟩, trivial⟩, trivial⟩, trivial⟩

theorem nestedCalls_new : TxBuilder.new _ [] grounding =
    .ok (nestedBuilder grounding nestedStart .nil [] 0) := rfl

theorem nestedCalls_events : callEvents (nestedCalls grounding type m) =
    [.insert (stamped m), .delete (stamped m)] := rfl

theorem nestedCalls_flatRun : FlatRun ∅ (callEvents (nestedCalls grounding type m)) := by
  rw [nestedCalls_events]
  refine ⟨?_, by simp [olds, consumed, Event.move], by simp [news, produced, Event.move], by simp⟩
  intro pre e post heq old hold
  rcases pre with _ | ⟨p, _ | ⟨q, pre⟩⟩
  · obtain ⟨rfl, -⟩ := List.cons.inj heq
    cases hold
  · simp only [List.cons_append, List.nil_append, List.cons.injEq] at heq
    obtain ⟨rfl, rfl, -⟩ := heq
    cases hold
    exact .inr (by simp [news, produced, Event.move])
  · simp at heq

theorem keyed_stamped : Keyed (stamped m) ↔ ∃ key, m.lookup "key" = some key := by
  have hlook : (m.insert "stable_identifier" (ofDict m)).lookup "key" = m.lookup "key" := by
    rw [lookup_insert_ite, if_neg (by decide)]
  simp only [Keyed, stamped, nullify_ofDict, hlook]
  constructor
  · rintro ⟨_, key, hkey, -⟩
    exact ⟨key, hkey⟩
  · rintro ⟨key, hkey⟩
    exact ⟨_, key, hkey, rfl⟩

end Nested

/-- A header of the empty state, with no input to ground. -/
def emptyGrounding : GroundingWitness Term := ⟨⟨0, 0, empty, empty, empty, empty⟩, ∅⟩

def keylessStone : Dictionary Term := (∅ : Dictionary Term).insert "type" (ofStr "Stone")

def keyedStone : Dictionary Term := keylessStone.insert "key" (ofStr "secret")

theorem keyedStone_fresh : "stable_identifier" ∉ keyedStone := by
  simp [keyedStone, keylessStone, Finmap.notMem_empty]

theorem keyedStone_type : keyedStone.lookup "type" = some (ofStr "Stone") := by
  rw [keyedStone, lookup_insert_ite, if_neg (by decide), keylessStone, Finmap.lookup_insert]

theorem TxBuilder.finalize_flat_keyed : ∃ b r,
    (TxBuilder.new _ [] emptyGrounding >>= fun b₀ =>
      b₀.run (nestedCalls emptyGrounding (ofStr "Stone") keyedStone)) = .ok b ∧
    b.finalize = .ok r ∧
    r.st.replay.events = [.insert (stamped keyedStone), .delete (stamped keyedStone)] := by
  have hrun := nestedCalls_run emptyGrounding keyedStone_fresh keyedStone_type
  have hflat := TxBuilder.finalize_flat (nestedCalls_new emptyGrounding) hrun rfl Nat.one_pos
    (nestedEvents_guarded emptyGrounding keyedStone_fresh keyedStone_type)
  obtain ⟨r, hr⟩ := hflat.1.mpr ⟨nestedCalls_flatRun emptyGrounding, by
    intro x hx
    rw [nestedCalls_events] at hx
    have hx : x = stamped keyedStone := by simpa [olds, consumed, Event.move] using hx
    rw [hx]
    exact keyed_stamped.mpr ⟨ofStr "secret", by rw [keyedStone, Finmap.lookup_insert]⟩⟩
  exact ⟨_, r, hrun, hr, (hflat.2.1 r hr).2.2.2.2⟩

/-- One insert whose evidence is not a guard's statement. -/
def unguardedCalls (m : Dictionary V) : List (BuilderCall (fun _ _ _ _ _ : V => True)) :=
  [.beginAction, .insert m, .setGuard ⟨0, 0⟩ .other, .endAction 0]

def unguardedEvents {m : Dictionary V} {type : V} (hid : "stable_identifier" ∉ m)
    (htype : m.lookup "type" = some type) : ChainEvents (fun _ _ _ _ _ : V => True) :=
  .action (nestedMid m) (.insert (.record nestedStart hid htype (some .other)) .nil) .nil

theorem unguardedCalls_run (grounding : GroundingWitness V) {m : Dictionary V} {type : V}
    (hid : "stable_identifier" ∉ m) (htype : m.lookup "type" = some type) :
    (nestedBuilder grounding nestedStart .nil [] 0).run (unguardedCalls m) =
      .ok (nestedBuilder grounding (nestedMid m) (unguardedEvents hid htype) [] 1) := by
  have hinsert := TxBuilder.insert_ok
    (b := nestedBuilder grounding nestedStart .nil [⟨.nil, 0⟩] 1) (by simp [nestedBuilder])
    hid htype
  rw [unguardedCalls, TxBuilder.run]
  change (BuilderCall.run (nestedBuilder grounding nestedStart .nil [⟨.nil, 0⟩] 1)
    (.insert m) >>= fun b => b.run _) = _
  rw [hinsert]
  rfl

theorem buildReplayActionInsert_other {e : InsertEvent G} {frame : ReplayFrame V}
    (hev : e.guardEvidence = some .other) (hnew : ofDict e.new ∉ frame.created) :
    buildReplayActionInsert e frame = .panic unwrapMessage := by
  unfold buildReplayActionInsert
  simp only [hev, expectEvidence, Outcome.pure_eq, Outcome.ok_bind, insertState, if_neg hnew,
    frame.writeCreated, Outcome.require_pos (insertPair_initial _ _),
    Outcome.require_pos frame.entry_created, Outcome.require_pos (insertPair_newCreated _ _),
    Outcome.require_pos (setInsert_ofSet.mpr ⟨hnew, rfl⟩),
    Outcome.require_pos (frame.update_created _), dispatchTo, Outcome.panic_bind]

theorem TxBuilder.finalize_panic {b : TxBuilder G} {message : String}
    (hclosed : b.actionStack.length = 0) (hne : 0 < b.events.length)
    (h : buildReplayActions b.events b.chainStart ⟨b.inputsSet, ∅, ∅, empty, empty⟩ =
      .panic message) : b.finalize = .panic message := by
  unfold finalize
  rw [Outcome.require_pos hclosed, Outcome.ok_bind, Outcome.require_pos hne, Outcome.ok_bind]
  change (buildReplayActions b.events b.chainStart ⟨b.inputsSet, ∅, ∅, empty, empty⟩ >>= _) = _
  rw [h, Outcome.panic_bind]

theorem unguarded_finalize (grounding : GroundingWitness V) {m : Dictionary V} {type : V}
    (hid : "stable_identifier" ∉ m) (htype : m.lookup "type" = some type) :
    (nestedBuilder grounding (nestedMid m) (unguardedEvents hid htype) [] 1).finalize =
      .panic unwrapMessage := by
  refine TxBuilder.finalize_panic rfl Nat.one_pos ?_
  change (buildReplayActionInsert _ _ >>= _) = _
  rw [buildReplayActionInsert_other rfl (Finset.notMem_empty _), Outcome.panic_bind]

/-- Two sequences of calls that pass every assert and every condition of the flat run: an
object without a key cannot be consumed, and evidence of the wrong kind is a panic. -/
theorem TxBuilder.finalize_keyless_unguarded :
    (∃ b, (TxBuilder.new _ [] emptyGrounding >>= fun b₀ =>
        b₀.run (nestedCalls emptyGrounding (ofStr "Stone") keylessStone)) = .ok b ∧
      b.actionStack.length = 0 ∧ 0 < b.events.length ∧
      b.events.Guarded emptyGrounding.stateHeader.hash empty empty b.chainStart ∧
      FlatRun ∅ (callEvents (nestedCalls emptyGrounding (ofStr "Stone") keylessStone)) ∧
      ∃ e, b.finalize = .err e) ∧
    ∃ b message, (TxBuilder.new _ [] emptyGrounding >>= fun b₀ =>
        b₀.run (unguardedCalls keyedStone)) = .ok b ∧
      b.actionStack.length = 0 ∧ 0 < b.events.length ∧
      FlatRun ∅ (callEvents (unguardedCalls keyedStone)) ∧ b.finalize = .panic message := by
  constructor
  · have hid : "stable_identifier" ∉ keylessStone := by simp [keylessStone, Finmap.notMem_empty]
    have htype : keylessStone.lookup "type" = some (ofStr "Stone") := by
      rw [keylessStone, Finmap.lookup_insert]
    have hrun := nestedCalls_run emptyGrounding hid htype
    have hguards := nestedEvents_guarded emptyGrounding hid htype
    refine ⟨_, hrun, rfl, Nat.one_pos, hguards, nestedCalls_flatRun emptyGrounding, ?_⟩
    have hs := (TxBuilder.run_spec (TxBuilder.new_spec (nestedCalls_new emptyGrounding)).1 hrun).1
    rcases (TxBuilder.finalize_meets hs rfl rfl rfl Nat.one_pos hguards).ok_or_err with h | h
    · obtain ⟨r, -, -, -, -, heff, -⟩ := h
      obtain ⟨key, hkey⟩ := keyed_stamped.mp (heff.keyed (stamped keylessStone) (by
        simp [nestedBuilder, nestedEvents, ChainEvents.events, olds, consumed, Event.move,
          DeleteEvent.record, stamped]))
      rw [keylessStone, lookup_insert_ite, if_neg (by decide), Finmap.lookup_empty] at hkey
      cases hkey
    · obtain ⟨e, he, -⟩ := h
      exact ⟨e, he⟩
  · refine ⟨_, _, unguardedCalls_run emptyGrounding keyedStone_fresh keyedStone_type, rfl,
      Nat.one_pos, ⟨?_, ?_, ?_, ?_⟩, unguarded_finalize emptyGrounding _ _⟩
    · intro pre e post heq old hold
      rcases pre with _ | ⟨p, pre⟩
      · obtain ⟨rfl, -⟩ := List.cons.inj heq
        cases hold
      · simp [callEvents, unguardedCalls, BuilderCall.events] at heq
    · simp [callEvents, unguardedCalls, BuilderCall.events, olds, consumed, Event.move]
    · simp [callEvents, unguardedCalls, BuilderCall.events, news, produced, Event.move]
    · simp

end DigitalObjects.Txlib
