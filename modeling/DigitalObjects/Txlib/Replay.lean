import DigitalObjects.Txlib.Events
set_option autoImplicit false

/-!
The replay predicates of `txlib.podlang`. Each conjunction is a structure: first
the private wildcards, then the values of the anchored keys it reads, then its
clauses. The predicates that recurse form one family, indexed by the predicate.
-/

namespace DigitalObjects.Txlib

open Pod2 Lib

variable {V : Type} [Values V]

/-- The guard of a type, called with a state, the state header and the chain bounds
of the enclosing action. -/
abbrev Guard (V : Type) := V → V → V → V → V → Prop

structure ReplayActionInsert (G : Guard V) (stateHeader beforeTx afterTx beforeChain afterChain : V)
    where
  (new pair guard : V)
  (initial newCreated created : V)
  pair_initial : Entry pair "initial" initial
  pair_newCreated : Entry pair "new_created" newCreated
  beforeTx_created : Entry beforeTx "created" created
  txInsert : TxInsert beforeChain afterChain initial new guard
  setInsert : SetInsert created new newCreated
  update : DictUpdate beforeTx (ofStr "created") newCreated afterTx
  dispatch : G guard new stateHeader beforeChain afterChain

structure ReplayInsert (G : Guard V) (stateHeader beforeTx afterTx beforeChain afterChain : V)
    where
  (new pair guard : V)
  (initial newCreated created chainStart chainEnd : V)
  pair_initial : Entry pair "initial" initial
  pair_newCreated : Entry pair "new_created" newCreated
  beforeTx_created : Entry beforeTx "created" created
  beforeTx_chainStart : Entry beforeTx "chain_start" chainStart
  beforeTx_chainEnd : Entry beforeTx "chain_end" chainEnd
  txInsert : TxInsert beforeChain afterChain initial new guard
  setInsert : SetInsert created new newCreated
  update : DictUpdate beforeTx (ofStr "created") newCreated afterTx
  dispatch : G guard new stateHeader chainStart chainEnd

structure ReplayNullify (midTx afterTx old source : V) where
  (objKeyHash nullifier newNullifiers : V)
  (key nullifiers : V)
  old_key : Entry old "key" key
  midTx_nullifiers : Entry midTx "nullifiers" nullifiers
  contains : SetContains source old
  hash_key : Hash old key objKeyHash
  hash_nullifier : Hash objKeyHash (ofStr "txlib-nullifier-v1") nullifier
  setInsert : SetInsert nullifiers nullifier newNullifiers
  update : DictUpdate midTx (ofStr "nullifiers") newNullifiers afterTx

/-- The literal `#["inputs", "created"]`. -/
def sourceKeys : V := ofSet {ofStr "inputs", ofStr "created"}

structure ReplayMutateEvent (beforeTx afterTx old new : V) where
  (newCreated midTx sourceKey source : V)
  (created : V)
  beforeTx_created : Entry beforeTx "created" created
  source_key : SetContains sourceKeys sourceKey
  source_entry : DictContains beforeTx sourceKey source
  setInsert : SetInsert created new newCreated
  update : DictUpdate beforeTx (ofStr "created") newCreated midTx
  nullify : ReplayNullify midTx afterTx old source

structure ReplayMutate (G : Guard V) (stateHeader beforeTx afterTx beforeChain afterChain : V)
    where
  (old new guard : V)
  (chainStart chainEnd : V)
  beforeTx_chainStart : Entry beforeTx "chain_start" chainStart
  beforeTx_chainEnd : Entry beforeTx "chain_end" chainEnd
  txMutate : TxMutate beforeChain afterChain old new guard
  event : ReplayMutateEvent beforeTx afterTx old new
  dispatch : G guard new stateHeader chainStart chainEnd

structure ReplayDelete (G : Guard V) (stateHeader beforeTx afterTx beforeChain afterChain : V)
    where
  (old guard pair : V)
  (sourceKey source chainStart chainEnd : V)
  pair_sourceKey : Entry pair "source_key" sourceKey
  pair_source : Entry pair "source" source
  beforeTx_chainStart : Entry beforeTx "chain_start" chainStart
  beforeTx_chainEnd : Entry beforeTx "chain_end" chainEnd
  txDelete : TxDelete beforeChain afterChain old guard
  source_key : SetContains sourceKeys sourceKey
  source_entry : DictContains beforeTx sourceKey source
  nullify : ReplayNullify beforeTx afterTx old source
  dispatch : G guard old stateHeader chainStart chainEnd

/-- The replay predicates that take part in the recursion. -/
inductive Walk where
  | contents
  | contentsStepInsert
  | contentsStepMutate
  | contentsStepDelete
  | contentsStepAction
  | element
  | action
  | actions
  | actionsStep
deriving DecidableEq, Repr

/-- Derivations of the recursive predicates. `Replay G h w b a c c'` derives the
predicate `w` with header `h`, transaction before and after `b`, `a`, and chain
before and after `c`, `c'`. -/
inductive Replay (G : Guard V) (stateHeader : V) : Walk → V → V → V → V → Type
  -- ReplayContents
  | contentsElement {b a c c' : V} :
      Replay G stateHeader .element b a c c' → Replay G stateHeader .contents b a c c'
  | contentsInsert {b a c c' : V} :
      Replay G stateHeader .contentsStepInsert b a c c' → Replay G stateHeader .contents b a c c'
  | contentsMutate {b a c c' : V} :
      Replay G stateHeader .contentsStepMutate b a c c' → Replay G stateHeader .contents b a c c'
  | contentsDelete {b a c c' : V} :
      Replay G stateHeader .contentsStepDelete b a c c' → Replay G stateHeader .contents b a c c'
  | contentsAction {b a c c' : V} :
      Replay G stateHeader .contentsStepAction b a c c' → Replay G stateHeader .contents b a c c'
  -- the four step variants
  | stepInsert {b a c c' : V} (midTx midChain : V) :
      ReplayInsert G stateHeader b midTx c midChain →
      Replay G stateHeader .contents midTx a midChain c' →
      Replay G stateHeader .contentsStepInsert b a c c'
  | stepMutate {b a c c' : V} (midTx midChain : V) :
      ReplayMutate G stateHeader b midTx c midChain →
      Replay G stateHeader .contents midTx a midChain c' →
      Replay G stateHeader .contentsStepMutate b a c c'
  | stepDelete {b a c c' : V} (midTx midChain : V) :
      ReplayDelete G stateHeader b midTx c midChain →
      Replay G stateHeader .contents midTx a midChain c' →
      Replay G stateHeader .contentsStepDelete b a c c'
  | stepAction {b a c c' : V} (midTx midChain : V) :
      Replay G stateHeader .action b midTx c midChain →
      Replay G stateHeader .contents midTx a midChain c' →
      Replay G stateHeader .contentsStepAction b a c c'
  -- ReplayElement
  | elementInsert {b a c c' : V} :
      ReplayInsert G stateHeader b a c c' → Replay G stateHeader .element b a c c'
  | elementMutate {b a c c' : V} :
      ReplayMutate G stateHeader b a c c' → Replay G stateHeader .element b a c c'
  | elementDelete {b a c c' : V} :
      ReplayDelete G stateHeader b a c c' → Replay G stateHeader .element b a c c'
  | elementAction {b a c c' : V} :
      Replay G stateHeader .action b a c c' → Replay G stateHeader .element b a c c'
  -- ReplayAction
  | action {b a c c' : V} (pair innerTx endTx scopeMid mid created nullifiers : V)
      (pair_scopeMid : Entry pair "scope_mid" scopeMid)
      (pair_mid : Entry pair "mid" mid)
      (endTx_created : Entry endTx "created" created)
      (endTx_nullifiers : Entry endTx "nullifiers" nullifiers)
      (scope_start : DictUpdate b (ofStr "chain_start") c scopeMid)
      (scope_end : DictUpdate scopeMid (ofStr "chain_end") c' innerTx)
      (contents : Replay G stateHeader .contents innerTx endTx c c')
      (copy_created : DictUpdate b (ofStr "created") created mid)
      (copy_nullifiers : DictUpdate mid (ofStr "nullifiers") nullifiers a) :
      Replay G stateHeader .action b a c c'
  -- ReplayActions
  | actionsAction {b a c c' : V} :
      Replay G stateHeader .action b a c c' → Replay G stateHeader .actions b a c c'
  | actionsStep {b a c c' : V} :
      Replay G stateHeader .actionsStep b a c c' → Replay G stateHeader .actions b a c c'
  | actionsInsert {b a c c' : V} :
      ReplayActionInsert G stateHeader b a c c' → Replay G stateHeader .actions b a c c'
  -- ReplayActionsStep
  | step {b a c c' : V} (midTx midChain : V) :
      Replay G stateHeader .action b midTx c midChain →
      Replay G stateHeader .actions midTx a midChain c' →
      Replay G stateHeader .actionsStep b a c c'

variable {G : Guard V} {stateHeader : V}

def ReplayActionInsert.event {b a c c' : V} (r : ReplayActionInsert G stateHeader b a c c') :
    Event V := .insert r.new

def ReplayInsert.event {b a c c' : V} (r : ReplayInsert G stateHeader b a c c') : Event V :=
  .insert r.new

def ReplayMutate.toEvent {b a c c' : V} (r : ReplayMutate G stateHeader b a c c') : Event V :=
  .mutate r.old r.new

def ReplayDelete.event {b a c c' : V} (r : ReplayDelete G stateHeader b a c c') : Event V :=
  .delete r.old

/-- The events of a derivation from left to right, whatever the nesting. -/
def Replay.events {w : Walk} {b a c c' : V} : Replay G stateHeader w b a c c' → List (Event V)
  | .contentsElement r => r.events
  | .contentsInsert r => r.events
  | .contentsMutate r => r.events
  | .contentsDelete r => r.events
  | .contentsAction r => r.events
  | .stepInsert _ _ head tail => head.event :: tail.events
  | .stepMutate _ _ head tail => head.toEvent :: tail.events
  | .stepDelete _ _ head tail => head.event :: tail.events
  | .stepAction _ _ head tail => head.events ++ tail.events
  | .elementInsert r => [r.event]
  | .elementMutate r => [r.toEvent]
  | .elementDelete r => [r.event]
  | .elementAction r => r.events
  | .action _ _ _ _ _ _ _ _ _ _ _ _ _ contents _ _ => contents.events
  | .actionsAction r => r.events
  | .actionsStep r => r.events
  | .actionsInsert r => [r.event]
  | .step _ _ head tail => head.events ++ tail.events

theorem ReplayActionInsert.txStep {b a c c' : V} (r : ReplayActionInsert G stateHeader b a c c') :
    TxStep c c' r.event := ⟨r.initial, r.guard, r.txInsert⟩

theorem ReplayInsert.txStep {b a c c' : V} (r : ReplayInsert G stateHeader b a c c') :
    TxStep c c' r.event := ⟨r.initial, r.guard, r.txInsert⟩

theorem ReplayMutate.txStep {b a c c' : V} (r : ReplayMutate G stateHeader b a c c') :
    TxStep c c' r.toEvent := ⟨r.guard, r.txMutate⟩

theorem ReplayDelete.txStep {b a c c' : V} (r : ReplayDelete G stateHeader b a c c') :
    TxStep c c' r.event := ⟨r.guard, r.txDelete⟩

/-- The events of a derivation lead from its chain before to its chain after. -/
theorem Replay.txSteps {w : Walk} {b a c c' : V} (r : Replay G stateHeader w b a c c') :
    TxSteps c r.events c' := by
  induction r with
  | contentsElement _ ih => exact ih
  | contentsInsert _ ih => exact ih
  | contentsMutate _ ih => exact ih
  | contentsDelete _ ih => exact ih
  | contentsAction _ ih => exact ih
  | stepInsert _ midChain head _ ih => exact ⟨midChain, head.txStep, ih⟩
  | stepMutate _ midChain head _ ih => exact ⟨midChain, head.txStep, ih⟩
  | stepDelete _ midChain head _ ih => exact ⟨midChain, head.txStep, ih⟩
  | stepAction _ _ _ _ ihHead ihTail => exact ihHead.append ihTail
  | elementInsert r => exact TxSteps.single r.txStep
  | elementMutate r => exact TxSteps.single r.txStep
  | elementDelete r => exact TxSteps.single r.txStep
  | elementAction _ ih => exact ih
  | action _ _ _ _ _ _ _ _ _ _ _ _ _ _ _ _ ih => exact ih
  | actionsAction _ ih => exact ih
  | actionsStep _ ih => exact ih
  | actionsInsert r => exact TxSteps.single r.txStep
  | step _ _ _ _ ihHead ihTail => exact ihHead.append ihTail

/-- Empty bodies and empty transactions have no derivation. -/
theorem Replay.events_ne_nil {w : Walk} {b a c c' : V} (r : Replay G stateHeader w b a c c') :
    r.events ≠ [] := by
  induction r with
  | contentsElement _ ih => exact ih
  | contentsInsert _ ih => exact ih
  | contentsMutate _ ih => exact ih
  | contentsDelete _ ih => exact ih
  | contentsAction _ ih => exact ih
  | elementAction _ ih => exact ih
  | action _ _ _ _ _ _ _ _ _ _ _ _ _ _ _ _ ih => exact ih
  | actionsAction _ ih => exact ih
  | actionsStep _ ih => exact ih
  | _ => simp_all [events]

/-! The replay writes only `created` and `nullifiers`, so the scope of the enclosing
action is what the guards of its direct events read. -/

theorem entry_of_dictUpdate {old new v w : V} {k s : String} (h : DictUpdate old (ofStr s) v new)
    (hk : k ≠ s) (he : Entry old k w) : Entry new k w := by
  obtain ⟨m, s', rfl, hs, -, rfl⟩ := h
  simp only [ofStr_inj] at hs
  subst hs
  rw [Entry, dictContains_ofDict] at he ⊢
  rwa [Finmap.lookup_insert_of_ne _ hk]

theorem entry_written {old new v : V} {s : String} (h : DictUpdate old (ofStr s) v new) :
    Entry new s v := by
  obtain ⟨m, s', rfl, hs, -, rfl⟩ := h
  simp only [ofStr_inj] at hs
  subst hs
  rw [Entry, dictContains_ofDict, Finmap.lookup_insert]

theorem ReplayMutateEvent.keeps {b a old new v : V} {k : String}
    (r : ReplayMutateEvent b a old new) (hc : k ≠ "created") (hn : k ≠ "nullifiers")
    (h : Entry b k v) : Entry a k v :=
  entry_of_dictUpdate r.nullify.update hn (entry_of_dictUpdate r.update hc h)

theorem Replay.keeps {w : Walk} {b a c c' v : V} {k : String}
    (r : Replay G stateHeader w b a c c') (hc : k ≠ "created") (hn : k ≠ "nullifiers")
    (h : Entry b k v) : Entry a k v := by
  induction r with
  | contentsElement _ ih => exact ih h
  | contentsInsert _ ih => exact ih h
  | contentsMutate _ ih => exact ih h
  | contentsDelete _ ih => exact ih h
  | contentsAction _ ih => exact ih h
  | stepInsert _ _ head _ ih => exact ih (entry_of_dictUpdate head.update hc h)
  | stepMutate _ _ head _ ih => exact ih (head.event.keeps hc hn h)
  | stepDelete _ _ head _ ih => exact ih (entry_of_dictUpdate head.nullify.update hn h)
  | stepAction _ _ _ _ ihHead ihTail => exact ihTail (ihHead h)
  | elementInsert r => exact entry_of_dictUpdate r.update hc h
  | elementMutate r => exact r.event.keeps hc hn h
  | elementDelete r => exact entry_of_dictUpdate r.nullify.update hn h
  | elementAction _ ih => exact ih h
  | action _ _ _ _ _ _ _ _ _ _ _ _ _ _ copyCreated copyNullifiers =>
    exact entry_of_dictUpdate copyNullifiers hn (entry_of_dictUpdate copyCreated hc h)
  | actionsAction _ ih => exact ih h
  | actionsStep _ ih => exact ih h
  | actionsInsert r => exact entry_of_dictUpdate r.update hc h
  | step _ _ _ _ ihHead ihTail => exact ihTail (ihHead h)

/-- An action as it is replayed: its chain bounds and its events, sub-actions included. -/
structure Scope (V : Type) where
  start : V
  stop : V
  events : List (Event V)

/-- A guard call: the event it is made for, its arguments, and the innermost action
around the event. -/
structure Call (V : Type) where
  event : Event V
  type : V
  state : V
  chainStart : V
  chainEnd : V
  scope : Scope V

/-- The state whose guard an event calls: the new one, or the deleted one. -/
def Event.subject : Event V → V
  | .insert new => new
  | .mutate _ new => new
  | .delete old => old

def ReplayInsert.call {b a c c' : V} (r : ReplayInsert G stateHeader b a c c') (scope : Scope V) :
    Call V := ⟨r.event, r.guard, r.new, r.chainStart, r.chainEnd, scope⟩

def ReplayMutate.call {b a c c' : V} (r : ReplayMutate G stateHeader b a c c') (scope : Scope V) :
    Call V := ⟨r.toEvent, r.guard, r.new, r.chainStart, r.chainEnd, scope⟩

def ReplayDelete.call {b a c c' : V} (r : ReplayDelete G stateHeader b a c c') (scope : Scope V) :
    Call V := ⟨r.event, r.guard, r.old, r.chainStart, r.chainEnd, scope⟩

/-- The guard calls of a derivation from left to right, inside the given scope. -/
def Replay.calls {w : Walk} {b a c c' : V} (scope : Scope V) :
    Replay G stateHeader w b a c c' → List (Call V)
  | .contentsElement r => r.calls scope
  | .contentsInsert r => r.calls scope
  | .contentsMutate r => r.calls scope
  | .contentsDelete r => r.calls scope
  | .contentsAction r => r.calls scope
  | .stepInsert _ _ head tail => head.call scope :: tail.calls scope
  | .stepMutate _ _ head tail => head.call scope :: tail.calls scope
  | .stepDelete _ _ head tail => head.call scope :: tail.calls scope
  | .stepAction _ _ head tail => head.calls scope ++ tail.calls scope
  | .elementInsert r => [r.call scope]
  | .elementMutate r => [r.call scope]
  | .elementDelete r => [r.call scope]
  | .elementAction r => r.calls scope
  | .action _ _ _ _ _ _ _ _ _ _ _ _ _ contents _ _ => contents.calls ⟨c, c', contents.events⟩
  | .actionsAction r => r.calls scope
  | .actionsStep r => r.calls scope
  | .actionsInsert r => [⟨r.event, r.guard, r.new, c, c', ⟨c, c', [r.event]⟩⟩]
  | .step _ _ head tail => head.calls scope ++ tail.calls scope

theorem Replay.calls_event {w : Walk} {b a c c' : V} (r : Replay G stateHeader w b a c c')
    (scope : Scope V) : (r.calls scope).map Call.event = r.events := by
  induction r generalizing scope with
  | stepInsert _ _ head _ ih => simp [calls, events, ReplayInsert.call, ih]
  | stepMutate _ _ head _ ih => simp [calls, events, ReplayMutate.call, ih]
  | stepDelete _ _ head _ ih => simp [calls, events, ReplayDelete.call, ih]
  | elementInsert r => simp [calls, events, ReplayInsert.call]
  | elementMutate r => simp [calls, events, ReplayMutate.call]
  | elementDelete r => simp [calls, events, ReplayDelete.call]
  | _ => simp_all [calls, events]

/-- What a guard call is: the guard of the event's own type, called on the event's
state with the bounds of its innermost action, among whose events it is. -/
structure Call.Sound (G : Guard V) (stateHeader : V) (k : Call V) : Prop where
  holds : G k.type k.state stateHeader k.chainStart k.chainEnd
  state_eq : k.state = k.event.subject
  typed : Entry k.state "type" k.type
  start_eq : k.chainStart = k.scope.start
  stop_eq : k.chainEnd = k.scope.stop
  mem : k.event ∈ k.scope.events
  steps : TxSteps k.scope.start k.scope.events k.scope.stop

/-- A transaction dictionary opened for a scope. -/
structure Scope.Open (scope : Scope V) (tx : V) : Prop where
  chainStart : Entry tx "chain_start" scope.start
  chainEnd : Entry tx "chain_end" scope.stop
  steps : TxSteps scope.start scope.events scope.stop

theorem Scope.Open.keep {scope : Scope V} {b a : V} (h : scope.Open b)
    (keeps : ∀ {k : String} {v : V}, k ≠ "created" → k ≠ "nullifiers" → Entry b k v → Entry a k v) :
    scope.Open a :=
  ⟨keeps (by decide) (by decide) h.chainStart, keeps (by decide) (by decide) h.chainEnd, h.steps⟩

theorem ReplayInsert.call_sound {b a c c' : V} (r : ReplayInsert G stateHeader b a c c')
    {scope : Scope V} (h : scope.Open b) (hmem : r.event ∈ scope.events) :
    (r.call scope).Sound G stateHeader where
  holds := r.dispatch
  state_eq := rfl
  typed := (txInsert_iff.mp r.txInsert).1
  start_eq := r.beforeTx_chainStart.unique h.chainStart
  stop_eq := r.beforeTx_chainEnd.unique h.chainEnd
  mem := hmem
  steps := h.steps

theorem ReplayMutate.call_sound {b a c c' : V} (r : ReplayMutate G stateHeader b a c c')
    {scope : Scope V} (h : scope.Open b) (hmem : r.toEvent ∈ scope.events) :
    (r.call scope).Sound G stateHeader where
  holds := r.dispatch
  state_eq := rfl
  typed := (txMutate_iff.mp r.txMutate).1
  start_eq := r.beforeTx_chainStart.unique h.chainStart
  stop_eq := r.beforeTx_chainEnd.unique h.chainEnd
  mem := hmem
  steps := h.steps

theorem ReplayDelete.call_sound {b a c c' : V} (r : ReplayDelete G stateHeader b a c c')
    {scope : Scope V} (h : scope.Open b) (hmem : r.event ∈ scope.events) :
    (r.call scope).Sound G stateHeader where
  holds := r.dispatch
  state_eq := rfl
  typed := (txDelete_iff.mp r.txDelete).1
  start_eq := r.beforeTx_chainStart.unique h.chainStart
  stop_eq := r.beforeTx_chainEnd.unique h.chainEnd
  mem := hmem
  steps := h.steps

/-- The predicates that run inside an action rather than open one. -/
def Walk.inner : Walk → Bool
  | .action | .actions | .actionsStep => false
  | _ => true

theorem Replay.calls_sound {w : Walk} {b a c c' : V} (r : Replay G stateHeader w b a c c')
    (scope : Scope V) (hscope : w.inner = true → scope.Open b ∧ r.events ⊆ scope.events) :
    ∀ k ∈ r.calls scope, k.Sound G stateHeader := by
  -- An action opens its own scope, so only the inner predicates need the given one.
  induction r generalizing scope with
  | contentsElement _ ih => exact ih scope hscope
  | contentsInsert _ ih => exact ih scope hscope
  | contentsMutate _ ih => exact ih scope hscope
  | contentsDelete _ ih => exact ih scope hscope
  | contentsAction _ ih => exact ih scope hscope
  | stepInsert _ _ head tail ih =>
    obtain ⟨hopen, hsub⟩ := hscope rfl
    simp only [events, List.cons_subset] at hsub
    simp only [calls, List.mem_cons, forall_eq_or_imp]
    exact ⟨head.call_sound hopen hsub.1, ih scope fun _ =>
      ⟨hopen.keep fun hc _ h => entry_of_dictUpdate head.update hc h, hsub.2⟩⟩
  | stepMutate _ _ head tail ih =>
    obtain ⟨hopen, hsub⟩ := hscope rfl
    simp only [events, List.cons_subset] at hsub
    simp only [calls, List.mem_cons, forall_eq_or_imp]
    exact ⟨head.call_sound hopen hsub.1, ih scope fun _ =>
      ⟨hopen.keep fun hc hn h => head.event.keeps hc hn h, hsub.2⟩⟩
  | stepDelete _ _ head tail ih =>
    obtain ⟨hopen, hsub⟩ := hscope rfl
    simp only [events, List.cons_subset] at hsub
    simp only [calls, List.mem_cons, forall_eq_or_imp]
    exact ⟨head.call_sound hopen hsub.1, ih scope fun _ =>
      ⟨hopen.keep fun _ hn h => entry_of_dictUpdate head.nullify.update hn h, hsub.2⟩⟩
  | stepAction _ _ head tail ihHead ihTail =>
    obtain ⟨hopen, hsub⟩ := hscope rfl
    simp only [events, List.append_subset] at hsub
    simp only [calls, List.mem_append, or_imp, forall_and]
    exact ⟨ihHead scope (by simp [Walk.inner]), ihTail scope fun _ =>
      ⟨hopen.keep fun hc hn h => head.keeps hc hn h, hsub.2⟩⟩
  | elementInsert r =>
    obtain ⟨hopen, hsub⟩ := hscope rfl
    simp only [calls, List.mem_singleton, forall_eq]
    exact r.call_sound hopen (hsub List.mem_cons_self)
  | elementMutate r =>
    obtain ⟨hopen, hsub⟩ := hscope rfl
    simp only [calls, List.mem_singleton, forall_eq]
    exact r.call_sound hopen (hsub List.mem_cons_self)
  | elementDelete r =>
    obtain ⟨hopen, hsub⟩ := hscope rfl
    simp only [calls, List.mem_singleton, forall_eq]
    exact r.call_sound hopen (hsub List.mem_cons_self)
  | elementAction r ih => exact ih scope (by simp [Walk.inner])
  | action _ _ _ _ _ _ _ _ _ _ _ scopeStart scopeEnd contents _ _ ih =>
    refine ih ⟨_, _, contents.events⟩ fun _ => ⟨⟨?_, entry_written scopeEnd, contents.txSteps⟩, ?_⟩
    · exact entry_of_dictUpdate scopeEnd (by decide) (entry_written scopeStart)
    · exact List.Subset.refl _
  | actionsAction _ ih => exact ih scope hscope
  | actionsStep _ ih => exact ih scope hscope
  | actionsInsert r =>
    simp only [calls, List.mem_singleton, forall_eq]
    exact ⟨r.dispatch, rfl, (txInsert_iff.mp r.txInsert).1, rfl, rfl, List.mem_cons_self,
      TxSteps.single r.txStep⟩
  | step _ _ _ _ ihHead ihTail =>
    simp only [calls, List.mem_append, or_imp, forall_and]
    exact ⟨ihHead scope (by simp [Walk.inner]), ihTail scope (by simp [Walk.inner])⟩

/-- Guards see exactly the events of their action: each event of a replay has one
guard call, made with the bounds of its innermost action, and whatever events are
shown to lead between those bounds are the events replayed in that action. -/
theorem Replay.guards_see_their_action {b a c c' : V} (r : Replay G stateHeader .actions b a c c')
    (outer : Scope V) :
    (r.calls outer).map Call.event = r.events ∧
    (∀ k ∈ r.calls outer, k.Sound G stateHeader ∧
      ∀ es, TxSteps k.chainStart es k.chainEnd → es = k.scope.events) ∧
    ∀ (s e : V) (es fs : List (Event V)), TxSteps s es e → TxSteps s fs e → es = fs := by
  refine ⟨r.calls_event outer, ?_, fun s e es fs => TxSteps.unique⟩
  intro k hk
  have hsound := r.calls_sound outer (by simp [Walk.inner]) k hk
  refine ⟨hsound, fun es hes => ?_⟩
  rw [hsound.start_eq, hsound.stop_eq] at hes
  exact hes.unique hsound.steps

end DigitalObjects.Txlib
