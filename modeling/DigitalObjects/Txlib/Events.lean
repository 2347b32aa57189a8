import DigitalObjects.Pod2.Values
import DigitalObjects.Lib.HashChain
import DigitalObjects.Lib.Ledger
set_option autoImplicit false

/-!
The chain primitives of `tx_events.podlang` and the nullifier of `txlib.podlang`.
An event is what a chain step hashes; the chain commits to the list of events.
-/

namespace DigitalObjects.Txlib

open Pod2 Lib

variable {V : Type} [Values V]

def TxInsert (prevChain chain initial new type : V) : Prop :=
  ∃ eventHash,
    DictContains new (ofStr "type") type ∧
    DictInsert initial (ofStr "stable_identifier") initial new ∧
    Hash empty new eventHash ∧
    Hash prevChain eventHash chain

def TxMutate (prevChain chain old new type : V) : Prop :=
  ∃ eventHash,
    DictContains new (ofStr "type") type ∧
    DictContains old (ofStr "type") type ∧
    -- Equal(old.stable_identifier, new.stable_identifier)
    (∃ id, Entry old "stable_identifier" id ∧ Entry new "stable_identifier" id) ∧
    Hash old new eventHash ∧
    Hash prevChain eventHash chain

def TxDelete (prevChain chain old type : V) : Prop :=
  ∃ eventHash,
    DictContains old (ofStr "type") type ∧
    Hash old empty eventHash ∧
    Hash prevChain eventHash chain

/-- Standalone nullifier derivation: `H(H(obj, obj.key), "txlib-nullifier-v1")`. -/
def Nullify (nullifier obj : V) : Prop :=
  ∃ key objKeyHash,
    Entry obj "key" key ∧
    Hash obj key objKeyHash ∧
    Hash objKeyHash (ofStr "txlib-nullifier-v1") nullifier

inductive Event (V : Type) where
  | insert (new : V)
  | mutate (old new : V)
  | delete (old : V)
deriving DecidableEq, Repr

/-- The event hash of a chain step: `H({}, new)`, `H(old, new)` or `H(old, {})`. -/
def Event.hash : Event V → V
  | .insert new => Pod2.hash empty new
  | .mutate old new => Pod2.hash old new
  | .delete old => Pod2.hash old empty

def Event.move : Event V → Move V
  | .insert new => ⟨none, some new⟩
  | .mutate old new => ⟨some old, some new⟩
  | .delete old => ⟨some old, none⟩

/-- A chain step by one of the three primitives, with its event. -/
def TxStep (prevChain chain : V) : Event V → Prop
  | .insert new => ∃ initial type, TxInsert prevChain chain initial new type
  | .mutate old new => ∃ type, TxMutate prevChain chain old new type
  | .delete old => ∃ type, TxDelete prevChain chain old type

/-- Chain steps one after another: `TxSteps s es e` leads from `s` to `e` by `es`. -/
def TxSteps (start : V) : List (Event V) → V → Prop
  | [], stop => stop = start
  | e :: es, stop => ∃ mid, TxStep start mid e ∧ TxSteps mid es stop

/-- The states an event names, consumed first. -/
def Event.states (e : Event V) : List V := e.move.consumed.toList ++ e.move.produced.toList

/-- No state of the event is the empty dictionary. The type clauses force this. -/
def Event.Proper (e : Event V) : Prop := ∀ x ∈ e.states, x ≠ empty

theorem Nullify.injective {n x y : V} (hx : Nullify n x) (hy : Nullify n y) : x = y := by
  obtain ⟨k, _, -, rfl, rfl⟩ := hx
  obtain ⟨k', _, -, rfl, h⟩ := hy
  simp only [Hash, hash_inj] at h
  exact h.1.1

theorem Nullify.functional {n m x : V} (hn : Nullify n x) (hm : Nullify m x) : n = m := by
  obtain ⟨k, _, hk, rfl, rfl⟩ := hn
  obtain ⟨k', _, hk', rfl, rfl⟩ := hm
  rw [hk.unique hk']

theorem nullify_iff {n x : V} : Nullify n x ↔
    ∃ key, Entry x "key" key ∧ n = hash (hash x key) (ofStr "txlib-nullifier-v1") := by
  constructor
  · rintro ⟨key, _, hk, rfl, rfl⟩
    exact ⟨key, hk, rfl⟩
  · rintro ⟨key, hk, rfl⟩
    exact ⟨key, _, hk, rfl, rfl⟩

theorem txInsert_iff {prevChain chain initial new type : V} :
    TxInsert prevChain chain initial new type ↔
      Entry new "type" type ∧
      DictInsert initial (ofStr "stable_identifier") initial new ∧
      chain = hash prevChain (hash empty new) := by
  simp [TxInsert, Hash]

theorem txMutate_iff {prevChain chain old new type : V} :
    TxMutate prevChain chain old new type ↔
      Entry new "type" type ∧ Entry old "type" type ∧
      (∃ id, Entry old "stable_identifier" id ∧ Entry new "stable_identifier" id) ∧
      chain = hash prevChain (hash old new) := by
  simp [TxMutate, Hash]

theorem txDelete_iff {prevChain chain old type : V} :
    TxDelete prevChain chain old type ↔
      Entry old "type" type ∧ chain = hash prevChain (hash old empty) := by
  simp [TxDelete, Hash]

theorem TxStep.chain_eq {prevChain chain : V} {e : Event V} (h : TxStep prevChain chain e) :
    chain = hash prevChain e.hash := by
  cases e with
  | insert new =>
    obtain ⟨_, _, h⟩ := h
    exact (txInsert_iff.mp h).2.2
  | mutate old new =>
    obtain ⟨_, h⟩ := h
    exact (txMutate_iff.mp h).2.2.2
  | delete old =>
    obtain ⟨_, h⟩ := h
    exact (txDelete_iff.mp h).2

theorem TxStep.proper {prevChain chain : V} {e : Event V} (h : TxStep prevChain chain e) :
    e.Proper := by
  intro x hx
  cases e with
  | insert new =>
    obtain ⟨_, _, h⟩ := h
    simp only [Event.states, Event.move, Option.toList, List.nil_append, List.mem_singleton] at hx
    rw [hx]
    exact (txInsert_iff.mp h).1.ne_empty
  | mutate old new =>
    obtain ⟨_, h⟩ := h
    simp only [Event.states, Event.move, Option.toList, List.cons_append, List.nil_append,
      List.mem_cons, List.not_mem_nil, or_false] at hx
    rcases hx with rfl | rfl
    · exact (txMutate_iff.mp h).2.1.ne_empty
    · exact (txMutate_iff.mp h).1.ne_empty
  | delete old =>
    obtain ⟨_, h⟩ := h
    simp only [Event.states, Event.move, Option.toList, List.append_nil, List.mem_singleton] at hx
    rw [hx]
    exact (txDelete_iff.mp h).1.ne_empty

/-- The three kinds of event hash never collide, because `{}` is no object. -/
theorem Event.hash_injective {e f : Event V} (he : e.Proper) (hf : f.Proper)
    (h : e.hash = f.hash) : e = f := by
  cases e <;> cases f <;>
    simp_all [Event.hash, Event.Proper, Event.states, Event.move]

variable (V) in
/-- The event chain as a hash chain over events. -/
def eventChain : HashChain V (Event V) where
  link c e := hash c e.hash
  Valid := Event.Proper
  rank := rank
  link_inj := by
    intro c d e f he hf h
    obtain ⟨hc, heq⟩ := Values.hash_injective h
    exact ⟨hc, Event.hash_injective he hf heq⟩
  rank_lt c e := Values.rank_left c e.hash

theorem TxSteps.run_eq {es : List (Event V)} {start stop : V} (h : TxSteps start es stop) :
    stop = (eventChain V).run start es := by
  induction es generalizing start with
  | nil => exact h
  | cons e es ih =>
    obtain ⟨mid, hstep, hrest⟩ := h
    rw [HashChain.run_cons, ih hrest, hstep.chain_eq]
    rfl

theorem TxSteps.proper {es : List (Event V)} {start stop : V} (h : TxSteps start es stop) :
    ∀ e ∈ es, e.Proper := by
  induction es generalizing start with
  | nil => simp
  | cons e es ih =>
    obtain ⟨mid, hstep, hrest⟩ := h
    simp only [List.mem_cons, forall_eq_or_imp]
    exact ⟨hstep.proper, ih hrest⟩

theorem TxSteps.append {es fs : List (Event V)} {start mid stop : V}
    (h : TxSteps start es mid) (h' : TxSteps mid fs stop) : TxSteps start (es ++ fs) stop := by
  induction es generalizing start with
  | nil =>
    cases h
    exact h'
  | cons e es ih =>
    obtain ⟨next, hstep, hrest⟩ := h
    exact ⟨next, hstep, ih hrest⟩

theorem TxSteps.single {e : Event V} {start stop : V} (h : TxStep start stop e) :
    TxSteps start [e] stop := ⟨stop, h, rfl⟩

/-- The chain commits to its events. -/
theorem TxSteps.unique {es fs : List (Event V)} {start stop : V}
    (hes : TxSteps start es stop) (hfs : TxSteps start fs stop) : es = fs :=
  (eventChain V).run_injective start hes.proper hfs.proper (hes.run_eq.symm.trans hfs.run_eq)

/-- The seed of a transaction's chain is the result of no chain step. -/
theorem TxStep.ne_seed {prevChain inputs : V} {e : Event V} :
    ¬ TxStep prevChain (hash inputs empty) e := by
  intro h
  have hchain := (hash_inj.mp h.chain_eq).2
  cases e with
  | insert new => exact hash_ne_empty _ _ hchain.symm
  | mutate old new => exact hash_ne_empty _ _ hchain.symm
  | delete old => exact hash_ne_empty _ _ hchain.symm

/-- Stable identifiers as a lineage: an insert stamps the commitment of the
pre-identity object, and the stamp determines the object it was put on. -/
def identity : Lineage V V where
  ident x i := Entry x "stable_identifier" i
  birth x i := DictInsert i (ofStr "stable_identifier") i x
  ident_unique := Entry.unique
  birth_ident := by
    rintro x i ⟨m, s, rfl, hs, -, rfl⟩
    simp only [ofStr_inj] at hs
    subst hs
    simp [Entry]
  birth_unique := by
    rintro x y i ⟨m, s, rfl, hs, -, rfl⟩ ⟨m', s', hm, hs', -, rfl⟩
    simp only [ofStr_inj, ofDict_inj] at hs hs' hm
    subst hs hs' hm
    rfl

theorem TxStep.respects {prevChain chain : V} {e : Event V} (h : TxStep prevChain chain e) :
    e.move.Respects (identity : Lineage V V) := by
  intro y hy
  cases e with
  | insert new =>
    obtain ⟨initial, _, h⟩ := h
    cases hy
    exact ⟨initial, (txInsert_iff.mp h).2.1⟩
  | mutate old new =>
    obtain ⟨_, h⟩ := h
    cases hy
    exact (txMutate_iff.mp h).2.2.1
  | delete old => cases hy

theorem TxSteps.respects {es : List (Event V)} {start stop : V} (h : TxSteps start es stop) :
    ∀ m ∈ es.map Event.move, m.Respects (identity : Lineage V V) := by
  induction es generalizing start with
  | nil => simp
  | cons e es ih =>
    obtain ⟨mid, hstep, hrest⟩ := h
    simp only [List.map_cons, List.mem_cons, forall_eq_or_imp]
    exact ⟨hstep.respects, ih hrest⟩

end DigitalObjects.Txlib
