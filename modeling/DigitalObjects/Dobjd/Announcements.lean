import DigitalObjects.Dobjd.Convergence
set_option autoImplicit false

/-!
The settler announces finished transactions before they disappear. Passes and synchronizations
run one at a time under the pass lock; between their steps runs and requests record transactions,
each once, and change open records, and the daemon may stop and start again.
-/

namespace DigitalObjects.Dobjd

open Lib Driver.Objects
open Driver (TransactionState)

variable {H : Type} [DecidableEq H]

/-- The steps of `pass` and `sync_objects`. Settlement and pruning may fail anywhere; the listing
between them is readable. -/
def Action.bySettler : Action H → Bool
  | .spawnPass _ _ | .lockPass _ | .query _ | .settle _ _ _ _ _ | .relist _ _ => true
  | .collect _ readable => readable
  | .prune _ _ _ _ | .publish _ => true
  | _ => false

/-- A step of the settler, what runs and requests do to open records, or a restart. -/
inductive Turn (H : Type) where
  | settler (a : Action H)
  | stage (r : Record H)
  | rewrite (r : Record H)
  | drop (t : H)
  | restart
deriving DecidableEq, Repr

namespace Daemon

/-- A daemon that opens a store; the history tells which transactions were recorded. -/
def booted (records : List (Record H)) : Daemon H :=
  { opened records with history := (opened records).all.map fun r => .recorded r.txFinal }

/-- A restart leaves the store. -/
def restarted (w : Daemon H) : Daemon H :=
  { w with threads := ∅, passLock := false, publishedTerminal := [] }

/-- A record is written for the first time. -/
def staged (w : Daemon H) (r : Record H) : Daemon H :=
  { w.write r with history := .recorded r.txFinal :: w.history }

def turn (w : Daemon H) : Turn H → Option (Daemon H)
  | .settler a => if a.bySettler then w.step a else none
  | .stage r =>
    if r.isOpen ∧ .recorded r.txFinal ∉ w.history then some (w.staged r) else none
  | .rewrite r =>
    match w.read r.txFinal with
    | some r₀ => if r₀.isOpen ∧ r.isOpen then some (w.write r) else none
    | none => none
  | .drop t =>
    match w.read t with
    | some r₀ => if r₀.isOpen then some (w.remove t) else none
    | none => none
  | .restart => some w.restarted

/-- The state of the record on disk. -/
def stateOf (w : Daemon H) (t : H) : Option TransactionState := (w.read t).map fun r => r.state

end Daemon

/-- An event shows the transaction in the state. -/
def Announced (t : H) (s : TransactionState) (history : List (Entry H)) : Prop :=
  ∃ r, .event (.transaction r) ∈ history ∧ r.txFinal = t ∧ r.state = s

/-- The entry shows the transaction in a terminal state. -/
def Entry.finishes (t : H) : Entry H → Bool
  | .event (.transaction r) => decide (r.txFinal = t) && r.state.isTerminal
  | _ => false

theorem Entry.finishes_iff {t : H} {entry : Entry H} :
    entry.finishes t = true ↔ ∃ r, entry = .event (.transaction r) ∧ r.txFinal = t ∧ r.state.isTerminal = true := by
  cases entry with
  | recorded t' => simp [Entry.finishes]
  | event e => cases e <;> simp [Entry.finishes]

omit [DecidableEq H] in
theorem Announced.cons {t : H} {s : TransactionState} {history : List (Entry H)} (h : Announced t s history)
    (entry : Entry H) : Announced t s (entry :: history) := by
  obtain ⟨r, hr, hrest⟩ := h
  exact ⟨r, by simp [hr], hrest⟩

/-! ## What a step of the settler does -/

namespace Thread

/-- The thread has the pass lock. -/
def locked : Thread H → Bool
  | .querying _ | .settling _ _ | .relisting _ | .collecting _ _ | .pruning _ | .publishing _ _ => true
  | _ => false

/-- The records that the thread will publish. -/
def hand : Thread H → List (Record H)
  | .collecting records _ | .pruning records | .publishing records _ => records
  | _ => []

end Thread

namespace Daemon

/-! ## The invariant -/

/-- The transaction was shown in the state, or one of the records shows it so. -/
def Told (w : Daemon H) (records : List (Record H)) (t : H) (s : TransactionState) : Prop :=
  Announced t s w.history ∨ ∃ r ∈ records, r.txFinal = t ∧ r.state = s

/-- Records that a pass will publish: one for each transaction, the terminal ones not published
before and in line with the store. -/
structure InHand (w : Daemon H) (records : List (Record H)) : Prop where
  nodup : (records.map TransactionRecord.txFinal).Nodup
  known : ∀ r ∈ records, .recorded r.txFinal ∈ w.history
  fresh : ∀ r ∈ records, r.state.isTerminal = true → r.txFinal ∉ w.publishedTerminal
  stored : ∀ r ∈ records, ∀ s, w.stateOf r.txFinal = some s →
    s = r.state ∨ (s.isTerminal = false ∧ r.state.isTerminal = false)

/-- What the settler knows at each of its stages; `fate` is how transactions had ended earlier. -/
def Ready (fate : H → Option TransactionState) (w : Daemon H) : Thread H → Prop
  | .collecting records _ => w.InHand records ∧
    ∀ r ∈ records, r.state.isTerminal = true → w.stateOf r.txFinal ≠ none
  | .pruning records => w.InHand records ∧
    ∀ t s, w.stateOf t = some s → s.isTerminal = true → w.Told records t s
  | .publishing records pruned => w.InHand records ∧
    ∀ t ∈ pruned, w.stateOf t = none ∧ .recorded t ∈ w.history ∧ ∀ s, fate t = some s → w.Told records t s
  | _ => True

/-- The transaction will not be published again: it was published, or it is gone. -/
def Done (w : Daemon H) (t : H) : Prop :=
  t ∈ w.publishedTerminal ∨ (w.stateOf t = none ∧
    ∀ id th, w.thread id = some th → ∀ r ∈ th.hand, r.state.isTerminal = true → r.txFinal ≠ t)

/-- Passes and synchronizations only, and one at a time under the lock. -/
structure Serial (w : Daemon H) : Prop where
  passes : ∀ id th, w.thread id = some th → th.locked = true ∨ ∃ sync, th = .starting sync
  free : w.passLock = false → ∀ id th, w.thread id = some th → th.locked = false
  alone : ∀ id id' th th', w.thread id = some th → w.thread id' = some th' → th.locked = true →
    th'.locked = true → id = id'

/-- The invariant, since the history was `base`. -/
structure Announcing (base : List (Entry H)) (fate : H → Option TransactionState) (w : Daemon H) : Prop where
  keyed : w.Keyed
  serial : w.Serial
  ready : ∀ id th, w.thread id = some th → w.Ready fate th
  known : ∀ t, w.stateOf t ≠ none → .recorded t ∈ w.history
  seen : ∀ r, .event (.transaction r) ∈ w.history → .recorded r.txFinal ∈ w.history
  listed : ∀ t ∈ w.publishedTerminal, .recorded t ∈ w.history
  published : ∀ t ∈ w.publishedTerminal, ∀ s, w.stateOf t = some s →
    s.isTerminal = true ∧ Announced t s w.history
  gone : ∀ t, .event (.transactionPruned t) ∈ w.history → w.stateOf t = none ∧ .recorded t ∈ w.history
  kept : ∀ t s, fate t = some s → .recorded t ∈ w.history ∧ s.isTerminal = true ∧
    (w.stateOf t = none ∨ w.stateOf t = some s)
  told : ∀ t s, fate t = some s → ∀ later rest,
    w.history = later ++ .event (.transactionPruned t) :: rest → Announced t s rest
  once : ∃ new, w.history = new ++ base ∧ ∀ t,
    (new.filter (Entry.finishes t)).length ≤ 1 ∧ (new.any (Entry.finishes t) = true → w.Done t)

/-! ## Pieces of a step -/

section Pieces

variable {w w' : Daemon H} {id : Nat}

theorem all_txFinal (h : w.Keyed) : w.all.map TransactionRecord.txFinal = w.records.keys := by
  unfold all AList.keys List.keys
  rw [List.map_map]
  refine List.map_congr_left fun p hp => ?_
  exact h p.1 p.2 (AList.mem_lookup_iff.mpr hp)

@[simp] theorem history_staged (w : Daemon H) (r : Record H) :
    (w.staged r).history = .recorded r.txFinal :: w.history := rfl

theorem stateOf_of_read {t : H} {r : Record H} (h : w.read t = some r) : w.stateOf t = some r.state := by
  simp [stateOf, h]

theorem read_of_stateOf {t : H} {s : TransactionState} (h : w.stateOf t = some s) :
    ∃ r, w.read t = some r ∧ r.state = s := by
  simpa [stateOf] using h

omit [DecidableEq H] in
theorem Told.mono {records records' : List (Record H)} {t : H} {s : TransactionState}
    (h : w.Told records t s) (hhistory : w'.history = w.history) (hsub : records ⊆ records') :
    w'.Told records' t s := by
  rcases h with h | ⟨r, hr, hrest⟩
  · left
    rwa [hhistory]
  · exact .inr ⟨r, hsub hr, hrest⟩

/-- The store changes in no more than open records, and in removals. -/
def Spares (w w' : Daemon H) : Prop :=
  ∀ t, w'.stateOf t = w.stateOf t ∨ w'.stateOf t = none ∨
    ∃ s, w.stateOf t = some s ∧ s.isTerminal = false

/-- One thread becomes another or ends. -/
structure Turns (w w' : Daemon H) (id : Nat) (th' : Option (Thread H)) : Prop where
  others : ∀ id', id' ≠ id → w'.thread id' = w.thread id'
  mine : w'.thread id = th'

omit [DecidableEq H] in
theorem Turns.lookup {th' : Option (Thread H)} (h : Turns w w' id th') {id' : Nat} {th : Thread H}
    (hth : w'.thread id' = some th) : (id' = id ∧ th' = some th) ∨ (id' ≠ id ∧ w.thread id' = some th) := by
  by_cases hid : id' = id
  · left
    rw [hid, h.mine] at hth
    exact ⟨hid, hth⟩
  · right
    rw [h.others id' hid] at hth
    exact ⟨hid, hth⟩

/-- The thread moves on, and nothing else changes. -/
structure Moves (w w' : Daemon H) (id : Nat) (th' : Option (Thread H)) : Prop where
  turns : Turns w w' id th'
  records : w'.records = w.records
  history : w'.history = w.history
  published : w'.publishedTerminal = w.publishedTerminal

omit [DecidableEq H] in
theorem Moves.become (w : Daemon H) (id : Nat) (th : Thread H) : Moves w (w.become id th) id (some th) :=
  ⟨⟨fun _ hne => w.thread_become_ne id th hne, w.thread_become id th⟩, rfl, rfl, rfl⟩

omit [DecidableEq H] in
theorem Moves.unlock (w : Daemon H) (id : Nat) : Moves w (w.unlock id) id none :=
  ⟨⟨fun _ hne => w.thread_finish_ne id hne, w.thread_finish id⟩, rfl, rfl, rfl⟩

theorem Moves.stateOf {th' : Option (Thread H)} (h : Moves w w' id th') (t : H) :
    w'.stateOf t = w.stateOf t := by
  unfold Daemon.stateOf read
  rw [h.records]

theorem InHand.stored_terminal {records : List (Record H)} (h : w.InHand records) {r : Record H}
    (hr : r ∈ records) (hterminal : r.state.isTerminal = true) {s : TransactionState}
    (hs : w.stateOf r.txFinal = some s) : s = r.state := by
  rcases h.stored r hr s hs with hsame | ⟨-, hopen⟩
  · exact hsame
  · rw [hterminal] at hopen
    cases hopen

theorem InHand.congr {records : List (Record H)} (h : w.InHand records) (hhistory : w'.history = w.history)
    (hpublished : w'.publishedTerminal = w.publishedTerminal)
    (hstate : ∀ r ∈ records, ∀ s, w'.stateOf r.txFinal = some s →
      s = r.state ∨ (s.isTerminal = false ∧ r.state.isTerminal = false)) : w'.InHand records :=
  ⟨h.nodup, by rw [hhistory]; exact h.known, by rw [hpublished]; exact h.fresh, hstate⟩

theorem Ready.congr {fate : H → Option TransactionState} {th : Thread H} (h : w.Ready fate th)
    (hhistory : w'.history = w.history) (hpublished : w'.publishedTerminal = w.publishedTerminal)
    (hstate : ∀ t, w'.stateOf t = w.stateOf t) : w'.Ready fate th := by
  have hhand : ∀ records, w.InHand records → w'.InHand records := by
    intro records hrecords
    refine hrecords.congr hhistory hpublished fun r hr s hs => ?_
    rw [hstate] at hs
    exact hrecords.stored r hr s hs
  cases th with
  | collecting records wrote =>
    refine ⟨hhand records h.1, fun r hr hterminal => ?_⟩
    rw [hstate]
    exact h.2 r hr hterminal
  | pruning records =>
    refine ⟨hhand records h.1, fun t s hs hterminal => ?_⟩
    rw [hstate] at hs
    exact (h.2 t s hs hterminal).mono hhistory fun _ hr => hr
  | publishing records pruned =>
    refine ⟨hhand records h.1, fun t ht => ?_⟩
    obtain ⟨hnone, hknown, htold⟩ := h.2 t ht
    rw [hstate, hhistory]
    exact ⟨hnone, hknown, fun s hs => (htold s hs).mono hhistory fun _ hr => hr⟩
  | _ => exact trivial

end Pieces

/-! ## How the invariant passes on -/

section Next

variable {w w' : Daemon H} {id : Nat} {base : List (Entry H)} {fate : H → Option TransactionState}

omit [DecidableEq H] in
/-- Only one thread has the lock. -/
theorem Serial.others_unlocked (h : w.Serial) {th : Thread H} (hth : w.thread id = some th)
    (hlocked : th.locked = true) {id' : Nat} {th' : Thread H} (hne : id' ≠ id)
    (hth' : w.thread id' = some th') : th'.locked = false := by
  by_contra hlocked'
  exact hne (h.alone id' id th' th hth' hth (by simpa using hlocked') hlocked)

omit [DecidableEq H] in
theorem Serial.unlocked (h : w.Serial) {th : Thread H} (hth : w.thread id = some th)
    (hlocked : th.locked = false) : ∃ sync, th = .starting sync := by
  rcases h.passes id th hth with hpass | hpass
  · rw [hlocked] at hpass
    cases hpass
  · exact hpass

omit [DecidableEq H] in
/-- The thread that has the lock keeps it or ends. -/
theorem Serial.turn (h : w.Serial) {th : Thread H} {th' : Option (Thread H)} (hth : w.thread id = some th)
    (hlocked : th.locked = true) (hm : Turns w w' id th') (hlocked' : ∀ th₁, th' = some th₁ → th₁.locked = true)
    (hlock : w'.passLock = false → w.passLock = false ∨ th' = none) : w'.Serial := by
  refine ⟨fun id' th₁ h₁ => ?_, fun hfree id' th₁ h₁ => ?_, fun id₁ id₂ th₁ th₂ h₁ h₂ hl₁ hl₂ => ?_⟩
  · rcases hm.lookup h₁ with ⟨-, hmine⟩ | ⟨-, hother⟩
    · exact .inl (hlocked' th₁ hmine)
    · exact h.passes id' th₁ hother
  · rcases hm.lookup h₁ with ⟨-, hmine⟩ | ⟨hne, hother⟩
    · rcases hlock hfree with hfree | hnone
      · have hidle := h.free hfree id th hth
        rw [hlocked] at hidle
        cases hidle
      · rw [hnone] at hmine
        cases hmine
    · exact h.others_unlocked hth hlocked hne hother
  · rcases hm.lookup h₁ with ⟨hid₁, hmine₁⟩ | ⟨hne₁, hother₁⟩
    · rcases hm.lookup h₂ with ⟨hid₂, hmine₂⟩ | ⟨hne₂, hother₂⟩
      · exact hid₁.trans hid₂.symm
      · simp [h.others_unlocked hth hlocked hne₂ hother₂] at hl₂
    · simp [h.others_unlocked hth hlocked hne₁ hother₁] at hl₁

/-- A thread moves on; it takes no new terminal record in hand but ones that were not published. -/
theorem Announcing.move {th' : Option (Thread H)} (h : Announcing base fate w) (hm : Moves w w' id th')
    (hserial : w'.Serial) (hready : ∀ th, th' = some th → w.Ready fate th)
    (hhand : ∀ th, th' = some th → ∀ r ∈ th.hand, r.state.isTerminal = true → w.stateOf r.txFinal = none →
      ∃ th₀, w.thread id = some th₀ ∧ r ∈ th₀.hand) : Announcing base fate w' := by
  have hstate := hm.stateOf
  have hread : ∀ t, w'.read t = w.read t := by
    intro t
    unfold read
    rw [hm.records]
  refine ⟨fun t r hr => h.keyed t r ((hread t).symm.trans hr), hserial, fun id' th hth => ?_, ?_, ?_, ?_, ?_,
    ?_, ?_, ?_, ?_⟩
  · have hthis : w.Ready fate th := by
      rcases hm.turns.lookup hth with ⟨-, hmine⟩ | ⟨-, hother⟩
      · exact hready th hmine
      · exact h.ready id' th hother
    exact hthis.congr hm.history hm.published hstate
  · intro t ht
    rw [hstate] at ht
    rw [hm.history]
    exact h.known t ht
  · rw [hm.history]
    exact h.seen
  · rw [hm.history, hm.published]
    exact h.listed
  · intro t ht s hs
    rw [hm.published] at ht
    rw [hstate] at hs
    rw [hm.history]
    exact h.published t ht s hs
  · rw [hm.history]
    intro t ht
    rw [hstate]
    exact h.gone t ht
  · intro t s hs
    rw [hstate, hm.history]
    exact h.kept t s hs
  · rw [hm.history]
    exact h.told
  · obtain ⟨new, hnew, honce⟩ := h.once
    refine ⟨new, hm.history.trans hnew, fun t => ⟨(honce t).1, fun hany => ?_⟩⟩
    rcases (honce t).2 hany with hin | ⟨hnone, hhands⟩
    · left
      rwa [hm.published]
    · refine .inr ⟨(hstate t).trans hnone, fun id' th hth r hr hterminal heq => ?_⟩
      rcases hm.turns.lookup hth with ⟨-, hmine⟩ | ⟨-, hother⟩
      · obtain ⟨th₀, hth₀, hr₀⟩ := hhand th hmine r hr hterminal (by rwa [heq])
        exact hhands id th₀ hth₀ r hr₀ hterminal heq
      · exact hhands id' th hother r hr hterminal heq

theorem Announcing.advance (h : Announcing base fate w) {th th' : Thread H} (hth : w.thread id = some th)
    (hlocked : th.locked = true) (hlocked' : th'.locked = true) (hready : w.Ready fate th')
    (hhand : ∀ r ∈ th'.hand, r.state.isTerminal = true → w.stateOf r.txFinal = none → r ∈ th.hand) :
    Announcing base fate (w.become id th') := by
  have hm := Moves.become w id th'
  refine h.move hm (h.serial.turn hth hlocked hm.turns (fun th₁ h₁ => ?_) .inl) (fun th₁ h₁ => ?_)
    fun th₁ h₁ r hr hterminal hnone => ?_
  · cases h₁
    exact hlocked'
  · cases h₁
    exact hready
  · cases h₁
    exact ⟨th, hth, hhand r hr hterminal hnone⟩

theorem Announcing.quit (h : Announcing base fate w) {th : Thread H} (hth : w.thread id = some th)
    (hlocked : th.locked = true) : Announcing base fate (w.unlock id) := by
  have hm := Moves.unlock w id
  exact h.move hm (h.serial.turn hth hlocked hm.turns (by simp) fun _ => .inr rfl) (by simp) (by simp)

theorem Announcing.spawn (h : Announcing base fate w) (sync : Bool) :
    Announcing base fate (w.become id (.starting sync)) := by
  have hm := Moves.become w id (.starting sync)
  have hserial : (w.become id (.starting sync)).Serial := by
    refine ⟨fun id' th₁ h₁ => ?_, fun hfree id' th₁ h₁ => ?_, fun id₁ id₂ th₁ th₂ h₁ h₂ hl₁ hl₂ => ?_⟩
    · rcases hm.turns.lookup h₁ with ⟨-, hmine⟩ | ⟨-, hother⟩
      · cases hmine
        exact .inr ⟨sync, rfl⟩
      · exact h.serial.passes id' th₁ hother
    · rcases hm.turns.lookup h₁ with ⟨-, hmine⟩ | ⟨-, hother⟩
      · cases hmine
        rfl
      · exact h.serial.free hfree id' th₁ hother
    · rcases hm.turns.lookup h₁ with ⟨-, hmine₁⟩ | ⟨-, hother₁⟩
      · cases hmine₁
        cases hl₁
      · rcases hm.turns.lookup h₂ with ⟨-, hmine₂⟩ | ⟨-, hother₂⟩
        · cases hmine₂
          cases hl₂
        · exact h.serial.alone id₁ id₂ th₁ th₂ hother₁ hother₂ hl₁ hl₂
  refine h.move hm hserial (fun th₁ h₁ => ?_) fun th₁ h₁ r hr => ?_
  · cases h₁
    exact trivial
  · cases h₁
    cases hr

theorem Announcing.lock (h : Announcing base fate w) {sync : Bool} (hfree : w.passLock = false) :
    Announcing base fate { w.become id (.querying sync) with passLock := true } := by
  have hm : Moves w { w.become id (.querying sync) with passLock := true } id (some (.querying sync)) :=
    ⟨⟨fun _ hne => w.thread_become_ne id _ hne, w.thread_become id _⟩, rfl, rfl, rfl⟩
  have hserial : Serial { w.become id (.querying sync) with passLock := true } := by
    refine ⟨fun id' th₁ h₁ => ?_, by simp, fun id₁ id₂ th₁ th₂ h₁ h₂ hl₁ hl₂ => ?_⟩
    · rcases hm.turns.lookup h₁ with ⟨-, hmine⟩ | ⟨-, hother⟩
      · cases hmine
        exact .inl rfl
      · exact h.serial.passes id' th₁ hother
    · rcases hm.turns.lookup h₁ with ⟨hid₁, -⟩ | ⟨-, hother₁⟩
      · rcases hm.turns.lookup h₂ with ⟨hid₂, -⟩ | ⟨-, hother₂⟩
        · exact hid₁.trans hid₂.symm
        · simp [h.serial.free hfree id₂ th₂ hother₂] at hl₂
      · simp [h.serial.free hfree id₁ th₁ hother₁] at hl₁
  refine h.move hm hserial (fun th₁ h₁ => ?_) fun th₁ h₁ r hr => ?_
  · cases h₁
    exact trivial
  · cases h₁
    cases hr

/-- The store changes, by a settlement, by pruning, or by runs and requests. -/
theorem Announcing.store (h : Announcing base fate w) (hthreads : w'.threads = w.threads)
    (hlock : w'.passLock = w.passLock) (hhistory : w'.history = w.history)
    (hpublished : w'.publishedTerminal = w.publishedTerminal) (hkeyed : w'.Keyed) (hspares : Spares w w')
    (hready : ∀ id th, w.thread id = some th → w'.Ready fate th) : Announcing base fate w' := by
  have hthread : ∀ id', w'.thread id' = w.thread id' := by
    intro id'
    unfold thread
    rw [hthreads]
  have hnone : ∀ t, w.stateOf t = none → w'.stateOf t = none := by
    intro t ht
    rcases hspares t with hsame | hgone | ⟨s, hs, -⟩
    · exact hsame.trans ht
    · exact hgone
    · rw [hs] at ht
      cases ht
  have hended : ∀ t s, w.stateOf t = some s → s.isTerminal = true →
      w'.stateOf t = none ∨ w'.stateOf t = some s := by
    intro t s hs hterminal
    rcases hspares t with hsame | hgone | ⟨s₀, hs₀, hopen⟩
    · exact .inr (hsame.trans hs)
    · exact .inl hgone
    · obtain rfl : s = s₀ := Option.some.inj (hs.symm.trans hs₀)
      rw [hterminal] at hopen
      cases hopen
  refine ⟨hkeyed, ⟨fun id' th hth => ?_, fun hfree id' th hth => ?_, fun id₁ id₂ th₁ th₂ h₁ h₂ => ?_⟩,
    fun id' th hth => ?_, fun t ht => ?_, ?_, ?_, fun t ht s hs => ?_, ?_, fun t s hs => ?_, ?_, ?_⟩
  · exact h.serial.passes id' th ((hthread id').symm.trans hth)
  · exact h.serial.free (hlock.symm.trans hfree) id' th ((hthread id').symm.trans hth)
  · exact h.serial.alone id₁ id₂ th₁ th₂ ((hthread id₁).symm.trans h₁) ((hthread id₂).symm.trans h₂)
  · exact hready id' th ((hthread id').symm.trans hth)
  · rw [hhistory]
    exact h.known t fun hgone => ht (hnone t hgone)
  · rw [hhistory]
    exact h.seen
  · rw [hhistory, hpublished]
    exact h.listed
  · rw [hpublished] at ht
    rw [hhistory]
    cases hs₀ : w.stateOf t with
    | none =>
      rw [hnone t hs₀] at hs
      cases hs
    | some s₀ =>
      obtain ⟨hterminal, hannounced⟩ := h.published t ht s₀ hs₀
      rcases hended t s₀ hs₀ hterminal with hgone | hsame
      · rw [hgone] at hs
        cases hs
      · obtain rfl : s₀ = s := Option.some.inj (hsame.symm.trans hs)
        exact ⟨hterminal, hannounced⟩
  · rw [hhistory]
    intro t ht
    exact ⟨hnone t (h.gone t ht).1, (h.gone t ht).2⟩
  · rw [hhistory]
    obtain ⟨hknown, hterminal, hstate⟩ := h.kept t s hs
    refine ⟨hknown, hterminal, ?_⟩
    rcases hstate with hgone | hstate
    · exact .inl (hnone t hgone)
    · exact hended t s hstate hterminal
  · rw [hhistory]
    exact h.told
  · obtain ⟨new, hnew, honce⟩ := h.once
    refine ⟨new, hhistory.trans hnew, fun t => ⟨(honce t).1, fun hany => ?_⟩⟩
    rcases (honce t).2 hany with hin | ⟨hgone, hhands⟩
    · left
      rwa [hpublished]
    · refine .inr ⟨hnone t hgone, fun id' th hth => ?_⟩
      exact hhands id' th ((hthread id').symm.trans hth)

/-- A transaction that was never recorded before is recorded. -/
theorem Announcing.stage (h : Announcing base fate w) {r : Record H}
    (hopen : r.state.isTerminal = false) (hnew : .recorded r.txFinal ∉ w.history) :
    Announcing base fate (w.staged r) := by
  have hread : ∀ t, (w.staged r).read t = if t = r.txFinal then some r else w.read t := w.read_write r
  have hstate : ∀ t, t ≠ r.txFinal → (w.staged r).stateOf t = w.stateOf t := by
    intro t hne
    unfold stateOf
    rw [hread, if_neg hne]
  have hne : ∀ t, .recorded t ∈ w.history → t ≠ r.txFinal := by
    rintro t ht rfl
    exact hnew ht
  have hgrow : ∀ {records t s}, w.Told records t s →
      (w.staged r).Told records t s := by
    intro records t s ht
    exact ht.imp_left fun h => h.cons _
  have hhand : ∀ records, w.InHand records →
      (w.staged r).InHand records := by
    intro records hrecords
    refine ⟨hrecords.nodup, fun r' hr' => List.mem_cons_of_mem _ (hrecords.known r' hr'), hrecords.fresh,
      fun r' hr' s hs => ?_⟩
    have hs' := (hstate _ (hne _ (hrecords.known r' hr'))).symm.trans hs
    exact hrecords.stored r' hr' s hs'
  refine ⟨fun t r' hr' => ?_, ⟨h.serial.passes, h.serial.free, h.serial.alone⟩, fun id' th hth => ?_, fun t ht => ?_,
    fun r' hr' => ?_, fun t ht => List.mem_cons_of_mem _ (h.listed t ht), fun t ht s hs => ?_,
    fun t ht => ?_, fun t s hs => ?_, fun t s hs later rest heq => ?_, ?_⟩
  · have hr' := (hread t).symm.trans hr'
    split at hr'
    · rename_i heq
      cases hr'
      exact heq.symm
    · exact h.keyed t r' hr'
  · have hthis := h.ready id' th hth
    cases th with
    | collecting records wrote =>
      refine ⟨hhand records hthis.1, fun r' hr' hterminal hgone => ?_⟩
      exact hthis.2 r' hr' hterminal ((hstate _ (hne _ (hthis.1.known r' hr'))).symm.trans hgone)
    | pruning records =>
      refine ⟨hhand records hthis.1, fun t s hs hterminal => hgrow (hthis.2 t s ?_ hterminal)⟩
      have hother : t ≠ r.txFinal := by
        rintro rfl
        have hthis : some r.state = some s := by
          refine Eq.trans ?_ hs
          exact (stateOf_of_read (by rw [hread, if_pos rfl])).symm
        cases hthis
        rw [hopen] at hterminal
        cases hterminal
      exact (hstate t hother).symm.trans hs
    | publishing records pruned =>
      refine ⟨hhand records hthis.1, fun t ht => ?_⟩
      obtain ⟨hgone, hknown, htold⟩ := hthis.2 t ht
      exact ⟨(hstate t (hne t hknown)).trans hgone, List.mem_cons_of_mem _ hknown,
        fun s hs => hgrow (htold s hs)⟩
    | _ => exact trivial
  · by_cases heq : t = r.txFinal
    · simp [heq]
    · exact List.mem_cons_of_mem _ (h.known t fun hgone => ht ((hstate t heq).trans hgone))
  · have hr' : Entry.event (.transaction r') ∈ w.history := by simpa using hr'
    exact List.mem_cons_of_mem _ (h.seen r' hr')
  · have hs' := (hstate t (hne t (h.listed t ht))).symm.trans hs
    obtain ⟨hterminal, hannounced⟩ := h.published t ht s hs'
    exact ⟨hterminal, hannounced.cons _⟩
  · have ht : Entry.event (.transactionPruned t) ∈ w.history := by simpa using ht
    obtain ⟨hgone, hknown⟩ := h.gone t ht
    exact ⟨(hstate t (hne t hknown)).trans hgone, List.mem_cons_of_mem _ hknown⟩
  · obtain ⟨hknown, hterminal, hkept⟩ := h.kept t s hs
    refine ⟨List.mem_cons_of_mem _ hknown, hterminal, ?_⟩
    have hsame := hstate t (hne t hknown)
    exact hkept.imp hsame.trans hsame.trans
  · cases later with
    | nil => cases heq
    | cons entry later =>
      obtain ⟨-, heq⟩ := List.cons.inj heq
      exact h.told t s hs later rest heq
  · obtain ⟨new, hsplit, honce⟩ := h.once
    refine ⟨.recorded r.txFinal :: new, by simp [hsplit], fun t => ?_⟩
    obtain ⟨hlength, hdone⟩ := honce t
    refine ⟨by simpa [Entry.finishes] using hlength, fun hany => ?_⟩
    have hany : new.any (Entry.finishes t) = true := by simpa [Entry.finishes] using hany
    have hother : t ≠ r.txFinal := by
      obtain ⟨entry, hentry, hfinishes⟩ := List.any_eq_true.mp hany
      obtain ⟨r', rfl, rfl, -⟩ := Entry.finishes_iff.mp hfinishes
      exact hne _ (h.seen r' (by simp [hsplit, hentry]))
    exact (hdone hany).imp_right fun ⟨hgone, hhands⟩ => ⟨(hstate t hother).trans hgone, hhands⟩

/-- A new life begins with nothing published and no thread. -/
theorem Announcing.restart (h : Announcing base fate w) : Announcing w.history fate w.restarted := by
  refine ⟨h.keyed, ⟨by simp [restarted, thread], by simp [restarted, thread], by simp [restarted, thread]⟩,
    by simp [restarted, thread], h.known, h.seen, by simp [restarted], by simp [restarted], h.gone, h.kept,
    h.told, ?_⟩
  exact ⟨[], rfl, by simp⟩

/-- The invariant holds from here on, whatever was published before. -/
theorem Announcing.rebase (h : Announcing base fate w) : Announcing w.history fate w :=
  { h with once := ⟨[], rfl, by simp⟩ }

/-- The invariant follows the transactions that have ended by now. -/
theorem Announcing.follow (h : Announcing base fate w) :
    Announcing base (fun t => (w.stateOf t).filter fun s => s.isTerminal) w := by
  refine { h with ready := fun id th hth => ?_, kept := fun t s hs => ?_, told := fun t s hs later rest heq => ?_ }
  · have hthis := h.ready id th hth
    cases th with
    | publishing records pruned =>
      refine ⟨hthis.1, fun t ht => ?_⟩
      obtain ⟨hgone, hknown, -⟩ := hthis.2 t ht
      simp [hgone, hknown]
    | collecting => exact hthis
    | pruning => exact hthis
    | _ => exact trivial
  · obtain ⟨hs, hterminal⟩ := Option.filter_eq_some_iff.mp hs
    exact ⟨h.known t (by simp [hs]), hterminal, .inr hs⟩
  · obtain ⟨hs, -⟩ := Option.filter_eq_some_iff.mp hs
    have hgone := (h.gone t (by simp [heq])).1
    rw [hgone] at hs
    cases hs

/-- `add_unpublished_terminal` forgets what is no longer on disk. -/
theorem Announcing.retain (h : Announcing base fate w) {records : List (Record H)} {wrote : Bool}
    (hth : w.thread id = some (.collecting records wrote)) :
    Announcing base fate { w with publishedTerminal := w.publishedTerminal.filter fun t => (w.read t).isSome } := by
  have hhand : ∀ records, w.InHand records →
      InHand { w with publishedTerminal := w.publishedTerminal.filter fun t => (w.read t).isSome } records := by
    intro records hrecords
    exact { hrecords with
      fresh := fun r hr hterminal hin => hrecords.fresh r hr hterminal (List.mem_of_mem_filter hin) }
  refine { h with
    serial := ⟨h.serial.passes, h.serial.free, h.serial.alone⟩
    ready := fun id' th hth' => ?_
    listed := fun t ht => h.listed t (List.mem_of_mem_filter ht)
    published := fun t ht => h.published t (List.mem_of_mem_filter ht)
    once := ?_ }
  · have hthis := h.ready id' th hth'
    cases th with
    | collecting records wrote => exact ⟨hhand records hthis.1, hthis.2⟩
    | pruning records => exact ⟨hhand records hthis.1, hthis.2⟩
    | publishing records pruned => exact ⟨hhand records hthis.1, hthis.2⟩
    | _ => exact trivial
  · obtain ⟨new, hsplit, honce⟩ := h.once
    refine ⟨new, hsplit, fun t => ⟨(honce t).1, fun hany => ?_⟩⟩
    rcases (honce t).2 hany with hin | hgone
    · cases hread : w.read t with
      | some r => exact .inl (List.mem_filter.mpr ⟨hin, by simp [hread]⟩)
      | none =>
        have hnone : w.stateOf t = none := by simp [Daemon.stateOf, hread]
        refine .inr ⟨hnone, fun id' th hth' r hr hterminal heq => ?_⟩
        by_cases hid : id' = id
        · subst hid
          obtain rfl : Thread.collecting records wrote = th := Option.some.inj (hth.symm.trans hth')
          exact (h.ready id' _ hth).2 r hr hterminal (by rwa [heq])
        · obtain ⟨sync, rfl⟩ := h.serial.unlocked hth' (h.serial.others_unlocked hth rfl hid hth')
          cases hr
    · exact .inr hgone

/-- The daemon after the settler has published a record. -/
def shown (w : Daemon H) (r : Record H) : Daemon H :=
  { w.emit (.transaction r) with
    publishedTerminal := if r.state.isTerminal then r.txFinal :: w.publishedTerminal else w.publishedTerminal }

/-- The daemon after the settler has published a removal. -/
def ended (w : Daemon H) (t : H) : Daemon H :=
  { w.emit (.transactionPruned t) with publishedTerminal := w.publishedTerminal.filter fun t' => t' ≠ t }

theorem Announcing.shows (h : Announcing base fate w) {r : Record H} {records : List (Record H)}
    {pruned : List H} (hth : w.thread id = some (.publishing (r :: records) pruned)) :
    Announcing base fate ((w.shown r).become id (.publishing records pruned)) := by
  have hm : Turns w ((w.shown r).become id (.publishing records pruned)) id
      (some (.publishing records pruned)) :=
    ⟨fun _ hne => thread_become_ne (w.shown r) id _ hne, thread_become (w.shown r) id _⟩
  obtain ⟨hhand, hpruned⟩ := h.ready id _ hth
  have hhistory : ((w.shown r).become id (.publishing records pruned)).history =
      .event (.transaction r) :: w.history := rfl
  have hlisted : ∀ t ∈ (w.shown r).publishedTerminal, t ∈ w.publishedTerminal ∨
      (t = r.txFinal ∧ r.state.isTerminal = true) := by
    intro t ht
    unfold shown at ht
    dsimp only at ht
    split at ht
    · rename_i hterminal
      rcases List.mem_cons.mp ht with heq | hin
      · exact .inr ⟨heq, hterminal⟩
      · exact .inl hin
    · exact .inl ht
  have hkept : ∀ t ∈ w.publishedTerminal, t ∈ (w.shown r).publishedTerminal := by
    intro t ht
    unfold shown
    dsimp only
    split
    · exact List.mem_cons_of_mem _ ht
    · exact ht
  have hnodup := List.nodup_cons.mp hhand.nodup
  refine ⟨h.keyed, h.serial.turn hth rfl hm (by simp [Thread.locked]) .inl, fun id' th hth' => ?_,
    fun t ht => List.mem_cons_of_mem _ (h.known t ht), fun r' hr' => ?_, fun t ht => ?_,
    fun t ht s hs => ?_, fun t ht => ?_, fun t s hs => ?_, fun t s hs later rest heq => ?_, ?_⟩
  · rcases hm.lookup hth' with ⟨-, hmine⟩ | ⟨hne, hother⟩
    · cases hmine
      refine ⟨⟨hnodup.2, fun r' hr' => ?_, fun r' hr' hterminal hin => ?_, fun r' hr' => ?_⟩, fun t ht => ?_⟩
      · exact List.mem_cons_of_mem _ (hhand.known r' (by simp [hr']))
      · rcases hlisted _ hin with hin | ⟨heq, -⟩
        · exact hhand.fresh r' (by simp [hr']) hterminal hin
        · exact hnodup.1 (heq ▸ List.mem_map_of_mem hr')
      · exact hhand.stored r' (by simp [hr'])
      · obtain ⟨hgone, hknown, htold⟩ := hpruned t ht
        refine ⟨hgone, List.mem_cons_of_mem _ hknown, fun s hs => ?_⟩
        rcases htold s hs with hannounced | ⟨r', hr', hrest⟩
        · exact .inl (hannounced.cons _)
        · rcases List.mem_cons.mp hr' with rfl | hr'
          · exact .inl ⟨r', by simp [hhistory], hrest⟩
          · exact .inr ⟨r', hr', hrest⟩
    · obtain ⟨sync, rfl⟩ := h.serial.unlocked hother (h.serial.others_unlocked hth rfl hne hother)
      exact trivial
  · rw [hhistory] at hr' ⊢
    rcases List.mem_cons.mp hr' with heq | hr'
    · cases heq
      exact List.mem_cons_of_mem _ (hhand.known r (by simp))
    · exact List.mem_cons_of_mem _ (h.seen r' hr')
  · rcases hlisted t ht with hin | ⟨rfl, -⟩
    · exact List.mem_cons_of_mem _ (h.listed t hin)
    · exact List.mem_cons_of_mem _ (hhand.known r (by simp))
  · rcases hlisted t ht with hin | ⟨rfl, hterminal⟩
    · obtain ⟨hterminal, hannounced⟩ := h.published t hin s hs
      exact ⟨hterminal, hannounced.cons _⟩
    · obtain rfl := hhand.stored_terminal (by simp) hterminal hs
      exact ⟨hterminal, r, by simp [hhistory], rfl, rfl⟩
  · have ht : Entry.event (.transactionPruned t) ∈ w.history := by simpa [hhistory] using ht
    exact ⟨(h.gone t ht).1, List.mem_cons_of_mem _ (h.gone t ht).2⟩
  · exact ⟨List.mem_cons_of_mem _ (h.kept t s hs).1, (h.kept t s hs).2⟩
  · cases later with
    | nil => cases heq
    | cons entry later => exact h.told t s hs later rest (List.cons.inj heq).2
  · obtain ⟨new, hsplit, honce⟩ := h.once
    refine ⟨.event (.transaction r) :: new, by rw [hhistory, hsplit, List.cons_append], fun t => ?_⟩
    obtain ⟨hlength, hdone⟩ := honce t
    by_cases hmine : r.txFinal = t ∧ r.state.isTerminal = true
    · -- the record was in hand, so no event had shown the transaction finished
      obtain ⟨rfl, hterminal⟩ := hmine
      have hfirst : new.any (Entry.finishes r.txFinal) = false := by
        by_contra hany
        rcases hdone (by simpa using hany) with hin | ⟨-, hhands⟩
        · exact hhand.fresh r (by simp) hterminal hin
        · exact hhands id _ hth r (by simp [Thread.hand]) hterminal rfl
      have hempty : new.filter (Entry.finishes r.txFinal) = [] := by
        simpa using hfirst
      refine ⟨by simp [Entry.finishes, hterminal, hempty], fun _ => .inl ?_⟩
      simp [shown, become, hterminal]
    · have hnot : Entry.finishes t (.event (.transaction r)) = false := by
        by_contra hfin
        obtain ⟨r', heq, hr'⟩ := Entry.finishes_iff.mp (by simpa using hfin)
        cases heq
        exact hmine hr'
      refine ⟨by simpa [List.filter_cons, hnot] using hlength, fun hany => ?_⟩
      rcases hdone (by simpa [hnot] using hany) with hin | ⟨hgone, hhands⟩
      · exact .inl (hkept t hin)
      · refine .inr ⟨hgone, fun id' th hth' r' hr' => ?_⟩
        rcases hm.lookup hth' with ⟨-, hmine'⟩ | ⟨-, hother⟩
        · cases hmine'
          exact hhands id _ hth r' (List.mem_cons_of_mem _ hr')
        · exact hhands id' th hother r' hr'

theorem Announcing.ends (h : Announcing base fate w) {t : H} {pruned : List H}
    (hth : w.thread id = some (.publishing [] (t :: pruned))) :
    Announcing base fate ((w.ended t).become id (.publishing [] pruned)) := by
  have hm : Turns w ((w.ended t).become id (.publishing [] pruned)) id
      (some (.publishing [] pruned)) :=
    ⟨fun _ hne => thread_become_ne (w.ended t) id _ hne, thread_become (w.ended t) id _⟩
  obtain ⟨-, hpruned⟩ := h.ready id _ hth
  obtain ⟨hgone, hknown, htold⟩ := hpruned t (by simp)
  have hhistory : ((w.ended t).become id (.publishing [] pruned)).history =
      .event (.transactionPruned t) :: w.history := rfl
  have hlisted : ∀ t' ∈ (w.ended t).publishedTerminal, t' ∈ w.publishedTerminal := by
    intro t' ht'
    exact List.mem_of_mem_filter ht'
  refine ⟨h.keyed, h.serial.turn hth rfl hm (by simp [Thread.locked]) .inl, fun id' th hth' => ?_,
    fun t' ht' => List.mem_cons_of_mem _ (h.known t' ht'), fun r' hr' => ?_,
    fun t' ht' => List.mem_cons_of_mem _ (h.listed t' (hlisted t' ht')), fun t' ht' s hs => ?_,
    fun t' ht' => ?_, fun t' s hs => ?_, fun t' s hs later rest heq => ?_, ?_⟩
  · rcases hm.lookup hth' with ⟨-, hmine⟩ | ⟨hne, hother⟩
    · cases hmine
      refine ⟨⟨by simp, by simp, by simp, by simp⟩, fun t' ht' => ?_⟩
      obtain ⟨hgone', hknown', htold'⟩ := hpruned t' (by simp [ht'])
      refine ⟨hgone', List.mem_cons_of_mem _ hknown', fun s hs => ?_⟩
      exact (htold' s hs).imp_left fun hannounced => hannounced.cons _
    · obtain ⟨sync, rfl⟩ := h.serial.unlocked hother (h.serial.others_unlocked hth rfl hne hother)
      exact trivial
  · have hr' : Entry.event (.transaction r') ∈ w.history := by simpa [hhistory] using hr'
    exact List.mem_cons_of_mem _ (h.seen r' hr')
  · obtain ⟨hterminal, hannounced⟩ := h.published t' (hlisted t' ht') s hs
    exact ⟨hterminal, hannounced.cons _⟩
  · rw [hhistory] at ht' ⊢
    rcases List.mem_cons.mp ht' with heq | ht'
    · cases heq
      exact ⟨hgone, List.mem_cons_of_mem _ hknown⟩
    · exact ⟨(h.gone t' ht').1, List.mem_cons_of_mem _ (h.gone t' ht').2⟩
  · exact ⟨List.mem_cons_of_mem _ (h.kept t' s hs).1, (h.kept t' s hs).2⟩
  · cases later with
    | nil =>
      obtain ⟨heq, hrest⟩ := List.cons.inj heq
      cases heq
      subst hrest
      rcases htold s hs with hannounced | ⟨r', hr', -⟩
      · exact hannounced
      · cases hr'
    | cons entry later => exact h.told t' s hs later rest (List.cons.inj heq).2
  · obtain ⟨new, hsplit, honce⟩ := h.once
    refine ⟨.event (.transactionPruned t) :: new, by rw [hhistory, hsplit, List.cons_append], fun t' => ?_⟩
    obtain ⟨hlength, hdone⟩ := honce t'
    refine ⟨by simpa [List.filter_cons, Entry.finishes] using hlength, fun hany => ?_⟩
    have hnohand : ∀ id' th, ((w.ended t).become id (.publishing [] pruned)).thread id' = some th →
        th.hand = [] := by
      intro id' th hth'
      rcases hm.lookup hth' with ⟨-, hmine⟩ | ⟨hne, hother⟩
      · cases hmine
        rfl
      · obtain ⟨sync, rfl⟩ := h.serial.unlocked hother (h.serial.others_unlocked hth rfl hne hother)
        rfl
    by_cases heq : t' = t
    · subst heq
      exact .inr ⟨hgone, fun id' th hth' r' hr' => by simp [hnohand id' th hth'] at hr'⟩
    · rcases hdone (by simpa [Entry.finishes] using hany) with hin | ⟨hgone', -⟩
      · exact .inl (List.mem_filter.mpr ⟨hin, by simpa using heq⟩)
      · exact .inr ⟨hgone', fun id' th hth' r' hr' => by simp [hnohand id' th hth'] at hr'⟩

/-! ### Settlement -/

theorem persisted_state (names : List (H × FileNames)) (r : Record H) : (persisted names r).state = r.state := by
  unfold persisted
  split
  · split <;> rfl
  · rfl

theorem Keyed.writeAll (h : w.Keyed) (records : List (Record H)) : (w.writeAll records).Keyed := by
  intro t r hr
  rcases read_writeAll w records t with ⟨hread, -⟩ | ⟨r', -, hkey, hread⟩
  · exact h t r (hread.symm.trans hr)
  · rw [hread] at hr
    cases hr
    exact hkey

theorem writeAll_passLock (w : Daemon H) (records : List (Record H)) :
    (w.writeAll records).passLock = w.passLock := by
  induction records generalizing w with
  | nil => rfl
  | cons r records ih => exact ih (w.write r)

theorem removeAll_passLock (w : Daemon H) (ts : List H) : (w.removeAll ts).passLock = w.passLock := by
  induction ts generalizing w with
  | nil => rfl
  | cons t ts ih => exact ih (w.remove t)

/-- A settlement, in whole or in part, changes open records. -/
theorem Keyed.settlement_spares (h : w.Keyed) {x : Settlement H} {now : Nat} {names : List (H × FileNames)}
    {writes : List (Record H)} (hwrites : ∀ r ∈ writes, r ∈ w.settlementWrites x now names) :
    Spares w (w.writeAll writes) := by
  intro t
  rcases read_writeAll w writes t with ⟨hread, -⟩ | ⟨r, hr, rfl, -⟩
  · left
    unfold stateOf
    rw [hread]
  · obtain ⟨c, hc, hkey, -⟩ := mem_settlementWrites (hwrites r hr)
    obtain ⟨r₀, hr₀, hopen, -⟩ := h.mem_changed hc
    rw [hkey] at hr₀
    exact .inr (.inr ⟨r₀.state, stateOf_of_read hr₀, by simpa [TransactionRecord.isOpen] using hopen⟩)

theorem Announcing.settle (h : Announcing base fate w) {sync : Bool} {queried : List H}
    (hth : w.thread id = some (.settling sync queried)) (x : Settlement H) (now : Nat)
    (names : List (H × FileNames)) {writes : List (Record H)}
    (hwrites : ∀ r ∈ writes, r ∈ w.settlementWrites x now names) :
    Announcing base fate (w.writeAll writes) ∧ (w.writeAll writes).thread id = some (.settling sync queried) := by
  obtain ⟨hthreads, hhistory, hpublished⟩ := writeAll_threads w writes
  refine ⟨h.store hthreads (writeAll_passLock w writes) hhistory hpublished (Keyed.writeAll h.keyed writes)
    (Keyed.settlement_spares h.keyed hwrites) fun id' th hth' => ?_, ?_⟩
  · by_cases hid : id' = id
    · subst hid
      obtain rfl : Thread.settling sync queried = th := Option.some.inj (hth.symm.trans hth')
      exact trivial
    · obtain ⟨sync', rfl⟩ := h.serial.unlocked hth' (h.serial.others_unlocked hth rfl hid hth')
      exact trivial
  · unfold thread
    rw [hthreads]
    exact hth

theorem changed_nodup (h : w.Keyed) (x : Settlement H) (now : Nat) :
    ((w.changed x now).map TransactionRecord.txFinal).Nodup := by
  have hkeys : (w.all.map TransactionRecord.txFinal).Nodup := by
    rw [all_txFinal h]
    exact w.records.keys_nodup
  have hsame : (w.changed x now).map TransactionRecord.txFinal =
      (w.all.filter fun r => settled x now r ≠ r).map TransactionRecord.txFinal := by
    unfold changed changedRecords
    rw [List.map_map]
    exact List.map_congr_left fun r _ => (settled_sameFiles x now r).txFinal
  rw [hsame]
  exact hkeys.sublist ((List.filter_sublist).map _)

/-- The records that a whole settlement reports. -/
theorem Announcing.outcome (h : Announcing base fate w) (x : Settlement H) (now : Nat)
    (names : List (H × FileNames)) :
    (w.writeAll (w.settlementWrites x now names)).InHand ((w.changed x now).map (persisted names)) ∧
    ∀ r ∈ (w.changed x now).map (persisted names),
      (w.writeAll (w.settlementWrites x now names)).stateOf r.txFinal ≠ none := by
  obtain ⟨-, hhistory, hpublished⟩ := writeAll_threads w (w.settlementWrites x now names)
  have hread : ∀ c ∈ w.changed x now, (w.writeAll (w.settlementWrites x now names)).stateOf c.txFinal =
      some (persisted names c).state := fun c hc => stateOf_of_read (Keyed.read_settled h.keyed hc)
  refine ⟨⟨?_, fun r hr => ?_, fun r hr _ hin => ?_, fun r hr s hs => ?_⟩, fun r hr => ?_⟩
  · have hsame : ((w.changed x now).map (persisted names)).map TransactionRecord.txFinal =
        (w.changed x now).map TransactionRecord.txFinal := by
      rw [List.map_map]
      exact List.map_congr_left fun c _ => persisted_txFinal names c
    rw [hsame]
    exact changed_nodup h.keyed x now
  · obtain ⟨c, hc, rfl⟩ := List.mem_map.mp hr
    obtain ⟨r₀, hr₀, -, -⟩ := Keyed.mem_changed h.keyed hc
    rw [persisted_txFinal, hhistory]
    exact h.known _ (by simp [stateOf_of_read hr₀])
  · obtain ⟨c, hc, rfl⟩ := List.mem_map.mp hr
    obtain ⟨r₀, hr₀, hopen, -⟩ := Keyed.mem_changed h.keyed hc
    rw [persisted_txFinal, hpublished] at hin
    have hterminal := (h.published _ hin _ (stateOf_of_read hr₀)).1
    simp [TransactionRecord.isOpen, hterminal] at hopen
  · obtain ⟨c, hc, rfl⟩ := List.mem_map.mp hr
    rw [persisted_txFinal, hread c hc] at hs
    exact .inl (Option.some.inj hs).symm
  · obtain ⟨c, hc, rfl⟩ := List.mem_map.mp hr
    rw [persisted_txFinal, hread c hc]
    simp

/-! ### Pruning -/

/-- The store after pruning. -/
def afterPruning (w : Daemon H) (now : Nat) (answers : List (H × PruneAnswer)) : Daemon H :=
  (w.writeAll (w.prunedWrites now answers)).removeAll (w.prunedIds now answers ++ w.lostIds now answers)

theorem Keyed.removeAll (h : w.Keyed) (ts : List H) : (w.removeAll ts).Keyed := by
  intro t r hr
  rw [read_removeAll] at hr
  split at hr
  · cases hr
  · exact h t r hr

theorem pruneRecord_kept {now : Nat} {answers : List (H × PruneAnswer)} {r r' : Record H}
    (h : pruneRecord now answers r = .kept r') : r'.txFinal = r.txFinal ∧ r'.state = r.state := by
  have hcases : r' = r ∨ ∃ n, r' = withNames r n := by
    unfold pruneRecord at h
    dsimp only at h
    repeat' split at h
    all_goals first
      | cases h
        exact .inl rfl
      | cases h
        exact .inr ⟨_, rfl⟩
      | cases h
  rcases hcases with rfl | ⟨n, rfl⟩
  · exact ⟨rfl, rfl⟩
  · exact ⟨rfl, rfl⟩

/-- Pruning removes records or leaves them in their state. -/
theorem Keyed.stateOf_afterPruning (h : w.Keyed) (now : Nat) (answers : List (H × PruneAnswer)) (t : H) :
    (w.afterPruning now answers).stateOf t =
      if t ∈ w.prunedIds now answers ++ w.lostIds now answers then none else w.stateOf t := by
  have hread := read_removeAll (w.writeAll (w.prunedWrites now answers))
    (w.prunedIds now answers ++ w.lostIds now answers) t
  unfold stateOf afterPruning
  rw [hread]
  split
  · rfl
  · rcases read_writeAll w (w.prunedWrites now answers) t with ⟨hsame, -⟩ | ⟨r, hr, rfl, hwritten⟩
    · rw [hsame]
    · obtain ⟨r₀, hr₀, hprune⟩ := List.mem_filterMap.mp hr
      have hstored : w.read r₀.txFinal = some r₀ := h.mem_all.mp (List.mem_of_mem_filter hr₀)
      cases hkept : pruneRecord now answers r₀ with
      | kept r' =>
        rw [hkept] at hprune
        obtain ⟨hkey, hstate⟩ := pruneRecord_kept hkept
        dsimp only at hprune
        split at hprune
        · cases hprune
        · cases hprune
          rw [hwritten, hkey, hstored]
          simp [hstate]
      | removed => simp [hkept] at hprune
      | lost => simp [hkept] at hprune

/-- A pass prunes: what it will report was announced, or is about to be. -/
theorem Announcing.prune (h : Announcing base fate w) {records : List (Record H)}
    (hth : w.thread id = some (.pruning records)) (now : Nat) (answers : List (H × PruneAnswer))
    {reported : List H} (hreported : reported ⊆ w.prunedIds now answers) :
    Announcing base fate ((w.afterPruning now answers).become id (.publishing records reported)) := by
  obtain ⟨hhand, htold⟩ := h.ready id _ hth
  obtain ⟨hthreads, hhistory, hpublished⟩ := writeAll_threads w (w.prunedWrites now answers)
  obtain ⟨hthreads', hhistory', hpublished'⟩ := removeAll_threads (w.writeAll (w.prunedWrites now answers))
    (w.prunedIds now answers ++ w.lostIds now answers)
  have hhist : (w.afterPruning now answers).history = w.history := hhistory'.trans hhistory
  have hpub : (w.afterPruning now answers).publishedTerminal = w.publishedTerminal :=
    hpublished'.trans hpublished
  have hstate := Keyed.stateOf_afterPruning h.keyed now answers
  have hsome : ∀ t s, (w.afterPruning now answers).stateOf t = some s → w.stateOf t = some s := by
    intro t s hs
    rw [hstate] at hs
    split at hs
    · cases hs
    · exact hs
  have hhand' : (w.afterPruning now answers).InHand records :=
    hhand.congr hhist hpub fun r hr s hs => hhand.stored r hr s (hsome _ s hs)
  have hstore : Announcing base fate (w.afterPruning now answers) := by
    refine h.store (hthreads'.trans hthreads) ?_ hhist hpub
      (Keyed.removeAll (Keyed.writeAll h.keyed _) _) (fun t => ?_) fun id' th hth' => ?_
    · exact (removeAll_passLock _ _).trans (writeAll_passLock w _)
    · rw [hstate]
      split
      · exact .inr (.inl rfl)
      · exact .inl rfl
    · by_cases hid : id' = id
      · subst hid
        obtain rfl : Thread.pruning records = th := Option.some.inj (hth.symm.trans hth')
        exact ⟨hhand', fun t s hs hterminal => (htold t s (hsome t s hs) hterminal).mono hhist fun _ hr => hr⟩
      · obtain ⟨sync, rfl⟩ := h.serial.unlocked hth' (h.serial.others_unlocked hth rfl hid hth')
        exact trivial
  have hthread : (w.afterPruning now answers).thread id = some (.pruning records) := by
    unfold thread
    rw [show (w.afterPruning now answers).threads = w.threads from hthreads'.trans hthreads]
    exact hth
  refine hstore.advance hthread rfl rfl ⟨hhand', fun t ht => ?_⟩ fun r hr _ _ => hr
  have hpruned := hreported ht
  obtain ⟨r, hr, rfl⟩ := List.mem_map.mp hpruned
  obtain ⟨hall, hterminal⟩ := List.mem_filter.mp (List.mem_of_mem_filter hr)
  have hstored := stateOf_of_read (Keyed.mem_all h.keyed |>.mp hall)
  refine ⟨?_, ?_, fun s hs => ?_⟩
  · rw [hstate, if_pos (List.mem_append_left _ hpruned)]
  · rw [hhist]
    exact h.known _ (by simp [hstored])
  · have hsame : r.state = s := by
      rcases (h.kept _ s hs).2.2 with hgone | hkept
      · rw [hstored] at hgone
        cases hgone
      · exact Option.some.inj (hstored.symm.trans hkept)
    exact (htold _ s (by rw [hstored, hsame]) (hsame ▸ hterminal)).mono hhist fun _ hr => hr

/-! ### Announcing what a failed settlement left -/

theorem Announcing.collect (h : Announcing base fate w) {records : List (Record H)} {wrote : Bool}
    (hth : w.thread id = some (.collecting records wrote)) :
    Announcing base fate (({ w with
      publishedTerminal := w.publishedTerminal.filter fun t => (w.read t).isSome }).become id
      (.pruning (records ++ unpublished { w with
        publishedTerminal := w.publishedTerminal.filter fun t => (w.read t).isSome } records))) := by
  have hretained := h.retain hth
  generalize hw₁ : ({ w with
    publishedTerminal := w.publishedTerminal.filter fun t => (w.read t).isSome } : Daemon H) = w₁ at hretained ⊢
  have hth₁ : w₁.thread id = some (.collecting records wrote) := by
    rw [← hw₁]
    exact hth
  obtain ⟨hhand, -⟩ := hretained.ready id _ hth₁
  have hnew : ∀ r ∈ w₁.unpublished records, w₁.read r.txFinal = some r ∧ r.txFinal ∉ w₁.publishedTerminal ∧
      r.txFinal ∉ records.map TransactionRecord.txFinal := by
    intro r hr
    obtain ⟨hall, hpick⟩ := List.mem_filter.mp hr
    simp only [Bool.and_eq_true, decide_eq_true_eq, List.all_eq_true] at hpick
    refine ⟨(Keyed.mem_all hretained.keyed).mp hall, hpick.1.2, fun hin => ?_⟩
    obtain ⟨r', hr', heq⟩ := List.mem_map.mp hin
    exact hpick.2 r' hr' heq
  have hhand' : w₁.InHand (records ++ w₁.unpublished records) := by
    refine ⟨?_, fun r hr => ?_, fun r hr hterminal => ?_, fun r hr s hs => ?_⟩
    · rw [List.map_append]
      refine List.nodup_append'.mpr ⟨hhand.nodup, ?_, fun t ht ht' => ?_⟩
      · have hkeys : (w₁.all.map TransactionRecord.txFinal).Nodup := by
          rw [all_txFinal hretained.keyed]
          exact w₁.records.keys_nodup
        exact hkeys.sublist ((List.filter_sublist).map _)
      · obtain ⟨r, hr, rfl⟩ := List.mem_map.mp ht'
        exact (hnew r hr).2.2 ht
    · rcases List.mem_append.mp hr with hr | hr
      · exact hhand.known r hr
      · exact hretained.known _ (by simp [stateOf_of_read (hnew r hr).1])
    · rcases List.mem_append.mp hr with hr | hr
      · exact hhand.fresh r hr hterminal
      · exact (hnew r hr).2.1
    · rcases List.mem_append.mp hr with hr | hr
      · exact hhand.stored r hr s hs
      · rw [stateOf_of_read (hnew r hr).1] at hs
        exact .inl (Option.some.inj hs).symm
  refine hretained.advance hth₁ rfl rfl ⟨hhand', fun t s hs hterminal => ?_⟩ fun r hr _ hgone => ?_
  · -- a terminal record was announced, or the outcome has it, or it is added now
    obtain ⟨r, hr, rfl⟩ := read_of_stateOf hs
    have hkey := hretained.keyed t r hr
    by_cases hin : t ∈ w₁.publishedTerminal
    · exact .inl (hretained.published t hin _ hs).2
    · right
      by_cases hrecords : t ∈ records.map TransactionRecord.txFinal
      · obtain ⟨r', hr', rfl⟩ := List.mem_map.mp hrecords
        refine ⟨r', List.mem_append_left _ hr', rfl, ?_⟩
        rcases hhand.stored r' hr' _ hs with hsame | ⟨hopen, -⟩
        · exact hsame.symm
        · rw [hterminal] at hopen
          cases hopen
      · refine ⟨r, List.mem_append_right _ (List.mem_filter.mpr ⟨Daemon.mem_all.mpr ⟨t, hr⟩, ?_⟩), hkey, rfl⟩
        rw [← hkey] at hin hrecords
        simp only [hterminal, Bool.true_and, Bool.and_eq_true, decide_eq_true_eq, List.all_eq_true]
        exact ⟨hin, fun r' hr' heq => hrecords (heq ▸ List.mem_map_of_mem hr')⟩
  · rcases List.mem_append.mp hr with hr | hr
    · exact hr
    · rw [stateOf_of_read (hnew r hr).1] at hgone
      cases hgone

/-! ### Runs and requests -/

/-- A change of open records leaves the settler as it is. -/
theorem Announcing.edit (h : Announcing base fate w) (hthreads : w'.threads = w.threads)
    (hlock : w'.passLock = w.passLock) (hhistory : w'.history = w.history)
    (hpublished : w'.publishedTerminal = w.publishedTerminal) (hkeyed : w'.Keyed) {t : H}
    {s : TransactionState} (hs : w.stateOf t = some s) (hopen : s.isTerminal = false)
    (hs' : ∀ s', w'.stateOf t = some s' → s'.isTerminal = false)
    (hothers : ∀ t', t' ≠ t → w'.stateOf t' = w.stateOf t') : Announcing base fate w' := by
  have hterminal : ∀ t' s', s'.isTerminal = true → (w'.stateOf t' = some s' ↔ w.stateOf t' = some s') := by
    intro t' s' hterminal
    by_cases heq : t' = t
    · subst heq
      constructor
      · intro hnow
        rw [hs' s' hnow] at hterminal
        cases hterminal
      · intro hbefore
        obtain rfl : s = s' := Option.some.inj (hs.symm.trans hbefore)
        rw [hopen] at hterminal
        cases hterminal
    · rw [hothers t' heq]
  have hhand : ∀ records, w.InHand records → w'.InHand records := by
    intro records hrecords
    refine hrecords.congr hhistory hpublished fun r hr s₁ hs₁ => ?_
    by_cases heq : r.txFinal = t
    · have hopen₁ := hs' s₁ (heq ▸ hs₁)
      rcases hrecords.stored r hr s (heq ▸ hs) with hsame | hboth
      · exact .inr ⟨hopen₁, hsame ▸ hopen⟩
      · exact .inr ⟨hopen₁, hboth.2⟩
    · rw [hothers _ heq] at hs₁
      exact hrecords.stored r hr s₁ hs₁
  refine h.store hthreads hlock hhistory hpublished hkeyed (fun t' => ?_) fun id' th hth => ?_
  · by_cases heq : t' = t
    · subst heq
      exact .inr (.inr ⟨s, hs, hopen⟩)
    · exact .inl (hothers t' heq)
  · have hthis := h.ready id' th hth
    cases th with
    | collecting records wrote =>
      refine ⟨hhand records hthis.1, fun r hr hended => ?_⟩
      cases hstored : w.stateOf r.txFinal with
      | none => exact absurd hstored (hthis.2 r hr hended)
      | some s₁ =>
        obtain rfl := hthis.1.stored_terminal hr hended hstored
        simp [(hterminal _ _ hended).mpr hstored]
    | pruning records =>
      refine ⟨hhand records hthis.1, fun t' s₁ hs₁ hended => ?_⟩
      exact (hthis.2 t' s₁ ((hterminal t' s₁ hended).mp hs₁) hended).mono hhistory fun _ hr => hr
    | publishing records pruned =>
      refine ⟨hhand records hthis.1, fun t' ht' => ?_⟩
      obtain ⟨hgone, hknown, htold⟩ := hthis.2 t' ht'
      have hne : t' ≠ t := by
        rintro rfl
        rw [hs] at hgone
        cases hgone
      rw [hothers t' hne, hhistory]
      exact ⟨hgone, hknown, fun s₁ hs₁ => (htold s₁ hs₁).mono hhistory fun _ hr => hr⟩
    | _ => exact trivial

end Next

/-! ## Every run -/

section Runs

variable {w w' : Daemon H} {base : List (Entry H)} {fate : H → Option TransactionState}

theorem Announcing.settlerStep {a : Action H} (h : Announcing base fate w) (ha : a.bySettler = true)
    (hs : w.step a = some w') : Announcing base fate w' := by
  cases a with
  | spawnPass id sync =>
    simp only [step] at hs
    unfold Daemon.spawn at hs
    split at hs
    · cases hs
      exact h.spawn sync
    · cases hs
  | lockPass id =>
    simp only [step, stepLockPass] at hs
    split at hs
    · cases hs
    · rename_i hfree
      split at hs
      · rename_i t hth
        rcases h.serial.passes id _ hth with hpass | ⟨sync, hpass⟩ <;> cases hpass
      · cases hs
        exact h.lock (by simpa using hfree)
      · cases hs
  | query id =>
    simp only [step, stepQuery] at hs
    split at hs
    · rename_i sync hth
      cases hs
      exact h.advance hth rfl rfl trivial (by simp [Thread.hand])
    · cases hs
  | settle id x now names stop =>
    simp only [step, stepSettle] at hs
    split at hs
    · rename_i sync queried hth
      generalize hx : ({ x with queried := queried, jobs := if sync then [] else x.jobs } : Settlement H) = x' at hs
      split at hs
      · obtain ⟨hstore, hth'⟩ := h.settle hth x' now names fun r hr => hr
        obtain ⟨hhand, hpresent⟩ := h.outcome x' now names
        obtain rfl := Option.some.inj hs
        cases sync with
        | false =>
          exact hstore.advance hth' rfl rfl ⟨hhand, fun r hr _ => hpresent r hr⟩ fun r hr _ hgone =>
            absurd hgone (hpresent r hr)
        | true =>
          exact hstore.advance hth' rfl rfl ⟨hhand, by simp⟩ fun r hr _ hgone =>
            absurd hgone (hpresent r hr)
      · rename_i n
        have htake : ∀ r ∈ (w.settlementWrites x' now names).take n, r ∈ w.settlementWrites x' now names :=
          fun r hr => List.mem_of_mem_take hr
        obtain ⟨hstore, hth'⟩ := h.settle hth x' now names htake
        obtain rfl := Option.some.inj hs
        cases sync with
        | false => exact hstore.advance hth' rfl rfl trivial (by simp [Thread.hand])
        | true => exact hstore.quit hth' rfl
    · cases hs
  | relist id readable =>
    simp only [step, stepRelist] at hs
    split at hs
    · rename_i wrote hth
      cases hs
      cases readable
      · exact h.quit hth rfl
      · exact h.advance hth rfl rfl ⟨⟨by simp, by simp, by simp, by simp⟩, by simp⟩ (by simp [Thread.hand])
    · cases hs
  | collect id readable =>
    obtain rfl : readable = true := ha
    simp only [step, stepCollect] at hs
    split at hs
    · rename_i records wrote hth
      cases hs
      exact h.collect hth
    · cases hs
  | prune id now answers ending =>
    simp only [step, stepPrune] at hs
    split at hs
    · rename_i records hth
      cases ending with
      | unreadable =>
        cases hs
        exact h.advance hth rfl rfl ⟨(h.ready id _ hth).1, by simp⟩ fun r hr _ _ => hr
      | done =>
        cases hs
        exact h.prune hth now answers fun _ ht => ht
      | failed =>
        cases hs
        exact h.prune hth now answers (by simp)
    · cases hs
  | publish id =>
    simp only [step, stepPublish] at hs
    split at hs
    · rename_i r records pruned hth
      cases hs
      exact h.shows hth
    · rename_i t pruned hth
      cases hs
      exact h.ends hth
    · rename_i hth
      cases hs
      exact h.quit hth rfl
    · cases hs
  | _ => cases ha

theorem Announcing.turn {a : Turn H} (h : Announcing base fate w) (ha : a ≠ .restart)
    (hs : w.turn a = some w') : Announcing base fate w' := by
  cases a with
  | settler a =>
    simp only [Daemon.turn] at hs
    split at hs
    · rename_i hsettler
      exact h.settlerStep hsettler hs
    · cases hs
  | stage r =>
    simp only [Daemon.turn] at hs
    split at hs
    · rename_i hstage
      cases hs
      exact h.stage (by simpa [TransactionRecord.isOpen] using hstage.1) hstage.2
    · cases hs
  | rewrite r =>
    simp only [Daemon.turn] at hs
    split at hs
    · rename_i r₀ hr₀
      split at hs
      · rename_i hopen
        cases hs
        have hread := w.read_write r
        have hmine : (w.write r).stateOf r.txFinal = some r.state :=
          stateOf_of_read (by rw [hread, if_pos rfl])
        refine h.edit (t := r.txFinal) rfl rfl rfl rfl (Keyed.writeAll h.keyed [r]) (stateOf_of_read hr₀) ?_
          (fun s' hs' => ?_) fun t' hne => ?_
        · simpa [TransactionRecord.isOpen] using hopen.1
        · rw [hmine] at hs'
          cases hs'
          simpa [TransactionRecord.isOpen] using hopen.2
        · unfold stateOf
          rw [hread, if_neg hne]
      · cases hs
    · cases hs
  | drop t =>
    simp only [Daemon.turn] at hs
    split at hs
    · rename_i r₀ hr₀
      split at hs
      · rename_i hopen
        cases hs
        have hread := w.read_remove t
        refine h.edit (t := t) rfl rfl rfl rfl (Keyed.removeAll h.keyed [t]) (stateOf_of_read hr₀) ?_
          (fun s' hs' => ?_) fun t' hne => ?_
        · simpa [TransactionRecord.isOpen] using hopen
        · unfold stateOf at hs'
          rw [hread, if_pos rfl] at hs'
          cases hs'
        · unfold stateOf
          rw [hread, if_neg hne]
      · cases hs
    · cases hs
  | restart => exact absurd rfl ha

/-- The invariant, whichever life the daemon is in. -/
theorem Announcing.turn_exists {a : Turn H} (h : ∃ base, Announcing base fate w) (hs : w.turn a = some w') :
    ∃ base, Announcing base fate w' := by
  obtain ⟨base, h⟩ := h
  by_cases ha : a = .restart
  · subst ha
    cases hs
    exact ⟨_, h.restart⟩
  · exact ⟨base, h.turn ha hs⟩

theorem Announcing.booted (records : List (Record H)) :
    Announcing (Daemon.booted records).history (fun _ => none) (Daemon.booted records) := by
  obtain ⟨hthreads, -, hpublished⟩ := writeAll_threads (⟨∅, ∅, false, [], []⟩ : Daemon H) records
  have hthread : ∀ id, (Daemon.booted records).thread id = none := by
    intro id
    unfold Daemon.booted opened thread
    rw [hthreads]
    rfl
  have hnothing : (Daemon.booted records).publishedTerminal = [] := hpublished
  have hhistory : ∀ e, .event e ∉ (Daemon.booted records).history := by
    intro e he
    obtain ⟨r, -, heq⟩ := List.mem_map.mp he
    cases heq
  have hkeyed : (Daemon.booted records).Keyed := (Inv.opened records).keyed
  refine ⟨hkeyed, ⟨by simp [hthread], by simp [hthread], by simp [hthread]⟩, by simp [hthread],
    fun t ht => ?_, fun r hr => absurd hr (hhistory _), by simp [hnothing], by simp [hnothing],
    fun t ht => absurd ht (hhistory _), by simp, by simp, ⟨[], rfl, by simp⟩⟩
  cases hread : (Daemon.booted records).read t with
  | none => simp [Daemon.stateOf, hread] at ht
  | some r =>
    have hkey := hkeyed t r hread
    rw [← hkey] at hread ⊢
    have hall : r ∈ (Daemon.opened records).all := Daemon.mem_all.mpr ⟨r.txFinal, hread⟩
    exact List.mem_map.mpr ⟨r, hall, rfl⟩

/-- Over every run of passes and synchronizations, with failures of settlement and pruning, changes
of open records and restarts: a record that is terminal at some point is announced in its state
before its pruning is, no pruned record exists, and between restarts no transaction is published
in a terminal state twice. -/
theorem finished_announced_before_pruned {records : List (Record H)} {as as' : List (Turn H)}
    {w w' : Daemon H} (hrun : runSteps turn (booted records) as = some w)
    (hrun' : runSteps turn w as' = some w') :
    (∀ t r, w.read t = some r → r.state.isTerminal = true → ∀ later rest,
      w'.history = later ++ .event (.transactionPruned t) :: rest → Announced t r.state rest) ∧
    (∀ t, .event (.transactionPruned t) ∈ w'.history → w'.read t = none) ∧
    (.restart ∉ as' → ∃ new, w'.history = new ++ w.history ∧
      ∀ t, (new.filter (Entry.finishes t)).length ≤ 1) := by
  obtain ⟨base, hinv⟩ : ∃ base, Announcing base (fun _ => none) w :=
    runSteps_preserves (fun _ _ _ h hs => Announcing.turn_exists h hs) ⟨_, Announcing.booted records⟩ hrun
  obtain ⟨base', hinv'⟩ := runSteps_preserves (fun _ _ _ h hs => Announcing.turn_exists h hs)
    ⟨base, hinv.follow⟩ hrun'
  refine ⟨fun t r hr hterminal later rest heq => ?_, fun t ht => ?_, fun hnot => ?_⟩
  · refine hinv'.told t r.state ?_ later rest heq
    simp [stateOf_of_read hr, hterminal]
  · simpa [stateOf] using (hinv'.gone t ht).1
  · have hguard : RunMeets turn (fun _ a => a ≠ .restart) w as' := by
      clear hrun hrun' hinv hinv'
      induction as' generalizing w with
      | nil => exact trivial
      | cons a as' ih =>
        simp only [List.mem_cons, not_or] at hnot
        exact ⟨fun heq => hnot.1 heq.symm, fun w₁ _ => ih hnot.2⟩
    obtain ⟨new, hnew, honce⟩ := (runSteps_invariant
      (fun _ _ _ h ha hs => Announcing.turn h ha hs) hinv.rebase hguard hrun').once
    exact ⟨new, hnew, fun t => (honce t).1⟩

end Runs

namespace Sample

/-- A synchronization that fails after it has written that the transaction landed. -/
def failedSync : List (Turn Nat) :=
  [.rewrite submitted, .settler (.spawnPass 0 true), .settler (.lockPass 0), .settler (.query 0),
    .settler (.settle 0 ⟨[], some 6, [(7, some ⟨"0x1", 6, none⟩)], [], none, []⟩ 30 [] (some 1))]

/-- The daemon starts again, and a pass prunes the record at once. -/
def latePass : List (Turn Nat) :=
  [.restart, .settler (.spawnPass 1 false), .settler (.lockPass 1), .settler (.query 1),
    .settler (.settle 1 ⟨[], none, [], [], none, []⟩ 700000 [] none), .settler (.collect 1 true),
    .settler (.prune 1 700000 [(7, ⟨true, .same, .done⟩)] .done), .settler (.publish 1),
    .settler (.publish 1), .settler (.publish 1)]

end Sample

/-- The record that the failed synchronization left is announced by the pass that prunes it. -/
theorem finished_announced_late :
    ∃ w w', runSteps turn (booted [Sample.recorded]) Sample.failedSync = some w ∧
      runSteps turn w Sample.latePass = some w' ∧ w.read 7 = some Sample.landed ∧
      w'.history = [.event (.transactionPruned 7), .event (.transaction Sample.landed), .recorded 7] ∧
      w'.read 7 = none ∧ Announced 7 .landed [.event (.transaction Sample.landed), .recorded 7] := by
  have hsome : ((runSteps turn (booted [Sample.recorded]) Sample.failedSync).bind fun w =>
      (runSteps turn w Sample.latePass).map fun w' => (w.read 7, w'.history)) =
      some (some Sample.landed,
        [.event (.transactionPruned 7), .event (.transaction Sample.landed), .recorded 7]) := by
    decide +kernel
  obtain ⟨w, hrun, hrest⟩ := Option.bind_eq_some_iff.mp hsome
  obtain ⟨w', hrun', heq⟩ := Option.map_eq_some_iff.mp hrest
  obtain ⟨hread, hhistory⟩ := Prod.mk.inj heq
  obtain ⟨hannounced, hgone, -⟩ := finished_announced_before_pruned hrun hrun'
  refine ⟨w, w', hrun, hrun', hread, hhistory, hgone 7 (by simp [hhistory]), ?_⟩
  exact hannounced 7 Sample.landed hread rfl [] _ hhistory

end Daemon

end DigitalObjects.Dobjd
