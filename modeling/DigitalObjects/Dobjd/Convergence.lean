import DigitalObjects.Dobjd.Events
set_option autoImplicit false

/-!
The event stream against the store. In a run in which no step changes a record that another
thread is about to publish, and no call fails once it has changed one, the stream never reopens
a transaction and ends where the store is.
-/

namespace DigitalObjects.Dobjd

open Lib Driver.Objects

variable {H : Type} [DecidableEq H]

/-! ## What the stream should be -/

/-- An event was published that closes the transaction, and it was not recorded since. -/
def Closed (t : H) : List (Entry H) → Prop
  | [] => False
  | .recorded t' :: rest => t' ≠ t ∧ Closed t rest
  | .event e :: rest => (e.txFinal = t ∧ e.closes = true) ∨ Closed t rest

/-- No event shows a closed transaction open. -/
def Sound : List (Entry H) → Prop
  | [] => True
  | .recorded _ :: rest => Sound rest
  | .event (.transaction r) :: rest => (r.isOpen = true → ¬ Closed r.txFinal rest) ∧ Sound rest
  | .event (.transactionDeleted _) :: rest => Sound rest
  | .event (.transactionPruned _) :: rest => Sound rest

/-- The last event of a transaction shows what the store has of it. -/
def Agrees : Option (Event H) → Option (Record H) → Prop
  | none, _ => True
  | some (.transaction r), stored => stored = some r
  | some (.transactionDeleted _), stored => stored = none
  | some (.transactionPruned _), stored => stored = none

instance (e : Option (Event H)) (stored : Option (Record H)) : Decidable (Agrees e stored) :=
  match e with
  | none => .isTrue trivial
  | some (.transaction r) => inferInstanceAs (Decidable (stored = some r))
  | some (.transactionDeleted _) => inferInstanceAs (Decidable (stored = none))
  | some (.transactionPruned _) => inferInstanceAs (Decidable (stored = none))

omit [DecidableEq H] in
theorem Closed.later {t : H} {later rest : List (Entry H)} (h : Closed t rest)
    (hnot : .recorded t ∉ later) : Closed t (later ++ rest) := by
  induction later with
  | nil => exact h
  | cons entry later ih =>
    simp only [List.mem_cons, not_or] at hnot
    cases entry with
    | recorded t' =>
      refine ⟨fun heq => hnot.1 ?_, ih hnot.2⟩
      rw [heq]
    | event e => exact .inr (ih hnot.2)

omit [DecidableEq H] in
/-- Once closed, no later event shows the transaction open, unless it was recorded again. -/
theorem Sound.closed {later rest : List (Entry H)} {e : Event H} (h : Sound (later ++ .event e :: rest))
    (hcloses : e.closes = true) (hnot : .recorded e.txFinal ∉ later) {r : Record H}
    (hr : .event (.transaction r) ∈ later) (ht : r.txFinal = e.txFinal) : r.isOpen = false := by
  induction later with
  | nil => simp at hr
  | cons entry later ih =>
    simp only [List.mem_cons, not_or] at hnot
    have hsound : Sound (later ++ .event e :: rest) := by
      cases entry with
      | recorded t => exact h
      | event e' =>
        cases e' with
        | transaction r' => exact h.2
        | transactionDeleted t => exact h
        | transactionPruned t => exact h
    rcases List.mem_cons.mp hr with heq | hr
    · subst heq
      have hclosed : Closed r.txFinal (later ++ .event e :: rest) := by
        rw [ht]
        exact Closed.later (.inl ⟨rfl, hcloses⟩) hnot.2
      by_contra hopen
      exact h.1 (by simpa using hopen) hclosed
    · exact ih hsound hnot.2 hr

/-! ## What a thread has in hand -/

namespace Thread

/-- The transactions whose record or whose end the thread is about to publish. -/
def inHand : Thread H → List H
  | .announcing r _ => [r.txFinal]
  | .announcingDeleted t => [t]
  | .collecting records _ => records.map TransactionRecord.txFinal
  | .pruning records => records.map TransactionRecord.txFinal
  | .publishing records pruned => records.map TransactionRecord.txFinal ++ pruned
  | _ => []

/-- The transactions whose removal the thread is about to publish. -/
def removals : Thread H → List H
  | .announcingDeleted t => [t]
  | .publishing _ pruned => pruned
  | _ => []

def prunes : Thread H → List H
  | .publishing _ pruned => pruned
  | _ => []

end Thread

def Caller.isRun : Caller → Bool
  | .run _ => true
  | _ => false

namespace Daemon

/-- The step leaves alone what another thread is about to publish. -/
def Undisturbed (w : Daemon H) (a : Action H) : Prop :=
  ∀ w' ∈ w.step a, ∀ p ∈ w.threads.entries, p.1 ≠ a.id → ∀ t ∈ p.2.inHand, w'.read t = w.read t

/-- The call does not fail with a change of the store that it has not published. A run announces
the record after a failed submission, a pass the terminal records of a failed settlement; pruning
rewrites no record that it keeps. -/
def Tidy (w : Daemon H) : Action H → Prop
  | .submitSend id none => match w.thread id with
    | some (.sending _ caller stamped) => stamped = true → caller.isRun = true
    | _ => True
  | .submitFinish id _ false => match w.thread id with
    | some (.finishing _ caller stamped _ _) => stamped = true → caller.isRun = true
    | _ => True
  | .inspect id false _ => match w.thread id with
    | some (.inspecting _ _ stamped) => stamped = false
    | _ => True
  | .reread _ readable => readable = true
  | .settle id x now names (some n) => match w.thread id with
    | some (.settling sync queried) =>
      let x := { x with queried := queried, jobs := if sync then [] else x.jobs }
      let writes := (w.settlementWrites x now names).take n
      if sync then writes = [] else ∀ r ∈ writes, r.state.isTerminal = true
    | _ => True
  | .relist id false => match w.thread id with
    | some (.relisting wrote) => wrote = false
    | _ => True
  | .collect id false => match w.thread id with
    | some (.collecting _ wrote) => wrote = false
    | _ => True
  | .prune _ now answers ending => ending ≠ .unreadable →
    w.prunedWrites now answers = [] ∧ w.lostIds now answers = [] ∧
      (ending = .failed → w.prunedIds now answers = [])
  | .delete _ removal => removal ≠ .torn
  | _ => True

instance (w : Daemon H) (a : Action H) : Decidable (w.Undisturbed a) :=
  inferInstanceAs (Decidable (∀ w' ∈ w.step a, ∀ p ∈ w.threads.entries, p.1 ≠ a.id →
    ∀ t ∈ p.2.inHand, w'.read t = w.read t))

instance (w : Daemon H) (a : Action H) : Decidable (w.Tidy a) := by
  unfold Tidy
  repeat' split
  all_goals infer_instance

/-! ## The invariant -/

/-- The record was offered to the relayer. -/
def Offered (w : Daemon H) (t : H) : Prop :=
  ∃ r, w.read t = some r ∧ (r.state = .recorded → r.submitAttemptedAtMs.isSome = true)

/-- The record is terminal, and no pass has published it. -/
def Unannounced (w : Daemon H) (t : H) : Prop :=
  (∃ r, w.read t = some r ∧ r.state.isTerminal = true) ∧ t ∉ w.publishedTerminal

/-- What a thread is about to publish is what the store has. -/
def Holds (w : Daemon H) : Thread H → Prop
  | .recording r _ => r.state = .recorded
  | .announcing r _ => w.read r.txFinal = some r
  | .announcingDeleted t => w.read t = none
  | .collecting records _ => ∀ r ∈ records, w.read r.txFinal = some r
  | .pruning records => ∀ r ∈ records, w.read r.txFinal = some r
  | .publishing records pruned =>
    (∀ r ∈ records, w.read r.txFinal = some r ∨
      (r.txFinal ∈ pruned ∧ r.state.isTerminal = true ∧ w.read r.txFinal = none)) ∧
    ∀ t ∈ pruned, w.read t = none
  | _ => True

/-- The thread will publish the record of the transaction. -/
def Owes (w : Daemon H) (t : H) : Thread H → Prop
  | .announcing r _ => r.txFinal = t
  | .sending t' _ stamped => t' = t ∧ stamped = true ∧ w.Offered t
  | .finishing t' _ stamped _ _ => t' = t ∧ stamped = true ∧ w.Offered t
  | .inspecting t' _ stamped => t' = t ∧ stamped = true ∧ w.Offered t
  | .updating t' => t' = t
  | .rereading t' => t' = t
  | .relisting wrote => wrote = true ∧ w.Unannounced t
  | .collecting records wrote =>
    t ∈ records.map TransactionRecord.txFinal ∨ (wrote = true ∧ w.Unannounced t)
  | .pruning records => t ∈ records.map TransactionRecord.txFinal
  | .publishing records _ => t ∈ records.map TransactionRecord.txFinal
  | _ => False

/-- The last event of the transaction, if there is one, shows the record. -/
def Shows (w : Daemon H) (t : H) (r : Record H) : Prop :=
  lastEvent t w.history = none ∨ lastEvent t w.history = some (.transaction r)

/-- The last event of the transaction, if there is one, shows its end. -/
def ShowsEnd (w : Daemon H) (t : H) : Prop :=
  lastEvent t w.history = none ∨ lastEvent t w.history = some (.transactionDeleted t) ∨
    lastEvent t w.history = some (.transactionPruned t)

/-- Every record is filed under its own transaction. -/
def Keyed (w : Daemon H) : Prop := ∀ t r, w.read t = some r → r.txFinal = t

structure Inv (w : Daemon H) : Prop where
  keyed : ∀ t r, w.read t = some r → r.txFinal = t
  holds : ∀ id th, w.thread id = some th → w.Holds th
  shown : ∀ t r, w.read t = some r → w.Shows t r ∨ ∃ id th, w.thread id = some th ∧ w.Owes t th
  gone : ∀ t, w.read t = none → w.ShowsEnd t ∨ ∃ id th, w.thread id = some th ∧ t ∈ th.removals
  published : ∀ t ∈ w.publishedTerminal,
    (∃ r, w.read t = some r ∧ r.state.isTerminal = true ∧ lastEvent t w.history = some (.transaction r)) ∨
    (w.read t = none ∧ ∃ id th, w.thread id = some th ∧ t ∈ th.prunes)
  closed : ∀ t r, Closed t w.history → w.read t = some r → r.state.isTerminal = true
  sound : Sound w.history

/-! ## Pieces of a step -/

section Pieces

variable (w : Daemon H) (id : Nat)

@[simp] theorem read_become (th : Thread H) (t : H) : (w.become id th).read t = w.read t := rfl

omit [DecidableEq H] in
@[simp] theorem publishedTerminal_become (th : Thread H) :
    (w.become id th).publishedTerminal = w.publishedTerminal := rfl

@[simp] theorem read_finish (t : H) : (w.finish id).read t = w.read t := rfl

@[simp] theorem read_unlock (t : H) : (w.unlock id).read t = w.read t := rfl

@[simp] theorem read_emit (e : Event H) (t : H) : (w.emit e).read t = w.read t := rfl

omit [DecidableEq H] in
@[simp] theorem thread_become (th : Thread H) : (w.become id th).thread id = some th := by
  simp [thread, become]

omit [DecidableEq H] in
theorem thread_become_ne (th : Thread H) {id' : Nat} (h : id' ≠ id) :
    (w.become id th).thread id' = w.thread id' := by
  simp [thread, become, h]

omit [DecidableEq H] in
@[simp] theorem thread_finish : (w.finish id).thread id = none := by
  simp [thread, finish]

omit [DecidableEq H] in
theorem thread_finish_ne {id' : Nat} (h : id' ≠ id) : (w.finish id).thread id' = w.thread id' := by
  simp [thread, finish, h]

theorem read_write (r : Record H) (t : H) :
    (w.write r).read t = if t = r.txFinal then some r else w.read t := by
  unfold read write
  by_cases ht : t = r.txFinal
  · subst ht
    simp
  · simp [ht]

theorem read_remove (t t' : H) : (w.remove t).read t' = if t' = t then none else w.read t' := by
  unfold read remove
  by_cases ht : t' = t
  · subst ht
    simp
  · simp [ht]

end Pieces

/-! ## How the invariant passes on -/

section Next

variable {w w' : Daemon H}

/-- What a thread has in hand does not depend on the rest of the store. -/
theorem Holds.congr {th : Thread H} (h : w.Holds th) (hread : ∀ t ∈ th.inHand, w'.read t = w.read t) :
    w'.Holds th := by
  cases th with
  | announcing r submits =>
    have hr : w'.read r.txFinal = w.read r.txFinal := hread _ (by simp [Thread.inHand])
    exact hr.trans h
  | announcingDeleted t =>
    have ht : w'.read t = w.read t := hread _ (by simp [Thread.inHand])
    exact ht.trans h
  | collecting records wrote =>
    intro r hr
    exact (hread _ (List.mem_map_of_mem hr)).trans (h r hr)
  | pruning records =>
    intro r hr
    exact (hread _ (List.mem_map_of_mem hr)).trans (h r hr)
  | publishing records pruned =>
    refine ⟨fun r hr => ?_, fun t ht => ?_⟩
    · rw [hread r.txFinal (List.mem_append_left _ (List.mem_map_of_mem hr))]
      exact h.1 r hr
    · rw [hread t (List.mem_append_right _ ht)]
      exact h.2 t ht
  | recording => exact h
  | submitting | marking | sending | finishing | inspecting | updating | rereading | deleting | starting
  | querying | settling | relisting => exact trivial

/-- A debt stays with the thread as long as the record is the same and no pass publishes it. -/
theorem Owes.congr {t : H} {th : Thread H} (h : w.Owes t th) (hread : w'.read t = w.read t)
    (hpublished : t ∈ w'.publishedTerminal → t ∈ w.publishedTerminal) : w'.Owes t th := by
  have hoffered : w.Offered t → w'.Offered t := by
    rintro ⟨r, hr, hattempt⟩
    exact ⟨r, hread.trans hr, hattempt⟩
  have hun : w.Unannounced t → w'.Unannounced t := by
    rintro ⟨⟨r, hr, hterminal⟩, hnot⟩
    exact ⟨⟨r, hread.trans hr, hterminal⟩, fun hin => hnot (hpublished hin)⟩
  cases th with
  | sending | finishing | inspecting => exact ⟨h.1, h.2.1, hoffered h.2.2⟩
  | relisting => exact ⟨h.1, hun h.2⟩
  | collecting => exact h.imp_right fun h => ⟨h.1, hun h.2⟩
  | announcing | updating | rereading | pruning | publishing => exact h
  | recording | submitting | marking | deleting | announcingDeleted | starting | querying | settling =>
    exact h

/-- No other thread loses what it is about to publish. -/
def Spared (w w' : Daemon H) (id : Nat) : Prop :=
  ∀ id' th, id' ≠ id → w.thread id' = some th → ∀ t ∈ th.inHand, w'.read t = w.read t

/-- One thread takes a step. Of every transaction it is enough to say what is new, or that
nothing is and that the thread had nothing to do with it. -/
structure Step (w w' : Daemon H) (id : Nat) : Prop where
  threads : ∀ id', id' ≠ id → w'.thread id' = w.thread id'
  keyed : ∀ t r, w'.read t = some r → r.txFinal = t
  spared : Spared w w' id
  holds : ∀ th, w'.thread id = some th → w'.Holds th
  shown : ∀ t r, w'.read t = some r → w'.Shows t r ∨ (∃ th, w'.thread id = some th ∧ w'.Owes t th) ∨
    (w'.read t = w.read t ∧ lastEvent t w'.history = lastEvent t w.history ∧
      (t ∈ w'.publishedTerminal → t ∈ w.publishedTerminal) ∧
      ∀ th, w.thread id = some th → ¬ w.Owes t th)
  gone : ∀ t, w'.read t = none → w'.ShowsEnd t ∨ (∃ th, w'.thread id = some th ∧ t ∈ th.removals) ∨
    (w.read t = none ∧ lastEvent t w'.history = lastEvent t w.history ∧
      ∀ th, w.thread id = some th → t ∉ th.removals)
  published : ∀ t ∈ w'.publishedTerminal,
    (∃ r, w'.read t = some r ∧ r.state.isTerminal = true ∧
      lastEvent t w'.history = some (.transaction r)) ∨
    (w'.read t = none ∧ ∃ th, w'.thread id = some th ∧ t ∈ th.prunes) ∨
    (t ∈ w.publishedTerminal ∧ w'.read t = w.read t ∧
      (w.read t = none ∨ lastEvent t w'.history = lastEvent t w.history) ∧
      ∀ th, w.thread id = some th → t ∉ th.prunes)
  closed : ∀ t r, Closed t w'.history → w'.read t = some r → r.state.isTerminal = true
  sound : Sound w'.history

theorem Inv.next {id : Nat} (h : Inv w) (hs : Step w w' id) : Inv w' := by
  -- a thread that has something to do with a transaction, and is not the one that moves
  have hkept : ∀ (p : Thread H → Prop), (∃ id' th, w.thread id' = some th ∧ p th) →
      (∀ th, w.thread id = some th → ¬ p th) → ∃ id' th, id' ≠ id ∧ w'.thread id' = some th ∧ p th := by
    rintro p ⟨id', th, hth, hp⟩ hnot
    have hne : id' ≠ id := by
      rintro rfl
      exact hnot th hth hp
    exact ⟨id', th, hne, (hs.threads id' hne).trans hth, hp⟩
  refine ⟨hs.keyed, fun id' th hth => ?_, fun t r hr => ?_, fun t ht => ?_, fun t ht => ?_, hs.closed,
    hs.sound⟩
  · by_cases hid : id' = id
    · subst hid
      exact hs.holds th hth
    · rw [hs.threads id' hid] at hth
      exact (h.holds id' th hth).congr (hs.spared id' th hid hth)
  · rcases hs.shown t r hr with hshows | ⟨th, hth, howes⟩ | ⟨hread, hlast, hpub, hnot⟩
    · exact .inl hshows
    · exact .inr ⟨id, th, hth, howes⟩
    · rcases h.shown t r (hread.symm.trans hr) with hshows | howed
      · left
        unfold Shows
        rw [hlast]
        exact hshows
      · obtain ⟨id', th, -, hth, howes⟩ := hkept _ howed hnot
        exact .inr ⟨id', th, hth, howes.congr hread hpub⟩
  · rcases hs.gone t ht with hshows | ⟨th, hth, hin⟩ | ⟨hread, hlast, hnot⟩
    · exact .inl hshows
    · exact .inr ⟨id, th, hth, hin⟩
    · rcases h.gone t hread with hshows | howed
      · left
        unfold ShowsEnd
        rw [hlast]
        exact hshows
      · obtain ⟨id', th, -, hth, hin⟩ := hkept _ howed hnot
        exact .inr ⟨id', th, hth, hin⟩
  · rcases hs.published t ht with hshown | ⟨hnone, th, hth, hin⟩ | ⟨hpub, hread, hlast, hnot⟩
    · exact .inl hshown
    · exact .inr ⟨hnone, id, th, hth, hin⟩
    · rcases h.published t hpub with ⟨r, hr, hterminal, hevent⟩ | ⟨hnone, howed⟩
      · have hlast' := hlast.resolve_left (by simp [hr])
        exact .inl ⟨r, hread.trans hr, hterminal, hlast'.trans hevent⟩
      · obtain ⟨id', th, -, hth, hin⟩ := hkept _ howed hnot
        exact .inr ⟨hread.trans hnone, id', th, hth, hin⟩

/-- A step that only moves its thread on. -/
theorem Inv.relay {id : Nat} (h : Inv w) (hthreads : ∀ id', id' ≠ id → w'.thread id' = w.thread id')
    (hrecords : w'.records = w.records) (hhistory : w'.history = w.history)
    (hpublished : w'.publishedTerminal = w.publishedTerminal)
    (hholds : ∀ th, w'.thread id = some th → w'.Holds th)
    (howes : ∀ th t r, w.thread id = some th → w.Owes t th → w.read t = some r →
      ∃ th', w'.thread id = some th' ∧ w'.Owes t th')
    (hremovals : ∀ th, w.thread id = some th → th.removals = []) : Inv w' := by
  have hread : ∀ t, w'.read t = w.read t := by
    intro t
    unfold read
    rw [hrecords]
  have hprunes : ∀ th : Thread H, th.removals = [] → th.prunes = [] := by
    intro th hth
    cases th with
    | publishing records pruned => exact hth
    | _ => rfl
  refine h.next ⟨hthreads, fun t r hr => h.keyed t r ((hread t).symm.trans hr),
    fun _ _ _ _ t _ => hread t, hholds, fun t r hr => ?_, fun t ht => ?_, fun t ht => ?_,
    fun t r hc hr => ?_, ?_⟩
  · by_cases hmine : ∃ th, w.thread id = some th ∧ w.Owes t th
    · obtain ⟨th, hth, hmine⟩ := hmine
      exact .inr (.inl (howes th t r hth hmine ((hread t).symm.trans hr)))
    · refine .inr (.inr ⟨hread t, by rw [hhistory], fun hin => by rwa [← hpublished], fun th hth hmine' => ?_⟩)
      exact hmine ⟨th, hth, hmine'⟩
  · refine .inr (.inr ⟨(hread t).symm.trans ht, by rw [hhistory], fun th hth => ?_⟩)
    rw [hremovals th hth]
    simp
  · refine .inr (.inr ⟨by rwa [← hpublished], hread t, .inr (by rw [hhistory]), fun th hth => ?_⟩)
    rw [hprunes th (hremovals th hth)]
    simp
  · rw [hhistory] at hc
    exact h.closed t r hc ((hread t).symm.trans hr)
  · rw [hhistory]
    exact h.sound

/-- A thread that passes its debts on. -/
theorem Inv.become {id : Nat} {th th' : Thread H} (h : Inv w) (hth : w.thread id = some th)
    (hholds : w.Holds th') (howes : ∀ t r, w.Owes t th → w.read t = some r → w.Owes t th')
    (hremovals : th.removals = []) : Inv (w.become id th') := by
  have hread : ∀ t, (w.become id th').read t = w.read t := fun _ => rfl
  refine h.relay (fun id' hne => w.thread_become_ne id th' hne) rfl rfl rfl (fun th₁ hth₁ => ?_)
    (fun th₁ t r hth₁ howed hr => ⟨th', w.thread_become id th', ?_⟩) (fun th₁ hth₁ => ?_)
  · rw [thread_become] at hth₁
    cases hth₁
    exact hholds.congr fun t _ => hread t
  · obtain rfl : th = th₁ := Option.some.inj (hth.symm.trans hth₁)
    exact (howes t r howed hr).congr (hread t) fun hin => hin
  · obtain rfl : th = th₁ := Option.some.inj (hth.symm.trans hth₁)
    exact hremovals

/-- A thread that has no debts. -/
theorem Inv.finish {id : Nat} {th : Thread H} (h : Inv w) (hth : w.thread id = some th)
    (howes : ∀ t r, w.Owes t th → w.read t ≠ some r) (hremovals : th.removals = []) :
    Inv (w.finish id) := by
  refine h.relay (fun id' hne => w.thread_finish_ne id hne) rfl rfl rfl (fun th₁ hth₁ => ?_)
    (fun th₁ t r hth₁ howed hr => ?_) (fun th₁ hth₁ => ?_)
  · rw [thread_finish] at hth₁
    cases hth₁
  · obtain rfl : th = th₁ := Option.some.inj (hth.symm.trans hth₁)
    exact absurd hr (howes t r howed)
  · obtain rfl : th = th₁ := Option.some.inj (hth.symm.trans hth₁)
    exact hremovals

/-- The pass lock is no part of the invariant. -/
theorem Inv.lock {b : Bool} (h : Inv w) : Inv { w with passLock := b } :=
  ⟨h.keyed, fun id th hth => (h.holds id th hth).congr fun _ _ => rfl,
    fun t r hr => (h.shown t r hr).imp_right fun ⟨id, th, hth, howes⟩ =>
      ⟨id, th, hth, howes.congr rfl fun hin => hin⟩,
    h.gone, h.published, h.closed, h.sound⟩

end Next

/-! ## Steps that publish nothing and write nothing -/

section Quiet

variable {w w' : Daemon H} {id : Nat}

theorem Inv.spawn {th : Thread H} (h : Inv w) (hs : w.spawn id th = some w') (hholds : w.Holds th) :
    Inv w' := by
  unfold Daemon.spawn at hs
  split at hs
  · rename_i hnone
    cases hs
    refine h.relay (fun id' hne => w.thread_become_ne id th hne) rfl rfl rfl (fun th₁ hth₁ => ?_)
      (by simp [hnone]) (by simp [hnone])
    rw [thread_become] at hth₁
    cases hth₁
    exact hholds.congr fun t _ => rfl
  · cases hs

/-- A failed submission: only a run has debts, and it inspects the record next. -/
theorem Inv.submitFailed {t : H} {stamped : Bool} {caller : Caller} {th : Thread H} (h : Inv w)
    (hth : w.thread id = some th)
    (howes : ∀ t' r, w.Owes t' th → w.read t' = some r →
      t' = t ∧ stamped = true ∧ caller.isRun = true ∧ w.Offered t)
    (hremovals : th.removals = []) : Inv (w.submitFailed id t stamped caller) := by
  have hnone : caller.isRun = false → ∀ t' r, w.Owes t' th → w.read t' ≠ some r := by
    intro hcaller t' r howed hr
    have hrun := (howes t' r howed hr).2.2.1
    simp [hcaller] at hrun
  cases caller with
  | service => exact h.finish hth (hnone rfl) hremovals
  | retry => exact h.finish hth (hnone rfl) hremovals
  | run retries =>
    refine h.become hth trivial (fun t' r howed hr => ?_) hremovals
    obtain ⟨rfl, hstamped, -, hoffered⟩ := howes t' r howed hr
    exact ⟨rfl, hstamped, hoffered⟩

/-- After a submission the thread publishes the record that it returned. -/
theorem submitOk_eq (w : Daemon H) (id : Nat) (r : Record H) (caller : Caller) :
    ∃ th, w.submitOk id r caller = w.become id th ∧ (∀ w₁ : Daemon H, w₁.Owes r.txFinal th) ∧
      ∀ w₁ : Daemon H, w₁.read r.txFinal = some r → w₁.Holds th := by
  cases caller with
  | service => exact ⟨_, rfl, fun _ => rfl, fun _ hr => hr⟩
  | run retries => exact ⟨_, rfl, fun _ => rfl, fun _ hr => hr⟩
  | retry => exact ⟨_, rfl, fun _ => rfl, fun _ _ => trivial⟩

theorem Inv.submitOk {r : Record H} {caller : Caller} {th : Thread H} (h : Inv w)
    (hth : w.thread id = some th) (hread : w.read r.txFinal = some r)
    (howes : ∀ t', w.Owes t' th → r.txFinal = t') (hremovals : th.removals = []) :
    Inv (w.submitOk id r caller) := by
  obtain ⟨th', heq, howes', hholds⟩ := submitOk_eq w id r caller
  rw [heq]
  refine h.become hth (hholds w hread) (fun t' _ howed _ => ?_) hremovals
  rw [← howes t' howed]
  exact howes' w

theorem Inv.stepSubmitRead {preflight : Bool} (h : Inv w)
    (hs : w.stepSubmitRead id preflight = some w') : Inv w' := by
  unfold Daemon.stepSubmitRead at hs
  split at hs
  · rename_i t caller hth
    have hfailed : Inv (w.submitFailed id t false caller) :=
      h.submitFailed hth (fun _ _ howed => howed.elim) rfl
    split at hs
    · cases hs
    · split at hs
      · cases hs
        exact hfailed
      · rename_i r hr
        have hread : w.read r.txFinal = some r := by rwa [h.keyed t r hr]
        split at hs
        · split at hs <;> cases hs
          · exact h.become hth trivial (fun _ _ howed => howed.elim) rfl
          · exact hfailed
        · cases hs
          exact h.submitOk hth hread (fun t' howed => howed.elim) rfl
        · cases hs
          exact hfailed
        · cases hs
          exact hfailed
  · cases hs

theorem Inv.stepSubmitSend {response : Option (String × Bool)} (h : Inv w)
    (htidy : w.Tidy (.submitSend id response)) (hs : w.stepSubmitSend id response = some w') : Inv w' := by
  unfold Daemon.stepSubmitSend at hs
  split at hs
  · rename_i t caller stamped hth
    split at hs
    · cases hs
      exact h.become hth trivial (fun _ _ howed _ => howed) rfl
    · cases hs
      refine h.submitFailed hth (fun t' r howed _ => ?_) rfl
      obtain ⟨rfl, hstamped, hoffered⟩ := howed
      simp only [Tidy, hth] at htidy
      exact ⟨rfl, hstamped, htidy hstamped, hoffered⟩
  · cases hs

theorem Inv.stepInspect {readable refused : Bool} (h : Inv w)
    (htidy : w.Tidy (.inspect id readable refused)) (hs : w.stepInspect id readable refused = some w') :
    Inv w' := by
  unfold Daemon.stepInspect at hs
  split at hs
  · rename_i t retries stamped hth
    split at hs
    · rename_i hnone
      cases hs
      refine h.finish hth (fun t' r howed hr => ?_) rfl
      obtain ⟨rfl, -⟩ := howed
      simp [hnone] at hr
    · rename_i r hr
      split at hs
      · rename_i hunread
        cases hs
        obtain rfl : readable = false := by simpa using hunread
        simp only [Tidy, hth] at htidy
        exact h.finish hth (fun t' r howed => by simp [Owes, htidy] at howed) rfl
      · split at hs
        · rename_i hstate
          -- a record that is back at its first state was not offered
          have hfresh : ∀ t' r', w.Owes t' (.inspecting t retries stamped) → w.read t' ≠ some r' := by
            intro t' r' howed _
            obtain ⟨rfl, -, r₁, hr₁, hattempt⟩ := howed
            obtain rfl : r = r₁ := Option.some.inj (hr.symm.trans hr₁)
            have hsome := hattempt hstate.1
            simp [hstate.2] at hsome
          split at hs
          · cases hs
            exact h.finish hth hfresh rfl
          · split at hs <;> cases hs
            · exact h.become hth trivial (fun t' r' howed hr' => absurd hr' (hfresh t' r' howed)) rfl
            · exact h.finish hth hfresh rfl
        · cases hs
          have hkey := h.keyed t r hr
          have hread : w.read r.txFinal = some r := by rwa [hkey]
          exact h.become hth hread (fun t' _ howed _ => hkey.trans howed.1) rfl
  · cases hs

theorem Inv.stepLockPass (h : Inv w) (hs : w.stepLockPass id = some w') : Inv w' := by
  unfold Daemon.stepLockPass at hs
  split at hs
  · cases hs
  · split at hs
    · rename_i t hth
      cases hs
      have hnext : Inv (w.become id (.rereading t)) := h.become hth trivial (fun _ _ howed _ => howed) rfl
      exact hnext.lock
    · rename_i sync hth
      cases hs
      have hnext : Inv (w.become id (.querying sync)) :=
        h.become hth trivial (fun _ _ howed => howed.elim) rfl
      exact hnext.lock
    · cases hs

theorem Inv.stepReread {readable : Bool} (h : Inv w) (htidy : w.Tidy (.reread id readable))
    (hs : w.stepReread id readable = some w') : Inv w' := by
  unfold Daemon.stepReread at hs
  split at hs
  · rename_i t hth
    split at hs
    · rename_i hnone
      cases hs
      refine h.become hth ⟨by simp, by simp⟩ (fun t' r howed hr => ?_) rfl
      obtain rfl : t = t' := howed
      simp [hnone] at hr
    · rename_i r hr
      cases hs
      obtain rfl : readable = true := htidy
      have hkey := h.keyed t r hr
      refine h.become hth ⟨?_, by simp⟩ (fun t' r' howed _ => ?_) rfl
      · simp [hkey, hr]
      · obtain rfl : t = t' := howed
        simp [Owes, hkey]
  · cases hs

theorem Inv.stepQuery (h : Inv w) (hs : w.stepQuery id = some w') : Inv w' := by
  unfold Daemon.stepQuery at hs
  split at hs
  · rename_i sync hth
    cases hs
    exact h.become hth trivial (fun _ _ howed => howed.elim) rfl
  · cases hs

theorem Inv.stepRelist {readable : Bool} (h : Inv w) (htidy : w.Tidy (.relist id readable))
    (hs : w.stepRelist id readable = some w') : Inv w' := by
  unfold Daemon.stepRelist at hs
  split at hs
  · rename_i wrote hth
    cases hs
    cases readable with
    | true => exact h.become hth (by simp [Holds]) (fun t r howed _ => .inr howed) rfl
    | false =>
      simp only [Tidy, hth] at htidy
      exact (h.finish hth (fun t r howed => by simp [Owes, htidy] at howed) rfl).lock
  · cases hs

theorem mem_all {r : Record H} : r ∈ w.all ↔ ∃ t, w.read t = some r := by
  unfold all read
  rw [List.mem_map]
  constructor
  · rintro ⟨⟨t, r'⟩, hmem, rfl⟩
    exact ⟨t, AList.mem_lookup_iff.mpr hmem⟩
  · rintro ⟨t, ht⟩
    exact ⟨⟨t, r⟩, AList.mem_lookup_iff.mp ht, rfl⟩

theorem Keyed.mem_all (h : w.Keyed) {r : Record H} : r ∈ w.all ↔ w.read r.txFinal = some r := by
  rw [Daemon.mem_all]
  constructor
  · rintro ⟨t, ht⟩
    rwa [h t r ht]
  · exact fun ht => ⟨_, ht⟩

end Quiet

/-! ## Steps that publish -/

section Publishing

variable {w w' : Daemon H} {id : Nat}

omit [DecidableEq H] in
theorem mem_removals_of_mem_prunes {th : Thread H} {t : H} (h : t ∈ th.prunes) : t ∈ th.removals := by
  cases th with
  | publishing records pruned => exact h
  | _ => simp [Thread.prunes] at h

theorem Inv.read_prunes (h : Inv w) {th : Thread H} (hth : w.thread id = some th) {t : H}
    (ht : t ∈ th.prunes) : w.read t = none := by
  cases th with
  | publishing records pruned => exact (h.holds id _ hth).2 t ht
  | _ => simp [Thread.prunes] at ht

/-- An event that shows the record that is stored, or one that is about to be reported pruned. -/
theorem Inv.emits {th : Thread H} {r : Record H} (h : Inv w) (hth : w.thread id = some th)
    (hthreads : ∀ id', id' ≠ id → w'.thread id' = w.thread id') (hrecords : w'.records = w.records)
    (hhistory : w'.history = .event (.transaction r) :: w.history)
    (hpublished : ∀ t ∈ w'.publishedTerminal, t ∈ w.publishedTerminal ∨
      (t = r.txFinal ∧ r.state.isTerminal = true))
    (hstored : w.read r.txFinal = some r ∨ (r.state.isTerminal = true ∧ w.read r.txFinal = none ∧
      ∃ th', w'.thread id = some th' ∧ r.txFinal ∈ th'.prunes))
    (hholds : ∀ th', w'.thread id = some th' → w'.Holds th')
    (howes : ∀ t, t ≠ r.txFinal → w.Owes t th → ∃ th', w'.thread id = some th' ∧ w'.Owes t th')
    (hremovals : ∀ t ∈ th.removals, ∃ th', w'.thread id = some th' ∧ t ∈ th'.removals)
    (hprunes : ∀ t ∈ th.prunes, ∃ th', w'.thread id = some th' ∧ t ∈ th'.prunes) : Inv w' := by
  have hread : ∀ t, w'.read t = w.read t := by
    intro t
    unfold read
    rw [hrecords]
  have hself : ∀ {p : Thread H → Prop}, ¬ p th → ∀ th₁, w.thread id = some th₁ → ¬ p th₁ := by
    intro p hp th₁ hth₁
    obtain rfl : th = th₁ := Option.some.inj (hth.symm.trans hth₁)
    exact hp
  have hlast : ∀ t, t ≠ r.txFinal → lastEvent t w'.history = lastEvent t w.history := by
    intro t ht
    rw [hhistory]
    exact if_neg (Ne.symm ht)
  have hlast' : lastEvent r.txFinal w'.history = some (.transaction r) := by
    rw [hhistory]
    exact if_pos rfl
  refine h.next ⟨hthreads, fun t r' hr' => h.keyed t r' ((hread t).symm.trans hr'),
    fun _ _ _ _ t _ => hread t, hholds, fun t r' hr' => ?_, fun t ht => ?_, fun t ht => ?_,
    fun t r' hc hr' => ?_, ?_⟩
  · by_cases ht : t = r.txFinal
    · subst ht
      rw [hread] at hr'
      rcases hstored with hr | ⟨-, hnone, -⟩
      · obtain rfl : r = r' := Option.some.inj (hr.symm.trans hr')
        exact .inl (.inr hlast')
      · simp [hnone] at hr'
    · by_cases hmine : w.Owes t th
      · exact .inr (.inl (howes t ht hmine))
      · exact .inr (.inr ⟨hread t, hlast t ht, fun hin => (hpublished t hin).resolve_right (by simp [ht]),
          hself hmine⟩)
  · rw [hread] at ht
    by_cases heq : t = r.txFinal
    · subst heq
      rcases hstored with hr | ⟨-, -, th', hth', hin⟩
      · simp [ht] at hr
      · exact .inr (.inl ⟨th', hth', mem_removals_of_mem_prunes hin⟩)
    · by_cases hmine : t ∈ th.removals
      · exact .inr (.inl (hremovals t hmine))
      · exact .inr (.inr ⟨ht, hlast t heq, hself hmine⟩)
  · by_cases heq : t = r.txFinal
    · subst heq
      rcases hstored with hr | ⟨-, hnone, hpruned⟩
      · refine .inl ⟨r, (hread _).trans hr, ?_, hlast'⟩
        rcases hpublished _ ht with hin | hnew
        · rcases h.published _ hin with ⟨r₁, hr₁, hterminal, -⟩ | ⟨hnone, -⟩
          · obtain rfl : r = r₁ := Option.some.inj (hr.symm.trans hr₁)
            exact hterminal
          · simp [hnone] at hr
        · exact hnew.2
      · exact .inr (.inl ⟨(hread _).trans hnone, hpruned⟩)
    · by_cases hmine : t ∈ th.prunes
      · exact .inr (.inl ⟨(hread t).trans (h.read_prunes hth hmine), hprunes t hmine⟩)
      · exact .inr (.inr ⟨(hpublished t ht).resolve_right (by simp [heq]), hread t, .inr (hlast t heq),
          hself hmine⟩)
  · rw [hread] at hr'
    rw [hhistory] at hc
    rcases hc with ⟨rfl, hcloses⟩ | hc
    · rcases hstored with hr | ⟨-, hnone, -⟩
      · have heq : r = r' := Option.some.inj (hr.symm.trans hr')
        rw [← heq]
        exact hcloses
      · have hnone' : w.read (Event.transaction r).txFinal = none := hnone
        simp [hnone'] at hr'
    · exact h.closed t r' hc hr'
  · rw [hhistory]
    refine ⟨fun hopen hc => ?_, h.sound⟩
    have hterminal : r.state.isTerminal = true := by
      rcases hstored with hr | ⟨hterminal, -, -⟩
      · exact h.closed _ r hc hr
      · exact hterminal
    simp [TransactionRecord.isOpen, hterminal] at hopen

/-- An event that shows the end of a transaction that is gone. -/
theorem Inv.emits_end {th : Thread H} {e : Event H} (h : Inv w) (hth : w.thread id = some th)
    (hthreads : ∀ id', id' ≠ id → w'.thread id' = w.thread id') (hrecords : w'.records = w.records)
    (hhistory : w'.history = .event e :: w.history)
    (he : e = .transactionDeleted e.txFinal ∨ e = .transactionPruned e.txFinal)
    (hgone : w.read e.txFinal = none)
    (hpublished : ∀ t ∈ w'.publishedTerminal, t ∈ w.publishedTerminal ∧ t ∉ th.prunes ∨
      ∃ th', w'.thread id = some th' ∧ t ∈ th'.prunes ∧ w.read t = none)
    (hholds : ∀ th', w'.thread id = some th' → w'.Holds th') (howes : ∀ t, ¬ w.Owes t th)
    (hremovals : ∀ t ∈ th.removals, t = e.txFinal ∨ ∃ th', w'.thread id = some th' ∧ t ∈ th'.removals) :
    Inv w' := by
  have hread : ∀ t, w'.read t = w.read t := by
    intro t
    unfold read
    rw [hrecords]
  have hself : ∀ {p : Thread H → Prop}, ¬ p th → ∀ th₁, w.thread id = some th₁ → ¬ p th₁ := by
    intro p hp th₁ hth₁
    obtain rfl : th = th₁ := Option.some.inj (hth.symm.trans hth₁)
    exact hp
  have hlast : ∀ t, t ≠ e.txFinal → lastEvent t w'.history = lastEvent t w.history := by
    intro t ht
    rw [hhistory]
    exact if_neg (Ne.symm ht)
  have hstored : ∀ t r, w.read t = some r → t ≠ e.txFinal := by
    rintro t r hr rfl
    simp [hgone] at hr
  refine h.next ⟨hthreads, fun t r hr => h.keyed t r ((hread t).symm.trans hr),
    fun _ _ _ _ t _ => hread t, hholds, fun t r hr => ?_, fun t ht => ?_, fun t ht => ?_,
    fun t r hc hr => ?_, ?_⟩
  · rw [hread] at hr
    refine .inr (.inr ⟨hread t, hlast t (hstored t r hr), fun hin => ?_, hself (howes t)⟩)
    rcases hpublished t hin with hin | ⟨-, -, -, hnone⟩
    · exact hin.1
    · simp [hnone] at hr
  · rw [hread] at ht
    by_cases heq : t = e.txFinal
    · subst heq
      have hevent : lastEvent e.txFinal w'.history = some e := by
        rw [hhistory]
        exact if_pos rfl
      left
      right
      rw [hevent]
      rcases he with he | he
      · exact .inl (congrArg some he)
      · exact .inr (congrArg some he)
    · by_cases hmine : t ∈ th.removals
      · exact .inr (.inl ((hremovals t hmine).resolve_left heq))
      · exact .inr (.inr ⟨ht, hlast t heq, hself hmine⟩)
  · rcases hpublished t ht with ⟨hin, hmine⟩ | ⟨th', hth', hin, hnone⟩
    · refine .inr (.inr ⟨hin, hread t, ?_, hself hmine⟩)
      by_cases heq : t = e.txFinal
      · exact .inl (by rw [heq]; exact hgone)
      · exact .inr (hlast t heq)
    · exact .inr (.inl ⟨(hread t).trans hnone, th', hth', hin⟩)
  · rw [hread] at hr
    rw [hhistory] at hc
    rcases hc with ⟨heq, -⟩ | hc
    · exact absurd heq.symm (hstored t r hr)
    · exact h.closed t r hc hr
  · rw [hhistory]
    rcases he with he | he <;> rw [he] <;> exact h.sound

theorem Inv.stepAnnounce (h : Inv w) (hs : w.stepAnnounce id = some w') : Inv w' := by
  unfold Daemon.stepAnnounce at hs
  split at hs
  · rename_i r submits hth
    have hstored : w.read r.txFinal = some r := h.holds id _ hth
    cases hs
    cases submits with
    | true =>
      refine h.emits (r := r) hth (fun id' hne => thread_become_ne _ _ _ hne) rfl rfl
        (fun t ht => .inl ht) (.inl hstored) (fun th' hth' => ?_) (fun t ht howed => absurd howed.symm ht)
        (by simp [Thread.removals]) (by simp [Thread.prunes])
      obtain rfl := Option.some.inj ((thread_become (w.emit (.transaction r)) id _).symm.trans hth')
      exact trivial
    | false =>
      refine h.emits (r := r) hth (fun id' hne => thread_finish_ne _ _ hne) rfl rfl
        (fun t ht => .inl ht) (.inl hstored) (fun th' hth' => ?_) (fun t ht howed => absurd howed.symm ht)
        (by simp [Thread.removals]) (by simp [Thread.prunes])
      cases (thread_finish (w.emit (.transaction r)) id).symm.trans hth'
  · cases hs

theorem Inv.stepPublish (h : Inv w) (hs : w.stepPublish id = some w') : Inv w' := by
  unfold Daemon.stepPublish at hs
  split at hs
  · rename_i r records pruned hth
    obtain ⟨hrecords, hpruned⟩ : w.Holds (.publishing (r :: records) pruned) := h.holds id _ hth
    cases hs
    refine h.emits (r := r) hth (fun id' hne => thread_become_ne _ _ _ hne) rfl rfl (fun t ht => ?_) ?_
      (fun th' hth' => ?_) (fun t ht howed => ⟨_, thread_become _ _ _, ?_⟩)
      (fun t ht => ⟨_, thread_become _ _ _, ht⟩) (fun t ht => ⟨_, thread_become _ _ _, ht⟩)
    · by_cases hterminal : r.state.isTerminal = true
      · have hin : t ∈ r.txFinal :: w.publishedTerminal := by simpa [hterminal] using ht
        rcases List.mem_cons.mp hin with rfl | hin
        · exact .inr ⟨rfl, hterminal⟩
        · exact .inl hin
      · have hin : t ∈ w.publishedTerminal := by simpa [hterminal] using ht
        exact .inl hin
    · rcases hrecords r (by simp) with hr | ⟨hin, hterminal, hnone⟩
      · exact .inl hr
      · exact .inr ⟨hterminal, hnone, _, thread_become _ _ _, hin⟩
    · obtain rfl := Option.some.inj ((thread_become _ id _).symm.trans hth')
      exact ⟨fun r' hr' => hrecords r' (List.mem_cons_of_mem r hr'), hpruned⟩
    · rcases List.mem_cons.mp howed with heq | hin
      · exact absurd heq ht
      · exact hin
  · rename_i t pruned hth
    obtain ⟨-, hpruned⟩ : w.Holds (.publishing [] (t :: pruned)) := h.holds id _ hth
    cases hs
    refine h.emits_end (e := .transactionPruned t) hth (fun id' hne => thread_become_ne _ _ _ hne) rfl rfl
      (.inr rfl) (hpruned t (by simp)) (fun t' ht' => ?_) (fun th' hth' => ?_) (fun t' => by simp [Owes])
      (fun t' ht' => ?_)
    · have hin : t' ∈ w.publishedTerminal ∧ t' ≠ t := by simpa using ht'
      by_cases hmine : t' ∈ pruned
      · exact .inr ⟨_, thread_become _ _ _, hmine, hpruned t' (List.mem_cons_of_mem t hmine)⟩
      · exact .inl ⟨hin.1, by simp [Thread.prunes, hin.2, hmine]⟩
    · obtain rfl := Option.some.inj ((thread_become _ id _).symm.trans hth')
      exact ⟨by simp, fun t' ht' => hpruned t' (List.mem_cons_of_mem t ht')⟩
    · rcases List.mem_cons.mp ht' with heq | hin
      · exact .inl heq
      · exact .inr ⟨_, thread_become _ _ _, hin⟩
  · rename_i hth
    cases hs
    exact (h.finish hth (fun t r howed => by simp [Owes] at howed) rfl).lock
  · cases hs

theorem Inv.stepAnnounceDeleted (h : Inv w) (hs : w.stepAnnounceDeleted id = some w') : Inv w' := by
  unfold Daemon.stepAnnounceDeleted at hs
  split at hs
  · rename_i t hth
    have hgone : w.read t = none := h.holds id _ hth
    cases hs
    refine h.emits_end (e := .transactionDeleted t) hth (fun id' hne => thread_finish_ne _ _ hne) rfl rfl
      (.inl rfl) hgone (fun t' ht' => .inl ⟨ht', by simp [Thread.prunes]⟩) (fun th' hth' => ?_)
      (fun t' => by simp [Owes]) (fun t' ht' => .inl (by simpa [Thread.removals, Event.txFinal] using ht'))
    cases (thread_finish _ id).symm.trans hth'
  · cases hs

/-- Entries may be dropped from the list of what was published. -/
theorem Inv.retain (h : Inv w) (p : H → Bool) :
    Inv { w with publishedTerminal := w.publishedTerminal.filter p } := by
  refine ⟨h.keyed, fun id th hth => (h.holds id th hth).congr fun _ _ => rfl,
    fun t r hr => (h.shown t r hr).imp_right fun ⟨id, th, hth, howes⟩ => ⟨id, th, hth, ?_⟩,
    h.gone, fun t ht => h.published t (List.mem_of_mem_filter ht), h.closed, h.sound⟩
  exact howes.congr rfl fun hin => List.mem_of_mem_filter hin

theorem Inv.stepCollect {readable : Bool} (h : Inv w) (htidy : w.Tidy (.collect id readable))
    (hs : w.stepCollect id readable = some w') : Inv w' := by
  unfold Daemon.stepCollect at hs
  split at hs
  · rename_i records wrote hth
    have hrecords : ∀ r ∈ records, w.read r.txFinal = some r := h.holds id _ hth
    cases readable with
    | false =>
      cases hs
      simp only [Tidy, hth] at htidy
      refine h.become hth hrecords (fun t r howed _ => ?_) rfl
      simpa [Owes, htidy] using howed
    | true =>
      cases hs
      have hretained := h.retain fun t => (w.read t).isSome
      refine hretained.become hth (fun r hr => ?_) (fun t r howed hr => ?_) rfl
      · rcases List.mem_append.mp hr with hr | hr
        · exact hrecords r hr
        · exact (Keyed.mem_all hretained.keyed).mp (List.mem_of_mem_filter hr)
      · rcases howed with hin | ⟨-, ⟨r₁, hr₁, hterminal⟩, hnot⟩
        · simp only [Owes, List.map_append, List.mem_append]
          exact .inl hin
        · -- the record is terminal and not yet published: it is collected, unless it is already there
          have hkey := hretained.keyed t r₁ hr₁
          by_cases hin : t ∈ records.map TransactionRecord.txFinal
          · simp only [Owes, List.map_append, List.mem_append]
            exact .inl hin
          · have hcollected : r₁ ∈ unpublished
                { w with publishedTerminal := w.publishedTerminal.filter fun t => (w.read t).isSome }
                records := by
              refine List.mem_filter.mpr ⟨Daemon.mem_all.mpr ⟨t, hr₁⟩, ?_⟩
              rw [← hkey] at hnot hin
              simp only [hterminal, Bool.true_and, Bool.and_eq_true, decide_eq_true_eq, List.all_eq_true]
              exact ⟨hnot, fun r' hr' heq => hin (heq ▸ List.mem_map_of_mem hr')⟩
            simp only [Owes, List.map_append, List.mem_append, List.mem_map]
            exact .inr ⟨r₁, hcollected, hkey⟩
  · cases hs

end Publishing

/-! ## Steps that write -/

section Writing

variable {w w' : Daemon H} {id : Nat}

/-- Open records are rewritten, and the thread will publish every one of them. -/
theorem Inv.rewrites {th th' : Thread H} (h : Inv w) (hth : w.thread id = some th)
    (hspared : Spared w w' id) (hthreads : ∀ id', id' ≠ id → w'.thread id' = w.thread id')
    (hth' : w'.thread id = some th') (hhistory : w'.history = w.history)
    (hpublished : w'.publishedTerminal = w.publishedTerminal)
    (hread : ∀ t, w'.read t = w.read t ∨ ∃ r r', w.read t = some r ∧ r.isOpen = true ∧
      w'.read t = some r' ∧ r'.txFinal = t ∧ w'.Owes t th')
    (hholds : w'.Holds th') (howes : ∀ t r, w.Owes t th → w'.read t = some r → w'.Owes t th')
    (hremovals : th.removals = []) : Inv w' := by
  have hself : ∀ {p : Thread H → Prop}, ¬ p th → ∀ th₁, w.thread id = some th₁ → ¬ p th₁ := by
    intro p hp th₁ hth₁
    obtain rfl : th = th₁ := Option.some.inj (hth.symm.trans hth₁)
    exact hp
  have hprunes : ∀ t, t ∉ th.prunes := by
    intro t ht
    have hin := mem_removals_of_mem_prunes ht
    simp [hremovals] at hin
  refine h.next ⟨hthreads, fun t r hr => ?_, hspared, fun th₁ hth₁ => ?_, fun t r hr => ?_, fun t ht => ?_,
    fun t ht => ?_, fun t r hc hr => ?_, ?_⟩
  · rcases hread t with hsame | ⟨r₀, r', -, -, hr', hkey, -⟩
    · exact h.keyed t r (hsame.symm.trans hr)
    · obtain rfl : r' = r := Option.some.inj (hr'.symm.trans hr)
      exact hkey
  · obtain rfl : th' = th₁ := Option.some.inj (hth'.symm.trans hth₁)
    exact hholds
  · rcases hread t with hsame | ⟨-, -, -, -, -, -, howed⟩
    · by_cases hmine : w.Owes t th
      · exact .inr (.inl ⟨th', hth', howes t r hmine hr⟩)
      · exact .inr (.inr ⟨hsame, by rw [hhistory], fun hin => by rwa [← hpublished], hself hmine⟩)
    · exact .inr (.inl ⟨th', hth', howed⟩)
  · rcases hread t with hsame | ⟨-, r', -, -, hr', -⟩
    · exact .inr (.inr ⟨hsame.symm.trans ht, by rw [hhistory], hself (by simp [hremovals])⟩)
    · simp [ht] at hr'
  · rw [hpublished] at ht
    rcases hread t with hsame | ⟨r, -, hr, hopen, -⟩
    · exact .inr (.inr ⟨ht, hsame, .inr (by rw [hhistory]), hself (hprunes t)⟩)
    · rcases h.published t ht with ⟨r₁, hr₁, hterminal, -⟩ | ⟨hnone, -⟩
      · obtain rfl : r = r₁ := Option.some.inj (hr.symm.trans hr₁)
        simp [TransactionRecord.isOpen, hterminal] at hopen
      · simp [hnone] at hr
  · rw [hhistory] at hc
    rcases hread t with hsame | ⟨r₀, -, hr₀, hopen, -⟩
    · exact h.closed t r hc (hsame.symm.trans hr)
    · have hterminal := h.closed t r₀ hc hr₀
      simp [TransactionRecord.isOpen, hterminal] at hopen
  · rw [hhistory]
    exact h.sound

omit [DecidableEq H] in
theorem markSubmit_some {now : Nat} {r r' : Record H} (h : markSubmit now r = some r') :
    r.isOpen = true ∧ r'.txFinal = r.txFinal ∧ r'.submitAttemptedAtMs.isSome = true := by
  unfold markSubmit at h
  split at h
  · rename_i hstate
    cases h
    exact ⟨by simp [TransactionRecord.isOpen, hstate, Driver.TransactionState.isTerminal], rfl, rfl⟩
  · cases h

omit [DecidableEq H] in
theorem finishSubmit_some {now : Nat} {jobId : String} {failed : Bool} {r r' : Record H}
    (h : finishSubmit now jobId failed r = some r') : r.isOpen = true ∧ r'.txFinal = r.txFinal := by
  unfold finishSubmit at h
  split at h
  · rename_i hstate
    cases h
    exact ⟨by simp [TransactionRecord.isOpen, hstate, Driver.TransactionState.isTerminal], rfl⟩
  · cases h

theorem Inv.stepSubmitMark {now : Nat} {ok : Bool} (h : Inv w) (hspared : Spared w w' id)
    (hs : w.stepSubmitMark id now ok = some w') : Inv w' := by
  unfold Daemon.stepSubmitMark at hs
  split at hs
  · rename_i t caller hth
    have hfailed : Inv (w.submitFailed id t false caller) :=
      h.submitFailed hth (fun _ _ howed => howed.elim) rfl
    split at hs
    · cases hs
      exact hfailed
    · rename_i r hr
      have hkey := h.keyed t r hr
      split at hs
      · cases hs
        exact h.submitOk hth (by rwa [hkey]) (fun _ howed => howed.elim) rfl
      · rename_i r' hmark
        obtain ⟨hopen, hkey', hattempted⟩ := markSubmit_some hmark
        split at hs
        · cases hs
          have hread : ∀ t', (w.write r').read t' = if t' = t then some r' else w.read t' := by
            intro t'
            rw [read_write, hkey', hkey]
          refine h.rewrites hth hspared (fun id' hne => thread_become_ne _ _ _ hne) (thread_become _ _ _)
            rfl rfl (fun t' => ?_) trivial (fun _ _ howed => howed.elim) rfl
          simp only [read_become, hread]
          by_cases ht : t' = t
          · subst ht
            by_cases hsame : r' = r
            · left
              rw [if_pos rfl, hsame, hr]
            · right
              refine ⟨r, r', hr, hopen, if_pos rfl, hkey'.trans hkey, rfl, by simpa using hsame, r', ?_,
                fun _ => hattempted⟩
              rw [read_become, hread, if_pos rfl]
          · exact .inl (if_neg ht)
        · cases hs
          exact hfailed
  · cases hs

theorem Inv.stepSubmitFinish {now : Nat} {ok : Bool} (h : Inv w) (hspared : Spared w w' id)
    (htidy : w.Tidy (.submitFinish id now ok)) (hs : w.stepSubmitFinish id now ok = some w') : Inv w' := by
  unfold Daemon.stepSubmitFinish at hs
  split at hs
  · rename_i t caller stamped jobId failed hth
    split at hs
    · rename_i hnone
      cases hs
      refine h.submitFailed hth (fun t' r howed hr => ?_) rfl
      obtain ⟨rfl, -⟩ := howed
      simp [hnone] at hr
    · rename_i r hr
      have hkey := h.keyed t r hr
      split at hs
      · cases hs
        exact h.submitOk hth (by rwa [hkey]) (fun t' howed => hkey.trans howed.1) rfl
      · rename_i r' hfinish
        obtain ⟨hopen, hkey'⟩ := finishSubmit_some hfinish
        split at hs
        · cases hs
          obtain ⟨th', heq, howes, hholds⟩ := submitOk_eq (w.write r') id r' caller
          rw [heq] at hspared ⊢
          have hthis : (w.write r').read r'.txFinal = some r' := by simp [read_write]
          refine h.rewrites hth hspared (fun id' hne => thread_become_ne _ _ _ hne) (thread_become _ _ _)
            rfl rfl (fun t' => ?_) (hholds _ hthis) (fun t' _ howed _ => ?_) rfl
          · simp only [read_become, read_write]
            by_cases ht : t' = r'.txFinal
            · subst ht
              refine .inr ⟨r, r', ?_, hopen, if_pos rfl, rfl, howes _⟩
              rwa [hkey', hkey]
            · exact .inl (if_neg ht)
          · have ht : t' = r'.txFinal := howed.1.symm.trans (hkey.symm.trans hkey'.symm)
            rw [ht]
            exact howes _
        · rename_i hbad
          cases hs
          refine h.submitFailed hth (fun t' r howed _ => ?_) rfl
          obtain ⟨rfl, hstamped, hoffered⟩ := howed
          obtain rfl : ok = false := by simpa using hbad
          simp only [Tidy, hth] at htidy
          exact ⟨rfl, hstamped, htidy hstamped, hoffered⟩
  · cases hs

theorem read_writeAll (w : Daemon H) (rs : List (Record H)) (t : H) :
    ((w.writeAll rs).read t = w.read t ∧ ∀ r ∈ rs, r.txFinal ≠ t) ∨
      ∃ r ∈ rs, r.txFinal = t ∧ (w.writeAll rs).read t = some r := by
  induction rs generalizing w with
  | nil => exact .inl ⟨rfl, by simp⟩
  | cons r rs ih =>
    rcases ih (w.write r) with ⟨hread, hnot⟩ | ⟨r', hr', hkey, hread⟩
    · rw [read_write] at hread
      by_cases ht : t = r.txFinal
      · rw [if_pos ht] at hread
        exact .inr ⟨r, by simp, ht.symm, hread⟩
      · rw [if_neg ht] at hread
        refine .inl ⟨hread, fun r' hr' => ?_⟩
        rcases List.mem_cons.mp hr' with rfl | hr'
        · exact Ne.symm ht
        · exact hnot r' hr'
    · exact .inr ⟨r', by simp [hr'], hkey, hread⟩

theorem writeAll_append (w : Daemon H) (rs rs' : List (Record H)) :
    w.writeAll (rs ++ rs') = (w.writeAll rs).writeAll rs' := List.foldl_append

theorem writeAll_threads (w : Daemon H) (rs : List (Record H)) :
    (w.writeAll rs).threads = w.threads ∧ (w.writeAll rs).history = w.history ∧
      (w.writeAll rs).publishedTerminal = w.publishedTerminal := by
  induction rs generalizing w with
  | nil => exact ⟨rfl, rfl, rfl⟩
  | cons r rs ih => exact ih (w.write r)

/-! ### Settlement -/

/-- A record that a settlement changes was open. -/
theorem Keyed.mem_changed (h : w.Keyed) {x : Settlement H} {now : Nat} {c : Record H}
    (hc : c ∈ w.changed x now) : ∃ r, w.read c.txFinal = some r ∧ r.isOpen = true ∧ c = settled x now r := by
  unfold changed changedRecords at hc
  obtain ⟨r, hr, rfl⟩ := List.mem_map.mp hc
  obtain ⟨hall, hdiffers⟩ := List.mem_filter.mp hr
  have hkey : (settled x now r).txFinal = r.txFinal := (settled_sameFiles x now r).txFinal
  refine ⟨r, ?_, ?_, rfl⟩
  · rw [hkey]
    exact h.mem_all.mp hall
  · by_contra hopen
    have hsame := settled_of_not_open x now (r := r) (by simpa using hopen)
    simp [hsame] at hdiffers

theorem Keyed.changed_unique (h : w.Keyed) {x : Settlement H} {now : Nat} {c c' : Record H}
    (hc : c ∈ w.changed x now) (hc' : c' ∈ w.changed x now) (hkey : c.txFinal = c'.txFinal) : c = c' := by
  obtain ⟨r, hr, -, rfl⟩ := h.mem_changed hc
  obtain ⟨r', hr', -, rfl⟩ := h.mem_changed hc'
  rw [hkey] at hr
  obtain rfl : r = r' := Option.some.inj (hr.symm.trans hr')
  rfl

omit [DecidableEq H] in
theorem withNames_txFinal (r : Record H) (n : FileNames) : (withNames r n).txFinal = r.txFinal := rfl

theorem persisted_txFinal (names : List (H × FileNames)) (r : Record H) :
    (persisted names r).txFinal = r.txFinal := by
  unfold persisted
  split
  · split <;> rfl
  · rfl

theorem mem_settlementWrites {x : Settlement H} {now : Nat} {names : List (H × FileNames)}
    {r : Record H} (h : r ∈ w.settlementWrites x now names) :
    ∃ c ∈ w.changed x now, c.txFinal = r.txFinal ∧ (r = c ∨ r = persisted names c) := by
  rcases List.mem_append.mp h with hr | hr
  · exact ⟨r, hr, rfl, .inl rfl⟩
  · obtain ⟨c, hc, rfl⟩ := List.mem_map.mp (List.mem_of_mem_filter hr)
    exact ⟨c, hc, (persisted_txFinal names c).symm, .inr rfl⟩

/-- After all its writes a settlement leaves every changed record as it reports it. -/
theorem Keyed.read_settled (h : w.Keyed) {x : Settlement H} {now : Nat} {names : List (H × FileNames)}
    {c : Record H} (hc : c ∈ w.changed x now) :
    (w.writeAll (w.settlementWrites x now names)).read c.txFinal = some (persisted names c) := by
  unfold settlementWrites
  rw [writeAll_append]
  rcases read_writeAll (w.writeAll (w.changed x now))
    (((w.changed x now).map (persisted names)).filter fun r => r ∉ w.changed x now) c.txFinal with
    ⟨hread, hnot⟩ | ⟨r, hr, hkey, hread⟩
  · -- the record is not written again, so its names are the same
    have hsame : persisted names c = c := by
      by_cases hin : persisted names c ∈ w.changed x now
      · exact h.changed_unique hin hc (persisted_txFinal names c)
      · refine absurd (persisted_txFinal names c) (hnot _ (List.mem_filter.mpr ⟨List.mem_map_of_mem hc, ?_⟩))
        simpa using hin
    rw [hread, hsame]
    rcases read_writeAll w (w.changed x now) c.txFinal with ⟨-, hnot⟩ | ⟨c', hc', hkey, hread'⟩
    · exact absurd rfl (hnot c hc)
    · rw [hread', h.changed_unique hc' hc hkey]
  · obtain ⟨c', hc', rfl⟩ := List.mem_map.mp (List.mem_of_mem_filter hr)
    rw [persisted_txFinal] at hkey
    rw [hread, h.changed_unique hc' hc hkey]

/-- A settlement, in whole or in part, rewrites open records only. -/
theorem Inv.settles {x : Settlement H} {now : Nat} {names : List (H × FileNames)} {writes : List (Record H)}
    {th th' : Thread H} (h : Inv w) (hth : w.thread id = some th)
    (hspared : Spared w ((w.writeAll writes).become id th') id)
    (hwrites : ∀ r ∈ writes, r ∈ w.settlementWrites x now names)
    (howed : ∀ r ∈ writes, ((w.writeAll writes).become id th').read r.txFinal = some r →
      ((w.writeAll writes).become id th').Owes r.txFinal th')
    (hholds : ((w.writeAll writes).become id th').Holds th') (howes : ∀ t, ¬ w.Owes t th)
    (hremovals : th.removals = []) : Inv ((w.writeAll writes).become id th') := by
  obtain ⟨hthreads, hhistory, hpublished⟩ := writeAll_threads w writes
  have hsame : ∀ id', (w.writeAll writes).thread id' = w.thread id' := by
    intro id'
    unfold thread
    rw [hthreads]
  refine h.rewrites hth hspared (fun id' hne => (thread_become_ne _ _ _ hne).trans (hsame id'))
    (thread_become _ _ _) hhistory hpublished (fun t => ?_) hholds
    (fun t r hmine => absurd hmine (howes t)) hremovals
  rcases read_writeAll w writes t with ⟨hread, -⟩ | ⟨r, hr, rfl, hread⟩
  · exact .inl hread
  · obtain ⟨c, hc, hkey, -⟩ := mem_settlementWrites (hwrites r hr)
    obtain ⟨r₀, hr₀, hopen, -⟩ := Keyed.mem_changed h.keyed hc
    rw [hkey] at hr₀
    exact .inr ⟨r₀, r, hr₀, hopen, hread, rfl, howed r hr hread⟩

theorem Inv.stepSettle {x : Settlement H} {now : Nat} {names : List (H × FileNames)} {stop : Option Nat}
    (h : Inv w) (hspared : Spared w w' id) (htidy : w.Tidy (.settle id x now names stop))
    (hs : w.stepSettle id x now names stop = some w') : Inv w' := by
  unfold Daemon.stepSettle at hs
  split at hs
  · rename_i sync queried hth
    dsimp only at hs
    generalize hx : { x with queried := queried, jobs := if sync then [] else x.jobs } = y at hs
    cases stop with
    | none =>
      cases hs
      have hreport : ∀ r ∈ w.settlementWrites y now names,
          r.txFinal ∈ ((w.changed y now).map (persisted names)).map TransactionRecord.txFinal := by
        intro r hr
        obtain ⟨c, hc, hkey, -⟩ := mem_settlementWrites hr
        rw [← hkey, ← persisted_txFinal names c]
        exact List.mem_map_of_mem (List.mem_map_of_mem hc)
      have hstored : ∀ r ∈ (w.changed y now).map (persisted names),
          (w.writeAll (w.settlementWrites y now names)).read r.txFinal = some r := by
        intro r hr
        obtain ⟨c, hc, rfl⟩ := List.mem_map.mp hr
        rw [persisted_txFinal]
        exact Keyed.read_settled h.keyed hc
      cases sync with
      | true =>
        exact h.settles hth hspared (fun r hr => hr) (fun r hr _ => hreport r hr)
          ⟨fun r hr => .inl (hstored r hr), by simp⟩ (fun t => by simp [Owes]) rfl
      | false =>
        exact h.settles hth hspared (fun r hr => hr) (fun r hr _ => .inl (hreport r hr))
          (fun r hr => hstored r hr) (fun t => by simp [Owes]) rfl
    | some n =>
      simp only [Tidy, hth, hx] at htidy
      cases hs
      cases sync with
      | true =>
        have hnone : (w.settlementWrites y now names).take n = [] := by simpa using htidy
        rw [hnone]
        exact (h.finish hth (fun t r howed => by simp [Owes] at howed) rfl).lock
      | false =>
        have hterminal : ∀ r ∈ (w.settlementWrites y now names).take n, r.state.isTerminal = true := by
          simpa using htidy
        refine h.settles hth hspared (fun r hr => List.mem_of_mem_take hr) (fun r hr hread => ?_)
          trivial (fun t => by simp [Owes]) rfl
        refine ⟨?_, ⟨r, hread, hterminal r hr⟩, ?_⟩
        · cases hwrites : (w.settlementWrites y now names).take n with
          | nil => simp [hwrites] at hr
          | cons => rfl
        · -- it was open before, so no pass has published it
          obtain ⟨c, hc, hkey, -⟩ := mem_settlementWrites (List.mem_of_mem_take hr)
          obtain ⟨r₀, hr₀, hopen, -⟩ := Keyed.mem_changed h.keyed hc
          rw [hkey] at hr₀
          intro hin
          have hin' : r.txFinal ∈ w.publishedTerminal := by
            rw [← (writeAll_threads w ((w.settlementWrites y now names).take n)).2.2]
            exact hin
          rcases h.published _ hin' with ⟨r₁, hr₁, hclosed, -⟩ | ⟨hnone, -⟩
          · obtain rfl : r₀ = r₁ := Option.some.inj (hr₀.symm.trans hr₁)
            simp [TransactionRecord.isOpen, hclosed] at hopen
          · simp [hnone] at hr₀
  · cases hs

/-! ### Records that come and go -/

theorem Inv.stepRecord {ok : Bool} (h : Inv w) (hspared : Spared w w' id)
    (hs : w.stepRecord id ok = some w') : Inv w' := by
  unfold Daemon.stepRecord at hs
  split at hs
  · rename_i r submits hth
    split at hs
    · rename_i hok
      cases hs
      have hnone : w.read r.txFinal = none := by simpa using (Bool.and_eq_true_iff.mp hok).2
      have hread : ∀ t, t ≠ r.txFinal → (w.write r).read t = w.read t := by
        intro t ht
        rw [read_write, if_neg ht]
      have hself : ∀ {p : Thread H → Prop}, ¬ p (.recording r submits) →
          ∀ th₁, w.thread id = some th₁ → ¬ p th₁ := by
        intro p hp th₁ hth₁
        obtain rfl := Option.some.inj (hth.symm.trans hth₁)
        exact hp
      have hthis : (w.write r).read r.txFinal = some r := by simp [read_write]
      refine h.next (?_ : Step w _ id)
      refine ⟨fun id' hne => thread_become_ne _ _ _ hne, fun t r' hr' => ?_, hspared,
        fun th₁ hth₁ => ?_, fun t r' hr' => ?_, fun t ht => ?_, fun t ht => ?_, fun t r' hc hr' => ?_,
        h.sound⟩
      · by_cases ht : t = r.txFinal
        · subst ht
          have heq : r = r' := Option.some.inj (hthis.symm.trans hr')
          rw [← heq]
        · exact h.keyed t r' ((hread t ht).symm.trans hr')
      · obtain rfl := Option.some.inj ((thread_become _ id _).symm.trans hth₁)
        exact hthis
      · by_cases ht : t = r.txFinal
        · subst ht
          exact .inr (.inl ⟨_, thread_become _ _ _, rfl⟩)
        · exact .inr (.inr ⟨hread t ht, rfl, fun hin => hin, hself (by simp [Owes])⟩)
      · by_cases heq : t = r.txFinal
        · subst heq
          exact absurd (hthis.symm.trans ht) (by simp)
        · exact .inr (.inr ⟨(hread t heq).symm.trans ht, rfl, hself (by simp [Thread.removals])⟩)
      · by_cases heq : t = r.txFinal
        · subst heq
          -- nobody is about to report it pruned: the record would change under that thread
          rcases h.published _ ht with ⟨r₁, hr₁, -⟩ | ⟨-, id', th, hth', hin⟩
          · simp [hnone] at hr₁
          · have hne : id' ≠ id := by
              rintro rfl
              rw [hth] at hth'
              cases hth'
              simp [Thread.prunes] at hin
            have hhand : r.txFinal ∈ th.inHand := by
              cases th with
              | publishing records pruned => exact List.mem_append_right _ hin
              | _ => simp [Thread.prunes] at hin
            have hsame := hspared id' th hne hth' _ hhand
            rw [hnone] at hsame
            exact absurd (hthis.symm.trans hsame) (by simp)
        · exact .inr (.inr ⟨ht, hread t heq, .inr rfl, hself (by simp [Thread.prunes])⟩)
      · obtain ⟨hne, hc⟩ := hc
        exact h.closed t r' hc ((hread t (Ne.symm hne)).symm.trans hr')
    · cases hs
      exact h.finish hth (fun t r howed => by simp [Owes] at howed) rfl
  · cases hs

/-- Records that are no open debt of the thread are removed, and the thread will report them. -/
theorem Inv.removes {th th' : Thread H} (h : Inv w) (hth : w.thread id = some th)
    (hspared : Spared w w' id) (hthreads : ∀ id', id' ≠ id → w'.thread id' = w.thread id')
    (hth' : w'.thread id = some th') (hhistory : w'.history = w.history)
    (hpublished : w'.publishedTerminal = w.publishedTerminal) (removed : List H)
    (hread : ∀ t, w'.read t = if t ∈ removed then none else w.read t)
    (hstored : ∀ t ∈ removed, ∃ r, w.read t = some r ∧ (r.state.isTerminal = true → t ∈ th'.prunes))
    (hreported : ∀ t ∈ removed, t ∈ th'.removals)
    (hholds : w'.Holds th') (howes : ∀ t, w.Owes t th → w'.Owes t th') (hremovals : th.removals = []) :
    Inv w' := by
  have hself : ∀ {p : Thread H → Prop}, ¬ p th → ∀ th₁, w.thread id = some th₁ → ¬ p th₁ := by
    intro p hp th₁ hth₁
    obtain rfl : th = th₁ := Option.some.inj (hth.symm.trans hth₁)
    exact hp
  have hprunes : ∀ t, t ∉ th.prunes := by
    intro t ht
    have hin := mem_removals_of_mem_prunes ht
    simp [hremovals] at hin
  have hkept : ∀ t r, w'.read t = some r → w'.read t = w.read t := by
    intro t r hr
    rw [hread] at hr ⊢
    split at hr
    · cases hr
    · rename_i hnot
      rw [if_neg hnot]
  refine h.next ⟨hthreads, fun t r hr => h.keyed t r ((hkept t r hr).symm.trans hr), hspared,
    fun th₁ hth₁ => ?_, fun t r hr => ?_, fun t ht => ?_, fun t ht => ?_, fun t r hc hr => ?_, ?_⟩
  · obtain rfl : th' = th₁ := Option.some.inj (hth'.symm.trans hth₁)
    exact hholds
  · by_cases hmine : w.Owes t th
    · exact .inr (.inl ⟨th', hth', howes t hmine⟩)
    · exact .inr (.inr ⟨hkept t r hr, by rw [hhistory], fun hin => by rwa [← hpublished], hself hmine⟩)
  · by_cases hin : t ∈ removed
    · exact .inr (.inl ⟨th', hth', hreported t hin⟩)
    · rw [hread, if_neg hin] at ht
      exact .inr (.inr ⟨ht, by rw [hhistory], hself (by simp [hremovals])⟩)
  · rw [hpublished] at ht
    by_cases hin : t ∈ removed
    · obtain ⟨r, hr, hterminal⟩ := hstored t hin
      refine .inr (.inl ⟨by rw [hread, if_pos hin], th', hth', hterminal ?_⟩)
      rcases h.published t ht with ⟨r₁, hr₁, hclosed, -⟩ | ⟨hnone, -⟩
      · obtain rfl : r = r₁ := Option.some.inj (hr.symm.trans hr₁)
        exact hclosed
      · simp [hnone] at hr
    · exact .inr (.inr ⟨ht, by rw [hread, if_neg hin], .inr (by rw [hhistory]), hself (hprunes t)⟩)
  · rw [hhistory] at hc
    exact h.closed t r hc ((hkept t r hr).symm.trans hr)
  · rw [hhistory]
    exact h.sound

theorem Inv.stepDelete {removal : Removal} (h : Inv w) (hspared : Spared w w' id)
    (htidy : w.Tidy (.delete id removal)) (hs : w.stepDelete id removal = some w') : Inv w' := by
  unfold Daemon.stepDelete at hs
  split at hs
  · rename_i t hth
    have hend : Inv (w.finish id) := h.finish hth (fun t r howed => by simp [Owes] at howed) rfl
    split at hs
    · cases hs
      exact hend
    · rename_i r hr
      split at hs
      · rename_i hstate
        split at hs
        · cases hs
          have hread : ∀ t', (w.remove t).read t' = if t' ∈ [t] then none else w.read t' := by
            intro t'
            simp [read_remove]
          refine h.removes hth hspared (fun id' hne => thread_become_ne _ _ _ hne) (thread_become _ _ _)
            rfl rfl [t] hread (fun t' ht' => ?_) (fun t' ht' => ht') ?_ (fun t' => by simp [Owes]) rfl
          · obtain rfl : t' = t := by simpa using ht'
            refine ⟨r, hr, fun hterminal => ?_⟩
            simp [hstate.1, Driver.TransactionState.isTerminal] at hterminal
          · show (w.remove t).read t = none
            simp [hread]
        · cases hs
          exact hend
        · exact absurd rfl htidy
      · cases hs
        exact hend
  · cases hs

theorem read_removeAll (w : Daemon H) (ts : List H) (t : H) :
    (w.removeAll ts).read t = if t ∈ ts then none else w.read t := by
  induction ts generalizing w with
  | nil => simp [removeAll]
  | cons t' ts ih =>
    have hrest : (w.removeAll (t' :: ts)).read t = ((w.remove t').removeAll ts).read t := rfl
    rw [hrest, ih, read_remove]
    by_cases hin : t ∈ ts
    · simp [hin]
    · by_cases heq : t = t' <;> simp [hin, heq]

theorem removeAll_threads (w : Daemon H) (ts : List H) :
    (w.removeAll ts).threads = w.threads ∧ (w.removeAll ts).history = w.history ∧
      (w.removeAll ts).publishedTerminal = w.publishedTerminal := by
  induction ts generalizing w with
  | nil => exact ⟨rfl, rfl, rfl⟩
  | cons t ts ih => exact ih (w.remove t)

theorem Inv.stepPrune {now : Nat} {answers : List (H × PruneAnswer)} {ending : PruneEnd} (h : Inv w)
    (hspared : Spared w w' id) (htidy : w.Tidy (.prune id now answers ending))
    (hs : w.stepPrune id now answers ending = some w') : Inv w' := by
  unfold Daemon.stepPrune at hs
  split at hs
  · rename_i records hth
    have hrecords : ∀ r ∈ records, w.read r.txFinal = some r := h.holds id _ hth
    have hsame : Inv (w.become id (.publishing records [])) :=
      h.become hth ⟨fun r hr => .inl (hrecords r hr), by simp⟩ (fun t r howed _ => howed) rfl
    dsimp only at hs
    cases ending with
    | unreadable =>
      cases hs
      exact hsame
    | failed =>
      obtain ⟨hwrites, hlost, hpruned⟩ := htidy (by simp)
      rw [hwrites, hlost, hpruned rfl] at hs
      cases hs
      exact hsame
    | done =>
      obtain ⟨hwrites, hlost, -⟩ := htidy (by simp)
      rw [hwrites, hlost, List.append_nil] at hs
      cases hs
      have hpruned : ∀ t ∈ w.prunedIds now answers, ∃ r, w.read t = some r ∧ r.state.isTerminal = true := by
        intro t ht
        obtain ⟨r, hr, rfl⟩ := List.mem_map.mp ht
        obtain ⟨hall, hterminal⟩ := List.mem_filter.mp (List.mem_of_mem_filter hr)
        exact ⟨r, (Keyed.mem_all h.keyed).mp hall, hterminal⟩
      obtain ⟨hthreads, hhistory, hpublished⟩ := removeAll_threads w (w.prunedIds now answers)
      refine h.removes hth hspared (fun id' hne => ?_) (thread_become _ _ _) hhistory hpublished
        (w.prunedIds now answers) (read_removeAll w _) (fun t ht => ?_) (fun t ht => ht) ⟨fun r hr => ?_,
        fun t ht => ?_⟩ (fun t howed => howed) rfl
      · rw [thread_become_ne _ _ _ hne]
        unfold thread
        exact congrArg (AList.lookup id') hthreads
      · obtain ⟨r, hr, -⟩ := hpruned t ht
        exact ⟨r, hr, fun _ => ht⟩
      · have hthis := hrecords r hr
        by_cases hin : r.txFinal ∈ w.prunedIds now answers
        · obtain ⟨r₁, hr₁, hterminal⟩ := hpruned _ hin
          obtain rfl : r = r₁ := Option.some.inj (hthis.symm.trans hr₁)
          refine .inr ⟨hin, hterminal, ?_⟩
          exact (read_removeAll w _ _).trans (if_pos hin)
        · exact .inl (((read_removeAll w _ _).trans (if_neg hin)).trans hthis)
      · exact (read_removeAll w _ _).trans (if_pos ht)
  · cases hs

end Writing

/-! ## Every run -/

section Runs

variable {w w' : Daemon H}

theorem Undisturbed.spared {a : Action H} (h : w.Undisturbed a) (hs : w.step a = some w') :
    Spared w w' a.id := by
  intro id' th hne hth t ht
  exact h w' hs ⟨id', th⟩ (AList.mem_lookup_iff.mp hth) hne t ht

theorem Inv.step {a : Action H} (h : Inv w) (hg : w.Undisturbed a ∧ w.Tidy a)
    (hs : w.step a = some w') : Inv w' := by
  have hspared := hg.1.spared hs
  cases a with
  | spawnRun id proved owner names now submits => exact h.spawn hs rfl
  | spawnSubmit id t => exact h.spawn hs trivial
  | spawnRetry id t =>
    simp only [Daemon.step, stepSpawnRetry] at hs
    split at hs
    · split at hs
      · exact h.spawn hs trivial
      · cases hs
    · cases hs
  | spawnDelete id t => exact h.spawn hs trivial
  | spawnPass id sync => exact h.spawn hs trivial
  | record id ok => exact h.stepRecord hspared hs
  | announce id => exact h.stepAnnounce hs
  | submitRead id preflight => exact h.stepSubmitRead hs
  | submitMark id now ok => exact h.stepSubmitMark hspared hs
  | submitSend id response => exact h.stepSubmitSend hg.2 hs
  | submitFinish id now ok => exact h.stepSubmitFinish hspared hg.2 hs
  | inspect id readable refused => exact h.stepInspect hg.2 hs
  | lockPass id => exact h.stepLockPass hs
  | reread id readable => exact h.stepReread hg.2 hs
  | query id => exact h.stepQuery hs
  | settle id x now names stop => exact h.stepSettle hspared hg.2 hs
  | relist id readable => exact h.stepRelist hg.2 hs
  | collect id readable => exact h.stepCollect hg.2 hs
  | prune id now answers ending => exact h.stepPrune hspared hg.2 hs
  | publish id => exact h.stepPublish hs
  | delete id removal => exact h.stepDelete hspared hg.2 hs
  | announceDeleted id => exact h.stepAnnounceDeleted hs

theorem Inv.opened (records : List (Record H)) : Inv (opened records) := by
  obtain ⟨hthreads, hhistory, hpublished⟩ := writeAll_threads (⟨∅, ∅, false, [], []⟩ : Daemon H) records
  have hquiet : ∀ t, lastEvent t (Daemon.opened records).history = none := by
    intro t
    unfold Daemon.opened
    rw [hhistory]
    rfl
  refine ⟨fun t r hr => ?_, fun id th hth => ?_, fun t r _ => .inl (.inl (hquiet t)),
    fun t _ => .inl (.inl (hquiet t)), fun t ht => ?_, fun t r hc => ?_, ?_⟩
  · unfold Daemon.opened at hr
    rcases read_writeAll (⟨∅, ∅, false, [], []⟩ : Daemon H) records t with ⟨hread, -⟩ | ⟨r', -, hkey, hread⟩
    · rw [hread] at hr
      cases hr
    · rw [hread] at hr
      cases hr
      exact hkey
  · unfold Daemon.opened thread at hth
    rw [hthreads] at hth
    cases hth
  · unfold Daemon.opened at ht
    rw [hpublished] at ht
    cases ht
  · unfold Daemon.opened at hc
    rw [hhistory] at hc
    exact hc.elim
  · unfold Daemon.opened
    rw [hhistory]
    exact trivial

/-- Every call has returned. -/
def Idle (w : Daemon H) : Prop := w.threads.entries = []

/-- Without a thread, nobody has anything left to publish. -/
theorem Inv.agrees (h : Inv w) (hidle : w.Idle) (t : H) : Agrees (lastEvent t w.history) (w.read t) := by
  have hnone : ∀ id, w.thread id = none := by
    intro id
    unfold thread AList.lookup
    rw [hidle]
    rfl
  cases hr : w.read t with
  | some r =>
    rcases h.shown t r hr with (hlast | hlast) | ⟨id, th, hth, -⟩
    · rw [hlast]
      exact trivial
    · rw [hlast]
      exact rfl
    · rw [hnone] at hth
      cases hth
  | none =>
    rcases h.gone t hr with (hlast | hlast | hlast) | ⟨id, th, hth, -⟩
    · rw [hlast]
      exact trivial
    · rw [hlast]
      exact rfl
    · rw [hlast]
      exact rfl
    · rw [hnone] at hth
      cases hth

end Runs

namespace Sample

/-- A transaction that was recorded before the daemon started. -/
def recorded : Record Nat :=
  .ofProved ⟨7, ⟨"game", "Sharpen"⟩, 5, [], [101], []⟩ "run" ["a.dobj"] ["b.dobj"] [] 1

/-- It is submitted at 20, and has landed in a pass at 30. -/
def submitted : Record Nat :=
  { recorded with
    state := .submitted, submitAttemptedAtMs := some 10, relayerJobId := some "job", submittedAtMs := some 20 }

def landed : Record Nat := { submitted with state := .landed, txHash := some "0x1", settledAtMs := some 30 }

end Sample

end Daemon

end DigitalObjects.Dobjd
