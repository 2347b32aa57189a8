import DigitalObjects.Dobjd.Events
set_option autoImplicit false

/-!
Submission retries. Recorded transactions whose submission was attempted are offered to the relayer
again, few at a time, and each with a delay that doubles with its failures.
-/

namespace DigitalObjects.Dobjd

open Lib Driver.Objects

variable {H : Type} [DecidableEq H]

/-- Instants and durations in nanoseconds. -/
def fromMillis (n : Nat) : Nat := n * 1000000

def fromSecs (n : Nat) : Nat := n * 1000000000

def settleInterval : Nat := fromMillis 1500

def maxSubmissionRetries : Nat := 4

structure SubmissionRetry where
  nextAttempt : Nat
  delay : Nat
  inFlight : Bool
deriving DecidableEq, Repr

abbrev Attempts (H : Type) := AList fun _ : H => SubmissionRetry

structure SubmissionRetries (H : Type) where
  attempts : Attempts H

namespace Attempts

/-- The entries that `retain` leaves. -/
def retain (m : Attempts H) (p : H → SubmissionRetry → Bool) : Attempts H :=
  ⟨m.entries.filter fun e => p e.1 e.2, m.nodupKeys.sublist List.filter_sublist⟩

def inFlightCount (m : Attempts H) : Nat := m.entries.countP fun e => e.2.inFlight

end Attempts

/-- A submission was attempted, and is not known to have reached the relayer. -/
def isPending (r : Record H) : Bool := r.state = .recorded && r.submitAttemptedAtMs.isSome

def pendingIds (records : List (Record H)) : List H := (records.filter isPending).map TransactionRecord.txFinal

/-- The state of the loop of `due`. -/
structure Round (H : Type) where
  attempts : Attempts H
  capacity : Nat
  due : List H

namespace SubmissionRetries

def init : SubmissionRetries H := ⟨∅⟩

def offer (now : Nat) (round : Round H) (t : H) : Round H :=
  let retry := (round.attempts.lookup t).getD ⟨now + settleInterval, settleInterval, false⟩
  let attempts := round.attempts.insert t retry
  if round.capacity = 0 || retry.inFlight || now < retry.nextAttempt then { round with attempts := attempts }
  else ⟨attempts.insert t { retry with inFlight := true }, round.capacity - 1, round.due ++ [t]⟩

def retained (s : SubmissionRetries H) (records : List (Record H)) : Attempts H :=
  s.attempts.retain fun t retry => retry.inFlight || t ∈ pendingIds records

/-- The transactions to submit now. -/
def due (s : SubmissionRetries H) (records : List (Record H)) (now : Nat) : SubmissionRetries H × List H :=
  let attempts := s.retained records
  let round := (pendingIds records).foldl (offer now)
    ⟨attempts, maxSubmissionRetries - attempts.inFlightCount, []⟩
  (⟨round.attempts⟩, round.due)

def complete (s : SubmissionRetries H) (t : H) (now : Nat) (succeeded : Bool) : SubmissionRetries H :=
  if succeeded then ⟨s.attempts.erase t⟩
  else match s.attempts.lookup t with
    | some retry =>
      let delay := min (retry.delay * 2) (fromSecs 60)
      ⟨s.attempts.insert t ⟨now + delay, delay, false⟩⟩
    | none => s

end SubmissionRetries

/-! ## Calls -/

inductive RetryCall (H : Type) where
  | due (records : List (Record H)) (now : Nat)
  | complete (t : H) (now : Nat) (succeeded : Bool)
deriving DecidableEq, Repr

/-- The time of the call. -/
def RetryCall.now : RetryCall H → Nat
  | .due _ now => now
  | .complete _ now _ => now

/-- The table and the transactions that `due` has returned and `complete` has not been called for. -/
structure Retrying (H : Type) where
  retries : SubmissionRetries H
  flying : List H

namespace Retrying

def call (s : Retrying H) : RetryCall H → Retrying H
  | .due records now => ⟨(s.retries.due records now).1, s.flying ++ (s.retries.due records now).2⟩
  | .complete t now succeeded => ⟨s.retries.complete t now succeeded, s.flying.filter fun t' => t' ≠ t⟩

def run (calls : List (RetryCall H)) : Retrying H := calls.foldl call ⟨.init, []⟩

end Retrying

/-! ## The table -/

namespace Attempts

variable {m : Attempts H}

theorem entry_mem_iff {t : H} {retry : SubmissionRetry} :
    (⟨t, retry⟩ : Sigma fun _ : H => SubmissionRetry) ∈ m.entries ↔ m.lookup t = some retry :=
  AList.mem_lookup_iff.symm

theorem lookup_retain (p : H → SubmissionRetry → Bool) (t : H) (retry : SubmissionRetry) :
    (m.retain p).lookup t = some retry ↔ m.lookup t = some retry ∧ p t retry = true := by
  rw [← entry_mem_iff, ← entry_mem_iff]
  exact List.mem_filter

/-- What an entry adds to the count. -/
def flag (retry : SubmissionRetry) : Nat := if retry.inFlight then 1 else 0

theorem inFlightCount_insert_new {t : H} (retry : SubmissionRetry) (h : m.lookup t = none) :
    inFlightCount (m.insert t retry) = m.inFlightCount + flag retry := by
  have hnot : t ∉ m := AList.lookup_eq_none.mp h
  unfold inFlightCount flag
  rw [AList.entries_insert_of_notMem hnot, List.countP_cons]

theorem inFlightCount_erase {t : H} {retry : SubmissionRetry} (h : m.lookup t = some retry) :
    m.inFlightCount = inFlightCount (m.erase t) + flag retry := by
  have hin : t ∈ m.entries.keys := AList.lookup_isSome.mp (by simp [h])
  obtain ⟨retry', before, after, hnot, hsplit, herase⟩ := List.exists_of_kerase hin
  have hmem : m.lookup t = some retry' := by
    rw [← entry_mem_iff, hsplit]
    simp
  obtain rfl : retry = retry' := Option.some.inj (h.symm.trans hmem)
  unfold inFlightCount flag
  have herased : (m.erase t).entries = before ++ after := herase
  rw [herased, hsplit, List.countP_append, List.countP_append, List.countP_cons]
  dsimp only
  omega

theorem inFlightCount_insert {t : H} {retry : SubmissionRetry} (retry' : SubmissionRetry)
    (h : m.lookup t = some retry) :
    inFlightCount (m.insert t retry') + flag retry = m.inFlightCount + flag retry' := by
  have hentries : (m.insert t retry').entries = ⟨t, retry'⟩ :: (m.erase t).entries := rfl
  have herase := inFlightCount_erase h
  unfold inFlightCount flag at *
  rw [hentries, List.countP_cons]
  dsimp only
  omega

/-- Different transactions in flight have different entries. -/
theorem length_le_inFlightCount {ts : List H} (hnodup : ts.Nodup)
    (h : ∀ t ∈ ts, ∃ retry, m.lookup t = some retry ∧ retry.inFlight = true) :
    ts.length ≤ m.inFlightCount := by
  have hsub : ts ⊆ (m.entries.filter fun e => e.2.inFlight).map Sigma.fst := by
    intro t ht
    obtain ⟨retry, hlookup, hflight⟩ := h t ht
    exact List.mem_map.mpr ⟨⟨t, retry⟩, List.mem_filter.mpr ⟨entry_mem_iff.mpr hlookup, hflight⟩, rfl⟩
  have hlength := (hnodup.subperm hsub).length_le
  rw [List.length_map, ← List.countP_eq_length_filter] at hlength
  exact hlength

end Attempts

/-! ## One call of `due` -/

/-- The loop of `due` from the retained entries; `pending` is what it goes through. -/
structure Round.Ok (m : Attempts H) (capacity now : Nat) (pending : List H) (round : Round H) : Prop where
  returned : ∀ t ∈ round.due, t ∈ pending ∧ ∃ retry, m.lookup t = some retry ∧ retry.inFlight = false ∧
    retry.nextAttempt ≤ now ∧ round.attempts.lookup t = some { retry with inFlight := true }
  others : ∀ t ∉ round.due, round.attempts.lookup t = m.lookup t ∨
    (m.lookup t = none ∧ t ∈ pending ∧
      round.attempts.lookup t = some ⟨now + settleInterval, settleInterval, false⟩)
  nodup : round.due.Nodup
  count : round.attempts.inFlightCount = m.inFlightCount + round.due.length
  room : round.capacity + round.due.length = capacity

namespace SubmissionRetries

variable {now capacity : Nat} {m : Attempts H} {pending : List H} {round : Round H}

/-- The transaction is left with its entry or a new one, or it is returned. -/
theorem offer_cases (now : Nat) (round : Round H) (t : H) :
    (∃ retry, offer now round t = { round with attempts := round.attempts.insert t retry } ∧
      (round.attempts.lookup t = some retry ∨ (round.attempts.lookup t = none ∧
        retry = ⟨now + settleInterval, settleInterval, false⟩))) ∨
    ∃ retry, round.attempts.lookup t = some retry ∧ 0 < round.capacity ∧ retry.inFlight = false ∧
      retry.nextAttempt ≤ now ∧ offer now round t =
        ⟨round.attempts.insert t { retry with inFlight := true }, round.capacity - 1, round.due ++ [t]⟩ := by
  unfold offer
  dsimp only
  cases hlookup : round.attempts.lookup t with
  | none =>
    have hwait : now < now + settleInterval := by
      have : 0 < settleInterval := by decide
      omega
    left
    exact ⟨_, by simp [hwait], .inr ⟨rfl, rfl⟩⟩
  | some retry =>
    simp only [Option.getD_some]
    by_cases hskip : (round.capacity = 0 || retry.inFlight || now < retry.nextAttempt) = true
    · left
      exact ⟨retry, by rw [if_pos hskip], .inl rfl⟩
    · right
      rw [if_neg hskip, AList.insert_insert]
      simp only [Bool.or_eq_true, decide_eq_true_eq, not_or] at hskip
      obtain ⟨⟨hroom, hidle⟩, hdue⟩ := hskip
      exact ⟨retry, rfl, by omega, by simpa using hidle, by omega, rfl⟩

theorem offer_ok {t : H} (h : round.Ok m capacity now pending) (ht : t ∈ pending) :
    (offer now round t).Ok m capacity now pending := by
  rcases offer_cases now round t with ⟨retry, heq, hentry⟩ | ⟨retry, hlookup, hroom, hidle, hdue, heq⟩
  · -- the entry is as it was, or it is new and not in flight
    rw [heq]
    have hsame : ∀ t', t' ≠ t → (round.attempts.insert t retry).lookup t' = round.attempts.lookup t' :=
      fun t' hne => AList.lookup_insert_ne hne
    have hmine : (round.attempts.insert t retry).lookup t = some retry := AList.lookup_insert _
    refine ⟨fun t' ht' => ?_, fun t' ht' => ?_, h.nodup, ?_, h.room⟩
    · obtain ⟨hpending, retry', hbefore, hidle, hdue, hnow⟩ := h.returned t' ht'
      refine ⟨hpending, retry', hbefore, hidle, hdue, ?_⟩
      by_cases hthis : t' = t
      · subst hthis
        rcases hentry with hentry | ⟨hentry, -⟩
        · exact hmine.trans (hentry.symm.trans hnow)
        · rw [hentry] at hnow
          cases hnow
      · exact (hsame t' hthis).trans hnow
    · by_cases hthis : t' = t
      · subst hthis
        rcases hentry with hentry | ⟨hentry, rfl⟩
        · have hkept := hmine.trans hentry.symm
          exact (h.others t' ht').imp hkept.trans fun ⟨hnone, hin, hnew⟩ => ⟨hnone, hin, hkept.trans hnew⟩
        · rcases h.others t' ht' with hbefore | ⟨-, -, hnew⟩
          · exact .inr ⟨hbefore.symm.trans hentry, ht, hmine⟩
          · rw [hentry] at hnew
            cases hnew
      · have hkept := hsame t' hthis
        exact (h.others t' ht').imp hkept.trans fun ⟨hnone, hin, hnew⟩ => ⟨hnone, hin, hkept.trans hnew⟩
    · have hcount : Attempts.inFlightCount (round.attempts.insert t retry) = round.attempts.inFlightCount := by
        rcases hentry with hentry | ⟨hentry, rfl⟩
        · have := Attempts.inFlightCount_insert retry hentry
          omega
        · rw [Attempts.inFlightCount_insert_new _ hentry]
          simp [Attempts.flag]
      exact hcount.trans h.count
  · -- the entry was not in flight before, so the transaction is returned for the first time
    have hnew : t ∉ round.due := by
      intro hin
      obtain ⟨-, retry', -, -, -, hnow⟩ := h.returned t hin
      rw [hlookup] at hnow
      have hflight := congrArg SubmissionRetry.inFlight (Option.some.inj hnow)
      rw [hidle] at hflight
      cases hflight
    have hbefore : m.lookup t = some retry := by
      rcases h.others t hnew with hsame | ⟨-, -, hfresh⟩
      · exact hsame.symm.trans hlookup
      · rw [hlookup] at hfresh
        have hwait := congrArg SubmissionRetry.nextAttempt (Option.some.inj hfresh)
        have hpositive : 0 < settleInterval := by decide
        dsimp only at hwait
        omega
    have hcount := Attempts.inFlightCount_insert { retry with inFlight := true } hlookup
    have hflags : Attempts.flag retry = 0 ∧ Attempts.flag { retry with inFlight := true } = 1 := by
      simp [Attempts.flag, hidle]
    have hbound := h.count
    have hroom' := h.room
    rw [heq]
    refine ⟨fun t' ht' => ?_, fun t' ht' => ?_, ?_, ?_, ?_⟩
    · by_cases hthis : t' = t
      · subst hthis
        exact ⟨ht, retry, hbefore, hidle, hdue, AList.lookup_insert _⟩
      · obtain ⟨hpending, retry', hentry', hidle', hdue', hnow⟩ := h.returned t' (by simpa [hthis] using ht')
        exact ⟨hpending, retry', hentry', hidle', hdue', (AList.lookup_insert_ne hthis).trans hnow⟩
    · have hthis : t' ≠ t := by
        rintro rfl
        simp at ht'
      have hkept : (round.attempts.insert t { retry with inFlight := true }).lookup t' =
        round.attempts.lookup t' := AList.lookup_insert_ne hthis
      have ht₀ : t' ∉ round.due := fun hin => ht' (by simp [hin])
      exact (h.others t' ht₀).imp hkept.trans fun ⟨hnone, hin, hfresh⟩ => ⟨hnone, hin, hkept.trans hfresh⟩
    · rw [List.nodup_append']
      refine ⟨h.nodup, by simp, ?_⟩
      simpa using hnew
    · rw [List.length_append, List.length_singleton]
      dsimp only
      omega
    · rw [List.length_append, List.length_singleton]
      dsimp only
      omega

theorem offers_ok (ts : List H) (h : round.Ok m capacity now pending) (hsub : ts ⊆ pending) :
    (ts.foldl (offer now) round).Ok m capacity now pending := by
  induction ts generalizing round with
  | nil => exact h
  | cons t ts ih => exact ih (offer_ok h (hsub (by simp))) fun t' ht' => hsub (by simp [ht'])

/-- What a call of `due` does. -/
theorem due_ok (s : SubmissionRetries H) (records : List (Record H)) (now : Nat) :
    ∃ left, Round.Ok (s.retained records) (maxSubmissionRetries - (s.retained records).inFlightCount) now
      (pendingIds records) ⟨(s.due records now).1.attempts, left, (s.due records now).2⟩ := by
  have hstart : Round.Ok (s.retained records) (maxSubmissionRetries - (s.retained records).inFlightCount) now
      (pendingIds records)
      ⟨s.retained records, maxSubmissionRetries - (s.retained records).inFlightCount, []⟩ :=
    ⟨by simp, fun t _ => .inl rfl, by simp, rfl, rfl⟩
  exact ⟨_, offers_ok (pendingIds records) hstart fun _ ht => ht⟩

theorem lookup_retained (s : SubmissionRetries H) (records : List (Record H)) (t : H) (retry : SubmissionRetry) :
    (s.retained records).lookup t = some retry ↔
      s.attempts.lookup t = some retry ∧ (retry.inFlight = true ∨ t ∈ pendingIds records) := by
  unfold retained
  rw [Attempts.lookup_retain]
  simp

end SubmissionRetries

/-! ## Every interleaving of calls -/

namespace Retrying

/-- The entries in flight are those of the transactions in flight. -/
structure Inv (s : Retrying H) : Prop where
  entries : ∀ t ∈ s.flying, ∃ retry, s.retries.attempts.lookup t = some retry ∧ retry.inFlight = true
  flying : ∀ t retry, s.retries.attempts.lookup t = some retry → retry.inFlight = true → t ∈ s.flying
  nodup : s.flying.Nodup
  bound : s.retries.attempts.inFlightCount ≤ maxSubmissionRetries

variable {s : Retrying H}

theorem Inv.init : Inv (⟨.init, []⟩ : Retrying H) :=
  ⟨by simp, fun t retry h => by simp [SubmissionRetries.init] at h, by simp, Nat.zero_le _⟩

theorem Inv.retained (h : s.Inv) (records : List (Record H)) {t : H} (ht : t ∈ s.flying) :
    ∃ retry, (s.retries.retained records).lookup t = some retry ∧ retry.inFlight = true := by
  obtain ⟨retry, hlookup, hflight⟩ := h.entries t ht
  exact ⟨retry, (SubmissionRetries.lookup_retained s.retries records t retry).mpr ⟨hlookup, .inl hflight⟩, hflight⟩

/-- What is returned was not in flight. -/
theorem Inv.returned (h : s.Inv) {records : List (Record H)} {now : Nat} {t : H}
    (ht : t ∈ (s.retries.due records now).2) : t ∉ s.flying := by
  obtain ⟨left, hok⟩ := s.retries.due_ok records now
  obtain ⟨-, retry, hlookup, hidle, -⟩ := hok.returned t ht
  intro hin
  obtain ⟨retry', hlookup', hflight⟩ := h.retained records hin
  obtain rfl : retry = retry' := Option.some.inj (hlookup.symm.trans hlookup')
  rw [hidle] at hflight
  cases hflight

theorem Inv.due (h : s.Inv) (records : List (Record H)) (now : Nat) : (s.call (.due records now)).Inv := by
  obtain ⟨left, hok⟩ := s.retries.due_ok records now
  refine ⟨fun t ht => ?_, fun t retry hlookup hflight => ?_, ?_, ?_⟩
  · by_cases hreturned : t ∈ (s.retries.due records now).2
    · obtain ⟨-, retry, -, -, -, hnow⟩ := hok.returned t hreturned
      exact ⟨_, hnow, rfl⟩
    · have hflying : t ∈ s.flying := (List.mem_append.mp ht).resolve_right hreturned
      obtain ⟨retry, hlookup, hflight⟩ := h.retained records hflying
      rcases hok.others t hreturned with hsame | ⟨hnone, -⟩
      · exact ⟨retry, hsame.trans hlookup, hflight⟩
      · rw [hnone] at hlookup
        cases hlookup
  · by_cases hreturned : t ∈ (s.retries.due records now).2
    · exact List.mem_append_right _ hreturned
    · rcases hok.others t hreturned with hsame | ⟨-, -, hnew⟩
      · have hbefore := ((SubmissionRetries.lookup_retained s.retries records t retry).mp
          (hsame.symm.trans hlookup)).1
        exact List.mem_append_left _ (h.flying t retry hbefore hflight)
      · have hidle := congrArg SubmissionRetry.inFlight (Option.some.inj (hlookup.symm.trans hnew))
        rw [hflight] at hidle
        cases hidle
  · refine List.nodup_append'.mpr ⟨h.nodup, hok.nodup, fun t ht ht' => ?_⟩
    exact h.returned ht' ht
  · have hretained : (s.retries.retained records).inFlightCount ≤ s.retries.attempts.inFlightCount :=
      List.Sublist.countP_le List.filter_sublist
    have hbound := h.bound
    have hcount := hok.count
    have hroom := hok.room
    dsimp only at hcount hroom
    change Attempts.inFlightCount (s.retries.due records now).1.attempts ≤ maxSubmissionRetries
    omega

theorem Inv.complete (h : s.Inv) (t : H) (now : Nat) (succeeded : Bool) :
    (s.call (.complete t now succeeded)).Inv := by
  have hothers : ∀ t', t' ≠ t → (s.retries.complete t now succeeded).attempts.lookup t' =
      s.retries.attempts.lookup t' := by
    intro t' hne
    unfold SubmissionRetries.complete
    split
    · exact AList.lookup_erase_ne hne
    · split
      · exact AList.lookup_insert_ne hne
      · rfl
  have hidle : ∀ retry, (s.retries.complete t now succeeded).attempts.lookup t = some retry →
      retry.inFlight = false := by
    intro retry hlookup
    unfold SubmissionRetries.complete at hlookup
    split at hlookup
    · simp at hlookup
    · split at hlookup
      · simp only [AList.lookup_insert, Option.some.injEq] at hlookup
        rw [← hlookup]
      · rename_i hnone
        rw [hnone] at hlookup
        cases hlookup
  have hcount : Attempts.inFlightCount (s.retries.complete t now succeeded).attempts ≤
      s.retries.attempts.inFlightCount := by
    unfold SubmissionRetries.complete
    split
    · exact List.Sublist.countP_le (List.kerase_sublist t s.retries.attempts.entries)
    · split
      · rename_i retry hlookup
        have hinsert := Attempts.inFlightCount_insert
          ⟨now + min (retry.delay * 2) (fromSecs 60), min (retry.delay * 2) (fromSecs 60), false⟩ hlookup
        have hflag : Attempts.flag
            ⟨now + min (retry.delay * 2) (fromSecs 60), min (retry.delay * 2) (fromSecs 60), false⟩ = 0 := rfl
        dsimp only
        omega
      · exact Nat.le_refl _
  refine ⟨fun t' ht' => ?_, fun t' retry hlookup hflight => ?_, h.nodup.filter _, hcount.trans h.bound⟩
  · obtain ⟨hflying, hne⟩ := List.mem_filter.mp ht'
    have hne : t' ≠ t := by simpa using hne
    obtain ⟨retry, hlookup, hflight⟩ := h.entries t' hflying
    exact ⟨retry, (hothers t' hne).trans hlookup, hflight⟩
  · have hne : t' ≠ t := by
      rintro rfl
      have hfalse := hidle retry hlookup
      rw [hflight] at hfalse
      cases hfalse
    have hflying := h.flying t' retry ((hothers t' hne).symm.trans hlookup) hflight
    exact List.mem_filter.mpr ⟨hflying, by simpa using hne⟩

theorem Inv.call (h : s.Inv) (c : RetryCall H) : (s.call c).Inv := by
  cases c with
  | due records now => exact h.due records now
  | complete t now succeeded => exact h.complete t now succeeded

theorem Inv.run (calls : List (RetryCall H)) : (run calls).Inv := by
  have hcalls : ∀ s : Retrying H, s.Inv → (calls.foldl Retrying.call s).Inv := by
    induction calls with
    | nil => exact fun _ h => h
    | cons c calls ih => exact fun s h => ih (s.call c) (h.call c)
  exact hcalls _ Inv.init

/-! ### Backing off -/

/-- The call is no completion for the transaction, and it lists the transaction as pending. -/
def Keeps (t : H) : RetryCall H → Prop
  | .due records _ => t ∈ pendingIds records
  | .complete t' _ _ => t' ≠ t

instance (t : H) (c : RetryCall H) : Decidable (Keeps t c) :=
  match c with
  | .due records _ => inferInstanceAs (Decidable (t ∈ pendingIds records))
  | .complete t' _ _ => inferInstanceAs (Decidable (t' ≠ t))

/-- The transaction has an entry, and it is in flight or waits at least until the deadline. -/
def Waits (s : Retrying H) (t : H) (deadline : Nat) : Prop :=
  ∃ retry, s.retries.attempts.lookup t = some retry ∧ (retry.inFlight = true ∨ deadline ≤ retry.nextAttempt)

theorem Waits.call {t : H} {deadline : Nat} (h : s.Waits t deadline) {c : RetryCall H} (hc : Keeps t c) :
    (s.call c).Waits t deadline := by
  obtain ⟨retry, hlookup, hwaits⟩ := h
  cases c with
  | due records now =>
    obtain ⟨left, hok⟩ := s.retries.due_ok records now
    have hretained := (SubmissionRetries.lookup_retained s.retries records t retry).mpr ⟨hlookup, .inr hc⟩
    by_cases hreturned : t ∈ (s.retries.due records now).2
    · obtain ⟨-, retry', -, -, -, hnow⟩ := hok.returned t hreturned
      exact ⟨_, hnow, .inl rfl⟩
    · rcases hok.others t hreturned with hsame | ⟨hnone, -⟩
      · exact ⟨retry, hsame.trans hretained, hwaits⟩
      · rw [hnone] at hretained
        cases hretained
  | complete t' now succeeded =>
    have hne : t ≠ t' := Ne.symm hc
    refine ⟨retry, Eq.trans ?_ hlookup, hwaits⟩
    change (s.retries.complete t' now succeeded).attempts.lookup t = s.retries.attempts.lookup t
    unfold SubmissionRetries.complete
    split
    · exact AList.lookup_erase_ne hne
    · split
      · exact AList.lookup_insert_ne hne
      · rfl

theorem Waits.calls {t : H} {deadline : Nat} (h : s.Waits t deadline) {calls : List (RetryCall H)}
    (hcalls : ∀ c ∈ calls, Keeps t c) : (calls.foldl Retrying.call s).Waits t deadline := by
  induction calls generalizing s with
  | nil => exact h
  | cons c calls ih => exact ih (h.call (hcalls c (by simp))) fun c' hc' => hcalls c' (by simp [hc'])

/-- Nothing is returned before its wait is over. -/
theorem Waits.returned {t : H} {deadline : Nat} (h : s.Waits t deadline) {records : List (Record H)} {now : Nat}
    (ht : t ∈ (s.retries.due records now).2) : deadline ≤ now := by
  obtain ⟨left, hok⟩ := s.retries.due_ok records now
  obtain ⟨-, retry, hlookup, hidle, hdue, -⟩ := hok.returned t ht
  obtain ⟨retry', hlookup', hwaits⟩ := h
  have hbefore := ((SubmissionRetries.lookup_retained s.retries records t retry).mp hlookup).1
  obtain rfl : retry = retry' := Option.some.inj (hbefore.symm.trans hlookup')
  rcases hwaits with hflight | hwaits
  · rw [hidle] at hflight
    cases hflight
  · omega

/-- After a failure of the transaction, with no completion of it since, the call `due records now`
returns it only once its doubled delay has passed. -/
def BacksOff (before : List (RetryCall H)) (t : H) (failedAt : Nat) (since : List (RetryCall H))
    (records : List (Record H)) (now : Nat) : Prop :=
  (∀ c ∈ since, ∀ later succeeded, c ≠ .complete t later succeeded) →
  t ∈ ((run (before ++ .complete t failedAt false :: since)).retries.due records now).2 →
  ∀ retry, (run before).retries.attempts.lookup t = some retry →
    failedAt + min (retry.delay * 2) (fromSecs 60) ≤ now

/-- Over every interleaving: at most four transactions are in flight, each has its entry, and none
of them is returned again; what is returned is pending in the list, and waited for its doubled delay if
it was listed in every call since its last failure; after `due` there are entries for pending
transactions and for those in flight only, and completions add none. -/
theorem submissionRetries (calls : List (RetryCall H)) :
    ((run calls).flying.Nodup ∧ (run calls).flying.length ≤ maxSubmissionRetries) ∧
    (∀ t ∈ (run calls).flying, ∃ retry, (run calls).retries.attempts.lookup t = some retry) ∧
    (∀ records now, ((run calls).retries.due records now).2.Nodup ∧
      ∀ t ∈ ((run calls).retries.due records now).2, t ∉ (run calls).flying ∧
        ∃ r ∈ records, r.txFinal = t ∧ r.state = .recorded ∧ r.submitAttemptedAtMs.isSome = true) ∧
    (∀ t failedAt since records now, (∀ c ∈ since, Keeps t c) → BacksOff calls t failedAt since records now) ∧
    (∀ records now t, t ∈ (run (calls ++ [.due records now])).retries.attempts →
      t ∈ pendingIds records ∨ t ∈ (run (calls ++ [.due records now])).flying) ∧
    (∀ t' now succeeded t, t ∈ (run (calls ++ [.complete t' now succeeded])).retries.attempts →
      t ∈ (run calls).retries.attempts) := by
  have hinv := Inv.run calls
  refine ⟨⟨hinv.nodup, ?_⟩, fun t ht => ?_, fun records now => ?_, fun t failedAt since records now hkeeps _ ht
    retry hlookup => ?_, fun records now t ht => ?_, fun t' now succeeded t ht => ?_⟩
  · exact (Attempts.length_le_inFlightCount hinv.nodup hinv.entries).trans hinv.bound
  · obtain ⟨retry, hlookup, -⟩ := hinv.entries t ht
    exact ⟨retry, hlookup⟩
  · obtain ⟨left, hok⟩ := (run calls).retries.due_ok records now
    refine ⟨hok.nodup, fun t ht => ⟨hinv.returned ht, ?_⟩⟩
    obtain ⟨r, hr, rfl⟩ := List.mem_map.mp (hok.returned t ht).1
    obtain ⟨hr, hpending⟩ := List.mem_filter.mp hr
    simp only [isPending, Bool.and_eq_true, decide_eq_true_eq] at hpending
    exact ⟨r, hr, rfl, hpending.1, hpending.2⟩
  · have hfailed : ((run calls).call (.complete t failedAt false)).Waits t
        (failedAt + min (retry.delay * 2) (fromSecs 60)) := by
      refine ⟨⟨failedAt + min (retry.delay * 2) (fromSecs 60), min (retry.delay * 2) (fromSecs 60), false⟩, ?_,
        .inr (Nat.le_refl _)⟩
      simp [Retrying.call, SubmissionRetries.complete, hlookup]
    have hsplit : run (calls ++ .complete t failedAt false :: since) =
        since.foldl Retrying.call ((run calls).call (.complete t failedAt false)) := by
      simp [run, List.foldl_append]
    rw [hsplit] at ht
    exact (hfailed.calls hkeeps).returned ht
  · have hsplit : run (calls ++ [.due records now]) = (run calls).call (.due records now) := by
      simp [run, List.foldl_append]
    rw [hsplit] at ht ⊢
    obtain ⟨left, hok⟩ := (run calls).retries.due_ok records now
    by_cases hreturned : t ∈ ((run calls).retries.due records now).2
    · exact .inl (hok.returned t hreturned).1
    · obtain ⟨retry, hlookup⟩ := Option.isSome_iff_exists.mp (AList.lookup_isSome.mpr ht)
      rcases hok.others t hreturned with hsame | ⟨-, hpending, -⟩
      · obtain ⟨hbefore, hflight | hpending⟩ := (SubmissionRetries.lookup_retained _ records t retry).mp
          (hsame.symm.trans hlookup)
        · exact .inr (List.mem_append_left _ (hinv.flying t retry hbefore hflight))
        · exact .inl hpending
      · exact .inl hpending
  · have hsplit : run (calls ++ [.complete t' now succeeded]) = (run calls).call (.complete t' now succeeded) := by
      simp [run, List.foldl_append]
    rw [hsplit] at ht
    change t ∈ ((run calls).retries.complete t' now succeeded).attempts at ht
    unfold SubmissionRetries.complete at ht
    split at ht
    · exact (AList.mem_erase.mp ht).2
    · split at ht
      · rename_i retry hlookup
        rcases (AList.mem_insert _).mp ht with rfl | hin
        · exact AList.lookup_isSome.mp (by simp [hlookup])
        · exact hin
      · exact ht

namespace Sample

/-- A recorded transaction that a submission was attempted for. -/
def attempted : Record Nat :=
  { TransactionRecord.ofProved ⟨7, ⟨"game", "Sharpen"⟩, 5, [], [101], []⟩ "run" ["a.dobj"] ["b.dobj"] [] 1 with
    submitAttemptedAtMs := some 1 }

/-- It is listed, and returned after the first wait. -/
def offered : List (RetryCall Nat) := [.due [attempted] 0, .due [attempted] settleInterval]

/-- It is not listed once, and then again. -/
def relisted : List (RetryCall Nat) := [.due [] settleInterval, .due [attempted] settleInterval]

def calls : List (RetryCall Nat) :=
  offered ++ .complete 7 settleInterval false :: relisted ++ [.due [attempted] (2 * settleInterval)]

end Sample

/-- A transaction that was not listed in between is returned before its doubled delay is over. -/
theorem relisted_does_not_back_off :
    (Sample.calls.map RetryCall.now).Pairwise (· ≤ ·) ∧
    7 ∈ (run Sample.offered).flying ∧
    ¬ BacksOff Sample.offered 7 settleInterval Sample.relisted [Sample.attempted] (2 * settleInterval) := by
  refine ⟨by decide, by decide +kernel, fun h => ?_⟩
  have hentry : (run Sample.offered).retries.attempts.lookup 7 =
      some ⟨settleInterval, settleInterval, true⟩ := by
    decide +kernel
  have hreturned : 7 ∈ ((run (Sample.offered ++ .complete 7 settleInterval false ::
      Sample.relisted)).retries.due [Sample.attempted] (2 * settleInterval)).2 := by
    decide +kernel
  have hlate := h (by simp [Sample.relisted]) hreturned _ hentry
  exact absurd hlate (by decide)

end Retrying

end DigitalObjects.Dobjd
