import DigitalObjects.Lib.Machine
import Mathlib.Data.List.Basic
set_option autoImplicit false

/-!
A hub that broadcasts events into bounded queues, and followers that read a store, then wait for
the event that tells them of its end. Publishers change the store before they publish.
-/

namespace DigitalObjects.Lib

variable {σ ε τ κ ν : Type}

/-! ## Queues -/

/-- A subscriber's queue; it lags once an event was dropped from it. -/
structure Inbox (ε : Type) where
  queue : List ε
  lagged : Bool
deriving DecidableEq, Repr

inductive Received (ε : Type) where
  | lagged
  | event (e : ε)
deriving DecidableEq, Repr

namespace Inbox

def empty : Inbox ε := ⟨[], false⟩

/-- A full queue drops its oldest event. -/
def push (capacity : Nat) (inbox : Inbox ε) (e : ε) : Inbox ε :=
  if inbox.queue.length < capacity then { inbox with queue := inbox.queue ++ [e] }
  else ⟨inbox.queue.tail ++ [e], true⟩

/-- A lag is seen before the events that are left. -/
def recv (inbox : Inbox ε) : Option (Received ε × Inbox ε) :=
  if inbox.lagged then some (.lagged, { inbox with lagged := false })
  else match inbox.queue with
    | [] => none
    | e :: queue => some (.event e, ⟨queue, false⟩)

theorem mem_push (capacity : Nat) (inbox : Inbox ε) (e : ε) : e ∈ (inbox.push capacity e).queue := by
  unfold push
  split <;> simp

theorem lagged_push {capacity : Nat} {inbox : Inbox ε} (h : inbox.lagged = true) (e : ε) :
    (inbox.push capacity e).lagged = true := by
  unfold push
  split
  · exact h
  · rfl

/-- An event stays in the queue, or the queue lags. -/
theorem mem_push_of_mem {capacity : Nat} {inbox : Inbox ε} {e : ε} (h : e ∈ inbox.queue) (e' : ε) :
    (inbox.push capacity e').lagged = true ∨ e ∈ (inbox.push capacity e').queue := by
  unfold push
  split
  · exact .inr (List.mem_append_left _ h)
  · exact .inl rfl

theorem of_mem_push {capacity : Nat} {inbox : Inbox ε} {e e' : ε} (h : e' ∈ (inbox.push capacity e).queue) :
    e' ∈ inbox.queue ∨ e' = e := by
  unfold push at h
  split at h
  · simpa using h
  · rcases List.mem_append.mp h with hin | hin
    · exact .inl (List.mem_of_mem_tail hin)
    · exact .inr (by simpa using hin)

end Inbox

/-! ## Followers -/

/-- What a follower does: how it reads the store, when it is done, what an event tells it, and what
it notes of an event. `fallible` says that a read may fail, `deadline` that there is one. -/
structure Watch (σ ε τ κ ν : Type) where
  read : σ → Except ν τ
  isDone : τ → Bool
  fromEvent : ε → Except ν (Option τ)
  note : κ → ε → κ
  fallible : Bool
  deadline : Bool

namespace Watch

variable (watch : Watch σ ε τ κ ν)

/-- The result of a read that ends the wait. -/
def settles : Except ν τ → Bool
  | .error _ => true
  | .ok v => watch.isDone v

/-- A reader of the store would be done, or fail. -/
def ended (s : σ) : Bool := watch.settles (watch.read s)

/-- A follower that receives the event is done, or fails. -/
def closes (e : ε) : Bool :=
  match watch.fromEvent e with
  | .error _ => true
  | .ok (some v) => watch.isDone v
  | .ok none => false

end Watch

inductive Phase (τ ν : Type) where
  | subscribing
  | reading
  | waiting (current : τ)
  | expiring
  | returned (result : Except ν τ)

inductive FollowStep (ν : Type) where
  | subscribe
  | read (failure : Option ν)
  | receive
  | elapse
deriving DecidableEq, Repr

structure Follower (ε τ κ ν : Type) where
  phase : Phase τ ν
  inbox : Inbox ε
  notes : κ

namespace Watch

variable (watch : Watch σ ε τ κ ν)

/-- The loop goes on with the value or ends. -/
def follow (result : Except ν τ) : Phase τ ν :=
  match result with
  | .error err => .returned (.error err)
  | .ok v => if watch.isDone v then .returned (.ok v) else .waiting v

/-- A read that fails by itself, or reads the store. -/
def readOr (s : σ) (failure : Option ν) : Except ν τ :=
  match failure with
  | some err => if watch.fallible then .error err else watch.read s
  | none => watch.read s

/-- The reads that failed, with the next one. -/
def failed (failures : List ν) (s : σ) (failure : Option ν) : List ν :=
  match watch.readOr s failure with
  | .error err => err :: failures
  | .ok _ => failures

/-- One step of `follow`; `none` is a step that it cannot take, such as to receive from an empty queue. -/
def step (s : σ) (f : Follower ε τ κ ν) : FollowStep ν → Option (Follower ε τ κ ν)
  | .subscribe =>
    match f.phase with
    | .subscribing => some { f with phase := .reading, inbox := .empty }
    | _ => none
  | .read failure =>
    match f.phase with
    | .reading => some { f with phase := watch.follow (watch.readOr s failure) }
    | .expiring => some { f with phase := .returned (watch.readOr s failure) }
    | _ => none
  | .receive =>
    match f.phase with
    | .waiting current =>
      match f.inbox.recv with
      | none => none
      | some (.lagged, inbox) => some { f with phase := .reading, inbox := inbox }
      | some (.event e, inbox) =>
        let next : Phase τ ν := match watch.fromEvent e with
          | .error err => .returned (.error err)
          | .ok (some v) => watch.follow (.ok v)
          | .ok none => .waiting current
        some ⟨next, inbox, watch.note f.notes e⟩
    | _ => none
  | .elapse =>
    match f.phase with
    | .waiting _ => if watch.deadline then some { f with phase := .expiring } else none
    | _ => none

end Watch

/-! ## Scenes -/

/-- A store, the events that publishers hold of it, and one follower. `past` has every state of the
store, `failures` the reads that failed; `announced` tells that an event that
closes was published since the store has been at an end. -/
structure Scene (σ ε τ κ ν : Type) where
  store : σ
  past : List σ
  pending : List ε
  announced : Bool
  failures : List ν
  follower : Follower ε τ κ ν

/-- A publisher changes the store, takes an event that shows it, or publishes one that it holds;
or the follower takes a step. -/
inductive SceneAction (σ ε ν : Type) where
  | change (s : σ)
  | take (e : ε)
  | publish (i : Nat)
  | follow (step : FollowStep ν)
deriving DecidableEq, Repr

namespace Scene

variable (watch : Watch σ ε τ κ ν) (reflects : σ → ε → Bool) (capacity : Nat)

def publish (w : Scene σ ε τ κ ν) (e : ε) : Scene σ ε τ κ ν :=
  { w with
    announced := w.announced || (watch.closes e && watch.ended w.store)
    follower := { w.follower with inbox := w.follower.inbox.push capacity e } }

def step (w : Scene σ ε τ κ ν) : SceneAction σ ε ν → Option (Scene σ ε τ κ ν)
  | .change s => some { w with
      store := s, past := s :: w.past, announced := w.announced && watch.ended s }
  | .take e => if reflects w.store e then some { w with pending := e :: w.pending } else none
  | .publish i =>
    match w.pending[i]? with
    | some e => some { w.publish watch capacity e with pending := w.pending.eraseIdx i }
    | none => none
  | .follow st =>
    match watch.step w.store w.follower st with
    | some follower => some { w with
        follower := follower
        failures := match st with
          | .read failure => watch.failed w.failures w.store failure
          | _ => w.failures }
    | none => none

/-- Before the follower subscribes, or, where it does not wait, before it reads. -/
def start (s : σ) (phase : Phase τ ν) (notes : κ) : Scene σ ε τ κ ν :=
  ⟨s, [s], [], false, [], ⟨phase, .empty, notes⟩⟩

/-! ### No wake-up is missed -/

/-- A follower that waits has the closing event before it, or a lag, once there was one. -/
structure Awake (w : Scene σ ε τ κ ν) : Prop where
  announced : w.announced = true → watch.ended w.store = true
  waiting : ∀ v, w.follower.phase = .waiting v → w.announced = true →
    w.follower.inbox.lagged = true ∨ ∃ e ∈ w.follower.inbox.queue, watch.closes e = true

variable {watch reflects capacity} {w w' : Scene σ ε τ κ ν}

theorem Awake.publish (h : Awake watch w) (e : ε) : Awake watch (w.publish watch capacity e) := by
  refine ⟨fun hann => ?_, fun v hv hann => ?_⟩
  · simp only [Scene.publish, Bool.or_eq_true, Bool.and_eq_true] at hann
    exact hann.elim h.announced fun hclosing => hclosing.2
  · simp only [Scene.publish, Bool.or_eq_true, Bool.and_eq_true] at hann
    rcases hann with hann | ⟨hcloses, -⟩
    · rcases h.waiting v hv hann with hlag | ⟨e', he', hcloses⟩
      · exact .inl (Inbox.lagged_push hlag e)
      · exact (Inbox.mem_push_of_mem he' e).imp_right fun hin => ⟨e', hin, hcloses⟩
    · exact .inr ⟨e, Inbox.mem_push capacity _ e, hcloses⟩

/-- A follower waits on only after a value that does not end the wait. -/
theorem follow_waiting {result : Except ν τ} {v : τ} (h : watch.follow result = .waiting v) :
    watch.settles result = false := by
  unfold Watch.follow at h
  unfold Watch.settles
  cases result with
  | error err => cases h
  | ok v' =>
    dsimp only at h ⊢
    split at h
    · cases h
    · rename_i hopen
      simpa using hopen

/-- A follower that has just read the store and waits has read one that is not at an end. -/
theorem readOr_waiting {s : σ} {failure : Option ν} {v : τ}
    (h : watch.follow (watch.readOr s failure) = .waiting v) : watch.ended s = false := by
  have hopen := follow_waiting h
  unfold Watch.readOr at hopen
  unfold Watch.ended
  split at hopen
  · split at hopen
    · cases hopen
    · exact hopen
  · exact hopen

theorem Awake.follow {st : FollowStep ν} {f : Follower ε τ κ ν} (h : Awake watch w)
    (hs : watch.step w.store w.follower st = some f) (failures : List ν) :
    Awake watch { w with follower := f, failures := failures } := by
  refine ⟨h.announced, fun v hv hann => ?_⟩
  dsimp only at hv hann ⊢
  cases st with
  | subscribe =>
    simp only [Watch.step] at hs
    split at hs
    · cases hs
      cases hv
    · cases hs
  | read failure =>
    simp only [Watch.step] at hs
    split at hs
    · cases hs
      have hopen := readOr_waiting hv
      rw [h.announced hann] at hopen
      cases hopen
    · cases hs
      cases hv
    · cases hs
  | receive =>
    simp only [Watch.step] at hs
    split at hs
    · rename_i current hphase
      split at hs
      · cases hs
      · cases hs
        cases hv
      · rename_i e inbox hrecv
        cases hs
        have hqueue : w.follower.inbox.lagged = false ∧ w.follower.inbox.queue = e :: inbox.queue := by
          unfold Inbox.recv at hrecv
          split at hrecv
          · cases hrecv
          · rename_i hlag
            split at hrecv
            · cases hrecv
            · rename_i hq
              cases hrecv
              exact ⟨by simpa using hlag, hq⟩
        rcases h.waiting current hphase hann with hlag | ⟨e', he', hcloses⟩
        · rw [hqueue.1] at hlag
          cases hlag
        · right
          rw [hqueue.2] at he'
          rcases List.mem_cons.mp he' with rfl | hin
          · -- the event that closes would have ended the wait
            dsimp only at hv
            unfold Watch.closes at hcloses
            cases hevent : watch.fromEvent e' with
            | error err => simp [hevent] at hv
            | ok value =>
              cases value with
              | none => simp [hevent] at hcloses
              | some v' =>
                rw [hevent] at hv hcloses
                have hopen := follow_waiting hv
                unfold Watch.settles at hopen
                dsimp only at hopen hcloses
                rw [hcloses] at hopen
                cases hopen
          · exact ⟨e', hin, hcloses⟩
    · cases hs
  | elapse =>
    simp only [Watch.step] at hs
    split at hs
    · split at hs
      · cases hs
        cases hv
      · cases hs
    · cases hs

theorem Awake.step {a : SceneAction σ ε ν} (h : Awake watch w)
    (hs : w.step watch reflects capacity a = some w') : Awake watch w' := by
  cases a with
  | change s =>
    cases hs
    refine ⟨fun hann => ?_, fun v hv hann => ?_⟩
    · simp only [Bool.and_eq_true] at hann
      exact hann.2
    · simp only [Bool.and_eq_true] at hann
      exact h.waiting v hv hann.1
  | take e =>
    simp only [Scene.step] at hs
    split at hs
    · cases hs
      exact ⟨h.announced, h.waiting⟩
    · cases hs
  | publish i =>
    simp only [Scene.step] at hs
    split at hs
    · rename_i e he
      cases hs
      have hpublished : Awake watch (w.publish watch capacity e) := h.publish e
      exact ⟨hpublished.announced, hpublished.waiting⟩
    · cases hs
  | follow st =>
    simp only [Scene.step] at hs
    split at hs
    · rename_i f hf
      cases hs
      exact h.follow hf _
    · cases hs

theorem Awake.start (s : σ) {phase : Phase τ ν} (notes : κ) :
    Awake watch (Scene.start s phase notes : Scene σ ε τ κ ν) :=
  ⟨by simp [Scene.start], by simp [Scene.start]⟩

/-- The follower sits on an empty queue. -/
def Sits (w : Scene σ ε τ κ ν) : Prop :=
  (∃ v, w.follower.phase = .waiting v) ∧ w.follower.inbox.recv = none

/-- A follower does not sit on an empty queue once the end of the store was announced. -/
theorem Awake.not_sits (h : Awake watch w) (hsits : w.Sits) : w.announced = false := by
  obtain ⟨⟨v, hv⟩, hempty⟩ := hsits
  by_contra hann
  have hnothing : w.follower.inbox.lagged = false ∧ w.follower.inbox.queue = [] := by
    unfold Inbox.recv at hempty
    split at hempty
    · cases hempty
    · rename_i hlag
      split at hempty
      · rename_i hq
        exact ⟨by simpa using hlag, hq⟩
      · cases hempty
  rcases h.waiting v hv (by simpa using hann) with hlag | ⟨e, he, -⟩
  · rw [hnothing.1] at hlag
    cases hlag
  · rw [hnothing.2] at he
    cases he

/-! ### No outcome is invented -/

/-- The store had the value, or an event that showed the store did. -/
def Seen (watch : Watch σ ε τ κ ν) (reflects : σ → ε → Bool) (past : List σ) (failures : List ν) :
    Except ν τ → Prop
  | .ok v => ∃ s ∈ past, watch.read s = .ok v ∨ ∃ e, reflects s e = true ∧ watch.fromEvent e = .ok (some v)
  | .error err => err ∈ failures ∨ ∃ s ∈ past, ∃ e, reflects s e = true ∧ watch.fromEvent e = .error err

/-- Events show the store as it was, and so does what the follower knows. -/
structure Backed (watch : Watch σ ε τ κ ν) (reflects : σ → ε → Bool) (w : Scene σ ε τ κ ν) : Prop where
  store : w.store ∈ w.past
  pending : ∀ e ∈ w.pending, ∃ s ∈ w.past, reflects s e = true
  queued : ∀ e ∈ w.follower.inbox.queue, ∃ s ∈ w.past, reflects s e = true
  waiting : ∀ v, w.follower.phase = .waiting v → watch.isDone v = false
  returned : ∀ result, w.follower.phase = .returned result → Seen watch reflects w.past w.failures result
  done : watch.deadline = false → w.follower.phase ≠ .expiring ∧
    ∀ v, w.follower.phase = .returned (.ok v) → watch.isDone v = true

theorem Seen.mono {past past' : List σ} {failures failures' : List ν} {result : Except ν τ}
    (h : Seen watch reflects past failures result) (hpast : past ⊆ past') (hfailures : failures ⊆ failures') :
    Seen watch reflects past' failures' result := by
  cases result with
  | ok v =>
    obtain ⟨s, hs, hv⟩ := h
    exact ⟨s, hpast hs, hv⟩
  | error err =>
    rcases h with hfail | ⟨s, hs, herr⟩
    · exact .inl (hfailures hfail)
    · exact .inr ⟨s, hpast hs, herr⟩

/-- What a follower returns it has read, or was told by an event. -/
theorem seen_readOr {past : List σ} (failures : List ν) {s : σ} (hs : s ∈ past) (failure : Option ν) :
    Seen watch reflects past (watch.failed failures s failure) (watch.readOr s failure) := by
  unfold Watch.failed
  cases hread : watch.readOr s failure with
  | error err => exact .inl (by simp)
  | ok v =>
    refine ⟨s, hs, .inl ?_⟩
    unfold Watch.readOr at hread
    split at hread
    · split at hread
      · cases hread
      · exact hread
    · exact hread

theorem follow_returned {result result' : Except ν τ} (h : watch.follow result = .returned result') :
    result' = result := by
  unfold Watch.follow at h
  cases result with
  | error err =>
    cases h
    rfl
  | ok v =>
    dsimp only at h
    split at h
    · cases h
      rfl
    · cases h

theorem follow_isDone {result : Except ν τ} {v : τ} (h : watch.follow result = .waiting v) :
    watch.isDone v = false := by
  unfold Watch.follow at h
  cases result with
  | error err => cases h
  | ok v' =>
    dsimp only at h
    split at h
    · cases h
    · rename_i hopen
      cases h
      simpa using hopen

theorem follow_done {result : Except ν τ} {v : τ} (h : watch.follow result = .returned (.ok v)) :
    watch.isDone v = true := by
  unfold Watch.follow at h
  cases result with
  | error err => cases h
  | ok v' =>
    dsimp only at h
    split at h
    · rename_i hdone
      cases h
      exact hdone
    · cases h

theorem follow_ne_expiring (result : Except ν τ) : watch.follow result ≠ .expiring := by
  unfold Watch.follow
  cases result with
  | error err => simp
  | ok v =>
    dsimp only
    split <;> simp

theorem mem_of_recv {inbox inbox' : Inbox ε} {r : Received ε} (h : inbox.recv = some (r, inbox')) :
    (∀ e ∈ inbox'.queue, e ∈ inbox.queue) ∧ ∀ e, r = .event e → e ∈ inbox.queue := by
  unfold Inbox.recv at h
  split at h
  · cases h
    exact ⟨fun e he => he, by simp⟩
  · split at h
    · cases h
    · rename_i e queue hqueue
      cases h
      rw [hqueue]
      exact ⟨fun e' he' => List.mem_cons_of_mem _ he', by simp⟩

theorem Backed.follow {st : FollowStep ν} (h : Backed watch reflects w)
    (hs : w.step watch reflects capacity (.follow st) = some w') : Backed watch reflects w' := by
  simp only [Scene.step] at hs
  split at hs
  · rename_i f hf
    cases hs
    cases st with
    | subscribe =>
      simp only [Watch.step] at hf
      split at hf
      · cases hf
        exact ⟨h.store, h.pending, by simp [Inbox.empty], by simp, by simp, by simp⟩
      · cases hf
    | read failure =>
      have hseen : Seen watch reflects w.past (watch.failed w.failures w.store failure)
          (watch.readOr w.store failure) := seen_readOr w.failures h.store failure
      simp only [Watch.step] at hf
      split at hf
      · cases hf
        refine ⟨h.store, h.pending, h.queued, fun v hv => follow_isDone hv, fun result hresult => ?_,
          fun _ => ⟨follow_ne_expiring _, fun v hv => follow_done hv⟩⟩
        rw [follow_returned hresult]
        exact hseen
      · rename_i hphase
        cases hf
        refine ⟨h.store, h.pending, h.queued, by simp, fun result hresult => ?_,
          fun hdeadline => absurd hphase (h.done hdeadline).1⟩
        cases hresult
        exact hseen
      · cases hf
    | receive =>
      simp only [Watch.step] at hf
      split at hf
      · rename_i current hphase
        split at hf
        · cases hf
        · rename_i inbox hrecv
          cases hf
          have hsub := (mem_of_recv hrecv).1
          exact ⟨h.store, h.pending, fun e he => h.queued e (hsub e he), by simp, by simp, by simp⟩
        · rename_i e inbox hrecv
          cases hf
          obtain ⟨hsub, hevent⟩ := mem_of_recv hrecv
          obtain ⟨s, hs, hreflects⟩ := h.queued e (hevent e rfl)
          refine ⟨h.store, h.pending, fun e' he' => h.queued e' (hsub e' he'), fun v hv => ?_,
            fun result hresult => ?_, fun _ => ⟨?_, fun v hv => ?_⟩⟩
          · dsimp only at hv
            split at hv
            · cases hv
            · exact follow_isDone hv
            · cases hv
              exact h.waiting current hphase
          · dsimp only at hresult
            split at hresult
            · rename_i err herr
              cases hresult
              exact .inr ⟨s, hs, e, hreflects, herr⟩
            · rename_i v hv
              rw [follow_returned hresult]
              exact ⟨s, hs, .inr ⟨e, hreflects, hv⟩⟩
            · cases hresult
          · dsimp only
            split
            · simp
            · exact follow_ne_expiring _
            · simp
          · dsimp only at hv
            split at hv
            · cases hv
            · exact follow_done hv
            · cases hv
      · cases hf
    | elapse =>
      simp only [Watch.step] at hf
      split at hf
      · split at hf
        · rename_i hdeadline
          cases hf
          exact ⟨h.store, h.pending, h.queued, by simp, by simp, by simp [hdeadline]⟩
        · cases hf
      · cases hf
  · cases hs

theorem Backed.step {a : SceneAction σ ε ν} (h : Backed watch reflects w)
    (hs : w.step watch reflects capacity a = some w') : Backed watch reflects w' := by
  cases a with
  | change s =>
    cases hs
    have hmono : w.past ⊆ s :: w.past := fun s' hs' => List.mem_cons_of_mem _ hs'
    refine ⟨by simp, fun e he => ?_, fun e he => ?_, h.waiting, fun result hresult => ?_, h.done⟩
    · obtain ⟨s', hs', hreflects⟩ := h.pending e he
      exact ⟨s', hmono hs', hreflects⟩
    · obtain ⟨s', hs', hreflects⟩ := h.queued e he
      exact ⟨s', hmono hs', hreflects⟩
    · exact (h.returned result hresult).mono hmono fun _ hin => hin
  | take e =>
    simp only [Scene.step] at hs
    split at hs
    · rename_i hreflects
      cases hs
      refine ⟨h.store, fun e' he' => ?_, h.queued, h.waiting, h.returned, h.done⟩
      rcases List.mem_cons.mp he' with rfl | hin
      · exact ⟨w.store, h.store, hreflects⟩
      · exact h.pending e' hin
    · cases hs
  | publish i =>
    simp only [Scene.step] at hs
    split at hs
    · rename_i e he
      cases hs
      refine ⟨h.store, fun e' he' => h.pending e' (List.mem_of_mem_eraseIdx he'), fun e' he' => ?_,
        h.waiting, h.returned, h.done⟩
      rcases Inbox.of_mem_push he' with hin | rfl
      · exact h.queued e' hin
      · exact h.pending e' (List.mem_of_getElem? he)
    · cases hs
  | follow st => exact h.follow hs

theorem Backed.start (s : σ) {phase : Phase τ ν} (notes : κ) (hphase : ∀ v, phase ≠ .waiting v)
    (hreturned : ∀ result, phase ≠ .returned result)
    (hexpiring : watch.deadline = false → phase ≠ .expiring) :
    Backed watch reflects (Scene.start s phase notes : Scene σ ε τ κ ν) :=
  ⟨by simp [Scene.start], by simp [Scene.start], by simp [Scene.start, Inbox.empty],
    fun v hv => absurd hv (hphase v), fun result hresult => absurd hresult (hreturned result),
    fun hdeadline => ⟨hexpiring hdeadline, fun v hv => absurd hv (hreturned _)⟩⟩

/-- Reads that do not fail leave no failures. -/
theorem failures_step (hread : ∀ s failure, ∃ v, watch.readOr s failure = .ok v) {a : SceneAction σ ε ν}
    (h : w.failures = []) (hs : w.step watch reflects capacity a = some w') : w'.failures = [] := by
  cases a with
  | change s =>
    cases hs
    exact h
  | take e =>
    simp only [Scene.step] at hs
    split at hs <;> cases hs
    exact h
  | publish i =>
    simp only [Scene.step] at hs
    split at hs <;> cases hs
    exact h
  | follow st =>
    simp only [Scene.step] at hs
    split at hs <;> cases hs
    cases st with
    | read failure =>
      obtain ⟨v, hv⟩ := hread w.store failure
      simp only [Watch.failed, hv, h]
    | subscribe => exact h
    | receive => exact h
    | elapse => exact h

/-- What notes of events preserve. -/
theorem notes_step {P : κ → Prop} (hnote : ∀ k e, P k → P (watch.note k e)) {a : SceneAction σ ε ν}
    (h : P w.follower.notes) (hs : w.step watch reflects capacity a = some w') : P w'.follower.notes := by
  cases a with
  | change s =>
    cases hs
    exact h
  | take e =>
    simp only [Scene.step] at hs
    split at hs
    · cases hs
      exact h
    · cases hs
  | publish i =>
    simp only [Scene.step] at hs
    split at hs
    · cases hs
      exact h
    · cases hs
  | follow st =>
    simp only [Scene.step] at hs
    split at hs
    · rename_i f hf
      cases hs
      cases st with
      | subscribe =>
        simp only [Watch.step] at hf
        split at hf <;> cases hf
        exact h
      | read failure =>
        simp only [Watch.step] at hf
        split at hf <;> cases hf <;> exact h
      | receive =>
        simp only [Watch.step] at hf
        split at hf
        · split at hf
          · cases hf
          · cases hf
            exact h
          · rename_i e inbox hrecv
            cases hf
            exact hnote _ e h
        · cases hf
      | elapse =>
        simp only [Watch.step] at hf
        split at hf
        · split at hf
          · cases hf
            exact h
          · cases hf
        · cases hf
    · cases hs

end Scene

end DigitalObjects.Lib
