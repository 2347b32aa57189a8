import DigitalObjects.Lib.Machine
import Mathlib.Data.List.Infix
set_option autoImplicit false

/-!
A log that is read in batches and sent through a bounded channel to a reader, who may lose the connection and
resumes after the last index that it received.
-/

namespace DigitalObjects.Lib.Resume

variable {α : Type}

/-- The entries at `start` and later, with their places. -/
def entriesFrom (log : List α) (start : Nat) : List (Nat × α) := (log.zipIdx.drop start).map fun (x, i) => (i, x)

theorem entriesFrom_eq (log : List α) (start : Nat) :
    entriesFrom log start = ((log.drop start).zipIdx start).map fun (x, i) => (i, x) := by
  have hdrop : log.zipIdx.drop start = (log.drop start).zipIdx start := by
    apply List.ext_getElem?
    intro i
    simp
  rw [entriesFrom, hdrop]

theorem length_entriesFrom (log : List α) (start : Nat) : (entriesFrom log start).length = log.length - start := by
  simp [entriesFrom]

theorem drop_entriesFrom (log : List α) (start k : Nat) :
    (entriesFrom log start).drop k = entriesFrom log (start + k) := by
  rw [entriesFrom, entriesFrom, ← List.map_drop, List.drop_drop]

theorem entriesFrom_grows {log log' : List α} (h : log <+: log') (start : Nat) :
    entriesFrom log start <+: entriesFrom log' start := by
  obtain ⟨rest, rfl⟩ := h
  rcases Nat.le_total start log.length with hle | hle
  · rw [entriesFrom_eq, entriesFrom_eq, List.drop_append_of_le_length hle, List.zipIdx_append, List.map_append]
    exact List.prefix_append _ _
  · rw [entriesFrom_eq, List.drop_eq_nil_of_le hle]
    exact List.nil_prefix

/-- The first of the entries is the one at `start`. -/
theorem entriesFrom_cons {log : List α} {start : Nat} {e : Nat × α} {rest : List (Nat × α)}
    (h : e :: rest <+: entriesFrom log start) :
    e.1 = start ∧ log[start]? = some e.2 ∧ rest <+: entriesFrom log (start + 1) := by
  have htail := drop_entriesFrom log start 1
  cases hentries : entriesFrom log start with
  | nil => simp [hentries] at h
  | cons e' rest' =>
    rw [hentries] at h htail
    obtain ⟨rfl, hrest⟩ := List.cons_prefix_cons.mp h
    have hhead : (entriesFrom log start)[0]? = some e := by rw [hentries]; rfl
    rw [entriesFrom_eq, List.getElem?_map, List.getElem?_zipIdx, List.getElem?_drop, Nat.add_zero] at hhead
    cases hx : log[start]? with
    | none => simp [hx] at hhead
    | some x =>
      simp only [hx, Option.map_some, Option.some.injEq] at hhead
      subst hhead
      refine ⟨by simp, rfl, ?_⟩
      rw [← htail]
      exact hrest

/-! ## Connections -/

/-- A task that sends the log from `next` on. `batch` is left of its last read, `terminal` what that read said of the
log's end, `channel` what is sent and not yet received. -/
structure Feed (α : Type) where
  next : Nat
  batch : List (Nat × α)
  terminal : Bool
  channel : List (Nat × α)

/-- The task has returned, and all that it sent is received. -/
structure Feed.Ended (f : Feed α) : Prop where
  batch : f.batch = []
  terminal : f.terminal = true
  channel : f.channel = []

structure Reader (α : Type) where
  feed : Option (Feed α)
  lastId : Option Nat
  received : List α
  closed : Bool

def Reader.new : Reader α := ⟨none, none, [], false⟩

inductive ReaderStep where
  | connect
  | poll
  | send
  | receive
  | finish
  | lose
deriving DecidableEq, Repr

section Step

variable (capacity : Nat) (resume : Option Nat → Nat) (closes : α → Bool) (log : List α) (sealed : Bool)

/-- `closes` tells the entries that the reader closes at; a connection may be lost at any time. -/
def Reader.step (r : Reader α) : ReaderStep → Option (Reader α)
  | .connect =>
    match r.feed with
    | none => if r.closed then none else some { r with feed := some ⟨resume r.lastId, [], false, []⟩ }
    | some _ => none
  | .poll =>
    match r.feed with
    | some ⟨next, [], false, channel⟩ => some { r with feed := some ⟨next, entriesFrom log next, sealed, channel⟩ }
    | _ => none
  | .send =>
    match r.feed with
    | some ⟨_, e :: batch, terminal, channel⟩ =>
      if channel.length < capacity then some { r with feed := some ⟨e.1 + 1, batch, terminal, channel ++ [e]⟩ } else none
    | _ => none
  | .receive =>
    match r.feed with
    | some ⟨next, batch, terminal, e :: channel⟩ =>
      let feed := if closes e.2 then none else some ⟨next, batch, terminal, channel⟩
      some ⟨feed, some e.1, r.received ++ [e.2], closes e.2⟩
    | _ => none
  | .finish =>
    match r.feed with
    | some ⟨_, [], true, []⟩ => some { r with feed := none }
    | _ => none
  | .lose => some { r with feed := none }

end Step

/-! ## Once each, in order -/

/-- A feed carries on where the reader is. -/
structure Feed.Follows (log : List α) (sealed : Bool) (place : Nat) (f : Feed α) : Prop where
  next : f.next = place + f.channel.length
  entries : f.channel ++ f.batch <+: entriesFrom log place
  complete : f.terminal = true → sealed = true ∧ f.channel ++ f.batch = entriesFrom log place

/-- The reader has received the first entries of the log, and is closed once it has received one that closes. -/
structure Reader.Reads (closes : α → Bool) (log : List α) (sealed : Bool) (r : Reader α) : Prop where
  received : r.received <+: log
  last : (r.lastId.elim 0 fun i => i + 1) = r.received.length
  feed : ∀ f, r.feed = some f → r.closed = false ∧ f.Follows log sealed r.received.length
  closed : r.closed = (r.received.getLast?.any closes)

theorem Reader.Reads.new (closes : α → Bool) (log : List α) (sealed : Bool) :
    (Reader.new : Reader α).Reads closes log sealed := by
  refine ⟨List.nil_prefix, rfl, fun f hf => ?_, rfl⟩
  cases hf

variable {capacity : Nat} {resume : Option Nat → Nat} {closes : α → Bool} {log log' : List α} {sealed sealed' : Bool}
  {r r' : Reader α}

/-- The log grows until it is sealed. -/
theorem Reader.Reads.grow (h : r.Reads closes log sealed) (hlog : log <+: log')
    (hsealed : sealed = true → sealed' = true ∧ log' = log) : r.Reads closes log' sealed' := by
  refine ⟨h.received.trans hlog, h.last, fun f hf => ?_, h.closed⟩
  obtain ⟨hopen, hnext, hentries, hcomplete⟩ := h.feed f hf
  refine ⟨hopen, hnext, hentries.trans (entriesFrom_grows hlog _), fun hterminal => ?_⟩
  obtain ⟨hend, hall⟩ := hcomplete hterminal
  obtain ⟨hend', rfl⟩ := hsealed hend
  exact ⟨hend', hall⟩

theorem Reader.Reads.step (h : r.Reads closes log sealed)
    (hresume : ∀ i, i < log.length → resume (some i) = i + 1) (hstart : resume none = 0) {s : ReaderStep}
    (hs : r.step capacity resume closes log sealed s = some r') : r'.Reads closes log sealed := by
  obtain ⟨feed, lastId, received, closed⟩ := r
  cases s with
  | connect =>
    cases feed with
    | some f => simp [Reader.step] at hs
    | none =>
      cases closed with
      | true => simp [Reader.step] at hs
      | false =>
        simp only [Reader.step, Bool.false_eq_true, if_false, Option.some.injEq] at hs
        subst hs
        refine ⟨h.received, h.last, fun f hf => ?_, h.closed⟩
        cases hf
        have hplace : resume lastId = received.length := by
          have hlast := h.last
          have hlen := h.received.length_le
          cases lastId with
          | none => exact hstart.trans hlast
          | some i =>
            simp only [Option.elim] at hlast
            rw [hresume i (by dsimp only at hlen; omega)]
            exact hlast
        exact ⟨rfl, hplace, List.nil_prefix, fun hterminal => (by cases hterminal)⟩
  | poll =>
    match feed, h with
    | none, _ => simp [Reader.step] at hs
    | some ⟨next, e :: batch, terminal, channel⟩, _ => simp [Reader.step] at hs
    | some ⟨next, [], true, channel⟩, _ => simp [Reader.step] at hs
    | some ⟨next, [], false, channel⟩, h =>
      simp only [Reader.step, Option.some.injEq] at hs
      subst hs
      refine ⟨h.received, h.last, fun f hf => ?_, h.closed⟩
      cases hf
      obtain ⟨hopen, hnext, hentries, -⟩ := h.feed _ rfl
      dsimp only at hopen hnext hentries
      rw [List.append_nil] at hentries
      have hall : channel ++ entriesFrom log next = entriesFrom log received.length := by
        rw [hnext, ← drop_entriesFrom]
        exact List.prefix_append_drop hentries |>.symm
      refine ⟨hopen, hnext, ?_, fun hterminal => ⟨hterminal, hall⟩⟩
      dsimp only
      rw [hall]
  | send =>
    match feed, h with
    | none, _ => simp [Reader.step] at hs
    | some ⟨next, [], terminal, channel⟩, _ => simp [Reader.step] at hs
    | some ⟨next, e :: batch, terminal, channel⟩, h =>
      simp only [Reader.step] at hs
      split at hs
      next hroom =>
        cases hs
        refine ⟨h.received, h.last, fun f hf => ?_, h.closed⟩
        cases hf
        obtain ⟨hopen, hnext, hentries, hcomplete⟩ := h.feed _ rfl
        dsimp only at hopen hnext hentries hcomplete
        have hplace : e.1 = received.length + channel.length := by
          have hdrop := hentries.drop channel.length
          rw [List.drop_left, drop_entriesFrom] at hdrop
          exact (entriesFrom_cons hdrop).1
        refine ⟨hopen, ?_, ?_, ?_⟩
        · dsimp only
          rw [hplace, List.length_append, List.length_singleton, Nat.add_assoc]
        · dsimp only
          rw [List.append_assoc]
          exact hentries
        · intro hterminal
          dsimp only
          rw [List.append_assoc]
          exact hcomplete hterminal
      next => cases hs
  | receive =>
    match feed, h with
    | none, _ => simp [Reader.step] at hs
    | some ⟨next, batch, terminal, []⟩, _ => simp [Reader.step] at hs
    | some ⟨next, batch, terminal, e :: channel⟩, h =>
      simp only [Reader.step, Option.some.injEq] at hs
      subst hs
      obtain ⟨hopen, hnext, hentries, hcomplete⟩ := h.feed _ rfl
      dsimp only at hopen hnext hentries hcomplete
      obtain ⟨hplace, hentry, hrest⟩ := entriesFrom_cons hentries
      refine ⟨?_, ?_, fun f hf => ?_, ?_⟩
      · obtain ⟨rest, hlog⟩ := h.received
        dsimp only at hlog hentry ⊢
        subst hlog
        rw [List.getElem?_append_right (Nat.le_refl _), Nat.sub_self] at hentry
        cases rest with
        | nil => cases hentry
        | cons x rest =>
          cases hentry
          exact ⟨rest, by simp⟩
      · simp [hplace]
      · dsimp only at hf ⊢
        split at hf
        next => cases hf
        next hgo =>
          cases hf
          have hlength : (received ++ [e.2]).length = received.length + 1 := by simp
          rw [hlength]
          refine ⟨by simpa using hgo, ?_, hrest, fun hterminal => ?_⟩
          · rw [hnext, List.length_cons, Nat.add_assoc, Nat.add_comm 1]
          · obtain ⟨hend, hall⟩ := hcomplete hterminal
            refine ⟨hend, ?_⟩
            rw [← drop_entriesFrom, ← hall]
            rfl
      · simp
  | finish =>
    match feed, h with
    | none, _ => simp [Reader.step] at hs
    | some ⟨next, e :: batch, terminal, channel⟩, _ => simp [Reader.step] at hs
    | some ⟨next, [], false, channel⟩, _ => simp [Reader.step] at hs
    | some ⟨next, [], true, e :: channel⟩, _ => simp [Reader.step] at hs
    | some ⟨next, [], true, []⟩, h =>
      simp only [Reader.step, Option.some.injEq] at hs
      subst hs
      exact ⟨h.received, h.last, fun f hf => (by cases hf), h.closed⟩
  | lose =>
    simp only [Reader.step, Option.some.injEq] at hs
    subst hs
    exact ⟨h.received, h.last, fun f hf => (by cases hf), h.closed⟩

/-! ## The end of the log -/

/-- Where the task has returned, the reader has the whole log. -/
theorem Reader.Reads.ended (h : r.Reads closes log sealed) {f : Feed α} (hf : r.feed = some f) (he : f.Ended) :
    r.received = log ∧ sealed = true := by
  obtain ⟨-, -, -, hcomplete⟩ := h.feed f hf
  obtain ⟨hend, hall⟩ := hcomplete he.terminal
  rw [he.channel, he.batch] at hall
  have hnone : log.length - r.received.length = 0 := by
    rw [← length_entriesFrom, ← hall]
    rfl
  have hlen := h.received.length_le
  exact ⟨h.received.eq_of_length (by omega), hend⟩

/-- Only the last entry of the log closes. -/
structure Closing (closes : α → Bool) (log : List α) : Prop where
  last : ∃ front x, log = front ++ [x] ∧ closes x = true ∧ ∀ y ∈ front, closes y = false

theorem Closing.length (h : Closing closes log) {i : Nat} {x : α} (hx : log[i]? = some x) (hcloses : closes x = true) :
    i + 1 = log.length := by
  obtain ⟨front, z, rfl, -, hfront⟩ := h.last
  have hi := (List.getElem?_eq_some_iff.mp hx).1
  rw [List.length_append, List.length_singleton] at hi ⊢
  rcases Nat.lt_or_ge i front.length with hlt | hge
  · rw [List.getElem?_append_left hlt] at hx
    rw [hfront x (List.mem_of_getElem? hx)] at hcloses
    cases hcloses
  · omega

/-- A reader that has closed has the whole log. -/
theorem Reader.Reads.complete (h : r.Reads closes log sealed) (hlast : Closing closes log) (hclosed : r.closed = true) :
    r.received = log := by
  have hany := h.closed
  rw [hclosed] at hany
  cases hget : r.received.getLast? with
  | none => simp [hget] at hany
  | some x =>
    simp only [hget, Option.any_some] at hany
    obtain ⟨rest, hlog⟩ := h.received
    rw [List.getLast?_eq_getElem?] at hget
    have hi := (List.getElem?_eq_some_iff.mp hget).1
    have hx : log[r.received.length - 1]? = some x := by
      rw [← hlog, List.getElem?_append_left hi]
      exact hget
    have hlength := hlast.length hx hany.symm
    exact h.received.eq_of_length (by omega)

/-- A batch of a log that is sealed is sent and received to its end. -/
theorem Reader.Reads.drain (hcapacity : 0 < capacity) (hresume : ∀ i, i < log.length → resume (some i) = i + 1)
    (hstart : resume none = 0) (hlast : Closing closes log) {batch : List (Nat × α)} {next : Nat}
    (h : r.Reads closes log true) (hfeed : r.feed = some ⟨next, batch, true, []⟩) :
    ∃ steps r', runSteps (Reader.step capacity resume closes log true) r steps = some r' ∧
      r'.Reads closes log true ∧ r'.closed = true := by
  induction batch generalizing r next with
  | nil =>
    obtain ⟨hreceived, -⟩ := h.ended hfeed ⟨rfl, rfl, rfl⟩
    refine ⟨[], r, rfl, h, ?_⟩
    obtain ⟨front, x, hlog, hx, -⟩ := hlast.last
    rw [h.closed, hreceived, hlog, List.getLast?_concat]
    exact hx
  | cons e batch ih =>
    obtain ⟨feed, lastId, received, closed⟩ := r
    obtain rfl : feed = _ := hfeed
    have hsend : (Reader.mk (some ⟨next, e :: batch, true, []⟩) lastId received closed).step capacity resume closes log true
        .send = some ⟨some ⟨e.1 + 1, batch, true, [e]⟩, lastId, received, closed⟩ := by
      simp [Reader.step, hcapacity]
    have hsent := h.step hresume hstart hsend
    have hreceive : (Reader.mk (some ⟨e.1 + 1, batch, true, [e]⟩) lastId received closed).step capacity resume closes log true
        .receive = some ⟨if closes e.2 then none else some ⟨e.1 + 1, batch, true, []⟩, some e.1, received ++ [e.2],
          closes e.2⟩ := rfl
    have hread := hsent.step hresume hstart hreceive
    cases hcloses : closes e.2 with
    | true =>
      rw [hcloses] at hreceive hread
      refine ⟨[.send, .receive], _, ?_, hread, rfl⟩
      rw [runSteps, hsend, Option.bind_some, runSteps, hreceive]
      rfl
    | false =>
      rw [hcloses] at hreceive hread
      obtain ⟨steps, r', hrun, hr', hclosed⟩ := ih hread rfl
      refine ⟨.send :: .receive :: steps, r', ?_, hr', hclosed⟩
      rw [runSteps, hsend, Option.bind_some, runSteps, hreceive]
      exact hrun

/-- Whatever connections were lost, a log that is sealed is received to its end. -/
theorem Reader.Reads.resumes (hcapacity : 0 < capacity) (hresume : ∀ i, i < log.length → resume (some i) = i + 1)
    (hstart : resume none = 0) (hlast : Closing closes log) (h : r.Reads closes log true) (hopen : r.closed = false) :
    ∃ steps r', runSteps (Reader.step capacity resume closes log true) r steps = some r' ∧
      r'.closed = true ∧ r'.received = log := by
  obtain ⟨feed, lastId, received, closed⟩ := r
  obtain rfl : closed = false := hopen
  have hlose : (Reader.mk feed lastId received false).step capacity resume closes log true .lose =
      some ⟨none, lastId, received, false⟩ := rfl
  have hconnect : (Reader.mk none lastId received false).step capacity resume closes log true .connect =
      some ⟨some ⟨resume lastId, [], false, []⟩, lastId, received, false⟩ := rfl
  have hpoll : (Reader.mk (some ⟨resume lastId, [], false, []⟩) lastId received false).step capacity resume closes log true
      .poll = some ⟨some ⟨resume lastId, entriesFrom log (resume lastId), true, []⟩, lastId, received, false⟩ := rfl
  have hpolled := ((h.step hresume hstart hlose).step hresume hstart hconnect).step hresume hstart hpoll
  obtain ⟨steps, r', hrun, hr', hclosed⟩ := hpolled.drain hcapacity hresume hstart hlast rfl
  refine ⟨.lose :: .connect :: .poll :: steps, r', ?_, hclosed, hr'.complete hlast hclosed⟩
  rw [runSteps, hlose, Option.bind_some, runSteps, hconnect, Option.bind_some, runSteps, hpoll]
  exact hrun

end DigitalObjects.Lib.Resume
