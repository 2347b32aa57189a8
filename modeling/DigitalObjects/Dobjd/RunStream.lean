import DigitalObjects.Dobjd.Waiters
import DigitalObjects.Lib.Resume
set_option autoImplicit false

/-!
The progress stream of a run, from the log of its entry to a panel that follows it. Connections may be lost at
any time: the panel's `EventSource` connects again with the id of the last event that it received.
-/

namespace DigitalObjects.Dobjd

open Lib Lib.Resume Driver.Objects

variable {H : Type} [DecidableEq H] [EncodeHex H]

/-! ## Resuming -/

def usizeMax : Nat := 2 ^ 64 - 1

/-- `str::parse::<usize>`: digits, which a plus sign may precede. -/
def parseUsize (raw : String) : Option Nat :=
  let digits := match raw.toList with
    | '+' :: digits => digits
    | digits => digits
  let value := Nat.ofDigitChars 10 digits 0
  if digits ≠ [] ∧ digits.all Char.isDigit = true ∧ value ≤ usizeMax then some value else none

def resumeStartIndex (lastEventId : Option String) : Nat :=
  match lastEventId.bind parseUsize with
  | some last => min (last + 1) usizeMax
  | none => 0

theorem parseUsize_toString {n : Nat} (h : n ≤ usizeMax) : parseUsize (toString n) = some n := by
  have hlist : (toString n).toList = Nat.toDigits 10 n := Nat.toList_repr
  have hdigit : ∀ c ∈ Nat.toDigits 10 n, c.isDigit = true := fun c hc =>
    Nat.isDigit_of_mem_toDigits (by decide) (by decide) hc
  have hne : Nat.toDigits 10 n ≠ [] := Nat.toDigits_ne_nil
  have hplain : (match Nat.toDigits 10 n with
      | '+' :: digits => digits
      | digits => digits) = Nat.toDigits 10 n := by
    split
    next digits hplus =>
      have hbad := hdigit '+' (by rw [hplus]; exact List.mem_cons_self)
      cases hbad
    next => rfl
  have hvalue : Nat.ofDigitChars 10 (Nat.toDigits 10 n) 0 = n := Nat.ofDigitChars_toDigits (by decide) (by decide)
  have hguard : Nat.toDigits 10 n ≠ [] ∧ (Nat.toDigits 10 n).all Char.isDigit = true ∧
      Nat.ofDigitChars 10 (Nat.toDigits 10 n) 0 ≤ usizeMax := ⟨hne, List.all_eq_true.mpr hdigit, hvalue.symm ▸ h⟩
  unfold parseUsize
  rw [hlist, hplain]
  exact (if_pos hguard).trans (congrArg some hvalue)

theorem resumeStartIndex_toString {n : Nat} (h : n < usizeMax) : resumeStartIndex (some (toString n)) = n + 1 := by
  rw [resumeStartIndex, Option.bind_some, parseUsize_toString (Nat.le_of_lt h)]
  exact Nat.min_eq_left h

/-! ## The panel -/

/-- What a step of the stage is about. -/
structure ExecutionStepContext where
  outputFiles : List String
  outputStatus : Option ObjectStatus
  stage : Option ExecutionStage
deriving DecidableEq, Repr

def progressEvent (runId : String) (phase : ExecutionPhase) (status : ProofProgressStatus) (message : String)
    (ctx : ExecutionStepContext) : RunActionProgress :=
  ⟨runId, phase, status, message, if ctx.outputFiles = [] then none else some ctx.outputFiles, ctx.outputStatus, none,
    ctx.stage⟩

/-- The calls of the stage to its reporter: `on_step`, `on_done`, and `transaction_progress` while it submits. -/
inductive Report (H : Type) where
  | onStep (phase : ExecutionPhase) (message : String) (ctx : ExecutionStepContext)
  | onDone (phase : ExecutionPhase)
  | transaction (r : Record H) (message : String) (stage : Option ExecutionStage)

def Report.progress (runId : String) : Report H → Option RunActionProgress
  | .onStep phase message ctx => some (progressEvent runId phase .running message ctx)
  | .onDone .generateProof =>
    some (progressEvent runId .generateProof .done "Proof generation complete" ⟨[], none, none⟩)
  | .onDone .commit => none
  | .transaction r message stage =>
    some ⟨runId, .commit, .running, message, some r.outputFiles,
      some (match r.state with
        | .recorded | .expired => .unknown
        | .submitted => .pending
        | .landed => .live), some r.inputFiles, stage⟩

def isTerminalRunProgress (e : RunActionProgress) : Bool := e.status = .failed || (e.phase = .commit && e.status = .done)

/-- The record that `follow` returned, where it landed. -/
def RunWorld.landed (w : RunWorld H) : Option (Record H) :=
  match w.stage, w.hall.follower.phase with
  | .following _, .returned (.ok r) => if r.state = .landed then some r else none
  | _, _ => none

/-- A run and the panel that follows it. `landing` is the entry between the last event of a landed run and its end,
for which the entry is locked one after the other. -/
structure Panel (H : Type) where
  run : RunWorld H
  landing : Option (RunEntry H)
  reader : Reader RunActionProgress

inductive PanelAction (H : Type) where
  | run (a : RunAction H)
  | report (c : Report H)
  | landing
  | stream (s : ReaderStep)

namespace Panel

/-- The entry as others read it. -/
def entry (p : Panel H) : RunEntry H := p.landing.getD p.run.notes.entry

def start (s : Shelf H) (runId : String) : Panel H := ⟨.spawnRun s runId, none, .new⟩

/-- `run_events` over the log of `events_from`, and the `EventSource` that reads it; a `Last-Event-ID` is the text of an
index. -/
def streamStep (e : RunEntry H) (r : Reader RunActionProgress) (s : ReaderStep) : Option (Reader RunActionProgress) :=
  r.step 64 (fun last => resumeStartIndex (last.map toString)) isTerminalRunProgress e.progress e.finished s

def step (t : H) (p : Panel H) : PanelAction H → Option (Panel H)
  | .run (.progress _) => none
  | .run (.wait (.follow st)) =>
    if p.landing.isSome then none else (p.run.step t (.wait (.follow st))).map fun run => { p with run := run }
  | .run .finish =>
    if p.run.landed.isSome && p.landing.isNone then none
    else (p.run.step t .finish).map fun run => { p with run := run, landing := none }
  | .run a => (p.run.step t a).map fun run => { p with run := run }
  | .report c =>
    match c.progress p.run.notes.entry.runId with
    | some e => (p.run.step t (.progress e)).map fun run => { p with run := run }
    | none => some p
  | .landing =>
    match p.landing, p.run.landed with
    | none, some r => some { p with
        landing := some (p.run.notes.transactionProgress r .done "Transaction landed" none).entry }
    | _, _ => none
  | .stream s => (streamStep p.entry p.reader s).map fun reader => { p with reader := reader }

end Panel

/-! ## The log of a run -/

omit [DecidableEq H] [EncodeHex H] in
theorem RunEntry.markStage_progress (e : RunEntry H) (stage : Option ExecutionStage) (status : ProofProgressStatus) :
    (e.markStage stage status).progress = e.progress := by
  have hfinish : ∀ (e : RunEntry H) (s : ProofProgressStatus), (e.finishStage s).progress = e.progress := by
    intro e s
    unfold RunEntry.finishStage
    split <;> rfl
  have hbegin : ∀ (e : RunEntry H) (s : ExecutionStage), (e.beginStage s).progress = e.progress := by
    intro e s
    unfold RunEntry.beginStage
    split
    · rfl
    · exact hfinish e .done
  unfold RunEntry.markStage
  cases stage with
  | none =>
    dsimp only
    split
    · exact hfinish e status
    · rfl
  | some stage =>
    dsimp only
    split
    · rw [hfinish, hbegin]
    · exact hbegin e stage

/-- The log with the next event, of an entry that has not finished. -/
structure RunNotes.Pushes (n n' : RunNotes H) (e : RunActionProgress) : Prop where
  progress : n'.entry.progress = n.entry.progress ++ [e]

namespace RunNotes

omit [DecidableEq H] [EncodeHex H] in
theorem Running.pushes {n : RunNotes H} (h : n.Running) (e : RunActionProgress) :
    n.Pushes (n.set (n.entry.pushProgress e)) e := by
  constructor
  unfold RunEntry.pushProgress
  rw [h.unfinished]
  show (((n.entry.enter e.phase).markStage e.stage e.status).progress ++ [e]) = _
  rw [RunEntry.markStage_progress]
  rfl

omit [DecidableEq H] in
/-- A failure is the last event, and one that closes. -/
theorem Running.fail_progress {n : RunNotes H} (h : n.Running) (failure : RunFailure H) :
    ∃ e, n.Pushes (n.finishFailure failure) e ∧ isTerminalRunProgress e = true := by
  have hfinish : (n.entry.finishStage .failed).progress = n.entry.progress := by
    unfold RunEntry.finishStage
    split <;> rfl
  unfold finishFailure RunEntry.fail
  rw [h.unfinished]
  exact ⟨_, ⟨congrArg (· ++ [_]) hfinish⟩, rfl⟩

omit [DecidableEq H] [EncodeHex H] in
/-- The end of a landed run adds nothing to its last event. -/
theorem Running.land_progress {n : RunNotes H} (h : n.Running) (r : Record H) :
    (n.finishLanded r).entry.progress = (n.transactionProgress r .done "Transaction landed" none).entry.progress := by
  have hopen := (h.progress r .done "Transaction landed" none).unfinished
  unfold finishLanded RunEntry.succeed
  dsimp only
  rw [hopen]
  show ((n.transactionProgress r .done "Transaction landed" none).entry.finishStage .done).progress = _
  unfold RunEntry.finishStage
  split <;> rfl

end RunNotes

/-- A log of which no event closes. -/
def Quiet (log : List RunActionProgress) : Prop := ∀ e ∈ log, isTerminalRunProgress e = false

theorem Quiet.append {log : List RunActionProgress} (h : Quiet log) {e : RunActionProgress}
    (he : isTerminalRunProgress e = false) : Quiet (log ++ [e]) := by
  intro x hx
  rcases List.mem_append.mp hx with hx | hx
  · exact h x hx
  · rw [List.mem_singleton.mp hx]
    exact he

theorem Quiet.closing {log : List RunActionProgress} (h : Quiet log) {e : RunActionProgress}
    (he : isTerminalRunProgress e = true) : Closing isTerminalRunProgress (log ++ [e]) := ⟨log, e, rfl, he, h⟩

/-- The log of a run in flight has grown, and no event of it closes. -/
structure RunNotes.Grown (n n' : RunNotes H) : Prop where
  running : n'.Running
  grows : n.entry.progress <+: n'.entry.progress
  quiet : Quiet n'.entry.progress

namespace RunNotes

omit [DecidableEq H] [EncodeHex H] in
theorem Grown.push {n n' : RunNotes H} (h : n.Grown n') {e : RunActionProgress} (he : isTerminalRunProgress e = false) :
    n.Grown (n'.set (n'.entry.pushProgress e)) := by
  have hpushes := (h.running.pushes e).progress
  refine ⟨h.running.push e, ?_, ?_⟩
  · rw [hpushes]
    exact h.grows.trans (List.prefix_append _ _)
  · rw [hpushes]
    exact h.quiet.append he

omit [DecidableEq H] [EncodeHex H] in
theorem Grown.report {n n' : RunNotes H} (h : n.Grown n') (r : Record H) : n.Grown (n'.reportRelayerFailure r) := by
  unfold reportRelayerFailure
  split
  next failure hfailure =>
    split
    next => exact h
    next =>
      have hreported : n.Grown { n' with reported := some failure } :=
        ⟨⟨h.running.calm, h.running.unfinished, h.running.status, h.running.error⟩, h.grows, h.quiet⟩
      exact hreported.push rfl
  next => exact h

end RunNotes

omit [DecidableEq H] [EncodeHex H] in
theorem Report.progress_quiet {runId : String} {c : Report H} {e : RunActionProgress} (h : c.progress runId = some e) :
    isTerminalRunProgress e = false := by
  cases c with
  | onStep phase message ctx =>
    cases h
    simp [isTerminalRunProgress, progressEvent]
  | onDone phase =>
    cases phase with
    | generateProof =>
      cases h
      simp [isTerminalRunProgress, progressEvent]
    | commit => cases h
  | transaction r message stage =>
    cases h
    simp [isTerminalRunProgress]

namespace RunWorld

variable {t : H} {w w' : RunWorld H}

/-- The event that closes is the last one of a run that has finished. -/
structure Log (w : RunWorld H) : Prop where
  quiet : w.stage ≠ .finished → Quiet w.notes.entry.progress
  closing : w.stage = .finished → Closing isTerminalRunProgress w.notes.entry.progress

omit [DecidableEq H] [EncodeHex H] in
theorem Log.spawnRun (s : Shelf H) (runId : String) : (RunWorld.spawnRun s runId).Log := by
  refine ⟨fun _ e he => ?_, fun hs => (by cases hs)⟩
  cases he

end RunWorld

/-- An entry that goes on from another: its log grows until the run has finished. -/
structure RunEntry.GoesOn (e e' : RunEntry H) : Prop where
  grows : e.progress <+: e'.progress
  ends : e.finished = true → e'.finished = true ∧ e'.progress = e.progress

omit [DecidableEq H] [EncodeHex H] in
theorem RunEntry.GoesOn.refl (e : RunEntry H) : e.GoesOn e := ⟨List.prefix_refl _, fun hend => ⟨hend, rfl⟩⟩

omit [DecidableEq H] [EncodeHex H] in
theorem RunNotes.Pushes.goesOn {n n' : RunNotes H} (h : n.Running) {e : RunActionProgress} (hpush : n.Pushes n' e) :
    n.entry.GoesOn n'.entry := by
  refine ⟨?_, fun hend => ?_⟩
  · rw [hpush.progress]
    exact List.prefix_append _ _
  · rw [h.unfinished] at hend
    cases hend

namespace RunWorld

variable {t : H} {w w' : RunWorld H}

omit [DecidableEq H] in
/-- A stage or a run in flight that fails. -/
theorem Log.fail (hrunning : w.notes.Running) (hquiet : Quiet w.notes.entry.progress) (failure : RunFailure H) :
    ({ w.withNotes (w.notes.finishFailure failure) with stage := .finished } : RunWorld H).Log ∧
      w.notes.entry.GoesOn (w.notes.finishFailure failure).entry := by
  obtain ⟨e, hpush, hcloses⟩ := hrunning.fail_progress failure
  refine ⟨⟨fun hs => absurd rfl hs, fun _ => ?_⟩, hpush.goesOn hrunning⟩
  show Closing isTerminalRunProgress (w.notes.finishFailure failure).entry.progress
  rw [hpush.progress]
  exact hquiet.closing hcloses

/-- Steps before the end of a run add events that do not close; a stage that fails adds the last one. -/
theorem Log.step {a : RunAction H} (hlog : w.Log) (h : Inv t w) (ha : a ≠ .finish)
    (hreport : ∀ e, a = .progress e → isTerminalRunProgress e = false) (hs : RunWorld.step t w a = some w') :
    w'.Log ∧ w.notes.entry.GoesOn w'.notes.entry := by
  by_cases hstage : w.stage = .finished
  · obtain ⟨hstage', hnotes⟩ := step_finished hstage hs
    refine ⟨⟨fun hne => absurd hstage' hne, fun _ => ?_⟩, ?_⟩
    · rw [hnotes]
      exact hlog.closing hstage
    · rw [hnotes]
      exact RunEntry.GoesOn.refl _
  · have hrunning := h.running hstage
    have hquiet := hlog.quiet hstage
    have hgrown : w.notes.Grown w.notes := ⟨hrunning, List.prefix_refl _, hquiet⟩
    have hkept : ∀ {v : RunWorld H}, w.notes.Grown v.notes → v.stage ≠ .finished →
        v.Log ∧ w.notes.entry.GoesOn v.notes.entry := by
      intro v hv hne
      refine ⟨⟨fun _ => hv.quiet, fun hs => absurd hs hne⟩, hv.grows, fun hend => ?_⟩
      rw [hrunning.unfinished] at hend
      cases hend
    cases a with
    | wait a =>
      obtain ⟨hall, hhall, rfl, -⟩ := step_wait hs
      have hnotes : w.notes.Grown hall.follower.notes := by
        refine Scene.notes_step (fun n e hn => ?_) hgrown hhall
        unfold runWatch
        dsimp only
        split
        · split
          · exact hn.report _
          · exact hn
        · exact hn
      exact hkept hnotes hstage
    | progress e =>
      simp only [RunWorld.step] at hs
      split at hs
      next =>
        cases hs
        exact hkept (hgrown.push (hreport e rfl)) hstage
      next => cases hs
    | staged r =>
      simp only [RunWorld.step] at hs
      split at hs
      next =>
        cases hs
        refine hkept (v := { w.withNotes { w.notes with reported := r.relayerFailure } with stage := .following r })
          ⟨⟨hrunning.calm, hrunning.unfinished, hrunning.status, hrunning.error⟩, List.prefix_refl _, hquiet⟩ ?_
        simp
      next => cases hs
    | stageFailed message =>
      simp only [RunWorld.step] at hs
      split at hs
      next =>
        cases hs
        exact Log.fail hrunning hquiet _
      next => cases hs
    | stagePanicked message =>
      simp only [RunWorld.step] at hs
      split at hs
      next =>
        cases hs
        exact Log.fail hrunning hquiet _
      next => cases hs
    | finish => exact absurd rfl ha

/-- The end of a run that `follow` returned to. -/
theorem Log.finish (hlog : w.Log) (h : Inv t w) (hs : RunWorld.step t w .finish = some w') :
    w'.Log ∧ w'.notes.entry.finished = true ∧ (w.landed = none → w.notes.entry.GoesOn w'.notes.entry) ∧
      ∀ r, w.landed = some r →
        w'.notes.entry.progress = (w.notes.transactionProgress r .done "Transaction landed" none).entry.progress := by
  have hinv := h.step hs
  simp only [RunWorld.step] at hs
  split at hs
  next r result hstage hphase =>
    cases hs
    have hopen : w.stage ≠ .finished := by simp [hstage]
    have hrunning := h.running hopen
    have hquiet := hlog.quiet hopen
    have hdone := (hinv.done rfl).finished
    cases result with
    | error err =>
      obtain ⟨hfinal, hgoes⟩ := Log.fail (w := w) hrunning hquiet (.lost t err)
      refine ⟨hfinal, hdone, fun _ => hgoes, fun r' hr' => ?_⟩
      simp [landed, hstage, hphase] at hr'
    | ok r' =>
      have hterminal := (((h.backed hopen).done rfl).2 r' (by rw [hphase]))
      cases hstate : r'.state with
      | landed =>
        have hpush := hrunning.pushes ⟨w.notes.entry.runId, .commit, .done, "Transaction landed", some r'.outputFiles,
          some (match r'.state with
            | .recorded | .expired => .unknown
            | .submitted => .pending
            | .landed => .live), some r'.inputFiles, none⟩
        have hland := hrunning.land_progress r'
        have hsettle : w.notes.settle t (.ok r') = w.notes.finishLanded r' := by
          simp only [RunNotes.settle, hstate]
        rw [hsettle] at hdone ⊢
        refine ⟨⟨fun hne => absurd rfl hne, fun _ => ?_⟩, hdone, fun hnone => ?_, fun r'' hr'' => ?_⟩
        · show Closing isTerminalRunProgress (w.notes.finishLanded r').entry.progress
          rw [hland]
          exact hpush.progress ▸ hquiet.closing rfl
        · simp [landed, hstage, hphase, hstate] at hnone
        · simp only [landed, hstage, hphase, hstate, if_true, Option.some.injEq] at hr''
          subst hr''
          exact hland
      | expired =>
        have hsettle : w.notes.settle t (.ok r') = w.notes.finishFailure (.expired r'.txFinal r'.reason) := by
          simp only [RunNotes.settle, hstate]
        rw [hsettle] at hdone ⊢
        obtain ⟨hfinal, hgoes⟩ := Log.fail (w := w) hrunning hquiet (.expired r'.txFinal r'.reason)
        refine ⟨hfinal, hdone, fun _ => hgoes, fun r'' hr'' => ?_⟩
        simp [landed, hstage, hphase, hstate] at hr''
      | recorded => simp [runWatch, hstate, Driver.TransactionState.isTerminal] at hterminal
      | submitted => simp [runWatch, hstate, Driver.TransactionState.isTerminal] at hterminal
  next => cases hs

end RunWorld

/-! ## Every panel -/

namespace Panel

variable {t : H} {p p' : Panel H}

structure Inv (t : H) (p : Panel H) : Prop where
  run : RunWorld.Inv t p.run
  log : p.run.Log
  landing : ∀ e, p.landing = some e → ∃ r, p.run.landed = some r ∧
    e = (p.run.notes.transactionProgress r .done "Transaction landed" none).entry
  reads : p.entry.progress.length ≤ usizeMax →
    p.reader.Reads isTerminalRunProgress p.entry.progress p.entry.finished

omit [EncodeHex H] in
theorem Inv.start (s : Shelf H) (runId : String) : Inv t (start s runId) :=
  ⟨RunWorld.Inv.spawnRun s runId, RunWorld.Log.spawnRun s runId, fun e he => (by cases he), fun _ => Reader.Reads.new _ _ _⟩

/-- A step that keeps the invariant, and after which others read an entry that goes on. -/
structure Goes (t : H) (p p' : Panel H) : Prop where
  inv : Inv t p'
  entry : p.entry.GoesOn p'.entry

omit [EncodeHex H] in
/-- The panel goes on reading an entry that goes on. -/
theorem Inv.goes (h : Inv t p) (hrun : RunWorld.Inv t p'.run) (hlog : p'.run.Log)
    (hlanding : ∀ e, p'.landing = some e → ∃ r, p'.run.landed = some r ∧
      e = (p'.run.notes.transactionProgress r .done "Transaction landed" none).entry)
    (hreader : p'.reader = p.reader) (hgoes : p.entry.GoesOn p'.entry) : Goes t p p' := by
  refine ⟨⟨hrun, hlog, hlanding, fun hlen => ?_⟩, hgoes⟩
  rw [hreader]
  exact (h.reads (Nat.le_trans hgoes.grows.length_le hlen)).grow hgoes.grows hgoes.ends

omit [DecidableEq H] [EncodeHex H] in
theorem landed_following {w : RunWorld H} {r : Record H} (h : w.landed = some r) : ∃ r', w.stage = .following r' := by
  unfold RunWorld.landed at h
  split at h
  next r' _ hstage _ => exact ⟨r', hstage⟩
  next => cases h

/-- A step of the run besides its end. -/
theorem Inv.runStep {a : RunAction H} {w : RunWorld H} (h : Inv t p) (ha : a ≠ .finish)
    (hreport : ∀ e, a = .progress e → isTerminalRunProgress e = false)
    (hfollow : ∀ st, a = .wait (.follow st) → p.landing = none) (hs : p.run.step t a = some w) :
    Goes t p { p with run := w } := by
  obtain ⟨hlog, hgoes⟩ := h.log.step h.run ha hreport hs
  cases hlanding : p.landing with
  | none =>
    have hentry : p.entry = p.run.notes.entry := by simp [entry, hlanding]
    refine h.goes (h.run.step hs) hlog (fun e he => (by cases he)) rfl ?_
    rw [hentry]
    exact hgoes
  | some e =>
    -- only publishers take steps while the run ends
    obtain ⟨r, hr, he⟩ := h.landing e hlanding
    obtain ⟨r', hstage⟩ := landed_following hr
    have hsame : w.stage = p.run.stage ∧ w.hall.follower.phase = p.run.hall.follower.phase ∧ w.notes = p.run.notes := by
      cases a with
      | wait a =>
        obtain ⟨hall, hhall, rfl, -⟩ := RunWorld.step_wait hs
        have hpublisher : ∀ st, a ≠ .follow st := by
          intro st hst
          have hnone := hfollow st (by rw [hst])
          rw [hlanding] at hnone
          cases hnone
        obtain ⟨hphase, hnotes⟩ := RunWorld.hall_publisher hhall hpublisher
        exact ⟨rfl, hphase, hnotes⟩
      | progress e => simp [RunWorld.step, hstage] at hs
      | staged r => simp [RunWorld.step, hstage] at hs
      | stageFailed message => simp [RunWorld.step, hstage] at hs
      | stagePanicked message => simp [RunWorld.step, hstage] at hs
      | finish => exact absurd rfl ha
    obtain ⟨hstage', hphase', hnotes'⟩ := hsame
    have hentry : p.entry = e := by simp [entry, hlanding]
    refine h.goes (h.run.step hs) hlog (fun e' he' => ⟨r, ?_, ?_⟩) rfl ?_
    · unfold RunWorld.landed at hr ⊢
      rw [hstage', hphase']
      exact hr
    · obtain rfl : e = e' := Option.some.inj he'
      rw [he, hnotes']
    · rw [hentry]
      exact RunEntry.GoesOn.refl e

theorem Inv.finish {w : RunWorld H} (h : Inv t p) (hready : p.run.landed.isSome = true → p.landing.isSome = true)
    (hs : p.run.step t .finish = some w) : Goes t p { p with run := w, landing := none } := by
  obtain ⟨hlog, hdone, hgoes, hland⟩ := h.log.finish h.run hs
  refine h.goes (h.run.step hs) hlog (fun e he => (by cases he)) rfl ?_
  cases hlanding : p.landing with
  | none =>
    have hnone : p.run.landed = none := by
      cases hlanded : p.run.landed with
      | none => rfl
      | some r =>
        rw [hlanded, hlanding] at hready
        cases hready rfl
    have hentry : p.entry = p.run.notes.entry := by simp [entry, hlanding]
    rw [hentry]
    exact hgoes hnone
  | some e =>
    obtain ⟨r, hr, he⟩ := h.landing e hlanding
    have hentry : p.entry.progress = w.notes.entry.progress := by
      rw [hland r hr, ← he]
      simp [entry, hlanding]
    refine ⟨?_, fun _ => ⟨hdone, hentry.symm⟩⟩
    rw [hentry]
    exact List.prefix_refl _

omit [EncodeHex H] in
theorem Inv.landed {r : Record H} (h : Inv t p) (hlanding : p.landing = none) (hr : p.run.landed = some r) :
    Goes t p { p with landing := some (p.run.notes.transactionProgress r .done "Transaction landed" none).entry } := by
  obtain ⟨r', hstage⟩ := landed_following hr
  have hrunning := h.run.running (by simp [hstage])
  have hentry : p.entry = p.run.notes.entry := by simp [entry, hlanding]
  refine h.goes h.run h.log (fun e he => ⟨r, hr, (Option.some.inj he).symm⟩) rfl ?_
  rw [hentry]
  exact (hrunning.pushes _).goesOn hrunning

omit [DecidableEq H] [EncodeHex H] in
/-- The next connection starts after the last event that was received. -/
theorem resume_spec {e : RunEntry H} (hlen : e.progress.length ≤ usizeMax) :
    ∀ i, i < e.progress.length → resumeStartIndex ((some i).map toString) = i + 1 := by
  intro i hi
  exact resumeStartIndex_toString (by omega)

theorem Inv.step {a : PanelAction H} (h : Inv t p) (hs : p.step t a = some p') : Goes t p p' := by
  cases a with
  | run a =>
    cases a with
    | progress e => simp [Panel.step] at hs
    | finish =>
      simp only [Panel.step] at hs
      split at hs
      next => cases hs
      next hready =>
        obtain ⟨w, hw, rfl⟩ := Option.map_eq_some_iff.mp hs
        refine h.finish (fun hlanded => ?_) hw
        rw [hlanded, Bool.true_and, Option.isNone_iff_eq_none] at hready
        exact Option.isSome_iff_ne_none.mpr hready
    | wait a =>
      cases a with
      | follow st =>
        simp only [Panel.step] at hs
        split at hs
        next => cases hs
        next hnone =>
          obtain ⟨w, hw, rfl⟩ := Option.map_eq_some_iff.mp hs
          exact h.runStep (by simp) (by simp) (fun _ _ => by simpa using hnone) hw
      | edit e =>
        simp only [Panel.step] at hs
        obtain ⟨w, hw, rfl⟩ := Option.map_eq_some_iff.mp hs
        exact h.runStep (by simp) (by simp) (by simp) hw
      | take e =>
        simp only [Panel.step] at hs
        obtain ⟨w, hw, rfl⟩ := Option.map_eq_some_iff.mp hs
        exact h.runStep (by simp) (by simp) (by simp) hw
      | publish i =>
        simp only [Panel.step] at hs
        obtain ⟨w, hw, rfl⟩ := Option.map_eq_some_iff.mp hs
        exact h.runStep (by simp) (by simp) (by simp) hw
    | staged r =>
      simp only [Panel.step] at hs
      obtain ⟨w, hw, rfl⟩ := Option.map_eq_some_iff.mp hs
      exact h.runStep (by simp) (by simp) (by simp) hw
    | stageFailed message =>
      simp only [Panel.step] at hs
      obtain ⟨w, hw, rfl⟩ := Option.map_eq_some_iff.mp hs
      exact h.runStep (by simp) (by simp) (by simp) hw
    | stagePanicked message =>
      simp only [Panel.step] at hs
      obtain ⟨w, hw, rfl⟩ := Option.map_eq_some_iff.mp hs
      exact h.runStep (by simp) (by simp) (by simp) hw
  | report c =>
    simp only [Panel.step] at hs
    split at hs
    next e he =>
      obtain ⟨w, hw, rfl⟩ := Option.map_eq_some_iff.mp hs
      refine h.runStep (by simp) (fun e' he' => ?_) (by simp) hw
      cases he'
      exact Report.progress_quiet he
    next =>
      cases hs
      exact ⟨h, RunEntry.GoesOn.refl _⟩
  | landing =>
    simp only [Panel.step] at hs
    split at hs
    next r hlanding hr =>
      cases hs
      exact h.landed hlanding hr
    next => cases hs
  | stream s =>
    obtain ⟨reader, hreader, rfl⟩ := Option.map_eq_some_iff.mp hs
    refine ⟨⟨h.run, h.log, h.landing, fun hlen => ?_⟩, RunEntry.GoesOn.refl _⟩
    have hlen' : p.entry.progress.length ≤ usizeMax := hlen
    exact (h.reads hlen').step (resume_spec hlen') rfl hreader

theorem reaches_inv {s : Shelf H} {runId : String} {as : List (PanelAction H)}
    (hrun : runSteps (Panel.step t) (start s runId) as = some p) : Inv t p :=
  runSteps_preserves (fun _ _ _ h hs => (h.step hs).inv) (Inv.start s runId) hrun

/-! ## Every event once -/

omit [EncodeHex H] in
/-- What others read of a log: nothing that closes, or one event at the end of a log that stays as it is. -/
theorem Inv.quiet_or_closing (h : Inv t p) : Quiet p.entry.progress ∧ p.entry.finished = false ∨
    Closing isTerminalRunProgress p.entry.progress := by
  cases hlanding : p.landing with
  | none =>
    have hentry : p.entry = p.run.notes.entry := by simp [entry, hlanding]
    rw [hentry]
    by_cases hstage : p.run.stage = .finished
    · exact .inr (h.log.closing hstage)
    · exact .inl ⟨h.log.quiet hstage, (h.run.running hstage).unfinished⟩
  | some e =>
    obtain ⟨r, hr, he⟩ := h.landing e hlanding
    obtain ⟨r', hstage⟩ := landed_following hr
    have hopen : p.run.stage ≠ .finished := by simp [hstage]
    have hentry : p.entry = e := by simp [entry, hlanding]
    right
    rw [hentry, he]
    exact ((h.run.running hopen).pushes _).progress ▸ (h.log.quiet hopen).closing rfl

/-- A log with an event that closes grows no more. -/
theorem run_closing {as : List (PanelAction H)} (h : Inv t p) (hclosing : Closing isTerminalRunProgress p.entry.progress)
    (hrun : runSteps (Panel.step t) p as = some p') : p'.entry.progress = p.entry.progress := by
  have hgrows : Inv t p' ∧ p.entry.progress <+: p'.entry.progress :=
    runSteps_preserves (I := fun q => Inv t q ∧ p.entry.progress <+: q.entry.progress)
      (fun _ _ _ hq hs => ⟨(hq.1.step hs).inv, hq.2.trans (hq.1.step hs).entry.grows⟩) ⟨h, List.prefix_refl _⟩ hrun
  obtain ⟨h', rest, hrest⟩ := hgrows
  obtain ⟨front, x, hlog, hx, -⟩ := hclosing.last
  have hat : p'.entry.progress[front.length]? = some x := by
    rw [← hrest, hlog]
    simp
  rcases h'.quiet_or_closing with ⟨hquiet, -⟩ | hclosing'
  · rw [hquiet x (List.mem_of_getElem? hat)] at hx
    cases hx
  · have hlength := hclosing'.length hat hx
    have hsame : p.entry.progress <+: p'.entry.progress := ⟨rest, hrest⟩
    refine (hsame.eq_of_length ?_).symm
    rw [hlog, List.length_append, List.length_singleton]
    exact hlength

/-- The stream alone, while nothing else moves. -/
theorem stream_run {steps : List ReaderStep} {r : Reader RunActionProgress}
    (h : runSteps (streamStep p.entry) p.reader steps = some r) :
    runSteps (Panel.step t) p (steps.map .stream) = some { p with reader := r } := by
  induction steps generalizing p with
  | nil =>
    cases h
    rfl
  | cons s steps ih =>
    obtain ⟨r₁, hstep, hrest⟩ := Option.bind_eq_some_iff.mp h
    have hstep' : p.step t (.stream s) = some { p with reader := r₁ } := by
      rw [Panel.step, hstep]
      rfl
    rw [List.map_cons, runSteps, hstep', Option.bind_some]
    exact ih (p := { p with reader := r₁ }) hrest

/-- What a panel has received, whatever happened to its connections. -/
structure Follows (t : H) (p : Panel H) : Prop where
  received : p.reader.received <+: p.entry.progress
  ended : ∀ f, p.reader.feed = some f → f.Ended → p.reader.received = p.entry.progress ∧ p.entry.finished = true
  closed : p.reader.closed = true → p.reader.received = p.entry.progress ∧
    ∀ as p', runSteps (Panel.step t) p as = some p' → p'.entry.progress = p.entry.progress
  resumes : p.entry.finished = true → p.reader.closed = false → ∃ (steps : List ReaderStep) (p' : Panel H),
    runSteps (Panel.step t) p (steps.map .stream) = some p' ∧ p'.reader.closed = true ∧ p'.reader.received = p.entry.progress

/-- A panel receives each event of its run once and in order. A stream ends, and the panel closes, only with the whole
log; and a run that has finished is received to its end. -/
theorem panel_follows (t : H) (s : Shelf H) (runId : String) {as : List (PanelAction H)}
    (hrun : runSteps (Panel.step t) (start s runId) as = some p) (hlen : p.entry.progress.length ≤ usizeMax) :
    Follows t p := by
  have h := reaches_inv hrun
  have hreads := h.reads hlen
  refine ⟨hreads.received, fun f hf he => hreads.ended hf he, fun hclosed => ?_, fun hend hopen => ?_⟩
  · rcases h.quiet_or_closing with ⟨hquiet, -⟩ | hclosing
    · have hany := hreads.closed
      rw [hclosed] at hany
      obtain ⟨x, hx, hcloses⟩ := (Option.any_eq_true _ _).mp hany.symm
      have hin := hreads.received.subset (List.mem_of_getLast? hx)
      rw [hquiet x hin] at hcloses
      cases hcloses
    · exact ⟨hreads.complete hclosing hclosed, fun as p' hrun' => run_closing h hclosing hrun'⟩
  · rcases h.quiet_or_closing with ⟨-, hnot⟩ | hclosing
    · rw [hend] at hnot
      cases hnot
    · rw [hend] at hreads
      obtain ⟨steps, r, hsteps, hclosed, hall⟩ : ∃ steps r, runSteps (Reader.step 64
          (fun last => resumeStartIndex (last.map toString)) isTerminalRunProgress p.entry.progress true) p.reader steps =
            some r ∧ r.closed = true ∧ r.received = p.entry.progress :=
        hreads.resumes (by decide) (resume_spec hlen) rfl hclosing hopen
      refine ⟨steps, { p with reader := r }, stream_run ?_, hclosed, hall⟩
      unfold streamStep
      rw [hend]
      exact hsteps

/-- A run that fails after its first event, while the panel has lost its connection. -/
def Sample.interrupted : List (PanelAction Nat) :=
  [.stream .connect, .report (.onStep .generateProof "Proving" ⟨[], none, none⟩), .stream .poll, .stream .send, .stream .lose,
    .run (.stageFailed "disk full"), .stream .connect, .stream .poll, .stream .send, .stream .receive, .stream .send,
    .stream .receive]

def Sample.shelf : Shelf Nat := ⟨∅, fun jobId => ⟨jobId, ⟨"", ""⟩, [], .proving, none, none, none⟩, []⟩

theorem panel_follows_interrupted :
    ∃ p, runSteps (Panel.step 7) (start Sample.shelf "run") Sample.interrupted = some p ∧
      p.entry.progress.length ≤ usizeMax ∧ p.reader.closed = true ∧ Follows 7 p :=
  have hrun : runSteps (Panel.step 7) (start Sample.shelf "run") Sample.interrupted = some _ := rfl
  ⟨_, hrun, by decide, rfl, panel_follows 7 Sample.shelf "run" hrun (by decide)⟩

end Panel

end DigitalObjects.Dobjd
