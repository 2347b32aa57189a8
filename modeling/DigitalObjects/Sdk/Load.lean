import DigitalObjects.Sdk.Podlang
set_option autoImplicit false
set_option linter.unusedSectionVars false

/-!
What every run of host calls keeps: no handle is named `chain`, and the timestamp of a
variable is the number of updates recorded on it.
-/

namespace DigitalObjects.Sdk

open Pod2 Lib ActionContext

variable {V : Type} [Values V] [Decodes V]

def Inst.isUpdateOf (n : String) : Inst V → Bool
  | .update obj _ _ _ => obj = n
  | _ => false

/-- An instruction that declares an object or calls a sub-action. -/
def Inst.declares : Inst V → Bool
  | .object .. | .subAction .. => true
  | _ => false

/-- The state of an execution without the count of random values. -/
def ExeContext.core (exe : ExeContext V) : ExeContext V := { exe with draws := 0 }

namespace ActionContext

/-- The declared objects and called sub-actions, in order. -/
def decls (ctx : ActionContext V) : List (Inst V) := ctx.insts.filter Inst.declares

def updateCount (ctx : ActionContext V) (n : String) : Nat := ctx.insts.countP (Inst.isUpdateOf n)

/-- The timestamp of a registered variable. -/
def ts? (ctx : ActionContext V) (n : String) : Option Nat := (ctx.varState n).map (·.ts)

structure Counted (ctx : ActionContext V) : Prop where
  noChain : ∀ v, .var v ∈ ctx.heap → v.name ≠ "chain"
  updates : ∀ n, n ≠ "chain" → ctx.updateCount n = (ctx.ts? n).getD 0
  chainFree : ctx.updateCount "chain" = 0
  chainKnown : (ctx.varState "chain").isSome = true

/-- A step that declares nothing and emits nothing. -/
structure Still (ctx ctx' : ActionContext V) : Prop where
  decls : ctx'.decls = ctx.decls
  exe : ctx'.exeCtx.map ExeContext.core = ctx.exeCtx.map ExeContext.core

/-- A still step that records no update and renames nothing: new variables start at zero. -/
structure Quiet (ctx ctx' : ActionContext V) : Prop extends Still ctx ctx' where
  names : ∀ v, .var v ∈ ctx'.heap → v.name ≠ "chain" ∨ ∃ w, .var w ∈ ctx.heap ∧ w.name = v.name
  counts : ∀ n, ctx'.updateCount n = ctx.updateCount n
  times : ∀ n, n ≠ "chain" → (ctx'.ts? n).getD 0 = (ctx.ts? n).getD 0
  known : ∀ n, (ctx.varState n).isSome = true → (ctx'.varState n).isSome = true

theorem Still.refl (ctx : ActionContext V) : Still ctx ctx := ⟨rfl, rfl⟩

theorem Still.trans {a b c : ActionContext V} (h : Still a b) (h' : Still b c) : Still a c :=
  ⟨h'.decls.trans h.decls, h'.exe.trans h.exe⟩

theorem Quiet.refl (ctx : ActionContext V) : Quiet ctx ctx :=
  ⟨.refl ctx, fun v hv => .inr ⟨v, hv, rfl⟩, fun _ => rfl, fun _ _ => rfl, fun _ h => h⟩

theorem Quiet.trans {a b c : ActionContext V} (h : Quiet a b) (h' : Quiet b c) : Quiet a c := by
  refine ⟨h.toStill.trans h'.toStill, ?_, fun n => (h'.counts n).trans (h.counts n),
    fun n hn => (h'.times n hn).trans (h.times n hn), fun n hn => h'.known n (h.known n hn)⟩
  intro v hv
  rcases h'.names v hv with hne | ⟨w, hw, heq⟩
  · exact .inl hne
  · rcases h.names w hw with hne | ⟨x, hx, heq'⟩
    · rw [← heq]
      exact .inl hne
    · exact .inr ⟨x, hx, heq'.trans heq⟩

theorem Counted.quiet {ctx ctx' : ActionContext V} (h : Counted ctx) (hq : Quiet ctx ctx') :
    Counted ctx' := by
  refine ⟨?_, ?_, ?_, hq.known _ h.chainKnown⟩
  · intro v hv
    rcases hq.names v hv with hne | ⟨w, hw, heq⟩
    · exact hne
    · rw [← heq]
      exact h.noChain w hw
  · intro n hn
    rw [hq.counts, hq.times n hn]
    exact h.updates n hn
  · rw [hq.counts]
    exact h.chainFree

/-! ## The parts of a call -/

theorem Quiet.alloc (ctx : ActionContext V) {c : VarOrValue V}
    (hc : ∀ v, c = .var v → v.name ≠ "chain" ∨ ∃ w, .var w ∈ ctx.heap ∧ w.name = v.name) :
    Quiet ctx (ctx.alloc c).2 := by
  refine ⟨⟨rfl, rfl⟩, ?_, fun _ => rfl, fun _ _ => rfl, fun _ h => h⟩
  intro v hv
  rcases List.mem_append.mp hv with hv | hv
  · exact .inr ⟨v, hv, rfl⟩
  · exact hc v (List.mem_singleton.mp hv).symm

theorem Quiet.write {ctx ctx' : ActionContext V} (h : Quiet ctx ctx') (r : Ref) {c : VarOrValue V}
    (hc : ∀ v, c = .var v → v.name ≠ "chain" ∨ ∃ w, .var w ∈ ctx.heap ∧ w.name = v.name) :
    Quiet ctx (ctx'.write r c) := by
  refine ⟨⟨h.decls, h.exe⟩, ?_, h.counts, h.times, h.known⟩
  intro v hv
  rcases List.mem_or_eq_of_mem_set hv with hv | hv
  · exact h.names v hv
  · exact hc v hv.symm

theorem Still.push {ctx ctx' : ActionContext V} (h : Still ctx ctx') {inst : Inst V}
    (hd : inst.declares = false) : Still ctx (ctx'.push inst) := by
  refine ⟨?_, h.exe⟩
  rw [← h.decls]
  simp [ActionContext.decls, ActionContext.push, List.filter_append, hd]

theorem Quiet.push (ctx : ActionContext V) {inst : Inst V} (hd : inst.declares = false)
    (hi : ∀ n, inst.isUpdateOf n = false) : Quiet ctx (ctx.push inst) := by
  refine ⟨(Still.refl ctx).push hd, fun v hv => .inr ⟨v, hv, rfl⟩, ?_, fun _ _ => rfl, fun _ h => h⟩
  intro n
  simp [updateCount, ActionContext.push, List.countP_append, hi n]

theorem Quiet.deref (ctx : ActionContext V) (arg : Arg V) : Quiet ctx (ctx.deref arg).2 := by
  cases arg with
  | lit v => exact .alloc ctx (by simp)
  | ref r => exact .refl ctx

theorem isSome_update {ctx : ActionContext V} {m n : String} {s : VarState}
    (h : (ctx.varState m).isSome = true) :
    (Function.update ctx.varState n (some s) m).isSome = true := by
  by_cases hm : m = n
  · subst hm
    simp
  · rw [Function.update_of_ne hm]
    exact h

theorem Quiet.setVarState (ctx : ActionContext V) {n : String} {s s' : VarState}
    (hs : ctx.varState n = some s) (hts : s'.ts = s.ts) : Quiet ctx (ctx.setVarState n s') := by
  refine ⟨⟨rfl, rfl⟩, fun v hv => .inr ⟨v, hv, rfl⟩, fun _ => rfl, ?_, fun _ h => isSome_update h⟩
  intro m hm
  by_cases h : m = n
  · subst h
    simp [ts?, ActionContext.setVarState, hs, hts]
  · simp [ts?, ActionContext.setVarState, Function.update_of_ne h]

theorem addVar_ok {ctx ctx' : ActionContext V} {n : String} (h : ctx.addVar n = .ok ctx') :
    ctx.varState n = none ∧
      ctx' = { ctx.setVarState n .default with vars := ctx.vars ++ [n] } := by
  unfold ActionContext.addVar at h
  cases hn : ctx.varState n with
  | some s => simp [hn] at h
  | none =>
    simp only [hn, Outcome.ok.injEq] at h
    exact ⟨rfl, h.symm⟩

theorem Quiet.addVar {ctx ctx' : ActionContext V} {n : String} (h : ctx.addVar n = .ok ctx') :
    Quiet ctx ctx' := by
  obtain ⟨hn, rfl⟩ := addVar_ok h
  refine ⟨⟨rfl, rfl⟩, fun v hv => .inr ⟨v, hv, rfl⟩, fun _ => rfl, ?_, fun _ h => isSome_update h⟩
  intro m hm
  by_cases hmn : m = n
  · subst hmn
    simp [ts?, ActionContext.setVarState, VarState.default, hn]
  · simp [ts?, ActionContext.setVarState, Function.update_of_ne hmn]

theorem Quiet.of_eq {ctx ctx' : ActionContext V} (hh : ctx'.heap = ctx.heap)
    (hi : ctx'.insts = ctx.insts) (hv : ctx'.varState = ctx.varState)
    (he : ctx'.exeCtx.map ExeContext.core = ctx.exeCtx.map ExeContext.core) : Quiet ctx ctx' := by
  refine ⟨⟨by simp [ActionContext.decls, hi], he⟩, fun v h => .inr ⟨v, hh ▸ h, rfl⟩, fun n => ?_, fun n _ => ?_, fun n h => hv ▸ h⟩
  · simp [updateCount, hi]
  · simp [ts?, hv]

theorem anonName_ne_chain (tag : String) (seq : Nat) : anonName tag seq ≠ "chain" := by
  intro h
  have hhead := congrArg (fun s => s.toList.head?) h
  simp [anonName] at hhead

theorem newWitness_ok {ctx ctx' : ActionContext V} {tag : String} {typ : Typ} {w : Ref}
    (h : ctx.newWitness tag typ = .ok (w, ctx')) :
    ∃ seq, ctx.unsafeBlock = false ∧ ctx.varState (anonName tag seq) = none ∧
      w = ctx.heap.length ∧
      ctx' = { ctx.setVarState (anonName tag seq) ⟨true, 0, false⟩ with
        anonSeq := seq + 1
        vars := ctx.vars ++ [anonName tag seq]
        heap := ctx.heap ++ [.var ⟨anonName tag seq, typ, none, none⟩] } := by
  unfold ActionContext.newWitness at h
  obtain ⟨⟨hsafe⟩, -, h⟩ := Outcome.bind_eq_ok h
  simp only at h
  split at h
  · rename_i c hadd
    obtain ⟨hn, rfl⟩ := addVar_ok hadd
    cases h
    refine ⟨_, hsafe, hn, rfl, ?_⟩
    simp [ActionContext.setVarState, Function.update_idem]
  · cases h

theorem Quiet.newWitness {ctx ctx' : ActionContext V} {tag : String} {typ : Typ} {w : Ref}
    (h : ctx.newWitness tag typ = .ok (w, ctx')) : Quiet ctx ctx' := by
  obtain ⟨seq, -, hn, -, rfl⟩ := newWitness_ok h
  refine ⟨⟨rfl, rfl⟩, ?_, fun _ => rfl, ?_, fun _ h => isSome_update h⟩
  · intro v hv
    rcases List.mem_append.mp hv with hv | hv
    · exact .inr ⟨v, hv, rfl⟩
    · simp only [List.mem_singleton, VarOrValue.var.injEq] at hv
      subst hv
      exact .inl (anonName_ne_chain tag seq)
  · intro m hm
    by_cases hmn : m = anonName tag seq
    · subst hmn
      simp [ts?, ActionContext.setVarState, hn]
    · simp [ts?, ActionContext.setVarState, Function.update_of_ne hmn]

theorem mem_of_cell {ctx : ActionContext V} {r : Ref} {c : VarOrValue V} (h : ctx.cell r = .ok c) :
    c ∈ ctx.heap := by
  unfold cell at h
  cases hr : ctx.heap[r]? with
  | none => simp [hr] at h
  | some x =>
    simp only [hr, Outcome.ok.injEq] at h
    subst h
    exact List.mem_of_getElem? hr

theorem Quiet.validateArgs {ctx ctx' : ActionContext V} {args : List (Arg V)} {typs : List Typ}
    {rs : List Ref} (h : ctx.validateArgs args typs = .ok (rs, ctx')) : Quiet ctx ctx' := by
  induction args generalizing ctx typs rs with
  | nil =>
    cases h
    exact .refl _
  | cons arg args ih =>
    unfold ActionContext.validateArgs at h
    obtain ⟨c, -, h⟩ := Outcome.bind_eq_ok h
    obtain ⟨-, -, h⟩ := Outcome.bind_eq_ok h
    obtain ⟨⟨rs', ctx₁⟩, hrest, h⟩ := Outcome.bind_eq_ok h
    cases h
    exact (Quiet.deref ctx arg).trans (ih hrest)

theorem Quiet.derefKvs (ctx : ActionContext V) (kvs : List (String × Arg V)) :
    Quiet ctx (ctx.derefKvs kvs).2 := by
  induction kvs generalizing ctx with
  | nil => exact .refl ctx
  | cons kv kvs ih => exact (Quiet.deref ctx kv.2).trans (ih (ctx.deref kv.2).2)

theorem Quiet.setWitness (ctx : ActionContext V) (w : Ref) (value : Option V) :
    Quiet ctx (ctx.setWitness w value) := by
  unfold ActionContext.setWitness
  split
  · rename_i v hw
    refine (Quiet.refl ctx).write w (fun x hx => .inr ⟨v, List.mem_of_getElem? hw, ?_⟩)
    cases hx
    rfl
  · exact .refl ctx

theorem Quiet.temporary {ctx ctx' : ActionContext V} {typ : Typ}
    {value : ExeContext V → RuntimeResult V} (h : ctx.temporary typ value = .ok ctx') :
    Quiet ctx ctx' := by
  unfold ActionContext.temporary at h
  obtain ⟨v, -, h⟩ := Outcome.bind_eq_ok h
  cases h
  refine .alloc ctx (fun x hx => .inl ?_)
  cases hx
  simp

theorem Quiet.markDictRead (ctx : ActionContext V) (var : String) :
    Quiet ctx (ctx.markDictRead var) := by
  unfold ActionContext.markDictRead
  cases hv : ctx.varState var with
  | none => exact .refl ctx
  | some s => exact .setVarState ctx hv rfl

/-- What `assign` leaves of a cell. -/
theorem assign_name {c c' : VarOrValue V} {u : V} (h : c.assign u = .ok c') {v : Var V}
    (hv : c' = .var v) : ∃ w, c = .var w ∧ w.name = v.name := by
  cases c with
  | value x =>
    cases h
    cases hv
  | var x =>
    unfold VarOrValue.assign at h
    simp only at h
    split at h
    · cases h
    · cases h
    · cases h
      cases hv
      exact ⟨x, rfl, rfl⟩

theorem Quiet.assign {ctx ctx' : ActionContext V} (hq : Quiet ctx ctx') (r : Ref)
    {c c' : VarOrValue V} {u : V} (hc : c ∈ ctx.heap) (h : c.assign u = .ok c') :
    Quiet ctx (ctx'.write r c') := by
  refine hq.write r (fun v hv => ?_)
  obtain ⟨w, rfl, hw⟩ := assign_name h hv
  exact .inr ⟨w, hc, hw⟩

/-! ## The calls -/

/-- What a declaration adds: a cell without a name, an instruction, and a step of the chain. -/
def declare (ctx : ActionContext V) (exe : Option (ExeContext V)) (value : Option V)
    (inst : Inst V) (s : VarState) : ActionContext V :=
  { ctx with
    exeCtx := exe
    heap := ctx.heap ++ [.var ⟨"?", .dict, value, none⟩]
    insts := ctx.insts ++ [inst]
    varState := Function.update ctx.varState "chain" (some { s with ts := s.ts + 1 }) }

theorem decls_declare {ctx : ActionContext V} {exe : Option (ExeContext V)} {value : Option V}
    {inst : Inst V} {s : VarState} (hd : inst.declares = true) :
    (ctx.declare exe value inst s).decls = ctx.decls ++ [inst] := by
  simp [ActionContext.decls, ActionContext.declare, List.filter_append, hd]

theorem incTVar_ok {ctx ctx' : ActionContext V} {n : String} (h : ctx.incTVar n = .ok ctx') :
    ∃ s, ctx.varState n = some s ∧ ctx' = ctx.setVarState n { s with ts := s.ts + 1 } := by
  unfold incTVar at h
  cases hn : ctx.varState n with
  | none => simp [hn] at h
  | some s =>
    simp only [hn, Outcome.ok.injEq] at h
    exact ⟨s, rfl, h.symm⟩

/-- How `Load` and `Execute` take an object. -/
def Took (env : Env V) (io : ObjectIO) (class_ : String) (before after : Option (ExeContext V))
    (value : Option V) (original : Option (Dictionary V)) : Prop :=
  match before with
  | none => after = none ∧ value = none ∧ original = none
  | some exe => ∃ d exe', takeObject env io class_ exe = .ok (d, exe') ∧ after = some exe' ∧
      value = some (ofDict d) ∧ original = if io = .mutate then some d else none

theorem objIo_ok {env : Env V} {ctx ctx' : ActionContext V} {io : ObjectIO} {class_ : String}
    (h : ctx.objIo env io class_ = .ok ctx') : ∃ exe value original s,
      ctx.varState "chain" = some s ∧ Took env io class_ ctx.exeCtx exe value original ∧
      ctx' = ctx.declare exe value (.object io ctx.heap.length class_ original) s := by
  unfold ActionContext.objIo at h
  obtain ⟨-, -, h⟩ := Outcome.bind_eq_ok h
  obtain ⟨-, -, h⟩ := Outcome.bind_eq_ok h
  cases hexe : ctx.exeCtx with
  | none =>
    simp only [hexe] at h
    obtain ⟨s, hs, rfl⟩ := incTVar_ok h
    refine ⟨none, none, none, s, hs, ⟨rfl, rfl, rfl⟩, ?_⟩
    simp [declare, ActionContext.setVarState, ActionContext.push, ActionContext.alloc, ← hexe]
  | some exe =>
    simp only [hexe] at h
    obtain ⟨⟨d, exe'⟩, htake, h⟩ := Outcome.bind_eq_ok h
    obtain ⟨s, hs, rfl⟩ := incTVar_ok h
    exact ⟨some exe', some (ofDict d), _, s, hs, ⟨d, exe', htake, rfl, rfl, rfl⟩, rfl⟩

/-- How `Load` and `Execute` call a sub-action. -/
def Called (runSub : RunSub V) (action : String) (before after : Option (ExeContext V))
    (value : Option V) (captured : Option (SubRun V)) : Prop :=
  match before with
  | none => after = none ∧ value = none ∧ captured = none
  | some exe => ∃ sub exe', runSub action exe = .ok (sub, exe') ∧ after = some exe' ∧
      value = (sub.out.map fun (o : V × Nat × Dictionary V) => ofDict o.2.2) ∧ captured = some sub

theorem subaction_ok {runSub : RunSub V} {ctx ctx' : ActionContext V} {action : String}
    (h : ctx.subaction runSub action = .ok ctx') : ∃ exe value captured s,
      ctx.varState "chain" = some s ∧ Called runSub action ctx.exeCtx exe value captured ∧
      ctx' = ctx.declare exe value (.subAction action ctx.heap.length captured) s := by
  unfold ActionContext.subaction at h
  obtain ⟨-, -, h⟩ := Outcome.bind_eq_ok h
  cases hexe : ctx.exeCtx with
  | none =>
    simp only [hexe] at h
    obtain ⟨s, hs, rfl⟩ := incTVar_ok h
    refine ⟨none, none, none, s, hs, ⟨rfl, rfl, rfl⟩, ?_⟩
    simp [declare, ActionContext.setVarState, ActionContext.push, ActionContext.alloc, ← hexe]
  | some exe =>
    simp only [hexe] at h
    obtain ⟨⟨sub, exe'⟩, hrun, h⟩ := Outcome.bind_eq_ok h
    obtain ⟨s, hs, rfl⟩ := incTVar_ok h
    exact ⟨some exe', _, some sub, s, hs, ⟨sub, exe', hrun, rfl, rfl, rfl⟩, rfl⟩

theorem Counted.declare {ctx : ActionContext V} (hc : Counted ctx) (exe : Option (ExeContext V))
    (value : Option V) {inst : Inst V} (s : VarState) (hi : ∀ n, inst.isUpdateOf n = false) :
    Counted (ctx.declare exe value inst s) := by
  have hcount : ∀ n, (ctx.declare exe value inst s).updateCount n = ctx.updateCount n := by
    intro n
    simp [updateCount, ActionContext.declare, List.countP_append, hi n]
  refine ⟨?_, ?_, ?_, ?_⟩
  · intro v hv
    rcases List.mem_append.mp hv with hv | hv
    · exact hc.noChain v hv
    · simp only [List.mem_singleton, VarOrValue.var.injEq] at hv
      subst hv
      simp
  · intro n hn
    rw [hcount, hc.updates n hn]
    simp [ts?, ActionContext.declare, Function.update_of_ne hn]
  · rw [hcount, hc.chainFree]
  · simp [ActionContext.declare]

theorem Quiet.setObj {ctx ctx' : ActionContext V} {r : Ref} {kvs : List (String × Arg V)}
    (h : ctx.setObj r kvs = .ok ctx') : Quiet ctx ctx' := by
  unfold ActionContext.setObj at h
  obtain ⟨c, hc, h⟩ := Outcome.bind_eq_ok h
  obtain ⟨-, -, h⟩ := Outcome.bind_eq_ok h
  have hq := Quiet.derefKvs ctx kvs
  have hmem := mem_of_cell hc
  cases c with
  | value x =>
    cases h
    exact hq
  | var v =>
    obtain ⟨-, -, h⟩ := Outcome.bind_eq_ok h
    obtain ⟨-, -, h⟩ := Outcome.bind_eq_ok h
    obtain ⟨opArgs, -, h⟩ := Outcome.bind_eq_ok h
    cases opArgs with
    | none =>
      cases h
      exact hq.trans (.push _ rfl (by simp [Inst.isUpdateOf]))
    | some as =>
      obtain ⟨d, -, h⟩ := Outcome.bind_eq_ok h
      obtain ⟨d', -, h⟩ := Outcome.bind_eq_ok h
      obtain ⟨c', hc', h⟩ := Outcome.bind_eq_ok h
      cases h
      exact (hq.assign r hmem hc').trans (.push _ rfl (by simp [Inst.isUpdateOf]))

theorem Quiet.commitment {ctx ctx' : ActionContext V} {r : Ref}
    (h : ctx.commitment r = .ok ctx') : Quiet ctx ctx' := by
  unfold ActionContext.commitment at h
  obtain ⟨c, hc, h⟩ := Outcome.bind_eq_ok h
  cases c with
  | value x => cases h
  | var v =>
    simp only at h
    split at h
    · cases h
    · cases h
      refine .alloc ctx (fun w hw => .inr ⟨v, mem_of_cell hc, ?_⟩)
      cases hw
      rfl

theorem Quiet.entry {ctx ctx' : ActionContext V} {r : Ref} {key : String}
    (h : ctx.entry r key = .ok ctx') : Quiet ctx ctx' := by
  unfold ActionContext.entry at h
  obtain ⟨c, hc, h⟩ := Outcome.bind_eq_ok h
  cases c with
  | value x =>
    obtain ⟨e, -, h⟩ := Outcome.bind_eq_ok h
    cases h
    exact .alloc ctx (by simp)
  | var v =>
    obtain ⟨-, -, h⟩ := Outcome.bind_eq_ok h
    obtain ⟨-, -, h⟩ := Outcome.bind_eq_ok h
    obtain ⟨-, -, h⟩ := Outcome.bind_eq_ok h
    cases h
    refine .alloc ctx (fun w hw => .inr ⟨v, mem_of_cell hc, ?_⟩)
    cases hw
    rfl

theorem Quiet.statement {ctx ctx' : ActionContext V} {pred : NativePredicate} {args : List (Arg V)}
    (h : ctx.statement pred args = .ok ctx') : Quiet ctx ctx' := by
  unfold ActionContext.statement at h
  obtain ⟨⟨rs, ctx₁⟩, hargs, h⟩ := Outcome.bind_eq_ok h
  obtain ⟨-, -, h⟩ := Outcome.bind_eq_ok h
  obtain ⟨as, -, h⟩ := Outcome.bind_eq_ok h
  cases h
  exact (Quiet.validateArgs hargs).trans (.push _ rfl (by simp [Inst.isUpdateOf]))

theorem Quiet.get {ctx ctx' : ActionContext V} {lookup : Lookup} {container key : Arg V}
    (h : ctx.get lookup container key = .ok ctx') : Quiet ctx ctx' := by
  unfold ActionContext.get at h
  obtain ⟨c, -, h⟩ := Outcome.bind_eq_ok h
  obtain ⟨-, -, h⟩ := Outcome.bind_eq_ok h
  obtain ⟨k, -, h⟩ := Outcome.bind_eq_ok h
  obtain ⟨-, -, h⟩ := Outcome.bind_eq_ok h
  obtain ⟨-, -, h⟩ := Outcome.bind_eq_ok h
  obtain ⟨⟨w, ctx₁⟩, hw, h⟩ := Outcome.bind_eq_ok h
  obtain ⟨found, -, h⟩ := Outcome.bind_eq_ok h
  obtain ⟨-, -, h⟩ := Outcome.bind_eq_ok h
  obtain ⟨as, -, h⟩ := Outcome.bind_eq_ok h
  cases h
  have hderef := (Quiet.deref ctx container).trans (Quiet.deref _ key)
  exact ((hderef.trans (.newWitness hw)).trans (.setWitness _ w found)).trans
    (.push _ rfl (by simp [Inst.isUpdateOf]))

theorem Quiet.introVdf {env : Env V} {ctx ctx' : ActionContext V} {nIters input : Arg V}
    (h : ctx.introVdf env nIters input = .ok ctx') : Quiet ctx ctx' := by
  unfold ActionContext.introVdf at h
  obtain ⟨⟨rs, ctx₁⟩, hargs, h⟩ := Outcome.bind_eq_ok h
  obtain ⟨-, -, h⟩ := Outcome.bind_eq_ok h
  obtain ⟨⟨w, ctx₂⟩, hw, h⟩ := Outcome.bind_eq_ok h
  obtain ⟨work, -, h⟩ := Outcome.bind_eq_ok h
  obtain ⟨as, -, h⟩ := Outcome.bind_eq_ok h
  cases h
  exact (((Quiet.validateArgs hargs).trans (.newWitness hw)).trans (.setWitness _ w work)).trans
    (.push _ rfl (by simp [Inst.isUpdateOf]))

theorem Quiet.introLtEqU256 {env : Env V} {ctx ctx' : ActionContext V} {lhs rhs : Arg V}
    (h : ctx.introLtEqU256 env lhs rhs = .ok ctx') : Quiet ctx ctx' := by
  unfold ActionContext.introLtEqU256 at h
  obtain ⟨⟨rs, ctx₁⟩, hargs, h⟩ := Outcome.bind_eq_ok h
  obtain ⟨-, -, h⟩ := Outcome.bind_eq_ok h
  obtain ⟨as, -, h⟩ := Outcome.bind_eq_ok h
  obtain ⟨-, -, h⟩ := Outcome.bind_eq_ok h
  cases h
  exact (Quiet.validateArgs hargs).trans (.push _ rfl (by simp [Inst.isUpdateOf]))

theorem Quiet.beginUnsafe {ctx ctx' : ActionContext V} (h : ctx.beginUnsafe = .ok ctx') :
    Quiet ctx ctx' := by
  unfold ActionContext.beginUnsafe at h
  split at h
  · cases h
  · cases h
    exact .of_eq rfl rfl rfl rfl

theorem Quiet.adopt (ctx : ActionContext V) (r : Ref) (c : VarOrValue V) (w : Ref) :
    Quiet ctx (ctx.adopt r c w) := by
  unfold ActionContext.adopt
  split
  · rename_i v x hx
    split
    · refine (Quiet.refl ctx).write r (fun y hy => .inr ⟨y, ?_, rfl⟩)
      exact hy ▸ List.mem_of_getElem? hx
    · exact .refl ctx
  · exact .refl ctx

theorem Quiet.endUnsafe {ctx ctx' : ActionContext V} {result : Option (Arg V)}
    (h : ctx.endUnsafe result = .ok ctx') : Quiet ctx ctx' := by
  unfold ActionContext.endUnsafe at h
  have hflag : Quiet ctx { ctx with unsafeBlock := false } := .of_eq rfl rfl rfl rfl
  cases result with
  | none =>
    cases h
    exact hflag
  | some arg =>
    obtain ⟨c, -, h⟩ := Outcome.bind_eq_ok h
    obtain ⟨⟨w, ctx₁⟩, hw, h⟩ := Outcome.bind_eq_ok h
    obtain ⟨value, -, h⟩ := Outcome.bind_eq_ok h
    have hq := (hflag.trans (Quiet.deref _ arg)).trans
      ((Quiet.newWitness hw).trans (.setWitness _ w value))
    cases h
    exact hq.trans (.adopt _ _ _ w)

theorem Quiet.random {env : Env V} {ctx ctx' : ActionContext V}
    (h : ctx.random env = .ok ctx') : Quiet ctx ctx' := by
  unfold ActionContext.random at h
  obtain ⟨-, -, h⟩ := Outcome.bind_eq_ok h
  obtain ⟨ctx₁, htemp, h⟩ := Outcome.bind_eq_ok h
  cases h
  refine (Quiet.temporary htemp).trans (.of_eq rfl rfl rfl ?_)
  simp only [Option.map_map]
  rfl

theorem Quiet.powObjGrind {env : Env V} {ctx ctx' : ActionContext V} {obj target : Arg V}
    {key : String} (h : ctx.powObjGrind env obj key target = .ok ctx') : Quiet ctx ctx' := by
  unfold ActionContext.powObjGrind at h
  obtain ⟨-, -, h⟩ := Outcome.bind_eq_ok h
  obtain ⟨⟨rs, ctx₁⟩, hargs, h⟩ := Outcome.bind_eq_ok h
  have hq := Quiet.validateArgs hargs
  simp only at h
  split at h
  · obtain ⟨c, -, h⟩ := Outcome.bind_eq_ok h
    cases c with
    | value x => exact hq.trans (.temporary h)
    | var v => exact (hq.trans (.markDictRead _ v.name)).trans (.temporary h)
  · cases h

theorem Quiet.arith {ctx ctx' : ActionContext V} {op : ArithOp} {a b : Arg V}
    (h : ctx.arith op a b = .ok ctx') : Quiet ctx ctx' := by
  unfold ActionContext.arith at h
  obtain ⟨⟨rs, ctx₁⟩, hargs, h⟩ := Outcome.bind_eq_ok h
  obtain ⟨-, -, h⟩ := Outcome.bind_eq_ok h
  exact (Quiet.validateArgs hargs).trans (.temporary h)

theorem Quiet.varAssign {ctx ctx' : ActionContext V} {lhs : Ref} {rhs : Arg V}
    (h : ctx.varAssign lhs rhs = .ok ctx') : Quiet ctx ctx' := by
  unfold ActionContext.varAssign at h
  split at h
  · cases h
    exact .refl _
  · obtain ⟨v, -, h⟩ := Outcome.bind_eq_ok h
    obtain ⟨c, hc, h⟩ := Outcome.bind_eq_ok h
    obtain ⟨c', hc', h⟩ := Outcome.bind_eq_ok h
    cases h
    exact (Quiet.refl ctx).assign lhs (mem_of_cell hc) hc'

/-- An update advances its target. -/
theorem Counted.update {ctx ctx' : ActionContext V} {n key : String} {value : Ref}
    {captured : Option (OperationArg V × Dictionary V × Dictionary V)} (h : Counted ctx)
    (hn : n ≠ "chain") (hinc : ctx.incTVar n = .ok ctx') :
    Counted (ctx'.push (.update n key value captured)) := by
  obtain ⟨s, hs, rfl⟩ := incTVar_ok hinc
  have hcount : ∀ m, ((ctx.setVarState n { s with ts := s.ts + 1 }).push
      (.update n key value captured)).updateCount m =
      ctx.updateCount m + if n = m then 1 else 0 := by
    intro m
    simp [updateCount, ActionContext.push, ActionContext.setVarState, List.countP_append,
      Inst.isUpdateOf, List.countP_cons]
  refine ⟨h.noChain, ?_, ?_, isSome_update h.chainKnown⟩
  · intro m hm
    have hold := h.updates m hm
    rw [hcount]
    by_cases hmn : m = n
    · subst hmn
      simp only [ts?, hs, Option.map_some, Option.getD_some] at hold
      simp [ts?, ActionContext.push, ActionContext.setVarState, hold]
    · simp only [if_neg (Ne.symm hmn), Nat.add_zero, hold]
      simp [ts?, ActionContext.push, ActionContext.setVarState, Function.update_of_ne hmn]
  · rw [hcount, if_neg hn, h.chainFree]

theorem Counted.updateObj {ctx ctx' : ActionContext V} {r : Ref} {key : String} {value : Arg V}
    (hc : Counted ctx) (h : ctx.updateObj r key value = .ok ctx') : Counted ctx' := by
  unfold ActionContext.updateObj at h
  obtain ⟨c, hcell, h⟩ := Outcome.bind_eq_ok h
  obtain ⟨-, -, h⟩ := Outcome.bind_eq_ok h
  have hmem := mem_of_cell hcell
  cases c with
  | value x =>
    cases h
    exact hc
  | var v =>
    have hname := hc.noChain v hmem
    have hq := Quiet.deref ctx value
    obtain ⟨-, -, h⟩ := Outcome.bind_eq_ok h
    obtain ⟨opArg, -, h⟩ := Outcome.bind_eq_ok h
    simp only at h
    split at h
    · obtain ⟨old, -, h⟩ := Outcome.bind_eq_ok h
      obtain ⟨-, -, h⟩ := Outcome.bind_eq_ok h
      obtain ⟨c', hc', h⟩ := Outcome.bind_eq_ok h
      obtain ⟨ctx₁, hinc, h⟩ := Outcome.bind_eq_ok h
      cases h
      exact (hc.quiet (hq.assign r hmem hc')).update hname hinc
    · obtain ⟨ctx₁, hinc, h⟩ := Outcome.bind_eq_ok h
      cases h
      exact (hc.quiet hq).update hname hinc

theorem isUpdateOf_rename (old new n : String) (inst : Inst V) :
    (inst.rename old new).isUpdateOf n =
      if n = new then inst.isUpdateOf old || inst.isUpdateOf new
      else if n = old then false else inst.isUpdateOf n := by
  cases inst with
  | update obj key value captured =>
    by_cases ho : obj = old
    · subst ho
      by_cases hn : n = new
      · subst hn
        simp [Inst.rename, Inst.isUpdateOf]
      · simp [Inst.rename, Inst.isUpdateOf, hn, Ne.symm hn, eq_comm]
    · by_cases hn : n = new
      · subst hn
        simp [Inst.rename, Inst.isUpdateOf, ho]
      · by_cases hno : n = old
        · subst hno
          simp [Inst.rename, Inst.isUpdateOf, ho, hn]
        · simp [Inst.rename, Inst.isUpdateOf, ho, hn, hno]
  | _ => simp [Inst.rename, Inst.isUpdateOf]

theorem updateCount_rename {insts : List (Inst V)} {new : String}
    (hnew : insts.countP (Inst.isUpdateOf new) = 0) (old n : String) :
    (insts.map (Inst.rename old new)).countP (Inst.isUpdateOf n) =
      if n = new then insts.countP (Inst.isUpdateOf old)
      else if n = old then 0 else insts.countP (Inst.isUpdateOf n) := by
  have hfree := List.countP_eq_zero.mp hnew
  rw [List.countP_map]
  by_cases hn : n = new
  · subst hn
    rw [if_pos rfl]
    refine List.countP_congr (fun inst hi => ?_)
    have hno := hfree inst hi
    simp only [Bool.not_eq_true] at hno
    simp [isUpdateOf_rename, hno]
  · rw [if_neg hn]
    by_cases ho : n = old
    · subst ho
      rw [if_pos rfl]
      simp [List.countP_eq_zero, isUpdateOf_rename, hn]
    · rw [if_neg ho]
      refine List.countP_congr (fun inst _ => ?_)
      simp [isUpdateOf_rename, hn, ho]

theorem renameVar_ok {ctx ctx' : ActionContext V} {old new : String}
    (h : ctx.renameVar old new = .ok ctx') : (old = new ∧ ctx' = ctx) ∨
      ∃ state, old ≠ new ∧ ctx.varState new = none ∧ ctx.varState old = some state ∧
        ctx' = { ctx with
          varState := Function.update (Function.update ctx.varState old none) new (some state)
          vars := ctx.vars.replace old new
          insts := ctx.insts.map (Inst.rename old new) } := by
  unfold ActionContext.renameVar at h
  by_cases hon : old = new
  · rw [if_pos hon] at h
    cases h
    exact .inl ⟨hon, rfl⟩
  · rw [if_neg hon] at h
    cases hnew : ctx.varState new with
    | some s => simp [hnew] at h
    | none =>
      cases hold : ctx.varState old with
      | none => simp [hnew, hold] at h
      | some state =>
        simp only [hnew, hold, Outcome.ok.injEq] at h
        exact .inr ⟨state, hon, rfl, rfl, h.symm⟩

theorem Counted.rename {ctx ctx' : ActionContext V} {old new : String} (hc : Counted ctx)
    (hold : old ≠ "chain") (h : ctx.renameVar old new = .ok ctx') : Counted ctx' := by
  rcases renameVar_ok h with ⟨-, rfl⟩ | ⟨state, hne, hnew, hstate, rfl⟩
  · exact hc
  · have hchain : new ≠ "chain" := by
      intro heq
      subst heq
      have hknown := hc.chainKnown
      simp [hnew] at hknown
    have hzero : ctx.updateCount new = 0 := by
      rw [hc.updates new hchain]
      simp [ts?, hnew]
    have hcount := updateCount_rename hzero old
    refine ⟨hc.noChain, ?_, ?_, ?_⟩
    · intro n hn
      unfold updateCount
      rw [hcount]
      by_cases h₁ : n = new
      · subst h₁
        have hts := hc.updates old hold
        rw [if_pos rfl, ← updateCount, hts]
        simp [ts?, hstate]
      · by_cases h₂ : n = old
        · subst h₂
          simp [ts?, h₁]
        · have hts := hc.updates n hn
          rw [if_neg h₁, if_neg h₂, ← updateCount, hts]
          simp [ts?, Function.update_of_ne h₁, Function.update_of_ne h₂]
    · unfold updateCount
      rw [hcount, if_neg (Ne.symm hchain), if_neg (Ne.symm hold)]
      exact hc.chainFree
    · simp only [Function.update_of_ne (Ne.symm hchain), Function.update_of_ne (Ne.symm hold)]
      exact hc.chainKnown

theorem nameVar_ok {ctx ctx' : ActionContext V} {old name : String}
    (h : ctx.nameVar old name = .ok ctx') : ctx.addVar name = .ok ctx' ∨
      ∃ ctx₁ s, ctx.renameVar old name = .ok ctx₁ ∧ ctx₁.varState name = some s ∧
        ctx' = ctx₁.setVarState name { s with anonymous := false } := by
  unfold ActionContext.nameVar at h
  split at h
  · obtain ⟨ctx₁, hren, h⟩ := Outcome.bind_eq_ok h
    cases hs : ctx₁.varState name with
    | none => simp [hs] at h
    | some s =>
      simp only [hs, Outcome.pure_eq, Outcome.ok.injEq] at h
      exact .inr ⟨ctx₁, s, hren, hs, h.symm⟩
  · exact .inl h

theorem Counted.nameVar {ctx ctx' : ActionContext V} {old name : String} (hc : Counted ctx)
    (hold : old ≠ "chain") (h : ctx.nameVar old name = .ok ctx') :
    Counted ctx' ∧ name ≠ "chain" := by
  rcases nameVar_ok h with hadd | ⟨ctx₁, s, hren, hs, rfl⟩
  · refine ⟨hc.quiet (.addVar hadd), ?_⟩
    intro heq
    have hknown := hc.chainKnown
    rw [← heq, (addVar_ok hadd).1] at hknown
    cases hknown
  · refine ⟨(hc.rename hold hren).quiet (.setVarState ctx₁ hs rfl), ?_⟩
    rcases renameVar_ok hren with ⟨heq, -⟩ | ⟨-, -, hnew, -, -⟩
    · rw [← heq]
      exact hold
    · intro heq
      have hknown := hc.chainKnown
      rw [← heq, hnew] at hknown
      cases hknown

theorem Counted.bindVar {ctx ctx' : ActionContext V} {name : String} {r : Ref} (hc : Counted ctx)
    (h : ctx.bindVar name r = .ok ctx') : Counted ctx' := by
  unfold ActionContext.bindVar at h
  obtain ⟨c, hcell, h⟩ := Outcome.bind_eq_ok h
  have hmem := mem_of_cell hcell
  split at h
  · cases h
    exact hc
  · cases c with
    | value x =>
      cases h
      exact hc
    | var v =>
      obtain ⟨ctx₁, hname, h⟩ := Outcome.bind_eq_ok h
      cases h
      obtain ⟨hc₁, hne⟩ := hc.nameVar (hc.noChain v hmem) hname
      refine hc₁.quiet ((Quiet.refl ctx₁).write r (fun w hw => .inl ?_))
      cases hw
      exact hne

/-! ## Declarations -/

theorem decls_rename (insts : List (Inst V)) (old new : String) :
    (insts.map (Inst.rename old new)).filter Inst.declares = insts.filter Inst.declares := by
  induction insts with
  | nil => rfl
  | cons inst insts ih => cases inst <;> simp [Inst.rename, Inst.declares, List.filter_cons, ih]

theorem Still.nameVar {ctx ctx' : ActionContext V} {old name : String}
    (h : ctx.nameVar old name = .ok ctx') : Still ctx ctx' := by
  rcases nameVar_ok h with hadd | ⟨ctx₁, s, hren, -, rfl⟩
  · exact (Quiet.addVar hadd).toStill
  · rcases renameVar_ok hren with ⟨-, rfl⟩ | ⟨state, -, -, -, rfl⟩
    · exact ⟨rfl, rfl⟩
    · exact ⟨decls_rename ctx.insts old name, rfl⟩

theorem Still.bindVar {ctx ctx' : ActionContext V} {name : String} {r : Ref}
    (h : ctx.bindVar name r = .ok ctx') : Still ctx ctx' := by
  unfold ActionContext.bindVar at h
  obtain ⟨c, -, h⟩ := Outcome.bind_eq_ok h
  split at h
  · cases h
    exact .refl ctx
  · cases c with
    | value x =>
      cases h
      exact .refl ctx
    | var v =>
      obtain ⟨ctx₁, hname, h⟩ := Outcome.bind_eq_ok h
      cases h
      exact (Still.nameVar hname).trans ⟨rfl, rfl⟩

theorem Still.updateObj {ctx ctx' : ActionContext V} {r : Ref} {key : String} {value : Arg V}
    (h : ctx.updateObj r key value = .ok ctx') : Still ctx ctx' := by
  unfold ActionContext.updateObj at h
  obtain ⟨c, -, h⟩ := Outcome.bind_eq_ok h
  obtain ⟨-, -, h⟩ := Outcome.bind_eq_ok h
  cases c with
  | value x =>
    cases h
    exact .refl ctx
  | var v =>
    have hq := (Quiet.deref ctx value).toStill
    obtain ⟨-, -, h⟩ := Outcome.bind_eq_ok h
    obtain ⟨opArg, -, h⟩ := Outcome.bind_eq_ok h
    simp only at h
    split at h
    · obtain ⟨old, -, h⟩ := Outcome.bind_eq_ok h
      obtain ⟨-, -, h⟩ := Outcome.bind_eq_ok h
      obtain ⟨c', -, h⟩ := Outcome.bind_eq_ok h
      obtain ⟨ctx₁, hinc, h⟩ := Outcome.bind_eq_ok h
      cases h
      obtain ⟨s, -, rfl⟩ := incTVar_ok hinc
      refine Still.push (hq.trans ?_) (by rfl)
      exact ⟨rfl, rfl⟩
    · obtain ⟨ctx₁, hinc, h⟩ := Outcome.bind_eq_ok h
      cases h
      obtain ⟨s, -, rfl⟩ := incTVar_ok hinc
      refine Still.push (hq.trans ?_) (by rfl)
      exact ⟨rfl, rfl⟩

/-- A call declares an object, calls a sub-action, or does neither. -/
theorem call_cases {env : Env V} {runSub : RunSub V} {ctx ctx' : ActionContext V} {call : Call V}
    (h : call.run env runSub ctx = .ok ctx') : Still ctx ctx' ∨
      (∃ io class_ exe value original s, call = .object io class_ ∧
        Took env io class_ ctx.exeCtx exe value original ∧
        ctx' = ctx.declare exe value (.object io ctx.heap.length class_ original) s) ∨
      ∃ action exe value captured s, call = .subaction action ∧
        Called runSub action ctx.exeCtx exe value captured ∧
        ctx' = ctx.declare exe value (.subAction action ctx.heap.length captured) s := by
  cases call with
  | object io class_ =>
    obtain ⟨exe, value, original, s, -, htook, rfl⟩ := objIo_ok h
    exact .inr (.inl ⟨io, class_, exe, value, original, s, rfl, htook, rfl⟩)
  | subaction action =>
    obtain ⟨exe, value, captured, s, -, hcalled, rfl⟩ := subaction_ok h
    exact .inr (.inr ⟨action, exe, value, captured, s, rfl, hcalled, rfl⟩)
  | bind name r => exact .inl (.bindVar h)
  | set r kvs => exact .inl (Quiet.setObj h).toStill
  | update r key value => exact .inl (.updateObj h)
  | commitment r => exact .inl (Quiet.commitment h).toStill
  | entry r key => exact .inl (Quiet.entry h).toStill
  | get lookup container key => exact .inl (Quiet.get h).toStill
  | statement pred args => exact .inl (Quiet.statement h).toStill
  | introVdf n input => exact .inl (Quiet.introVdf h).toStill
  | introLtEqU256 lhs rhs => exact .inl (Quiet.introLtEqU256 h).toStill
  | beginUnsafe => exact .inl (Quiet.beginUnsafe h).toStill
  | endUnsafe result => exact .inl (Quiet.endUnsafe h).toStill
  | random => exact .inl (Quiet.random h).toStill
  | powObjGrind obj key target => exact .inl (Quiet.powObjGrind h).toStill
  | arith op a b => exact .inl (Quiet.arith h).toStill
  | varAssign lhs rhs => exact .inl (Quiet.varAssign h).toStill

theorem Counted.new (env : Env V) (exe : Option (ExeContext V)) :
    Counted (ActionContext.new env exe) := by
  refine ⟨?_, ?_, rfl, ?_⟩
  · intro v hv
    simp only [ActionContext.new, List.mem_singleton, VarOrValue.var.injEq] at hv
    subst hv
    simp
  · intro n hn
    by_cases h : n = "state_header"
    · subst h
      simp [ActionContext.new, updateCount, ts?, VarState.default]
    · simp [ActionContext.new, updateCount, ts?, Function.update_of_ne h, Function.update_of_ne hn]
  · simp [ActionContext.new]

theorem Counted.call {env : Env V} {runSub : RunSub V} {ctx ctx' : ActionContext V} {call : Call V}
    (hc : Counted ctx) (h : call.run env runSub ctx = .ok ctx') : Counted ctx' := by
  cases call with
  | object io class_ =>
    obtain ⟨exe, value, original, s, -, -, rfl⟩ := objIo_ok h
    exact hc.declare exe value s (fun _ => rfl)
  | bind name r => exact hc.bindVar h
  | set r kvs => exact hc.quiet (.setObj h)
  | update r key value => exact hc.updateObj h
  | commitment r => exact hc.quiet (.commitment h)
  | entry r key => exact hc.quiet (.entry h)
  | get lookup container key => exact hc.quiet (.get h)
  | statement pred args => exact hc.quiet (.statement h)
  | introVdf n input => exact hc.quiet (.introVdf h)
  | introLtEqU256 lhs rhs => exact hc.quiet (.introLtEqU256 h)
  | subaction action =>
    obtain ⟨exe, value, captured, s, -, -, rfl⟩ := subaction_ok h
    exact hc.declare exe value s (fun _ => rfl)
  | beginUnsafe => exact hc.quiet (.beginUnsafe h)
  | endUnsafe result => exact hc.quiet (.endUnsafe h)
  | random => exact hc.quiet (.random h)
  | powObjGrind obj key target => exact hc.quiet (.powObjGrind h)
  | arith op a b => exact hc.quiet (.arith h)
  | varAssign lhs rhs => exact hc.quiet (.varAssign h)

/-- The count holds after any run of calls. -/
theorem Counted.run {env : Env V} {runSub : RunSub V} {ctx ctx' : ActionContext V}
    {calls : List (Call V)} (hc : Counted ctx) (h : ctx.runCalls env runSub calls = .ok ctx') :
    Counted ctx' := by
  induction calls generalizing ctx with
  | nil =>
    cases h
    exact hc
  | cons call calls ih =>
    obtain ⟨ctx₁, hcall, h⟩ := Outcome.bind_eq_ok h
    exact ih (hc.call hcall) h

end ActionContext

/-! ## Loaded actions -/

/-- An action of a loaded module. -/
structure LoadedAction.Loads (a : LoadedAction V) : Prop where
  counted : a.ctx.Counted
  meta_ok : ∃ prior name, ActionMeta.fromActionCtx prior name a.ctx = .ok a.meta_
  clauses_ok : ∃ metas, a.ctx.fmtAction a.meta_ metas = .ok a.clauses

theorem loadAction_loads {env : Env V} {prior : List (LoadedAction V)} {script : Script V}
    {a : LoadedAction V} (h : loadAction env prior script = .ok a) : a.Loads := by
  unfold loadAction at h
  obtain ⟨ctx, hctx, h⟩ := Outcome.bind_eq_ok h
  obtain ⟨m, hm, h⟩ := Outcome.bind_eq_ok h
  obtain ⟨cs, hcs, h⟩ := Outcome.bind_eq_ok h
  cases h
  exact ⟨(ActionContext.Counted.new env none).run hctx, ⟨_, _, hm⟩, ⟨_, hcs⟩⟩

theorem loadActions_loads {env : Env V} {prior actions : List (LoadedAction V)}
    {scripts : List (Script V)} (hprior : ∀ a ∈ prior, a.Loads)
    (h : loadActions env prior scripts = .ok actions) : ∀ a ∈ actions, a.Loads := by
  induction scripts generalizing prior with
  | nil =>
    cases h
    exact hprior
  | cons script scripts ih =>
    obtain ⟨b, hb, h⟩ := Outcome.bind_eq_ok h
    refine ih ?_ h
    intro a ha
    rcases List.mem_append.mp ha with ha | ha
    · exact hprior a ha
    · rw [List.mem_singleton.mp ha]
      exact loadAction_loads hb

theorem loadModule_loads {env : Env V} {scripts : List (Script V)}
    {actions : List (LoadedAction V)} (h : loadModule env scripts = .ok actions) :
    (∀ a ∈ actions, a.Loads) ∧ (actions.map fun a => a.meta_.name).Nodup := by
  unfold loadModule at h
  obtain ⟨as, has, h⟩ := Outcome.bind_eq_ok h
  obtain ⟨-, -, h⟩ := Outcome.bind_eq_ok h
  obtain ⟨⟨hnames⟩, -, h⟩ := Outcome.bind_eq_ok h
  cases h
  exact ⟨loadActions_loads (by simp) has, hnames⟩

theorem fromActionCtx_ok {prior : List ActionMeta} {name : String} {ctx : ActionContext V}
    {m : ActionMeta} (h : ActionMeta.fromActionCtx prior name ctx = .ok m) :
    m.objectRefs = ctx.objectRefs ∧ m.varMaxTs = ctx.maxTsPerVar ∧
    m.inEntries = ((ctx.objectRefs.filter fun r => r.io.consumes).map fun r =>
      ⟨r.varname, ctx.computeWildcardNeeds.inSide.contains r.varname⟩) ∧
    m.outEntries = ((ctx.objectRefs.filter fun r => r.io.produces).map fun r =>
      ⟨r.varname, ctx.computeWildcardNeeds.outSide.contains r.varname⟩) ∧
    ∀ es, m.initialsEntries = some es →
      es = (ctx.objectRefs.filter fun r => r.io = .output).map fun r =>
        ⟨r.varname, ctx.computeWildcardNeeds.initials.contains r.varname⟩ := by
  unfold ActionMeta.fromActionCtx at h
  obtain ⟨⟨ins, outs⟩, -, h⟩ := Outcome.bind_eq_ok h
  cases h
  refine ⟨rfl, rfl, rfl, rfl, ?_⟩
  intro es hes
  simp only at hes
  split at hes
  · cases hes
  · simpa using hes.symm

end DigitalObjects.Sdk
