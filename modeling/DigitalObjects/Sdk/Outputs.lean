import DigitalObjects.Sdk.Shape
import DigitalObjects.Sdk.Apply
import DigitalObjects.Sdk.Guard
import DigitalObjects.Lib.Lists
set_option autoImplicit false
set_option linter.unusedSectionVars false

/-!
The outputs of a built action and its declared shape. Emission follows the sub-actions first,
so the two agree only where the declarations do the same.
-/

namespace DigitalObjects.Sdk

open Pod2 Lib Txlib ActionContext

variable {V : Type} [Values V] [Decodes V]

/-! ## What `Load` declares -/

/-- Actions loaded one after the other, the latest first. -/
inductive LoadedChain (env : Env V) : List (LoadedAction V) → Prop
  | nil : LoadedChain env []
  | cons {a : LoadedAction V} {prior : List (LoadedAction V)} (script : Script V) :
      LoadedChain env prior → loadAction env prior.reverse script = .ok a →
      LoadedChain env (a :: prior)

theorem loadActions_chain {env : Env V} {prior actions : List (LoadedAction V)}
    {scripts : List (Script V)} (hprior : LoadedChain env prior.reverse)
    (h : loadActions env prior scripts = .ok actions) : LoadedChain env actions.reverse := by
  induction scripts generalizing prior with
  | nil =>
    cases h
    exact hprior
  | cons script scripts ih =>
    obtain ⟨a, ha, h⟩ := Outcome.bind_eq_ok h
    refine ih ?_ h
    rw [List.reverse_append, List.reverse_singleton, List.singleton_append]
    exact .cons script hprior (by rwa [List.reverse_reverse])

def ActionObjectRef.taken (r : ActionObjectRef) : Taken := ⟨r.io, r.class_⟩

def ActionObjectRef.tag (r : ActionObjectRef) : String × Bool := (r.class_, r.io = .mutate)

/-- The totals of an action are its declared shape. -/
structure Declares (m : ActionMeta) (s : Shape) : Prop where
  inputs : m.totalInputs.map ActionObjectRef.taken = s.inputs
  outputs : m.totalOutputs.map ActionObjectRef.tag = s.declared.map Slot.tag

theorem Declares.totals {ctx : ActionContext V} {prior : List ActionMeta} {sub : String → Shape}
    (hsub : ∀ m ∈ prior, Declares m (sub m.name)) {insts : List (Inst V)}
    {ins outs : List ActionObjectRef} (h : ctx.totals prior insts = .ok (ins, outs)) (base : Nat) :
    ins.map ActionObjectRef.taken = (insts.filterMap Inst.decl).flatMap (Decl.takes sub) ∧
    outs.map ActionObjectRef.tag =
      (walk sub (fun base d => d.own base ++ d.called (fun a => (sub a).declared) base) base
        (insts.filterMap Inst.decl)).map Slot.tag := by
  induction insts generalizing ins outs base with
  | nil =>
    cases h
    exact ⟨rfl, rfl⟩
  | cons inst insts ih =>
    unfold ActionContext.totals at h
    obtain ⟨⟨ins₁, outs₁⟩, hinst, h⟩ := Outcome.bind_eq_ok h
    obtain ⟨⟨ins₂, outs₂⟩, hrest, h⟩ := Outcome.bind_eq_ok h
    cases h
    cases inst with
    | object io obj class_ original =>
      obtain ⟨hi, ho⟩ := ih hrest (base + (Decl.takes sub (.object io class_)).length)
      cases hinst
      simp only [List.filterMap_cons, Inst.decl, List.flatMap_cons, walk, List.map_append, hi, ho]
      cases io <;> simp [Decl.takes, Decl.own, Decl.called, ObjectIO.consumes, ObjectIO.produces,
        ActionObjectRef.taken, ActionObjectRef.tag, Slot.tag]
    | subAction action obj captured =>
      obtain ⟨hi, ho⟩ := ih hrest (base + (Decl.takes sub (.sub action)).length)
      unfold ActionContext.instTotals at hinst
      cases hfind : prior.find? fun m => m.name = action with
      | none => simp [hfind] at hinst
      | some m =>
        have hmem := List.mem_of_find?_eq_some hfind
        have hname : m.name = action := by simpa using List.find?_some hfind
        have hm := hsub m hmem
        rw [hname] at hm
        simp only [hfind] at hinst
        split at hinst
        · cases hinst
        · cases hinst
          simp only [List.filterMap_cons, Inst.decl, List.flatMap_cons, walk, List.map_append,
            hi, ho, hm.inputs, hm.outputs, Decl.takes, Decl.own, Decl.called, List.nil_append]
          refine ⟨trivial, ?_⟩
          congr 1
          simp [Function.comp_def, Slot.tag_shift]
    | _ =>
      cases hinst
      exact ih hrest base

/-- Every action of a chain with distinct names declares its shape. -/
theorem LoadedChain.declares {env : Env V} {acts : List (LoadedAction V)}
    (hchain : LoadedChain env acts) (hnames : (acts.map fun a => a.meta_.name).Nodup) :
    ∀ a ∈ acts, Declares a.meta_ (shapeAt loadDecls acts a.meta_.name) := by
  induction hchain with
  | nil => simp
  | @cons b prior script hprior hload ih =>
    intro a ha
    simp only [List.map_cons, List.nodup_cons, List.mem_map, not_exists, not_and] at hnames
    rcases List.mem_cons.mp ha with rfl | ha
    · unfold loadAction at hload
      obtain ⟨ctx, -, hload⟩ := Outcome.bind_eq_ok hload
      obtain ⟨m, hm, hload⟩ := Outcome.bind_eq_ok hload
      obtain ⟨cs, -, hload⟩ := Outcome.bind_eq_ok hload
      cases hload
      unfold ActionMeta.fromActionCtx at hm
      obtain ⟨⟨ins, outs⟩, htotals, hm⟩ := Outcome.bind_eq_ok hm
      cases hm
      have hsub : ∀ m ∈ prior.reverse.map LoadedAction.meta_,
          Declares m (shapeAt loadDecls prior m.name) := by
        intro m hm
        obtain ⟨c, hc, rfl⟩ := List.mem_map.mp hm
        exact ih hnames.2 c (List.mem_reverse.mp hc)
      obtain ⟨hi, ho⟩ := Declares.totals hsub htotals 0
      simp only [shapeAt, if_true]
      exact ⟨hi, ho⟩
    · have hne : b.meta_.name ≠ a.meta_.name := fun heq => hnames.1 a ha heq.symm
      simp only [shapeAt, if_neg hne]
      exact ih hnames.2 a ha

/-! ## Events and sub-actions of a predicate -/

def Pred.isTx : Pred → Bool
  | .txInsert | .txMutate | .txDelete => true
  | _ => false

def Pred.isAction : Pred → Bool
  | .action _ => true
  | _ => false

def txPred : ObjectIO → Pred
  | .input => .txDelete
  | .output => .txInsert
  | .mutate => .txMutate

/-- Predicates before the events, with the sub-actions that they call. -/
structure Calling (preds : List Pred) (subs : List String) : Prop where
  noTx : ∀ p ∈ preds, p.isTx = false
  actions : preds.filter Pred.isAction = subs.map .action

theorem Calling.nil : Calling [] [] := ⟨by simp, rfl⟩

theorem Calling.append {ps qs : List Pred} {ss ts : List String} (h : Calling ps ss)
    (h' : Calling qs ts) : Calling (ps ++ qs) (ss ++ ts) := by
  refine ⟨?_, by rw [List.filter_append, h.actions, h'.actions, List.map_append]⟩
  intro p hp
  rcases List.mem_append.mp hp with hp | hp
  · exact h.noTx p hp
  · exact h'.noTx p hp

theorem Calling.natives {ps : List Pred} (h : ∀ p ∈ ps, ∃ n, p = .native n) : Calling ps [] := by
  constructor
  · intro p hp
    obtain ⟨n, rfl⟩ := h p hp
    rfl
  · simp only [List.map_nil, List.filter_eq_nil_iff]
    intro p hp
    obtain ⟨n, rfl⟩ := h p hp
    simp [Pred.isAction]

section Clauses

variable {ctx : ActionContext V} {m : ActionMeta}

theorem fmtPins_calling {os : List ActionObjectRef} {cs : List (Clause V)}
    (h : fmtPins m os = .ok cs) : Calling (cs.map Clause.pred) [] := by
  have hpin : ∀ (record : Wild) (entry : Option (Nat × EntryShape)) (x : String) (ts : Nat),
      Calling ((fmtPin record entry x ts : List (Clause V)).map Clause.pred) [] := by
    intro record entry x ts
    refine .natives (fun p hp => ?_)
    obtain ⟨c, hc, rfl⟩ := List.mem_map.mp hp
    unfold fmtPin at hc
    split at hc
    · split at hc
      · rw [List.mem_singleton.mp hc]
        exact ⟨_, rfl⟩
      · cases hc
    · cases hc
  induction os generalizing cs with
  | nil =>
    cases h
    exact .nil
  | cons o os ih =>
    unfold fmtPins at h
    obtain ⟨maxTs, -, h⟩ := Outcome.bind_eq_ok h
    obtain ⟨rest, hrest, h⟩ := Outcome.bind_eq_ok h
    cases h
    simp only [List.map_append]
    exact (((hpin _ _ _ _).append (hpin _ _ _ _)).append (hpin _ _ _ _)).append (ih hrest)

theorem fmtAliases_calling {metas : List ActionMeta} {subs : List String} {insts : List (Inst V)}
    {cs : List (Clause V)} (h : ctx.fmtAliases m metas subs insts = .ok cs) :
    Calling (cs.map Clause.pred) [] := by
  induction insts generalizing subs cs with
  | nil =>
    cases h
    exact .nil
  | cons inst insts ih =>
    cases inst with
    | subAction action obj captured =>
      unfold ActionContext.fmtAliases at h
      obtain ⟨rest, hrest, h⟩ := Outcome.bind_eq_ok h
      simp only at h
      split at h
      · cases h
      · split at h
        · obtain ⟨-, -, h⟩ := Outcome.bind_eq_ok h
          cases h
          have hpin : Calling [.native .arrayContains] [] := .natives (by simp)
          exact hpin.append (ih hrest)
        · cases h
          exact ih hrest
    | _ => exact ih h

theorem fmtInst_calling {ts : String → Nat} {subs : List String} {inst : Inst V}
    {cs : List (Clause V)} (h : ctx.fmtInst m ts subs inst = .ok cs) :
    Calling (cs.map Clause.pred) inst.subName.toList := by
  cases inst with
  | object io obj class_ original =>
    cases h
    exact .nil
  | set obj kvs captured =>
    obtain ⟨o, -, h⟩ := Outcome.bind_eq_ok h
    obtain ⟨values, -, h⟩ := Outcome.bind_eq_ok h
    cases h
    refine .natives (fun p hp => ?_)
    obtain ⟨c, hc, rfl⟩ := List.mem_map.mp hp
    obtain ⟨kv, -, rfl⟩ := List.mem_map.mp hc
    exact ⟨_, rfl⟩
  | update obj key value captured =>
    obtain ⟨old, -, h⟩ := Outcome.bind_eq_ok h
    obtain ⟨v, -, h⟩ := Outcome.bind_eq_ok h
    obtain ⟨new, -, h⟩ := Outcome.bind_eq_ok h
    cases h
    exact .natives (by simp)
  | statement pred args captured =>
    obtain ⟨as, -, h⟩ := Outcome.bind_eq_ok h
    cases h
    exact .natives (by simp)
  | intro pred args captured =>
    obtain ⟨as, -, h⟩ := Outcome.bind_eq_ok h
    cases h
    exact ⟨by simp [Pred.isTx], rfl⟩
  | subAction action obj captured =>
    obtain ⟨chain, -, h⟩ := Outcome.bind_eq_ok h
    obtain ⟨chainNext, -, h⟩ := Outcome.bind_eq_ok h
    cases h
    exact ⟨by simp [Pred.isTx], rfl⟩

theorem fmtBody_calling {ts ts' : String → Nat} {subs : List String} {insts : List (Inst V)}
    {cs : List (Clause V)} (h : ctx.fmtBody m ts subs insts = .ok (cs, ts')) :
    Calling (cs.map Clause.pred) (insts.filterMap Inst.subName) := by
  induction insts generalizing ts subs cs with
  | nil =>
    cases h
    exact .nil
  | cons inst insts ih =>
    unfold ActionContext.fmtBody at h
    obtain ⟨cs₁, hinst, h⟩ := Outcome.bind_eq_ok h
    obtain ⟨⟨cs₂, ts₂⟩, hrest, h⟩ := Outcome.bind_eq_ok h
    cases h
    rw [List.map_append]
    have happ := (fmtInst_calling hinst).append (ih hrest)
    cases hs : inst.subName <;> simpa [List.filterMap_cons, hs] using happ

/-- The rendered event of an object ends with its class. -/
def EventOf (o : ActionObjectRef) (c : Clause V) : Prop :=
  c.pred = txPred o.io ∧ ∃ args, c.args = args ++ [.selfPredicate o.class_]

theorem fmtEvents_events {ts : String → Nat} {os : List ActionObjectRef} {cs : List (Clause V)}
    (h : ctx.fmtEvents m ts os = .ok cs) : List.Forall₂ EventOf os cs := by
  induction os generalizing ts cs with
  | nil =>
    cases h
    exact .nil
  | cons o os ih =>
    unfold ActionContext.fmtEvents at h
    obtain ⟨c, hc, h⟩ := Outcome.bind_eq_ok h
    obtain ⟨cs₁, hrest, h⟩ := Outcome.bind_eq_ok h
    cases h
    refine .cons ?_ (ih hrest)
    unfold ActionContext.fmtEvent at hc
    obtain ⟨chain, -, hc⟩ := Outcome.bind_eq_ok hc
    obtain ⟨chainNext, -, hc⟩ := Outcome.bind_eq_ok hc
    obtain ⟨obj, -, hc⟩ := Outcome.bind_eq_ok hc
    cases hio : o.io with
    | input =>
      simp only [hio] at hc
      cases hc
      exact ⟨by rw [hio]; rfl, [chain, chainNext, obj], rfl⟩
    | output =>
      simp only [hio] at hc
      obtain ⟨objWithId, -, hc⟩ := Outcome.bind_eq_ok hc
      cases hc
      exact ⟨by rw [hio]; rfl, [chain, chainNext, obj, objWithId], rfl⟩
    | mutate =>
      simp only [hio] at hc
      obtain ⟨pre, -, hc⟩ := Outcome.bind_eq_ok hc
      cases hc
      exact ⟨by rw [hio]; rfl, [chain, chainNext, pre, obj], rfl⟩

/-- A rendered predicate: sub-actions first, then one event for each object. -/
theorem fmtAction_parts {metas : List ActionMeta} {cs : List (Clause V)}
    (h : ctx.fmtAction m metas = .ok cs) : ∃ body events, cs = body ++ events ∧
      Calling (body.map Clause.pred) (ctx.insts.filterMap Inst.subName) ∧
      List.Forall₂ EventOf m.objectRefs events := by
  unfold ActionContext.fmtAction at h
  obtain ⟨pins, hpins, h⟩ := Outcome.bind_eq_ok h
  obtain ⟨aliases, haliases, h⟩ := Outcome.bind_eq_ok h
  obtain ⟨⟨body, ts⟩, hbody, h⟩ := Outcome.bind_eq_ok h
  obtain ⟨events, hevents, h⟩ := Outcome.bind_eq_ok h
  cases h
  refine ⟨_, events, rfl, ?_, fmtEvents_events hevents⟩
  simp only [List.map_append]
  exact ((fmtPins_calling hpins).append (fmtAliases_calling haliases)).append (fmtBody_calling hbody)

end Clauses

section Statements

variable {ctx : ActionContext V} {m : ActionMeta} {rec : Records V}

theorem exePin_calling {record : Option (Pod2.Array V)} {entry : Option (Nat × EntryShape)}
    {d : Dictionary V} {sts : List (Stmt V)} (h : exePin record entry d = .ok sts) :
    Calling (sts.map Stmt.pred) [] := by
  unfold exePin at h
  split at h
  · split at h
    · obtain ⟨-, -, h⟩ := Outcome.bind_eq_ok h
      cases h
      exact .natives (by simp)
    · cases h
      exact .nil
  · cases h
    exact .nil

theorem exePins_calling {io : Pod2.Array V} {initials : Option (Pod2.Array V)}
    {stamped : List (String × Dictionary V)} {os : List (ExeObject V)} {sts : List (Stmt V)}
    (h : exePins m io initials stamped os = .ok sts) : Calling (sts.map Stmt.pred) [] := by
  induction os generalizing sts with
  | nil =>
    cases h
    exact .nil
  | cons o os ih =>
    unfold exePins at h
    obtain ⟨pre, -, h⟩ := Outcome.bind_eq_ok h
    obtain ⟨post, -, h⟩ := Outcome.bind_eq_ok h
    obtain ⟨ins, hins, h⟩ := Outcome.bind_eq_ok h
    obtain ⟨outs, houts, h⟩ := Outcome.bind_eq_ok h
    obtain ⟨inits, hinits, h⟩ := Outcome.bind_eq_ok h
    obtain ⟨rest, hrest, h⟩ := Outcome.bind_eq_ok h
    cases h
    simp only [List.map_append]
    exact (((exePin_calling hins).append (exePin_calling houts)).append
      (exePin_calling hinits)).append (ih hrest)

theorem exeAlias_calling {obj : Ref} {captured : Option (SubRun V)} {sts : List (Stmt V)}
    (h : ctx.exeAlias obj captured = .ok sts) : Calling (sts.map Stmt.pred) [] := by
  unfold ActionContext.exeAlias at h
  split at h
  · cases h
    exact .nil
  · split at h
    · cases h
      exact .nil
    · obtain ⟨st, hst, h⟩ := Outcome.bind_eq_ok h
      unfold aliasPin at hst
      obtain ⟨-, -, hst⟩ := Outcome.bind_eq_ok hst
      cases hst
      cases h
      exact .natives (by simp)

theorem exeAliases_calling {insts : List (Inst V)} {sts : List (Stmt V)}
    (h : ctx.exeAliases insts = .ok sts) : Calling (sts.map Stmt.pred) [] := by
  induction insts generalizing sts with
  | nil =>
    cases h
    exact .nil
  | cons inst insts ih =>
    cases inst with
    | subAction action obj captured =>
      obtain ⟨sts₁, hpin, h⟩ := Outcome.bind_eq_ok h
      obtain ⟨rest, hrest, h⟩ := Outcome.bind_eq_ok h
      cases h
      rw [List.map_append]
      exact (exeAlias_calling hpin).append (ih hrest)
    | _ => exact ih h

theorem Stmt.lift_pred {entries : List (Option (OperationArg V))} {st st' : Stmt V}
    (h : st.lift entries = .ok st') : st'.pred = st.pred := by
  unfold Stmt.lift at h
  obtain ⟨args, -, h⟩ := Outcome.bind_eq_ok h
  cases h
  rfl

theorem dictContainsStmts_calling {dict : OperationArg V} {kvs : List (String × OperationArg V)}
    {sts : List (Stmt V)} (h : Outcome.mapList (Records.dictContainsStmt dict) kvs = .ok sts) :
    Calling (sts.map Stmt.pred) [] := by
  refine .natives (fun p hp => ?_)
  obtain ⟨st, hst, rfl⟩ := List.mem_map.mp hp
  obtain ⟨kv, -, hkv⟩ := Outcome.mem_mapList h hst
  unfold Records.dictContainsStmt at hkv
  obtain ⟨-, -, hkv⟩ := Outcome.bind_eq_ok hkv
  cases hkv
  exact ⟨_, rfl⟩

theorem exeInst_calling {env : Env V} {ts : String → Option Nat} {subs : Nat} {inst : Inst V}
    {sts : List (Stmt V)} (h : rec.exeInst m env ctx ts subs inst = .ok sts) :
    Calling (sts.map Stmt.pred) inst.subName.toList := by
  unfold Records.exeInst at h
  split at h
  · cases h
    exact .nil
  · obtain ⟨as, -, h⟩ := Outcome.bind_eq_ok h
    obtain ⟨-, -, h⟩ := Outcome.bind_eq_ok h
    cases h
    exact .natives (by simp)
  · obtain ⟨anchors, -, h⟩ := Outcome.bind_eq_ok h
    obtain ⟨st, hst, h⟩ := Outcome.bind_eq_ok h
    cases h
    refine ⟨?_, ?_⟩ <;> simp [Stmt.lift_pred hst, Pred.isTx, Pred.isAction, Inst.subName]
  · obtain ⟨st, hst, h⟩ := Outcome.bind_eq_ok h
    cases h
    unfold Records.subStmt at hst
    obtain ⟨prev, -, hst⟩ := Outcome.bind_eq_ok hst
    obtain ⟨next, -, hst⟩ := Outcome.bind_eq_ok hst
    simp only at hst
    split at hst
    · rename_i hlift
      cases hst
      refine ⟨?_, ?_⟩ <;> simp [Stmt.lift_pred hlift, Pred.isTx, Pred.isAction, Inst.subName]
    · cases hst
  · obtain ⟨dict, -, h⟩ := Outcome.bind_eq_ok h
    obtain ⟨as, -, h⟩ := Outcome.bind_eq_ok h
    exact dictContainsStmts_calling h
  · obtain ⟨as, -, h⟩ := Outcome.bind_eq_ok h
    obtain ⟨newArg, -, h⟩ := Outcome.bind_eq_ok h
    obtain ⟨oldArg, -, h⟩ := Outcome.bind_eq_ok h
    obtain ⟨st, hst, h⟩ := Outcome.bind_eq_ok h
    cases h
    unfold Records.dictUpdateStmt at hst
    obtain ⟨-, -, hst⟩ := Outcome.bind_eq_ok hst
    cases hst
    exact .natives (by simp)
  · cases h

theorem exeBody_calling {env : Env V} {ts : String → Option Nat} {subs : Nat}
    {insts : List (Inst V)} {sts : List (Stmt V)}
    (h : rec.exeBody m env ctx ts subs insts = .ok sts) :
    Calling (sts.map Stmt.pred) (insts.filterMap Inst.subName) := by
  induction insts generalizing ts subs sts with
  | nil =>
    cases h
    exact .nil
  | cons inst insts ih =>
    unfold Records.exeBody at h
    obtain ⟨sts₁, hinst, h⟩ := Outcome.bind_eq_ok h
    obtain ⟨sts₂, hrest, h⟩ := Outcome.bind_eq_ok h
    cases h
    rw [List.map_append]
    have happ := (exeInst_calling hinst).append (ih hrest)
    cases hs : inst.subName <;> simpa [List.filterMap_cons, hs] using happ

/-- An emitted event ends with the type of its object. -/
def EventFor (p : Pending V) (st : Stmt V) : Prop :=
  st.pred = txPred p.obj.io ∧ ∃ args type, st.args = args ++ [.literal type] ∧
    p.dict.lookup "type" = some type

theorem expectField_ok {obj : Dictionary V} {field message : String} {v : V}
    (h : (expectField obj field message : TxResult V V) = .ok v) : obj.lookup field = some v := by
  unfold expectField at h
  cases hf : obj.lookup field with
  | none => simp [hf] at h
  | some u => simpa [hf] using h

/-- What an event says of its object: for a mutate, the identifier is the original's. -/
theorem emit_ok {chain : V} {o : ExeObject V} {p : Pending V} (h : emit chain o = .ok p) :
    p.obj = o ∧ EventFor p p.stmt ∧ p.stmt.args.length = (if o.io = .input then 4 else 5) ∧
    (o.io = .mutate → ∃ old id, o.original = some old ∧
      old.lookup "stable_identifier" = some id ∧ p.dict.lookup "stable_identifier" = some id) := by
  unfold emit at h
  cases hio : o.io with
  | output =>
    simp only [hio] at h
    obtain ⟨new, -, h⟩ := Outcome.bind_eq_ok h
    obtain ⟨type, htype, h⟩ := Outcome.bind_eq_ok h
    cases h
    have htype := expectField_ok (Outcome.unwrap_eq_ok htype)
    have hpred : txPred o.io = .txInsert := by rw [hio, txPred]
    exact ⟨rfl, ⟨hpred.symm, literals [_, _, _, _], type, rfl, htype⟩, rfl, by simp⟩
  | input =>
    simp only [hio] at h
    obtain ⟨type, htype, h⟩ := Outcome.bind_eq_ok h
    cases h
    have htype := expectField_ok (Outcome.unwrap_eq_ok htype)
    have hpred : txPred o.io = .txDelete := by rw [hio, txPred]
    exact ⟨rfl, ⟨hpred.symm, literals [_, _, _], type, rfl, htype⟩, rfl, by simp⟩
  | mutate =>
    simp only [hio] at h
    cases horig : o.original with
    | none => simp [horig] at h
    | some old =>
      simp only [horig] at h
      obtain ⟨newType, htype, h⟩ := Outcome.bind_eq_ok h
      obtain ⟨oldType, -, h⟩ := Outcome.bind_eq_ok h
      obtain ⟨-, -, h⟩ := Outcome.bind_eq_ok h
      obtain ⟨newId, hnew, h⟩ := Outcome.bind_eq_ok h
      obtain ⟨oldId, hold, h⟩ := Outcome.bind_eq_ok h
      obtain ⟨⟨hid⟩, -, h⟩ := Outcome.bind_eq_ok h
      cases h
      have htype := expectField_ok (Outcome.unwrap_eq_ok htype)
      have hnew := expectField_ok (Outcome.unwrap_eq_ok hnew)
      have hold := expectField_ok (Outcome.unwrap_eq_ok hold)
      have hpred : txPred o.io = .txMutate := by rw [hio, txPred]
      refine ⟨rfl, ⟨hpred.symm, literals [_, _, _, _], newType, rfl, htype⟩, rfl, fun _ => ?_⟩
      exact ⟨old, oldId, rfl, hold, hid ▸ hnew⟩

/-- Lifting an event leaves its last argument. -/
theorem replaceArgs_last (entries : List (Option (OperationArg V)))
    {args args' : List (OperationArg V)} {last : OperationArg V}
    (hlen : entries.length = args.length)
    (h : replaceArgs (entries ++ [none]) (args ++ [last]) = .ok args') :
    ∃ args₁, args' = args₁ ++ [last] := by
  induction entries generalizing args args' with
  | nil =>
    have hnil : args = [] := by simpa using hlen.symm
    subst hnil
    cases h
    exact ⟨[], rfl⟩
  | cons e entries ih =>
    cases args with
    | nil => simp at hlen
    | cons arg args =>
      obtain ⟨a, -, h⟩ := Outcome.bind_eq_ok h
      obtain ⟨as, has, h⟩ := Outcome.bind_eq_ok h
      cases h
      obtain ⟨args₁, rfl⟩ := ih (by simpa using hlen) has
      exact ⟨a :: args₁, rfl⟩

theorem liftEvent_ok {postTs : Nat} {p : Pending V} {st : Stmt V} (hp : EventFor p p.stmt)
    (hlen : p.stmt.args.length = if p.obj.io = .input then 4 else 5)
    (h : rec.liftEvent m postTs p = .ok st) : EventFor p st := by
  unfold Records.liftEvent at h
  obtain ⟨old, -, h⟩ := Outcome.bind_eq_ok h
  obtain ⟨new, -, h⟩ := Outcome.bind_eq_ok h
  obtain ⟨initial, -, h⟩ := Outcome.bind_eq_ok h
  obtain ⟨prev, -, h⟩ := Outcome.bind_eq_ok h
  obtain ⟨next, -, h⟩ := Outcome.bind_eq_ok h
  obtain ⟨hpred, args, type, hargs, htype⟩ := hp
  refine ⟨(Stmt.lift_pred h).trans hpred, ?_⟩
  unfold Stmt.lift at h
  obtain ⟨args', hreplace, h⟩ := Outcome.bind_eq_ok h
  cases h
  rw [hargs] at hreplace hlen
  simp only [List.length_append, List.length_singleton] at hlen
  suffices hlast : ∃ args₁, args' = args₁ ++ [.literal type] by
    obtain ⟨args₁, rfl⟩ := hlast
    exact ⟨args₁, type, rfl, htype⟩
  cases hio : p.obj.io with
  | input =>
    simp only [hio, if_true] at hlen hreplace
    exact replaceArgs_last [prev, next, old] (by simp; omega) hreplace
  | output =>
    simp only [hio, reduceCtorEq, if_false] at hlen hreplace
    exact replaceArgs_last [prev, next, initial, new] (by simp; omega) hreplace
  | mutate =>
    simp only [hio, reduceCtorEq, if_false] at hlen hreplace
    exact replaceArgs_last [prev, next, old, new] (by simp; omega) hreplace

end Statements

/-! ## Types of the outputs -/

theorem txPred_isTx (io : ObjectIO) : (txPred io).isTx = true := by
  cases io <;> rfl

theorem txPred_isAction (io : ObjectIO) : (txPred io).isAction = false := by
  cases io <;> rfl

theorem txPred_injective {io io' : ObjectIO} (h : txPred io = txPred io') : io = io' := by
  cases io <;> cases io' <;> simp_all [txPred]

/-- The dictionary has the type of the class. -/
def OfClass (env : Env V) (class_ : String) (d : Dictionary V) : Prop :=
  ∃ h, env.classHash class_ = some h ∧ d.lookup "type" = some h

/-- An event that its rendered clause accepts. -/
def Accepted (env : Env V) (o : ActionObjectRef) (p : Pending V) : Prop :=
  p.obj.io = o.io ∧ OfClass env o.class_ p.dict

section Matching

variable {env : Env V} {τ : Wild → V} {body events : List (Clause V)} {body' events' : List (Stmt V)}
  {subs subs' : List String} {refs : List ActionObjectRef} {ps : List (Pending V)}
  (hmatch : List.Forall₂ (Clause.Matches env.classHash τ) (body ++ events) (body' ++ events'))
  (hbody : Calling (body.map Clause.pred) subs) (hevents : List.Forall₂ EventOf refs events)
  (hbody' : Calling (body'.map Stmt.pred) subs') (hevents' : List.Forall₂ EventFor ps events')

include hevents in
theorem events_pred : ∀ c ∈ events, c.pred.isTx = true ∧ c.pred.isAction = false := by
  intro c hc
  obtain ⟨o, -, ho⟩ := forall₂_mem_right hevents hc
  rw [ho.1]
  exact ⟨txPred_isTx o.io, txPred_isAction o.io⟩

include hevents' in
theorem events_pred' : ∀ st ∈ events', st.pred.isTx = true ∧ st.pred.isAction = false := by
  intro st hst
  obtain ⟨p, -, hp⟩ := forall₂_mem_right hevents' hst
  rw [hp.1]
  exact ⟨txPred_isTx p.obj.io, txPred_isAction p.obj.io⟩

include hmatch hbody hevents hbody' hevents' in
/-- The execution calls the sub-actions that `Load` rendered, in their order. -/
theorem subs_eq : subs' = subs := by
  have hpreds := map_eq_of_forall₂ hmatch (f := Clause.pred) (g := Stmt.pred) (fun _ _ h => h.1)
  have hleft : (events.map Clause.pred).filter Pred.isAction = [] := by
    rw [List.filter_eq_nil_iff]
    intro p hp
    obtain ⟨c, hc, rfl⟩ := List.mem_map.mp hp
    simp [(events_pred hevents c hc).2]
  have hright : (events'.map Stmt.pred).filter Pred.isAction = [] := by
    rw [List.filter_eq_nil_iff]
    intro p hp
    obtain ⟨st, hst, rfl⟩ := List.mem_map.mp hp
    simp [(events_pred' hevents' st hst).2]
  have hactions := congrArg (List.filter Pred.isAction) hpreds
  simp only [List.map_append, List.filter_append, hbody.actions, hbody'.actions, hleft, hright,
    List.append_nil] at hactions
  have hinj : Function.Injective Pred.action := fun a b h => by cases h; rfl
  exact (List.map_injective_iff.mpr hinj hactions).symm

include hmatch hbody hevents hbody' hevents' in
/-- Every emitted event is accepted by the clause of its object. -/
theorem events_accepted : List.Forall₂ (Accepted env) refs ps := by
  have hleft : (body ++ events).filter (fun c => c.pred.isTx) = events := by
    rw [List.filter_append, List.filter_eq_nil_iff.mpr, List.nil_append, List.filter_eq_self]
    · exact fun c hc => (events_pred hevents c hc).1
    · intro c hc
      simp [hbody.noTx _ (List.mem_map_of_mem hc)]
  have hright : (body' ++ events').filter (fun st => st.pred.isTx) = events' := by
    rw [List.filter_append, List.filter_eq_nil_iff.mpr, List.nil_append, List.filter_eq_self]
    · exact fun st hst => (events_pred' hevents' st hst).1
    · intro st hst
      simp [hbody'.noTx _ (List.mem_map_of_mem hst)]
  have hfilter := forall₂_filter hmatch (p := fun c => c.pred.isTx) (q := fun st => st.pred.isTx)
    (fun c st h => by rw [h.1])
  rw [hleft, hright] at hfilter
  clear hmatch hbody hbody' hleft hright
  induction hevents generalizing events' ps with
  | nil =>
    cases hfilter
    cases hevents'
    exact .nil
  | cons ho _ ih =>
    cases hfilter with
    | cons hc hrest =>
      cases hevents' with
      | cons hp hps =>
        refine .cons ?_ (ih hps hrest)
        obtain ⟨hpred, args, hargs⟩ := ho
        obtain ⟨hpred', args', type, hargs', htype⟩ := hp
        obtain ⟨heq, hmatches⟩ := hc
        rw [hpred, hpred'] at heq
        rw [hargs, hargs'] at hmatches
        have hlast := forall₂_last hmatches
        exact ⟨(txPred_injective heq).symm, type, hlast, htype⟩

end Matching

/-! ## Runs -/

/-- A produced object has the identifier of the input that it comes from. -/
def Descends (used : List (Dictionary V)) (s : Slot) (d : Dictionary V) : Prop :=
  ∀ k, s.input = some k → ∃ old id, used[k]? = some old ∧
    old.lookup "stable_identifier" = some id ∧ d.lookup "stable_identifier" = some id

theorem Descends.append {used : List (Dictionary V)} {s : Slot} {d : Dictionary V}
    (h : Descends used s d) (more : List (Dictionary V)) : Descends (used ++ more) s d := by
  intro k hk
  obtain ⟨old, id, hold, hid⟩ := h k hk
  have hlt : k < used.length := (List.getElem?_eq_some_iff.mp hold).1
  exact ⟨old, id, by rw [List.getElem?_append_left hlt, hold], hid⟩

theorem Descends.shift {used : List (Dictionary V)} {s : Slot} {d : Dictionary V}
    (h : Descends used s d) (before : List (Dictionary V)) :
    Descends (before ++ used) (s.shift before.length) d := by
  intro k hk
  simp only [Slot.shift, Option.map_eq_some_iff] at hk
  obtain ⟨j, hj, rfl⟩ := hk
  obtain ⟨old, id, hold, hid⟩ := h j hj
  refine ⟨old, id, ?_, hid⟩
  rw [List.getElem?_append_right (by omega), Nat.add_sub_cancel_left, hold]

variable (exec : String → Shape)

def Inst.takes (inst : Inst V) : List Taken := inst.decl.toList.flatMap (Decl.takes exec)

/-- Every mutate keeps the input that it took. -/
def Originals (used : List (Dictionary V)) (base : Nat) : List (Inst V) → Prop
  | [] => True
  | inst :: insts =>
    (∀ obj class_ original, inst = .object .mutate obj class_ original →
      ∃ old, original = some old ∧ used[base]? = some old) ∧
    Originals used (base + (inst.takes exec).length) insts

/-- A run of calls that declared `decls`: inputs taken, outputs emitted by sub-actions. -/
structure Ran (env : Env V) (load exec : String → Shape) (start : ExeContext V)
    (decls : List (Inst V)) (exe : ExeContext V) (used outs : List (Dictionary V)) : Prop where
  inputs : start.inputs = used ++ exe.inputs
  taken : exe.taken = start.taken ++ decls.flatMap (Inst.takes exec)
  count : used.length = (decls.flatMap (Inst.takes exec)).length
  outputs : exe.outputs = start.outputs ++ outs
  typed : List.Forall₂ (OfClass env)
    ((decls.filterMap Inst.subName).flatMap fun a => (load a).emitted.map Slot.class_) outs
  descends : List.Forall₂ (Descends used)
    (walk exec (Decl.called fun a => (exec a).emitted) 0 (decls.filterMap Inst.decl)) outs
  originals : Originals exec used 0 decls

/-- What an executed action did. -/
def Moved (env : Env V) (load exec : Shape) (exe exe' : ExeContext V) : Prop :=
  ∃ used outs, exe.inputs = used ++ exe'.inputs ∧ exe'.taken = exe.taken ++ exec.inputs ∧
    used.length = exec.inputs.length ∧ exe'.outputs = exe.outputs ++ outs ∧
    List.Forall₂ (OfClass env) (load.emitted.map Slot.class_) outs ∧
    List.Forall₂ (Descends used) exec.emitted outs

variable {exec}

theorem flatMap_takes (decls : List (Inst V)) :
    (decls.filterMap Inst.decl).flatMap (Decl.takes exec) = decls.flatMap (Inst.takes exec) := by
  induction decls with
  | nil => rfl
  | cons inst decls ih =>
    cases hd : inst.decl with
    | none => simp [hd, ih, Inst.takes]
    | some d => simp [hd, ih, Inst.takes]

theorem Originals.mono {used : List (Dictionary V)} {base : Nat} {insts : List (Inst V)}
    (h : Originals exec used base insts) (more : List (Dictionary V)) :
    Originals exec (used ++ more) base insts := by
  induction insts generalizing base with
  | nil => trivial
  | cons inst insts ih =>
    refine ⟨?_, ih h.2⟩
    intro obj class_ original heq
    obtain ⟨old, horig, hold⟩ := h.1 obj class_ original heq
    have hlt : base < used.length := (List.getElem?_eq_some_iff.mp hold).1
    exact ⟨old, horig, by rw [List.getElem?_append_left hlt, hold]⟩

theorem Originals.concat {used : List (Dictionary V)} {base : Nat} {insts : List (Inst V)}
    {inst : Inst V} (h : Originals exec used base insts)
    (hinst : ∀ obj class_ original, inst = .object .mutate obj class_ original →
      ∃ old, original = some old ∧
        used[base + (insts.flatMap (Inst.takes exec)).length]? = some old) :
    Originals exec used base (insts ++ [inst]) := by
  induction insts generalizing base with
  | nil => exact ⟨by simpa using hinst, trivial⟩
  | cons i insts ih =>
    refine ⟨h.1, ih h.2 ?_⟩
    simpa [List.flatMap_cons, Nat.add_assoc] using hinst

section Steps

variable {env : Env V} {load : String → Shape} {start exe exe' : ExeContext V}
  {decls : List (Inst V)} {used outs : List (Dictionary V)}

theorem Ran.core (h : Ran env load exec start decls exe used outs) (hcore : exe'.core = exe.core) :
    Ran env load exec start decls exe' used outs := by
  simp only [ExeContext.core, ExeContext.mk.injEq] at hcore
  obtain ⟨hin, hout, -, -, htaken⟩ := hcore
  exact ⟨by rw [hin, h.inputs], by rw [htaken, h.taken], h.count, by rw [hout, h.outputs],
    h.typed, h.descends, h.originals⟩

theorem Ran.object (h : Ran env load exec start decls exe used outs) {io : ObjectIO}
    {class_ : String} {d : Dictionary V} (obj : Ref)
    (htake : takeObject env io class_ exe = .ok (d, exe')) :
    ∃ used', Ran env load exec start
      (decls ++ [.object io obj class_ (if io = .mutate then some d else none)]) exe' used' outs := by
  have htyped : ((decls ++ [Inst.object io obj class_ (if io = .mutate then some d else none)]
      ).filterMap Inst.subName) = decls.filterMap Inst.subName := by
    simp [Inst.subName]
  have hwalk : walk exec (Decl.called fun a => (exec a).emitted) 0
      ((decls ++ [Inst.object io obj class_ (if io = .mutate then some d else none)]
        ).filterMap Inst.decl) =
      walk exec (Decl.called fun a => (exec a).emitted) 0 (decls.filterMap Inst.decl) := by
    simp [Inst.decl, walk_append, walk, Decl.called]
  by_cases hio : io = .output
  · subst hio
    unfold takeObject at htake
    cases hhash : env.classHash class_ with
    | none => simp [hhash] at htake
    | some v =>
      simp only [hhash, Outcome.ok.injEq, Prod.mk.injEq] at htake
      obtain ⟨-, rfl⟩ := htake
      refine ⟨used, h.inputs, ?_, ?_, h.outputs, htyped ▸ h.typed, hwalk ▸ h.descends, ?_⟩
      · simp [h.taken, Inst.takes, Inst.decl, Decl.takes, ObjectIO.consumes]
      · simp [h.count, Inst.takes, Inst.decl, Decl.takes, ObjectIO.consumes]
      · refine h.originals.concat ?_
        intro obj' c original heq
        cases heq
  · have hconsumes : io.consumes = true := by
      cases io <;> simp_all [ ObjectIO.consumes]
    have htaken : ∃ rest, exe.inputs = d :: rest ∧
        exe' = { exe with inputs := rest, taken := exe.taken ++ [⟨io, class_⟩] } := by
      unfold takeObject at htake
      cases io with
      | output => exact absurd rfl hio
      | input | mutate =>
        cases hin : exe.inputs with
        | nil => simp [hin] at htake
        | cons o rest =>
          simp only [hin, Outcome.ok.injEq, Prod.mk.injEq] at htake
          exact ⟨rest, by rw [htake.1], htake.2.symm⟩
    obtain ⟨rest, hin, rfl⟩ := htaken
    refine ⟨used ++ [d], ?_, ?_, ?_, h.outputs, htyped ▸ h.typed, hwalk ▸ ?_, ?_⟩
    · simp [h.inputs, hin]
    · simp [h.taken, Inst.takes, Inst.decl, Decl.takes, hconsumes]
    · simp [h.count, Inst.takes, Inst.decl, Decl.takes, hconsumes]
    · exact h.descends.imp (fun s o hs => hs.append [d])
    · refine (h.originals.mono [d]).concat ?_
      intro obj' c original heq
      cases heq
      refine ⟨d, if_pos rfl, ?_⟩
      rw [Nat.zero_add, ← h.count]
      simp

theorem Ran.sub (h : Ran env load exec start decls exe used outs) {action : String}
    (obj : Ref) (captured : Option (SubRun V)) (hsub : Moved env (load action) (exec action) exe exe') :
    ∃ used' outs', Ran env load exec start (decls ++ [.subAction action obj captured]) exe'
      used' outs' := by
  obtain ⟨used₁, outs₁, hin, htaken, hcount, hout, htyped, hdesc⟩ := hsub
  refine ⟨used ++ used₁, outs ++ outs₁, ?_, ?_, ?_, ?_, ?_, ?_, ?_⟩
  · rw [h.inputs, hin, List.append_assoc]
  · rw [htaken, h.taken]
    simp [Inst.takes, Inst.decl, Decl.takes]
  · simp [h.count, hcount, Inst.takes, Inst.decl, Decl.takes]
  · rw [hout, h.outputs, List.append_assoc]
  · have happ := List.rel_append h.typed htyped
    simpa [List.filterMap_append, Inst.subName, List.flatMap_append] using happ
  · have hshift : List.Forall₂ (Descends (used ++ used₁))
        ((exec action).emitted.map (Slot.shift used.length)) outs₁ := by
      rw [List.forall₂_map_left_iff]
      exact hdesc.imp (fun s o hs => hs.shift used)
    have hold := h.descends.imp (fun s o (hs : Descends used s o) => hs.append used₁)
    have happ := List.rel_append hold hshift
    rw [h.count] at happ
    simpa [List.filterMap_append, Inst.decl, walk_append, walk, Decl.called, flatMap_takes]
      using happ
  · refine (h.originals.mono used₁).concat ?_
    intro obj' c original heq
    cases heq

theorem Ran.nil (env : Env V) (load exec : String → Shape) (exe : ExeContext V) :
    Ran env load exec exe [] exe [] [] :=
  ⟨rfl, by simp, rfl, by simp, .nil, .nil, trivial⟩

theorem Ran.calls {runSub : RunSub V} (hsub : ∀ action exe sub exe',
      runSub action exe = .ok (sub, exe') → Moved env (load action) (exec action) exe exe')
    {ctx ctx' : ActionContext V} {calls : List (Call V)} (hexe : ctx.exeCtx = some exe)
    (h : Ran env load exec start ctx.decls exe used outs)
    (hrun : ctx.runCalls env runSub calls = .ok ctx') :
    ∃ exe' used' outs', ctx'.exeCtx = some exe' ∧
      Ran env load exec start ctx'.decls exe' used' outs' := by
  induction calls generalizing ctx exe used outs with
  | nil =>
    cases hrun
    exact ⟨exe, used, outs, hexe, h⟩
  | cons call calls ih =>
    obtain ⟨ctx₁, hcall, hrun⟩ := Outcome.bind_eq_ok hrun
    rcases call_cases hcall with hstill | ⟨io, class_, exe₁, value, original, s, -, htook, rfl⟩ |
      ⟨action, exe₁, value, captured, s, -, hcalled, rfl⟩
    · have hmap := hstill.exe
      rw [hexe, Option.map_some, Option.map_eq_some_iff] at hmap
      obtain ⟨exe₁, hexe₁, hcore⟩ := hmap
      have hran := h.core hcore
      rw [← hstill.decls] at hran
      exact ih hexe₁ hran hrun
    · unfold Took at htook
      simp only [hexe] at htook
      obtain ⟨d, exe', htake, rfl, -, rfl⟩ := htook
      obtain ⟨used', hran⟩ := h.object ctx.heap.length htake
      rw [← decls_declare rfl] at hran
      exact ih rfl hran hrun
    · unfold Called at hcalled
      simp only [hexe] at hcalled
      obtain ⟨sub, exe', hrunSub, rfl, -, rfl⟩ := hcalled
      obtain ⟨used', outs', hran⟩ := h.sub ctx.heap.length (some sub) (hsub _ _ _ _ hrunSub)
      rw [← decls_declare rfl] at hran
      exact ih rfl hran hrun

end Steps

/-! ## Own objects -/

theorem emitAll_ok {chain : V} {os : List (ExeObject V)} {ps : List (Pending V)}
    (h : emitAll chain os = .ok ps) :
    List.Forall₂ (fun o p => ∃ c, emit c o = .ok p) os ps := by
  induction os generalizing chain ps with
  | nil =>
    cases h
    exact .nil
  | cons o os ih =>
    obtain ⟨p, hp, h⟩ := Outcome.bind_eq_ok h
    obtain ⟨ps', hps, h⟩ := Outcome.bind_eq_ok h
    cases h
    exact .cons ⟨chain, hp⟩ (ih hps)

/-- What the objects keep of the instructions that declared them. -/
def Inst.objectOf (inst : Inst V) (o : ExeObject V) : Prop :=
  ∃ obj, inst = .object o.io obj o.class_ o.original

theorem exeObjects_ok {ctx : ActionContext V} {insts : List (Inst V)} {objs : List (ExeObject V)}
    (h : ctx.exeObjects insts = .ok objs) :
    List.Forall₂ Inst.objectOf
      ((insts.filter Inst.declares).filter fun i => i.subName.isNone) objs := by
  induction insts generalizing objs with
  | nil =>
    cases h
    exact .nil
  | cons inst insts ih =>
    cases inst with
    | object io obj class_ original =>
      obtain ⟨c, -, h⟩ := Outcome.bind_eq_ok h
      obtain ⟨d, -, h⟩ := Outcome.bind_eq_ok h
      obtain ⟨rest, hrest, h⟩ := Outcome.bind_eq_ok h
      cases h
      have htail := ih hrest
      simpa [List.filter_cons, Inst.declares, Inst.subName, Inst.objectOf] using htail
    | subAction action obj captured => simpa [List.filter_cons, Inst.declares, Inst.subName] using ih h
    | _ => simpa [List.filter_cons, Inst.declares] using ih h

theorem produced_cons (p : Pending V) (ps : List (Pending V)) :
    produced (p :: ps) = (if p.obj.io.produces then [p.dict] else []) ++ produced ps := by
  by_cases hp : p.obj.io.produces = true <;> simp [produced, hp]

/-- The objects of the action itself descend from the inputs that they took. -/
theorem own_descends {exec : String → Shape} {used : List (Dictionary V)} {base : Nat}
    {decls : List (Inst V)} (hdecl : ∀ i ∈ decls, i.declares = true)
    (horig : Originals exec used base decls) {objs : List (ExeObject V)} {ps : List (Pending V)}
    (hobjs : List.Forall₂ Inst.objectOf (decls.filter fun i => i.subName.isNone) objs)
    (hps : List.Forall₂ (fun o p => ∃ c, emit c o = .ok p) objs ps) :
    List.Forall₂ (Descends used) (walk exec Decl.own base (decls.filterMap Inst.decl))
      (produced ps) := by
  induction decls generalizing base objs ps with
  | nil =>
    cases hobjs
    cases hps
    exact .nil
  | cons inst decls ih =>
    have hrest := fun i hi => hdecl i (List.mem_cons_of_mem inst hi)
    cases inst with
    | object io obj class_ original =>
      simp only [List.filter_cons, Inst.subName, Option.isNone_none, if_true] at hobjs
      cases hobjs with
      | @cons _ o _ objs ho hobjs =>
        cases hps with
        | @cons _ p _ ps hp hps =>
          obtain ⟨obj', heq⟩ := ho
          cases heq
          obtain ⟨c, hp⟩ := hp
          obtain ⟨hobj, -, -, hmut⟩ := emit_ok hp
          have htail := ih hrest horig.2 hobjs hps
          rw [produced_cons, hobj]
          cases hio : o.io with
          | input => simpa [walk, Decl.own, ObjectIO.produces, Inst.takes, Inst.decl, hio] using htail
          | output =>
            simp only [List.filterMap_cons, Inst.decl, walk, Decl.own, ObjectIO.produces,
              if_true, reduceCtorEq, if_false, List.singleton_append, List.forall₂_cons]
            refine ⟨by simp [Descends], ?_⟩
            simpa [Inst.takes, Inst.decl, hio] using htail
          | mutate =>
            obtain ⟨old, id, horiginal, hold, hnew⟩ := hmut hio
            obtain ⟨old', heq, hused⟩ := horig.1 obj o.class_ o.original (by rw [hio])
            rw [horiginal, Option.some.injEq] at heq
            subst heq
            simp only [List.filterMap_cons, Inst.decl, walk, Decl.own, ObjectIO.produces,
              if_true, List.singleton_append, List.forall₂_cons]
            refine ⟨?_, ?_⟩
            · intro k hk
              cases hk
              exact ⟨old, id, hused, hold, hnew⟩
            · simpa [Inst.takes, Inst.decl, hio] using htail
    | subAction action obj captured =>
      simp only [List.filter_cons, Inst.subName, Option.isNone_some, Bool.false_eq_true,
        if_false] at hobjs
      have htail := ih hrest horig.2 hobjs hps
      simpa [List.filterMap_cons, Inst.decl, walk, Decl.own, Inst.takes] using htail
    | _ => exact absurd (hdecl _ List.mem_cons_self) (by simp [Inst.declares])

/-- The objects of the action itself have the classes that `Load` saw. -/
theorem own_typed {env : Env V} {ctx : ActionContext V} {sub : String → Shape} {base : Nat}
    {insts : List (Inst V)} {ps : List (Pending V)}
    (h : List.Forall₂ (Accepted env) (insts.filterMap fun
      | .object io obj class_ _ => some ⟨io, class_, ctx.varName obj⟩
      | _ => none) ps) :
    List.Forall₂ (OfClass env)
      ((walk sub Decl.own base (insts.filterMap Inst.decl)).map Slot.class_) (produced ps) := by
  induction insts generalizing base ps with
  | nil =>
    cases h
    exact .nil
  | cons inst insts ih =>
    cases inst with
    | object io obj class_ original =>
      simp only [List.filterMap_cons] at h
      cases h with
      | @cons _ p _ ps hp hps =>
        obtain ⟨hio, hclass⟩ := hp
        simp only at hio hclass
        rw [produced_cons, hio]
        simp only [List.filterMap_cons, Inst.decl, walk, List.map_append]
        cases io with
        | input => simpa [Decl.own, ObjectIO.produces] using ih hps
        | output | mutate =>
          simp only [Decl.own, ObjectIO.produces, if_true, List.map_cons, List.map_nil,
            List.singleton_append, List.forall₂_cons]
          exact ⟨hclass, ih hps⟩
    | subAction action obj captured =>
      simpa [List.filterMap_cons, Inst.decl, walk, Decl.own] using ih h
    | _ => exact ih h

theorem called_classes (sub : String → Shape) (base : Nat) (insts : List (Inst V)) :
    (walk sub (Decl.called fun a => (sub a).emitted) base (insts.filterMap Inst.decl)).map
      Slot.class_ =
    (insts.filterMap Inst.subName).flatMap fun a => (sub a).emitted.map Slot.class_ := by
  induction insts generalizing base with
  | nil => rfl
  | cons inst insts ih =>
    cases inst with
    | subAction action obj captured =>
      simp [Inst.decl, Inst.subName, walk, Decl.called, ih,
        Function.comp_def, Slot.shift]
    | object io obj class_ original =>
      simp [List.filterMap_cons, Inst.decl, Inst.subName, walk, Decl.called, ih]
    | _ => simpa [List.filterMap_cons, Inst.decl, Inst.subName] using ih base

theorem filterMap_subName (insts : List (Inst V)) :
    (insts.filter Inst.declares).filterMap Inst.subName = insts.filterMap Inst.subName := by
  induction insts with
  | nil => rfl
  | cons inst insts ih => cases inst <;> simp [List.filter_cons, List.filterMap_cons, Inst.declares,
      Inst.subName, ih]

theorem liftEvents_ok {m : ActionMeta} {rec : Records V} {postTs : Nat} {os : List (ExeObject V)}
    {ps : List (Pending V)} {sts : List (Stmt V)}
    (hps : List.Forall₂ (fun o p => ∃ c, emit c o = .ok p) os ps)
    (h : rec.liftEvents m postTs ps = .ok sts) : List.Forall₂ EventFor ps sts := by
  induction hps generalizing postTs sts with
  | nil =>
    cases h
    exact .nil
  | cons hp _ ih =>
    obtain ⟨st, hst, h⟩ := Outcome.bind_eq_ok h
    obtain ⟨rest, hrest, h⟩ := Outcome.bind_eq_ok h
    cases h
    obtain ⟨c, hp⟩ := hp
    obtain ⟨hobj, hevent, hlen, -⟩ := emit_ok hp
    rw [← hobj] at hlen
    exact .cons (liftEvent_ok hevent hlen hst) (ih hrest)

/-- The rest of `exe_action` adds the objects of the action itself to the outputs. -/
theorem finishAction_moved {env : Env V} {metas : List ActionMeta} {a : LoadedAction V}
    {load exec : String → Shape} {ctx : ActionContext V} {start exe exe' : ExeContext V}
    {used outs : List (Dictionary V)} {run : ActionRun V} {clauseMetas : List ActionMeta}
    (hclauses : a.ctx.fmtAction a.meta_ clauseMetas = .ok a.clauses)
    (hrefs : a.meta_.objectRefs = a.ctx.objectRefs)
    (hran : Ran env load exec start ctx.decls exe used outs)
    (h : finishAction env metas a ctx exe = .ok (run, exe')) :
    Moved env (shapeOf load (loadDecls a)) (shapeOf exec (ctx.decls.filterMap Inst.decl))
      start exe' := by
  unfold finishAction at h
  obtain ⟨objs, hobjs, h⟩ := Outcome.bind_eq_ok h
  obtain ⟨stamped, -, h⟩ := Outcome.bind_eq_ok h
  obtain ⟨io, -, h⟩ := Outcome.bind_eq_ok h
  obtain ⟨pins, hpins, h⟩ := Outcome.bind_eq_ok h
  obtain ⟨aliases, haliases, h⟩ := Outcome.bind_eq_ok h
  obtain ⟨pending, hpending, h⟩ := Outcome.bind_eq_ok h
  obtain ⟨events, hevents, h⟩ := Outcome.bind_eq_ok h
  obtain ⟨body, hbody, h⟩ := Outcome.bind_eq_ok h
  obtain ⟨σ, hσ, h⟩ := Outcome.bind_eq_ok h
  obtain ⟨-, -, h⟩ := Outcome.bind_eq_ok h
  obtain ⟨-, -, h⟩ := Outcome.bind_eq_ok h
  cases h
  obtain ⟨loadBody, loadEvents, hparts, hcalling, hevent⟩ := fmtAction_parts hclauses
  have hmatch := applyPred_matches hσ (closed_extends σ)
  rw [hparts] at hmatch
  have hemit := emitAll_ok hpending
  have hcalling' : Calling ((pins ++ aliases ++ body).map Stmt.pred)
      (ctx.insts.filterMap Inst.subName) := by
    simp only [List.map_append]
    exact ((exePins_calling hpins).append (exeAliases_calling haliases)).append (exeBody_calling hbody)
  have hlifted := liftEvents_ok hemit hevents
  have hsubs := subs_eq hmatch hcalling hevent hcalling' hlifted
  have haccepted := events_accepted hmatch hcalling hevent hcalling' hlifted
  rw [hrefs] at haccepted
  have hnames : ctx.decls.filterMap Inst.subName = a.ctx.insts.filterMap Inst.subName := by
    rw [← hsubs]
    exact filterMap_subName ctx.insts
  refine ⟨used, outs ++ produced pending, hran.inputs, ?_, ?_, ?_, ?_, ?_⟩
  · rw [hran.taken, shapeOf, flatMap_takes]
  · rw [hran.count, shapeOf, flatMap_takes]
  · rw [hran.outputs, List.append_assoc]
  · have htyped := hran.typed
    rw [hnames, ← called_classes load 0] at htyped
    rw [shapeOf, List.map_append]
    exact List.rel_append htyped (own_typed haccepted)
  · refine List.rel_append hran.descends (own_descends ?_ hran.originals (exeObjects_ok hobjs) hemit)
    intro i hi
    exact (List.mem_filter.mp hi).2

theorem exeAction_moved {env : Env V} {metas : List ActionMeta} {a : LoadedAction V}
    {load exec : String → Shape} {calls : List (Call V)} {runSub : RunSub V}
    {exe exe' : ExeContext V} {run : ActionRun V} {clauseMetas : List ActionMeta}
    (hclauses : a.ctx.fmtAction a.meta_ clauseMetas = .ok a.clauses)
    (hrefs : a.meta_.objectRefs = a.ctx.objectRefs)
    (hsub : ∀ action exe sub exe', runSub action exe = .ok (sub, exe') →
      Moved env (load action) (exec action) exe exe')
    (h : exeAction env metas calls runSub a exe = .ok (run, exe')) :
    Moved env (shapeOf load (loadDecls a)) (shapeOf exec (calls.filterMap Call.decl)) exe exe' := by
  unfold exeAction at h
  obtain ⟨ctx, hrun, h⟩ := Outcome.bind_eq_ok h
  have hstart : Ran env load exec exe (ActionContext.new env (some exe)).decls exe [] [] :=
    .nil env load exec exe
  obtain ⟨exe₁, used, outs, hexe, hran⟩ := hstart.calls hsub rfl hrun
  simp only [hexe] at h
  have hmoved := finishAction_moved hclauses hrefs hran h
  rw [runCalls_decls hrun] at hmoved
  exact hmoved

/-- What every execution of a loaded action does. -/
theorem LoadedChain.moved {env : Env V} {acts : List (LoadedAction V)}
    (hchain : LoadedChain env acts) (metas : List ActionMeta) (calls : String → List (Call V)) :
    (∀ name exe sub exe', runSubaction env metas calls acts name exe = .ok (sub, exe') →
      Moved env (shapeAt loadDecls acts name) (shapeAt (exeDecls calls) acts name) exe exe') ∧
    (∀ name exe run exe', runAction env metas calls acts name exe = .ok (run, exe') →
      Moved env (shapeAt loadDecls acts name) (shapeAt (exeDecls calls) acts name) exe exe') := by
  induction hchain with
  | nil =>
    constructor
    · intro name exe sub exe' h
      cases h
    · intro name exe run exe' h
      cases h
  | @cons a prior script hprior hload ih =>
    have hloads := loadAction_loads hload
    obtain ⟨_, _, hm⟩ := hloads.meta_ok
    obtain ⟨_, hcs⟩ := hloads.clauses_ok
    have hrefs := (fromActionCtx_ok hm).1
    constructor
    · intro name exe sub exe' h
      unfold runSubaction at h
      unfold shapeAt
      by_cases hname : a.meta_.name = name
      · rw [if_pos hname] at h
        obtain ⟨⟨run, exe₁⟩, hrun, h⟩ := Outcome.bind_eq_ok h
        obtain ⟨out, -, h⟩ := Outcome.bind_eq_ok h
        cases h
        rw [if_pos hname, if_pos hname]
        subst hname
        exact exeAction_moved hcs hrefs ih.1 hrun
      · rw [if_neg hname] at h
        rw [if_neg hname, if_neg hname]
        exact ih.1 name exe sub exe' h
    · intro name exe run exe' h
      unfold runAction at h
      unfold shapeAt
      by_cases hname : a.meta_.name = name
      · rw [if_pos hname] at h
        rw [if_pos hname, if_pos hname]
        subst hname
        exact exeAction_moved hcs hrefs ih.1 h
      · rw [if_neg hname] at h
        rw [if_neg hname, if_neg hname]
        exact ih.2 name exe run exe' h

/-! ## Built actions -/

theorem walk_lengths {sub : String → Shape}
    (hsub : ∀ a, (sub a).emitted.length = (sub a).declared.length) (base : Nat) (ds : List Decl) :
    (walk sub (Decl.called fun a => (sub a).emitted) base ds ++ walk sub Decl.own base ds).length =
    (walk sub (fun base d => d.own base ++ d.called (fun a => (sub a).declared) base) base
      ds).length := by
  induction ds generalizing base with
  | nil => rfl
  | cons d ds ih =>
    have hrest := ih (base + (d.takes sub).length)
    have hd : (d.called (fun a => (sub a).emitted) base).length =
        (d.called (fun a => (sub a).declared) base).length := by
      cases d <;> simp [Decl.called, hsub]
    simp only [walk, List.length_append] at hrest ⊢
    omega

theorem shapeAt_lengths (decls : LoadedAction V → List Decl) (acts : List (LoadedAction V))
    (name : String) :
    (shapeAt decls acts name).emitted.length = (shapeAt decls acts name).declared.length := by
  induction acts generalizing name with
  | nil => rfl
  | cons a prior ih =>
    unfold shapeAt
    by_cases hname : a.meta_.name = name
    · rw [if_pos hname]
      exact walk_lengths ih 0 (decls a)
    · rw [if_neg hname]
      exact ih name

/-- What a build did, against the two shapes of its action. -/
structure Built (env : Env V) (m : ActionMeta) (load exec : Shape) (inputs outs : List (Dictionary V))
    (taken : List Taken) : Prop where
  declares : Declares m load
  paired : load.Paired
  length : load.emitted.length = load.declared.length
  taken : taken = exec.inputs
  typed : List.Forall₂ (OfClass env) (load.emitted.map Slot.class_) outs
  descends : List.Forall₂ (Descends inputs) exec.emitted outs

theorem mem_moduleActions {metas : List ActionMeta} {m : ActionMeta} (h : m ∈ moduleActions metas) :
    m ∈ metas ∨ ∃ class_, m = .rekey class_ := by
  rcases List.mem_append.mp h with h | h
  · exact .inl h
  · obtain ⟨class_, -, rfl⟩ := List.mem_map.mp h
    exact .inr ⟨class_, rfl⟩

theorem buildRekey_built {env : Env V} {chain : V} {class_ : String}
    {inputs outs : List (Dictionary V)}
    (hcheck : checkInputs env inputs (ActionMeta.rekey class_).totalInputs = .ok ())
    (h : buildRekey env chain class_ inputs = .ok outs) :
    Built env (.rekey class_)
      (shapeOf (fun _ => ⟨[], [], []⟩) [.object .mutate class_])
      (shapeOf (fun _ => ⟨[], [], []⟩) [.object .mutate class_]) inputs outs
      [⟨.mutate, class_⟩] := by
  unfold buildRekey at h
  split at h
  · rename_i old
    obtain ⟨mid, -, h⟩ := Outcome.bind_eq_ok h
    obtain ⟨new, -, h⟩ := Outcome.bind_eq_ok h
    obtain ⟨p, hp, h⟩ := Outcome.bind_eq_ok h
    cases h
    refine ⟨⟨rfl, rfl⟩, rfl, rfl, rfl, .cons ?_ .nil, .cons ?_ .nil⟩
    · unfold checkInputs ActionMeta.rekey at hcheck
      simp only at hcheck
      split at hcheck
      · cases hcheck
      · rename_i v hhash
        obtain ⟨⟨htype⟩, -, -⟩ := Outcome.bind_eq_ok hcheck
        refine ⟨v, hhash, ?_⟩
        unfold emit at hp
        obtain ⟨newType, hnew, hp⟩ := Outcome.bind_eq_ok hp
        obtain ⟨oldType, hold, hp⟩ := Outcome.bind_eq_ok hp
        obtain ⟨⟨heq⟩, -, -⟩ := Outcome.bind_eq_ok hp
        have hnew := expectField_ok (Outcome.unwrap_eq_ok hnew)
        have hold := expectField_ok (Outcome.unwrap_eq_ok hold)
        rw [htype, Option.some.injEq] at hold
        simp only at hnew
        rw [hnew, heq, hold]
    · obtain ⟨hobj, -, -, hmut⟩ := emit_ok hp
      obtain ⟨old', id, horig, hold, hnew⟩ := hmut rfl
      cases horig
      have hdict : p.dict = new := by
        unfold emit at hp
        obtain ⟨newType, -, hp⟩ := Outcome.bind_eq_ok hp
        obtain ⟨oldType, -, hp⟩ := Outcome.bind_eq_ok hp
        obtain ⟨-, -, hp⟩ := Outcome.bind_eq_ok hp
        obtain ⟨newId, -, hp⟩ := Outcome.bind_eq_ok hp
        obtain ⟨oldId, -, hp⟩ := Outcome.bind_eq_ok hp
        obtain ⟨-, -, hp⟩ := Outcome.bind_eq_ok hp
        cases hp
        rfl
      intro k hk
      cases hk
      exact ⟨old, id, rfl, hold, hdict ▸ hnew⟩
  · cases h

theorem buildAction_built {env : Env V} {scripts : List (Script V)}
    {actions : List (LoadedAction V)} (hload : loadModule env scripts = .ok actions)
    {calls : String → List (Call V)} {action : String} {m : ActionMeta}
    (hm : (moduleActions (actions.map LoadedAction.meta_)).find? (fun m => m.name = action) = some m)
    {inputs outs : List (Dictionary V)} {taken : List Taken}
    (h : buildAction env actions calls action inputs = .ok (outs, taken)) :
    Built env m (moduleShape loadDecls actions m) (moduleShape (exeDecls calls) actions m)
      inputs outs taken := by
  have hname : m.name = action := by simpa using List.find?_some hm
  unfold buildAction at h
  simp only [hm] at h
  obtain ⟨-, -, h⟩ := Outcome.bind_eq_ok h
  obtain ⟨⟨⟩, hcheck, h⟩ := Outcome.bind_eq_ok h
  rcases mem_moduleActions (List.mem_of_find?_eq_some hm) with hmem | ⟨class_, rfl⟩
  · obtain ⟨a, ha, rfl⟩ := List.mem_map.mp hmem
    have hloads := (loadModule_loads hload).1 a ha
    obtain ⟨_, _, hmeta⟩ := hloads.meta_ok
    have hkind : a.meta_.kind = .script := by
      unfold ActionMeta.fromActionCtx at hmeta
      obtain ⟨_, -, hmeta⟩ := Outcome.bind_eq_ok hmeta
      simp only [Outcome.pure_eq, Outcome.ok.injEq] at hmeta
      rw [← hmeta]
    have hnodup := (loadModule_loads hload).2
    have hchain : LoadedChain env actions.reverse := by
      unfold loadModule at hload
      obtain ⟨as, has, hload⟩ := Outcome.bind_eq_ok hload
      obtain ⟨-, -, hload⟩ := Outcome.bind_eq_ok hload
      obtain ⟨-, -, hload⟩ := Outcome.bind_eq_ok hload
      cases hload
      exact loadActions_chain .nil has
    have hrev : (actions.reverse.map fun a => a.meta_.name).Nodup := by
      rw [List.map_reverse]
      exact List.nodup_reverse.mpr hnodup
    simp only [hkind] at h
    obtain ⟨⟨run, exe⟩, hrun, h⟩ := Outcome.bind_eq_ok h
    cases h
    obtain ⟨used, outs, hin, htaken, -, hout, htyped, hdesc⟩ :=
      (hchain.moved (actions.map LoadedAction.meta_) calls).2 _ _ _ _ hrun
    simp only [List.nil_append] at htaken hout
    simp only at hin
    unfold moduleShape
    simp only [hkind, hname]
    refine ⟨?_, shapeAt_paired loadDecls actions.reverse action,
      shapeAt_lengths loadDecls actions.reverse action, htaken, hout ▸ htyped, hout ▸ ?_⟩
    · rw [← hname]
      exact hchain.declares hrev a (List.mem_reverse.mpr ha)
    · rw [hin]
      exact hdesc.imp (fun s d hs => hs.append exe.inputs)
  · simp only [ActionMeta.rekey] at h
    obtain ⟨outs', hrekey, h⟩ := Outcome.bind_eq_ok h
    cases h
    exact buildRekey_built hcheck hrekey

theorem typed_iff {env : Env V} {cs : List String} {outs : List (Dictionary V)}
    (h : List.Forall₂ (OfClass env) cs outs) (cs' : List String) :
    List.Forall₂ (OfClass env) cs' outs ↔ cs'.map env.classHash = cs.map env.classHash := by
  constructor
  · intro h'
    have hleft := map_eq_of_forall₂ h (f := env.classHash) (g := fun d => d.lookup "type")
      (fun c d ⟨v, hc, hd⟩ => hc.trans hd.symm)
    have hright := map_eq_of_forall₂ h' (f := env.classHash) (g := fun d => d.lookup "type")
      (fun c d ⟨v, hc, hd⟩ => hc.trans hd.symm)
    rw [hleft, hright]
  · intro heq
    induction h generalizing cs' with
    | nil =>
      cases cs' with
      | nil => exact .nil
      | cons c cs' => simp at heq
    | @cons c d cs outs hcd _ ih =>
      cases cs' with
      | nil => simp at heq
      | cons c' cs' =>
        simp only [List.map_cons, List.cons.injEq] at heq
        obtain ⟨v, hv, hd⟩ := hcd
        exact .cons ⟨v, heq.1.trans hv, hd⟩ (ih cs' heq.2)

/-- A mutated input and the output at its position are one object. -/
def SameObject (inputs outs : List (Dictionary V)) (p : MutatedObjectSlots) : Prop :=
  ∃ old new id, inputs[p.inputIndex]? = some old ∧ outs[p.outputIndex]? = some new ∧
    old.lookup "stable_identifier" = some id ∧ new.lookup "stable_identifier" = some id

theorem Built.mutations {env : Env V} {m : ActionMeta} {load exec : Shape}
    {inputs outs : List (Dictionary V)} {taken : List Taken}
    (h : Built env m load exec inputs outs taken)
    (horder : exec.emitted.map Slot.input = load.declared.map Slot.input) :
    ∀ p ∈ m.totalMutations, SameObject inputs outs p := by
  intro p hp
  have hins : ActionMeta.mutatePositions m.totalInputs = load.declared.filterMap Slot.input := by
    rw [h.paired, ← h.declares.inputs, List.findIdxs_map]
    rfl
  have houts : ActionMeta.mutatePositions m.totalOutputs =
      load.declared.findIdxs fun s => s.input.isSome := by
    have htags := congrArg (List.findIdxs fun t : String × Bool => t.2) h.declares.outputs
    rw [List.findIdxs_map, List.findIdxs_map] at htags
    exact htags
  unfold ActionMeta.totalMutations at hp
  rw [hins, houts] at hp
  obtain ⟨s, k, hk, hs, hinput⟩ := zip_mutates load.declared 0 p hp
  rw [Nat.zero_add] at hk
  have hexec := congrArg (fun l : List (Option Nat) => l[k]?) horder
  simp only [List.getElem?_map, hs, Option.map_some, hinput, Option.map_eq_some_iff] at hexec
  obtain ⟨s', hs', hinput'⟩ := hexec
  obtain ⟨hlt, hget⟩ := List.getElem?_eq_some_iff.mp hs'
  have hlt' : k < outs.length := h.descends.length_eq ▸ hlt
  have hrel := h.descends.get hlt hlt'
  simp only [List.get_eq_getElem, hget] at hrel
  obtain ⟨old, id, hold, hid, hid'⟩ := hrel p.inputIndex hinput'
  exact ⟨old, outs[k], id, hold, by rw [hk, List.getElem?_eq_getElem hlt'], hid, hid'⟩

/-- A built action returns as many outputs as it declares. Their types line up exactly when
emission and declaration order give the same classes, the inputs are taken as declared exactly
when the execution declares them so, and mutates line up when they keep their positions. -/
theorem outputs_line_up (env : Env V) (scripts : List (Script V)) (actions : List (LoadedAction V))
    (hload : loadModule env scripts = .ok actions) (calls : String → List (Call V))
    (action : String) (m : ActionMeta)
    (hm : (moduleActions (actions.map LoadedAction.meta_)).find? (fun m => m.name = action) = some m)
    (inputs outs : List (Dictionary V)) (taken : List Taken)
    (h : buildAction env actions calls action inputs = .ok (outs, taken)) :
    outs.length = m.totalOutputs.length ∧
    (List.Forall₂ (fun r d => OfClass env r.class_ d) m.totalOutputs outs ↔
      (moduleShape loadDecls actions m).declared.map (fun s => env.classHash s.class_) =
        (moduleShape loadDecls actions m).emitted.map fun s => env.classHash s.class_) ∧
    (taken = m.totalInputs.map ActionObjectRef.taken ↔
      (moduleShape (exeDecls calls) actions m).inputs = (moduleShape loadDecls actions m).inputs) ∧
    ((moduleShape (exeDecls calls) actions m).emitted.map Slot.input =
        (moduleShape loadDecls actions m).declared.map Slot.input →
      ∀ p ∈ m.totalMutations, SameObject inputs outs p) := by
  have hbuilt := buildAction_built hload hm h
  have htags := congrArg List.length hbuilt.declares.outputs
  have hclasses := congrArg (List.map Prod.fst) hbuilt.declares.outputs
  simp only [List.length_map] at htags
  simp only [List.map_map] at hclasses
  refine ⟨?_, ?_, ?_, hbuilt.mutations⟩
  · have hlen := hbuilt.typed.length_eq
    have hcount := hbuilt.length
    simp only [List.length_map] at hlen
    omega
  · have hiff := typed_iff hbuilt.typed (m.totalOutputs.map (·.class_))
    rw [List.forall₂_map_left_iff] at hiff
    rw [hiff]
    have heq : m.totalOutputs.map (·.class_) =
        (moduleShape loadDecls actions m).declared.map Slot.class_ := hclasses
    rw [heq]
    simp only [List.map_map]
    rfl
  · rw [hbuilt.taken, hbuilt.declares.inputs]

section Sample

noncomputable local instance : Decodes Term := .classical

theorem asDict_ofDict (d : Dictionary Term) : asDict (ofDict d) = some d := Decodes.asDict_ofDict d

def part (class_ : String) (n : Nat) : Dictionary Term :=
  ((∅ : Dictionary Term).insert "type" (ofStr class_)).insert "key" (ofInt n)

def stampedPart (class_ : String) (n : Nat) : Dictionary Term :=
  (part class_ n).insert "stable_identifier" (ofDict (part class_ n))

def partObject (class_ x : String) (n : Nat) : ExeObject Term :=
  ⟨.output, class_, x, part class_ n, none⟩

/-- An action with one output and a short chain. -/
structure OneOutput (a : LoadedAction Term) (class_ x : String) : Prop where
  refs : a.meta_.objectRefs = [⟨.output, class_, x⟩]
  ins : a.meta_.inEntries = []
  outs : a.meta_.outEntries = [⟨x, false⟩]
  inits : a.meta_.initialsEntries = some [⟨x, false⟩]
  short : a.meta_.chainMaxTs < 3

variable {a : LoadedAction Term} {class_ x : String} {n : Nat}

theorem part_fresh : "stable_identifier" ∉ part class_ n := by
  simp [part, Finmap.mem_insert, Finmap.notMem_empty]

theorem stamp_part : Outcome.mapList stampOutput (outputsOf [partObject class_ x n]) =
    .ok [(x, stampedPart class_ n)] := by
  simp [outputsOf, partObject, Outcome.mapList, stampOutput, withStableIdentifier,
    Outcome.require_pos part_fresh, Outcome.unwrap, stampedPart]

theorem io_part : ioRecord [(x, stampedPart class_ n)] [partObject class_ x n] =
    .ok (arrayOf [ofDict (stampedPart class_ n)]) := by
  simp [ioRecord, partObject, ObjectIO.consumes, ObjectIO.produces, Outcome.mapList,
    ExeObject.post, stampedOf]

theorem pins_part (ha : OneOutput a class_ x) (io : Pod2.Array Term)
    (initials : Option (Pod2.Array Term)) :
    exePins a.meta_ io initials [(x, stampedPart class_ n)] [partObject class_ x n] = .ok [] := by
  cases initials <;> simp [exePins, partObject, ExeObject.pre, ExeObject.post, stampedOf, exePin,
    ActionMeta.inEntry, ActionMeta.outEntry, ActionMeta.initialsEntry, ha.ins, ha.outs, ha.inits,
    findEntry]

def nextChain (chain : Term) (class_ : String) (n : Nat) : Term :=
  hash chain (hash empty (ofDict (stampedPart class_ n)))

def pendingPart (class_ x : String) (n : Nat) (chain : Term) : Pending Term :=
  ⟨partObject class_ x n, stampedPart class_ n,
    ⟨.txInsert, literals [chain, nextChain chain class_ n, ofDict (part class_ n),
      ofDict (stampedPart class_ n), ofStr class_]⟩, nextChain chain class_ n⟩

theorem part_type : (stampedPart class_ n).lookup "type" = some (ofStr class_) := by
  simp [stampedPart, part]

theorem emit_part (chain : Term) :
    emitAll chain [partObject class_ x n] = .ok [pendingPart class_ x n chain] := by
  have hstamp : withStableIdentifier (part class_ n) = .ok (stampedPart class_ n) := by
    simp [withStableIdentifier, Outcome.require_pos part_fresh, stampedPart]
  simp [emitAll, emit, partObject, hstamp, Outcome.unwrap, pendingPart, nextChain, objectType,
    expectField, part_type]

def ioPart (class_ : String) (n : Nat) : Pod2.Array Term := arrayOf [ofDict (stampedPart class_ n)]

/-- The event with its states read from the records. -/
def eventPart (class_ : String) (n : Nat) (chain : Term) : Stmt Term :=
  ⟨.txInsert, [.literal chain, .literal (nextChain chain class_ n),
    .entry (ofArray (arrayOf [ofDict (part class_ n)])) (ofInt 0) (ofDict (part class_ n)),
    .entry (ofArray (ioPart class_ n)) (ofInt 0) (ofDict (stampedPart class_ n)),
    .literal (ofStr class_)]⟩

theorem lift_part (ha : OneOutput a class_ x) (chain : Term) (k : Nat) :
    (⟨ioPart class_ n, some (arrayOf [ofDict (part class_ n)]), none⟩ : Records Term).liftEvents
      a.meta_ k [pendingPart class_ x n chain] = .ok [eventPart class_ n chain] := by
  simp [Records.liftEvents, Records.liftEvent, Records.slotAnchor, Records.chainAnchor, pendingPart,
    partObject, ActionMeta.inEntry, ActionMeta.outEntry, ActionMeta.initialsEntry, ha.ins, ha.outs,
    ha.inits, findEntry, ActionMeta.collapsedSlot, slotEntry, arrayOf, arrayFrom, Stmt.lift,
    replaceArgs, replaceArg, literals, OperationArg.val, Outcome.require, eventPart, ioPart]

def insertClause (class_ : String) (k : Nat) : Clause Term :=
  ⟨.txInsert, [.wild (.var "chain" k), .wild (.var "chain" (k + 1)), .anchor .initials (.index 0),
    .anchor .io (.index 0), .selfPredicate class_]⟩

theorem apply_make (class_ : String) (n : Nat) (chain : Term) : ∃ σ,
    applyPred sampleEnv [insertClause class_ 0] [eventPart class_ n chain] = .ok σ ∧
    σ .io = some (ofArray (ioPart class_ n)) ∧ σ (.var "chain" 0) = some chain ∧
    σ (.var "chain" 1) = some (nextChain chain class_ n) := by
  simp [applyPred, demandZip, Clause.demand, insertClause, eventPart, TmplArg.demand, Key.value,
    sampleEnv, assignAll, assign, headerOnly, Function.update]

def makeClause : Clause Term :=
  ⟨.action "Make", [.wild (.subIo "Make" 0), .wild (.var "state_header" 0),
    .wild (.var "chain" 0), .wild (.var "chain" 1)]⟩

def makeStmt (sub : SubRun Term) : Stmt Term :=
  ⟨.action "Make", literals [sub.io, ofArray sampleEnv.stateHeader, sub.chain0, sub.chain]⟩

theorem apply_pair (class_ : String) (n : Nat) (sub : SubRun Term) : ∃ σ,
    applyPred sampleEnv [makeClause, insertClause class_ 1]
      [makeStmt sub, eventPart class_ n sub.chain] = .ok σ ∧
    σ .io = some (ofArray (ioPart class_ n)) := by
  simp [applyPred, demandZip, Clause.demand, makeClause, makeStmt, insertClause, eventPart,
    TmplArg.demand, Key.value, sampleEnv, assignAll, assign, headerOnly, Function.update, literals]

/-- The guard of the class of an action's first object has a branch for it. -/
def FirstBranch (metas : List ActionMeta) (m : ActionMeta) (class_ : String) : Prop :=
  (classStIndex m.name 0 (fun _ => 0) (moduleObjects metas)).bind
    (fun i => (classActions (moduleObjects metas) class_)[i]?) = some (m.name, 0)

theorem guard_part (ha : OneOutput a class_ x) {metas : List ActionMeta} (chain : Term)
    (hb : FirstBranch metas a.meta_ class_) :
    attachGuards metas a.meta_ (ioPart class_ n) (ofArray (ioPart class_ n)) 0
      [pendingPart class_ x n chain] = .ok () := by
  unfold FirstBranch at hb
  simp [attachGuards, buildIsX, ha.refs, ActionMeta.dispatchSlot, dispatchSide,
    ActionMeta.outEntry, ha.outs, ha.ins, findEntry, pendingPart, partObject, ioPart, arrayOf,
    arrayFrom, Outcome.require, hb]

/-- `exe_action` of an action with one output, from the statements of its body. -/
theorem finish_part (ha : OneOutput a class_ x) {metas : List ActionMeta} {ctx : ActionContext Term}
    (exe : ExeContext Term) {body : List (Stmt Term)} {σ : Wild → Option Term}
    (hobjs : ctx.exeObjects ctx.insts = .ok [partObject class_ x n])
    (haliases : ctx.exeAliases ctx.insts = .ok [])
    (hbody : ∀ rec : Records Term, rec.chainSteps = none →
      rec.exeBody a.meta_ sampleEnv ctx a.meta_.objectTs 0 ctx.insts = .ok body)
    (hpred : applyPred sampleEnv a.clauses (body ++ [eventPart class_ n exe.chain]) = .ok σ)
    (hio : σ .io = some (ofArray (ioPart class_ n))) (hb : FirstBranch metas a.meta_ class_) :
    finishAction sampleEnv metas a ctx exe = .ok
      (⟨ofArray (ioPart class_ n), (σ (.var "chain" 0)).getD (ofInt 0),
        (σ (.var "chain" a.meta_.chainMaxTs)).getD (ofInt 0), ioPart class_ n,
        [partObject class_ x n]⟩,
        { exe with
          chain := nextChain exe.chain class_ n
          outputs := exe.outputs ++ [stampedPart class_ n] }) := by
  have hinit : initialsRecord a.meta_ [partObject class_ x n] =
      some (arrayOf [ofDict (part class_ n)]) := by
    simp [initialsRecord, ha.inits, outputsOf, partObject]
  have hsteps : ∀ vs : List Term, chainSteps a.meta_ vs = none := by
    intro vs
    have hshort := ha.short
    have hpacked : chainPacked a.meta_.chainMaxTs = false := by
      simpa [chainPacked, chainPackMinTs] using hshort
    simp [chainSteps, hpacked]
  have hrec : ∀ (io : Pod2.Array Term) (initials : Option (Pod2.Array Term)),
      (⟨io, initials, none⟩ : Records Term).exeBody a.meta_ sampleEnv ctx a.meta_.objectTs 0
        ctx.insts = .ok body := fun io initials => hbody _ rfl
  have hlift := fun k => lift_part (n := n) ha exe.chain k
  have hguard := guard_part (n := n) ha exe.chain hb
  simp only [ioPart] at hlift hguard hio
  unfold finishAction
  simp only [hobjs, stamp_part, io_part, hinit, pins_part ha, haliases, emit_part, hsteps,
    Outcome.ok_bind, hlift, hrec, List.nil_append, hpred, hio, Option.getD_some, hguard]
  simp [Outcome.require, lastChain, produced, pendingPart, partObject, ObjectIO.produces, ioPart]

def makeScript : Script Term := ⟨"Make", [.object .output "Engine", .bind "engine" 1]⟩

def pairScript : Script Term :=
  ⟨"Pair", [.object .output "Hull", .bind "hull" 1, .subaction "Make"]⟩

def sampleCalls (action : String) : List (Call Term) :=
  if action = "Make" then makeScript.calls else pairScript.calls

/-- What the samples rely on of the loaded actions. -/
structure LoadedPair (make pair : LoadedAction Term) : Prop where
  load : loadModule sampleEnv [makeScript, pairScript] = .ok [make, pair]
  engine : OneOutput make "Engine" "engine"
  hull : OneOutput pair "Hull" "hull"
  make_name : make.meta_.name = "Make"
  pair_name : pair.meta_.name = "Pair"
  make_ts : make.meta_.chainMaxTs = 1
  make_clauses : make.clauses = [insertClause "Engine" 0]
  pair_clauses : pair.clauses = [makeClause, insertClause "Hull" 1]
  outputs : pair.meta_.totalOutputs.map (·.class_) = ["Hull", "Engine"]
  inputs : pair.meta_.totalInputs = []
  kind : pair.meta_.kind = .script

theorem pair_loads : ∃ make pair, LoadedPair make pair :=
  ⟨_, _, rfl, ⟨rfl, rfl, rfl, rfl, by decide⟩, ⟨rfl, rfl, rfl, rfl, by decide⟩, rfl, rfl, rfl, rfl,
    rfl, rfl, rfl, rfl⟩

theorem LoadedPair.branches {make pair : LoadedAction Term} (h : LoadedPair make pair) :
    FirstBranch [make.meta_, pair.meta_] make.meta_ "Engine" ∧
    FirstBranch [make.meta_, pair.meta_] pair.meta_ "Hull" := by
  have hobjs : moduleObjects [make.meta_, pair.meta_] =
      [("Make", 0, "Engine"), ("Pair", 0, "Hull")] := by
    simp [moduleObjects, h.engine.refs, h.hull.refs, h.make_name, h.pair_name]
  unfold FirstBranch
  rw [hobjs, h.make_name, h.pair_name]
  exact ⟨rfl, rfl⟩

theorem exeObjects_part {ctx : ActionContext Term} {r : Ref} {insts : List (Inst Term)}
    {c : VarOrValue Term} (hcell : ctx.cell r = .ok c)
    (hval : c.asValue = .ok (ofDict (part class_ n))) (hrest : ctx.exeObjects insts = .ok []) :
    ctx.exeObjects (.object .output r class_ none :: insts) =
      .ok [partObject class_ (ctx.varName r) n] := by
  simp only [ActionContext.exeObjects, hcell, Outcome.ok_bind, VarOrValue.toDict, hval,
    asDict_ofDict, Outcome.pure_eq, hrest, partObject]

def madeRun (exe : ExeContext Term) : ActionRun Term :=
  ⟨ofArray (ioPart "Engine" exe.draws), exe.chain, nextChain exe.chain "Engine" exe.draws,
    ioPart "Engine" exe.draws, [partObject "Engine" "engine" exe.draws]⟩

def madeExe (exe : ExeContext Term) : ExeContext Term :=
  { exe with
    draws := exe.draws + 1
    chain := nextChain exe.chain "Engine" exe.draws
    outputs := exe.outputs ++ [stampedPart "Engine" exe.draws] }

theorem LoadedPair.make_exe {make pair : LoadedAction Term} (h : LoadedPair make pair)
    (runSub : RunSub Term) (exe : ExeContext Term) :
    exeAction sampleEnv [make.meta_, pair.meta_] makeScript.calls runSub make exe =
      .ok (madeRun exe, madeExe exe) := by
  obtain ⟨σ, hσ, hio, h0, h1⟩ := apply_make "Engine" exe.draws exe.chain
  obtain ⟨ctx, hrun, hexe, hobjs, haliases, hbody⟩ : ∃ ctx,
      (ActionContext.new sampleEnv (some exe)).runCalls sampleEnv runSub makeScript.calls = .ok ctx ∧
      ctx.exeCtx = some { exe with draws := exe.draws + 1 } ∧
      ctx.exeObjects ctx.insts = .ok [partObject "Engine" "engine" exe.draws] ∧
      ctx.exeAliases ctx.insts = .ok [] ∧
      ∀ rec : Records Term, rec.exeBody make.meta_ sampleEnv ctx make.meta_.objectTs 0
        ctx.insts = .ok [] :=
    ⟨_, rfl, rfl, exeObjects_part rfl rfl rfl, rfl, fun _ => rfl⟩
  have hfinish := finish_part h.engine { exe with draws := exe.draws + 1 } hobjs haliases
    (fun rec _ => hbody rec) (by rw [h.make_clauses]; exact hσ) hio h.branches.1
  unfold exeAction
  simp only [hrun, Outcome.ok_bind, hexe]
  rw [hfinish, h.make_ts, h0, h1]
  rfl

theorem LoadedPair.make_sub {make pair : LoadedAction Term} (h : LoadedPair make pair)
    (exe : ExeContext Term) : ∃ sub : SubRun Term, sub.chain = (madeExe exe).chain ∧
      runSubaction sampleEnv [make.meta_, pair.meta_] sampleCalls [make] "Make" exe =
        .ok (sub, madeExe exe) := by
  have hcalls : sampleCalls "Make" = makeScript.calls := rfl
  obtain ⟨out, hout⟩ : ∃ out, subOut make.meta_ (madeRun exe) = .ok out := by
    simp [subOut, madeRun, partObject, ObjectIO.produces, ActionMeta.outEntry, h.engine.outs,
      h.engine.ins, findEntry, ioPart, arrayOf, arrayFrom, asDict_ofDict]
  refine ⟨⟨(madeRun exe).stIo, (madeRun exe).chain0, (madeRun exe).chain, out⟩, rfl, ?_⟩
  rw [runSubaction, if_pos h.make_name, hcalls, h.make_exe]
  simp only [Outcome.ok_bind, hout]
  rfl

theorem subaction_run {runSub : RunSub Term} {ctx : ActionContext Term} {action : String}
    {exe exe' : ExeContext Term} {sub : SubRun Term} {s : VarState}
    (hsafe : ctx.unsafeBlock = false) (hexe : ctx.exeCtx = some exe)
    (hs : ctx.varState "chain" = some s) (hrun : runSub action exe = .ok (sub, exe')) :
    ctx.subaction runSub action = .ok (ctx.declare (some exe')
      (sub.out.map fun (o : Term × Nat × Dictionary Term) => ofDict o.2.2)
      (.subAction action ctx.heap.length (some sub)) s) := by
  obtain ⟨heap, insts, vars, varState, anonSeq, block, exeCtx⟩ := ctx
  simp only at hsafe hexe hs
  subst hsafe hexe
  unfold ActionContext.subaction ActionContext.assertUnsafe
  simp only [hrun, Outcome.ok_bind, ActionContext.incTVar, ActionContext.alloc,
    ActionContext.push, hs, ↓reduceIte]
  rfl

/-- The hull is declared first and emitted after the engine of the sub-action. -/
theorem LoadedPair.pair_exe {make pair : LoadedAction Term} (h : LoadedPair make pair)
    {runSub : RunSub Term} (exe : ExeContext Term) {exe' : ExeContext Term} {sub : SubRun Term}
    (hsub : runSub "Make" { exe with draws := exe.draws + 1 } = .ok (sub, exe'))
    (hchain : sub.chain = exe'.chain) : ∃ run,
    exeAction sampleEnv [make.meta_, pair.meta_] pairScript.calls runSub pair exe = .ok (run,
      { exe' with
        chain := nextChain exe'.chain "Hull" exe.draws
        outputs := exe'.outputs ++ [stampedPart "Hull" exe.draws] }) := by
  obtain ⟨σ, hσ, hio⟩ := apply_pair "Hull" exe.draws sub
  obtain ⟨ctx, s, header, hcalls, hsafe, hexe, hs, hinsts, hheap⟩ :
      ∃ (ctx : ActionContext Term) (s : VarState) (header : VarOrValue Term),
      (ActionContext.new sampleEnv (some exe)).runCalls sampleEnv runSub pairScript.calls =
        ctx.runCalls sampleEnv runSub [.subaction "Make"] ∧ ctx.unsafeBlock = false ∧
      ctx.exeCtx = some { exe with draws := exe.draws + 1 } ∧ ctx.varState "chain" = some s ∧
      ctx.insts = [.object .output 1 "Hull" none] ∧
      ctx.heap = [header, .var ⟨"hull", .dict, some (ofDict (part "Hull" exe.draws)), none⟩] :=
    ⟨_, _, _, rfl, rfl, rfl, rfl, rfl, rfl⟩
  have hlast := subaction_run hsafe hexe hs hsub
  obtain ⟨ctx', hrun, hexe', hobjs, haliases, hbody⟩ : ∃ ctx',
      (ActionContext.new sampleEnv (some exe)).runCalls sampleEnv runSub pairScript.calls = .ok ctx' ∧
      ctx'.exeCtx = some exe' ∧
      ctx'.exeObjects ctx'.insts = .ok [partObject "Hull" "hull" exe.draws] ∧
      ctx'.exeAliases ctx'.insts = .ok [] ∧
      ∀ rec : Records Term, rec.chainSteps = none → rec.exeBody pair.meta_ sampleEnv ctx'
        pair.meta_.objectTs 0 ctx'.insts = .ok [makeStmt sub] := by
    refine ⟨_, hcalls.trans (by simp only [runCalls, Call.run, hlast, Outcome.ok_bind]; rfl), rfl,
      ?_, ?_, ?_⟩
    · simp only [ActionContext.declare, hinsts, hheap]
      exact exeObjects_part rfl rfl rfl
    · simp only [ActionContext.declare, hinsts, hheap]
      cases hout : sub.out <;>
        simp [ActionContext.exeAliases, ActionContext.exeAlias, ActionContext.varName,
          ActionContext.nameOf, VarOrValue.name?, hout]
    · intro rec hsteps
      simp [ActionContext.declare, hinsts, Records.exeBody, Records.exeInst, Records.subStmt,
        Records.chainAnchor, hsteps, Stmt.lift, replaceArgs, replaceArg, literals, makeStmt]
  unfold exeAction
  simp only [hrun, Outcome.ok_bind, hexe']
  exact ⟨_, finish_part h.hull exe' hobjs haliases hbody
    (by rw [h.pair_clauses, ← hchain]; exact hσ) hio h.branches.2⟩

theorem LoadedPair.find {make pair : LoadedAction Term} (h : LoadedPair make pair) :
    (moduleActions ([make, pair].map LoadedAction.meta_)).find? (fun m => m.name = "Pair") =
      some pair.meta_ := by
  simp [moduleActions, h.make_name, h.pair_name]

theorem LoadedPair.builds {make pair : LoadedAction Term} (h : LoadedPair make pair) :
    buildAction sampleEnv [make, pair] sampleCalls "Pair" [] =
      .ok ([stampedPart "Engine" 1, stampedPart "Hull" 0], []) := by
  obtain ⟨sub, hchain, hsub⟩ := h.make_sub ⟨[], [], hash (ofSet ∅) empty, 1, []⟩
  obtain ⟨run, hrun⟩ := h.pair_exe ⟨[], [], hash (ofSet ∅) empty, 0, []⟩ hsub hchain
  have hcalls : sampleCalls "Pair" = pairScript.calls := rfl
  have hfind := h.find
  simp only [List.map_cons, List.map_nil] at hfind
  simp only [buildAction, List.map_cons, List.map_nil, hfind, h.inputs, h.kind, checkInputs,
    runAction, List.reverse_cons, List.reverse_nil, List.nil_append, List.cons_append,
    if_pos h.pair_name, hcalls, List.toFinset_nil]
  simp [Outcome.check, hrun, madeExe, h.inputs]

/-- `Pair` declares its hull before it calls `Make`, and returns the engine first. -/
theorem outputs_before_subaction_out_of_order : ∃ make pair,
    loadModule sampleEnv [makeScript, pairScript] = .ok [make, pair] ∧
    buildAction sampleEnv [make, pair] sampleCalls "Pair" [] =
      .ok ([stampedPart "Engine" 1, stampedPart "Hull" 0], []) ∧
    pair.meta_.totalOutputs.map (·.class_) = ["Hull", "Engine"] ∧
    ¬ List.Forall₂ (fun r d => OfClass sampleEnv r.class_ d) pair.meta_.totalOutputs
      [stampedPart "Engine" 1, stampedPart "Hull" 0] := by
  obtain ⟨make, pair, h⟩ := pair_loads
  refine ⟨make, pair, h.load, h.builds, h.outputs, ?_⟩
  intro htypes
  have hhead : OfClass sampleEnv "Hull" (stampedPart "Engine" 1) := by
    rw [← List.forall₂_map_left_iff (f := fun r : ActionObjectRef => r.class_), h.outputs] at htypes
    cases htypes with
    | cons hhead _ => exact hhead
  obtain ⟨v, hhull, htype⟩ := hhead
  rw [part_type] at htype
  simp only [sampleEnv, Option.some.injEq] at hhull htype
  have hstr : (ofStr "Hull" : Term) = ofStr "Engine" := hhull.trans htype.symm
  exact absurd (Values.ofStr_injective hstr) (by decide)

theorem outputs_line_up_pair : ∃ make pair : LoadedAction Term,
    pair.meta_.totalOutputs.length = 2 ∧
    (([] : List Taken) = pair.meta_.totalInputs.map ActionObjectRef.taken ↔
      (moduleShape (exeDecls sampleCalls) [make, pair] pair.meta_).inputs =
        (moduleShape loadDecls [make, pair] pair.meta_).inputs) := by
  obtain ⟨make, pair, h⟩ := pair_loads
  have hline := outputs_line_up sampleEnv [makeScript, pairScript] [make, pair] h.load sampleCalls
    "Pair" pair.meta_ h.find [] _ [] h.builds
  exact ⟨make, pair, hline.1.symm, hline.2.2.1⟩

end Sample

end DigitalObjects.Sdk
