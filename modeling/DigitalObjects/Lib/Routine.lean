import Mathlib.Data.List.Basic
set_option autoImplicit false

/-!
Routines that issue single operations on a device. The device may refuse an operation, leave
it half done, or the routine may die before it or in its middle. A guard says which of these
answers a run gets; `Sat` is the weakest precondition over all of them.
-/

namespace DigitalObjects.Lib

/-- What becomes of one operation. -/
inductive Answer where
  | done
  | failed
  | torn
  | crashed
  | cut
deriving DecidableEq, Repr

inductive Routine (W P ε α : Type) where
  | ret (a : α)
  | throw (e : ε)
  | read (k : W → Routine W P ε α)
  | update (f : W → W) (k : Routine W P ε α)
  | op (p : P) (k : Bool → Routine W P ε α)

/-- How a routine ends. -/
inductive End (ε α : Type) where
  | returned (a : α)
  | failed (e : ε)
  | crashed
deriving DecidableEq, Repr

/-- The effect of an operation, and of an operation that stops half way. -/
structure Device (W P : Type) where
  done : P → W → W
  torn : P → W → W

namespace Routine

variable {W P ε α β γ : Type}

protected def bind : Routine W P ε α → (α → Routine W P ε β) → Routine W P ε β
  | .ret a, f => f a
  | .throw e, _ => .throw e
  | .read k, f => .read fun w => (k w).bind f
  | .update g k, f => .update g (k.bind f)
  | .op p k, f => .op p fun b => (k b).bind f

instance : Monad (Routine W P ε) where
  pure := .ret
  bind := Routine.bind

/-- What the routine sees of the device. -/
def get : Routine W P ε W := .read .ret

def modify (f : W → W) : Routine W P ε Unit := .update f (.ret ())

def lift : Except ε α → Routine W P ε α
  | .ok a => .ret a
  | .error e => .throw e

/-- An operation whose failure ends the routine. -/
def perform (p : P) (e : ε) : Routine W P ε Unit := .op p fun b => if b then .ret () else .throw e

/-- An operation whose failure is ignored. -/
def tryPerform (p : P) : Routine W P ε Unit := .op p fun _ => .ret ()

/-- An error of the routine becomes its result. -/
def attempt : Routine W P ε α → Routine W P ε (Except ε α)
  | .ret a => .ret (.ok a)
  | .throw e => .ret (.error e)
  | .read k => .read fun w => (k w).attempt
  | .update f k => .update f k.attempt
  | .op p k => .op p fun b => (k b).attempt

/-- A call for every element, from left to right. -/
def forList (f : α → Routine W P ε Unit) : List α → Routine W P ε Unit
  | [] => .ret ()
  | a :: as => do
    f a
    forList f as

/-- A loop that carries a value. -/
def foldList (f : β → α → Routine W P ε β) : β → List α → Routine W P ε β
  | b, [] => .ret b
  | b, a :: as => do
    let b ← f b a
    foldList f b as

/-- A run under a list of answers; what is left is done. -/
def exec (d : Device W P) : Routine W P ε α → W → List Answer → End ε α × W
  | .ret a, w, _ => (.returned a, w)
  | .throw e, w, _ => (.failed e, w)
  | .read k, w, as => (k w).exec d w as
  | .update f k, w, as => k.exec d (f w) as
  | .op p k, w, as =>
    match as.headD .done with
    | .done => (k true).exec d (d.done p w) as.tail
    | .failed => (k false).exec d w as.tail
    | .torn => (k false).exec d (d.torn p w) as.tail
    | .crashed => (.crashed, w)
    | .cut => (.crashed, d.torn p w)

/-- Every answer of the run meets the guard. -/
def Follows (d : Device W P) (G : W → P → Answer → Prop) :
    Routine W P ε α → W → List Answer → Prop
  | .ret _, _, _ => True
  | .throw _, _, _ => True
  | .read k, w, as => (k w).Follows d G w as
  | .update f k, w, as => k.Follows d G (f w) as
  | .op p k, w, as => G w p (as.headD .done) ∧
    match as.headD .done with
    | .done => (k true).Follows d G (d.done p w) as.tail
    | .failed => (k false).Follows d G w as.tail
    | .torn => (k false).Follows d G (d.torn p w) as.tail
    | .crashed => True
    | .cut => True

instance decidableFollows (d : Device W P) (G : W → P → Answer → Prop)
    [∀ w p a, Decidable (G w p a)] :
    (m : Routine W P ε α) → (w : W) → (as : List Answer) → Decidable (m.Follows d G w as)
  | .ret _, _, _ => .isTrue trivial
  | .throw _, _, _ => .isTrue trivial
  | .read k, w, as => decidableFollows d G (k w) w as
  | .update f k, w, as => decidableFollows d G k (f w) as
  | .op p k, w, as =>
    have : Decidable (match as.headD .done with
        | .done => (k true).Follows d G (d.done p w) as.tail
        | .failed => (k false).Follows d G w as.tail
        | .torn => (k false).Follows d G (d.torn p w) as.tail
        | .crashed => True
        | .cut => True) :=
      match as.headD .done with
      | .done => decidableFollows d G (k true) (d.done p w) as.tail
      | .failed => decidableFollows d G (k false) w as.tail
      | .torn => decidableFollows d G (k false) (d.torn p w) as.tail
      | .crashed => .isTrue trivial
      | .cut => .isTrue trivial
    inferInstanceAs (Decidable (G w p (as.headD .done) ∧ match as.headD .done with
        | .done => (k true).Follows d G (d.done p w) as.tail
        | .failed => (k false).Follows d G w as.tail
        | .torn => (k false).Follows d G (d.torn p w) as.tail
        | .crashed => True
        | .cut => True))

/-- However the guarded answers fall, the routine ends in `Q`. -/
def Sat (d : Device W P) (G : W → P → Answer → Prop) :
    Routine W P ε α → (End ε α → W → Prop) → W → Prop
  | .ret a, Q, w => Q (.returned a) w
  | .throw e, Q, w => Q (.failed e) w
  | .read k, Q, w => (k w).Sat d G Q w
  | .update f k, Q, w => k.Sat d G Q (f w)
  | .op p k, Q, w =>
    (G w p .done → (k true).Sat d G Q (d.done p w)) ∧
    (G w p .failed → (k false).Sat d G Q w) ∧
    (G w p .torn → (k false).Sat d G Q (d.torn p w)) ∧
    (G w p .crashed → Q .crashed w) ∧
    (G w p .cut → Q .crashed (d.torn p w))

variable {d : Device W P} {G : W → P → Answer → Prop}

theorem Sat.exec {m : Routine W P ε α} {Q : End ε α → W → Prop} {w : W} {as : List Answer}
    (h : m.Sat d G Q w) (hf : m.Follows d G w as) : Q (m.exec d w as).1 (m.exec d w as).2 := by
  induction m generalizing w as with
  | ret a => exact h
  | throw e => exact h
  | read k ih => exact ih w h hf
  | update f k ih => exact ih h hf
  | op p k ih =>
    obtain ⟨hdone, hfailed, htorn, hcrashed, hcut⟩ := h
    obtain ⟨hg, hrest⟩ := hf
    simp only [Routine.exec]
    cases ha : as.headD .done with
    | done =>
      rw [ha] at hg hrest
      exact ih true (hdone hg) hrest
    | failed =>
      rw [ha] at hg hrest
      exact ih false (hfailed hg) hrest
    | torn =>
      rw [ha] at hg hrest
      exact ih false (htorn hg) hrest
    | crashed =>
      rw [ha] at hg
      exact hcrashed hg
    | cut =>
      rw [ha] at hg
      exact hcut hg

theorem Sat.mono {m : Routine W P ε α} {Q Q' : End ε α → W → Prop} {w : W} (h : m.Sat d G Q w)
    (hQ : ∀ o w', Q o w' → Q' o w') : m.Sat d G Q' w := by
  induction m generalizing w with
  | ret a => exact hQ _ _ h
  | throw e => exact hQ _ _ h
  | read k ih => exact ih w h
  | update f k ih => exact ih h
  | op p k ih =>
    obtain ⟨hdone, hfailed, htorn, hcrashed, hcut⟩ := h
    exact ⟨fun hg => ih true (hdone hg), fun hg => ih false (hfailed hg),
      fun hg => ih false (htorn hg), fun hg => hQ _ _ (hcrashed hg), fun hg => hQ _ _ (hcut hg)⟩

theorem Sat.and {m : Routine W P ε α} {Q Q' : End ε α → W → Prop} {w : W} (h : m.Sat d G Q w)
    (h' : m.Sat d G Q' w) : m.Sat d G (fun o w' => Q o w' ∧ Q' o w') w := by
  induction m generalizing w with
  | ret a => exact ⟨h, h'⟩
  | throw e => exact ⟨h, h'⟩
  | read k ih => exact ih w h h'
  | update f k ih => exact ih h h'
  | op p k ih =>
    obtain ⟨hdone, hfailed, htorn, hcrashed, hcut⟩ := h
    obtain ⟨hdone', hfailed', htorn', hcrashed', hcut'⟩ := h'
    exact ⟨fun hg => ih true (hdone hg) (hdone' hg), fun hg => ih false (hfailed hg) (hfailed' hg),
      fun hg => ih false (htorn hg) (htorn' hg), fun hg => ⟨hcrashed hg, hcrashed' hg⟩,
      fun hg => ⟨hcut hg, hcut' hg⟩⟩

theorem Follows.mono {G' : W → P → Answer → Prop} {m : Routine W P ε α} {w : W} {as : List Answer}
    (h : m.Follows d G w as) (hG : ∀ w p a, G w p a → G' w p a) : m.Follows d G' w as := by
  induction m generalizing w as with
  | ret a => exact True.intro
  | throw e => exact True.intro
  | read k ih => exact ih w h
  | update f k ih => exact ih h
  | op p k ih =>
    obtain ⟨hg, hrest⟩ := h
    refine ⟨hG w p _ hg, ?_⟩
    cases ha : as.headD .done with
    | done =>
      rw [ha] at hrest
      exact ih true hrest
    | failed =>
      rw [ha] at hrest
      exact ih false hrest
    | torn =>
      rw [ha] at hrest
      exact ih false hrest
    | crashed => exact True.intro
    | cut => exact True.intro

theorem follows_true (m : Routine W P ε α) (w : W) (as : List Answer) :
    m.Follows d (fun _ _ _ => True) w as := by
  induction m generalizing w as with
  | ret a => exact True.intro
  | throw e => exact True.intro
  | read k ih => exact ih w w as
  | update f k ih => exact ih (f w) as
  | op p k ih =>
    refine ⟨True.intro, ?_⟩
    cases as.headD .done with
    | done => exact ih true _ _
    | failed => exact ih false _ _
    | torn => exact ih false _ _
    | crashed => exact True.intro
    | cut => exact True.intro

/-- Where no answer is a crash, no run ends in one. -/
theorem Sat.not_crashed (hG : ∀ w p, ¬ G w p .crashed ∧ ¬ G w p .cut) (m : Routine W P ε α) (w : W) :
    m.Sat d G (fun o _ => o ≠ .crashed) w := by
  induction m generalizing w with
  | ret a => simp [Sat]
  | throw e => simp [Sat]
  | read k ih => exact ih w w
  | update f k ih => exact ih (f w)
  | op p k ih =>
    exact ⟨fun _ => ih true _, fun _ => ih false _, fun _ => ih false _,
      fun hg => absurd hg (hG w p).1, fun hg => absurd hg (hG w p).2⟩

/-- What a routine must end in for its continuation to end in `Q`. -/
def thenSat (d : Device W P) (G : W → P → Answer → Prop) (f : α → Routine W P ε β)
    (Q : End ε β → W → Prop) : End ε α → W → Prop
  | .returned a, w => (f a).Sat d G Q w
  | .failed e, w => Q (.failed e) w
  | .crashed, w => Q .crashed w

theorem sat_bind {m : Routine W P ε α} {f : α → Routine W P ε β} {Q : End ε β → W → Prop} {w : W} :
    (m >>= f).Sat d G Q w ↔ m.Sat d G (thenSat d G f Q) w := by
  show (m.bind f).Sat d G Q w ↔ _
  induction m generalizing w with
  | ret a => rfl
  | throw e => rfl
  | read k ih => exact ih w
  | update g k ih => exact ih
  | op p k ih => simp only [Routine.bind, Sat, ih, thenSat]

theorem sat_attempt {m : Routine W P ε α} {Q : End ε (Except ε α) → W → Prop} {w : W} :
    (m.attempt).Sat d G Q w ↔ m.Sat d G (fun o w' => match o with
      | .returned a => Q (.returned (.ok a)) w'
      | .failed e => Q (.returned (.error e)) w'
      | .crashed => Q .crashed w') w := by
  induction m generalizing w with
  | ret a => rfl
  | throw e => rfl
  | read k ih => exact ih w
  | update g k ih => exact ih
  | op p k ih => simp only [attempt, Sat, ih]

/-- `Q` after a normal return, `R` after a failure or a crash. -/
def outcome (Q : α → W → Prop) (R : W → Prop) : End ε α → W → Prop
  | .returned a, w => Q a w
  | .failed _, w => R w
  | .crashed, w => R w

def Triple (d : Device W P) (G : W → P → Answer → Prop) (A : W → Prop) (m : Routine W P ε α)
    (Q : α → W → Prop) (R : W → Prop) : Prop :=
  ∀ w, A w → m.Sat d G (outcome Q R) w

variable {A A' : W → Prop} {Q Q' : α → W → Prop} {R R' : W → Prop}

theorem Triple.ret {a : α} (h : ∀ w, A w → Q a w) :
    Triple d G A (.ret a : Routine W P ε α) Q R := h

theorem Triple.throw {e : ε} (h : ∀ w, A w → R w) :
    Triple d G A (.throw e : Routine W P ε α) Q R := h

theorem Triple.imp {m : Routine W P ε α} (h : Triple d G A m Q R) (hA : ∀ w, A' w → A w)
    (hQ : ∀ a w, Q a w → Q' a w) (hR : ∀ w, R w → R' w) : Triple d G A' m Q' R' := by
  intro w hw
  refine (h w (hA w hw)).mono fun o w' ho => ?_
  cases o with
  | returned a => exact hQ a w' ho
  | failed e => exact hR w' ho
  | crashed => exact hR w' ho

theorem Triple.and {m : Routine W P ε α} (h : Triple d G A m Q R) (h' : Triple d G A' m Q' R') :
    Triple d G (fun w => A w ∧ A' w) m (fun a w => Q a w ∧ Q' a w) (fun w => R w ∧ R' w) := by
  intro w hw
  refine ((h w hw.1).and (h' w hw.2)).mono fun o w' ho => ?_
  cases o with
  | returned a => exact ho
  | failed e => exact ho
  | crashed => exact ho

/-- A fact that does not depend on the state. -/
theorem Triple.of_pre {p : Prop} {m : Routine W P ε α} (h : p → Triple d G A m Q R) :
    Triple d G (fun w => p ∧ A w) m Q R := fun w hw => h hw.1 w hw.2

theorem Triple.bind {m : Routine W P ε α} {f : α → Routine W P ε β} {Q' : β → W → Prop}
    (hm : Triple d G A m Q R) (hf : ∀ a, Triple d G (Q a) (f a) Q' R) :
    Triple d G A (m >>= f) Q' R := by
  intro w hw
  rw [sat_bind]
  refine (hm w hw).mono fun o w' ho => ?_
  cases o with
  | returned a => exact hf a w' ho
  | failed e => exact ho
  | crashed => exact ho

theorem Triple.get_bind {f : W → Routine W P ε β} {Q' : β → W → Prop}
    (h : ∀ w₀, A w₀ → Triple d G (fun w => w = w₀) (f w₀) Q' R) :
    Triple d G A (Routine.get >>= f) Q' R := by
  intro w hw
  exact h w hw w rfl

theorem Triple.lift {o : Except ε α} (hok : ∀ a w, o = .ok a → A w → Q a w)
    (herr : ∀ w, A w → R w) : Triple d G A (Routine.lift o) Q R := by
  intro w hw
  cases o with
  | ok a => exact hok a w rfl hw
  | error e => exact herr w hw

theorem Triple.modify {f : W → W} {Q : Unit → W → Prop} (h : ∀ w, A w → Q () (f w)) :
    Triple d G A (Routine.modify f : Routine W P ε Unit) Q R := h

/-- An operation: its effect, and what is left when it does not come to its end. -/
theorem Triple.perform {p : P} {e : ε} {Q : Unit → W → Prop}
    (hdone : ∀ w, A w → G w p .done → Q () (d.done p w))
    (hnot : ∀ w, A w → R w)
    (htorn : ∀ w, A w → G w p .torn ∨ G w p .cut → R (d.torn p w)) :
    Triple d G A (Routine.perform p e) Q R := by
  intro w hw
  exact ⟨hdone w hw, fun _ => hnot w hw, fun hg => htorn w hw (.inl hg), fun _ => hnot w hw,
    fun hg => htorn w hw (.inr hg)⟩

theorem Triple.tryPerform {p : P} {Q : Unit → W → Prop}
    (hdone : ∀ w, A w → G w p .done → Q () (d.done p w))
    (hfailed : ∀ w, A w → G w p .failed → Q () w)
    (htorn : ∀ w, A w → G w p .torn → Q () (d.torn p w))
    (hcrashed : ∀ w, A w → G w p .crashed → R w)
    (hcut : ∀ w, A w → G w p .cut → R (d.torn p w)) :
    Triple d G A (Routine.tryPerform p : Routine W P ε Unit) Q R := by
  intro w hw
  exact ⟨hdone w hw, hfailed w hw, htorn w hw, hcrashed w hw, hcut w hw⟩

theorem Triple.attempt {m : Routine W P ε α} (h : Triple d G A m Q R) :
    Triple d G A m.attempt (fun o w => match o with
      | .ok a => Q a w
      | .error _ => R w) R := by
  intro w hw
  rw [sat_attempt]
  refine (h w hw).mono fun o w' ho => ?_
  cases o with
  | returned a => exact ho
  | failed e => exact ho
  | crashed => exact ho

/-- The same where no answer is a crash. -/
theorem Triple.attempt_caught {m : Routine W P ε α} (hG : ∀ w p, ¬ G w p .crashed ∧ ¬ G w p .cut)
    (h : Triple d G A m Q R) :
    Triple d G A m.attempt (fun o w => match o with
      | .ok a => Q a w
      | .error _ => R w) R' := by
  intro w hw
  rw [sat_attempt]
  refine ((h w hw).and (Sat.not_crashed hG m w)).mono fun o w' ho => ?_
  cases o with
  | returned a => exact ho.1
  | failed e => exact ho.1
  | crashed => exact absurd rfl ho.2

/-- An invariant of every call holds after all of them. -/
theorem Triple.forList {f : α → Routine W P ε Unit} {as : List α}
    (h : ∀ a ∈ as, Triple d G A (f a) (fun _ => A) R) :
    Triple d G A (Routine.forList f as) (fun _ => A) R := by
  induction as with
  | nil => exact Triple.ret fun w hw => hw
  | cons a as ih =>
    refine Triple.bind (h a (by simp)) fun _ => ?_
    exact ih fun a' ha' => h a' (List.mem_cons_of_mem a ha')

/-- The same, for an invariant that knows what is still to come. -/
theorem Triple.forList_rest {f : α → Routine W P ε Unit} {I : List α → W → Prop} {as : List α}
    (h : ∀ a rest, Triple d G (I (a :: rest)) (f a) (fun _ => I rest) R) :
    Triple d G (I as) (Routine.forList f as) (fun _ => I []) R := by
  induction as with
  | nil => exact Triple.ret fun w hw => hw
  | cons a as ih => exact Triple.bind (h a as) fun _ => ih

theorem Triple.foldList {f : β → α → Routine W P ε β} {I : β → W → Prop} {b : β} {as : List α}
    (h : ∀ b, ∀ a ∈ as, Triple d G (I b) (f b a) I R) :
    Triple d G (I b) (Routine.foldList f b as) I R := by
  induction as generalizing b with
  | nil => exact Triple.ret fun w hw => hw
  | cons a as ih =>
    refine Triple.bind (h b a (by simp)) fun b' => ?_
    exact ih fun b a' ha' => h b a' (List.mem_cons_of_mem a ha')

theorem Triple.trivial (m : Routine W P ε α) :
    Triple d G (fun _ => True) m (fun _ _ => True) (fun _ => True) := by
  intro w _
  induction m generalizing w with
  | ret a => exact True.intro
  | throw e => exact True.intro
  | read k ih => exact ih w w
  | update f k ih => exact ih (f w)
  | op p k ih =>
    exact ⟨fun _ => ih true _, fun _ => ih false _, fun _ => ih false _, fun _ => True.intro,
      fun _ => True.intro⟩

/-- An invariant: it holds after the routine, however that ended. -/
def Preserves (d : Device W P) (G : W → P → Answer → Prop) (I : W → Prop) (m : Routine W P ε α) :
    Prop :=
  Triple d G I m (fun _ => I) I

variable {I : W → Prop}

theorem Preserves.pure (a : α) : Preserves d G I (Pure.pure a : Routine W P ε α) := fun _ hw => hw

theorem Preserves.throw (e : ε) : Preserves d G I (.throw e : Routine W P ε α) := fun _ hw => hw

theorem Preserves.lift (o : Except ε α) : Preserves d G I (Routine.lift o : Routine W P ε α) :=
  Triple.lift (fun _ _ _ hw => hw) (fun _ hw => hw)

theorem Preserves.bind {m : Routine W P ε α} {f : α → Routine W P ε β} (hm : Preserves d G I m)
    (hf : ∀ a, Preserves d G I (f a)) : Preserves d G I (m >>= f) :=
  Triple.bind hm hf

theorem Preserves.attempt {m : Routine W P ε α} (h : Preserves d G I m) :
    Preserves d G I m.attempt := by
  refine (Triple.attempt h).imp (fun _ hw => hw) (fun o w hw => ?_) (fun _ hw => hw)
  cases o with
  | ok a => exact hw
  | error e => exact hw

theorem Preserves.forList {f : α → Routine W P ε Unit} {as : List α}
    (h : ∀ a ∈ as, Preserves d G I (f a)) : Preserves d G I (Routine.forList f as) :=
  Triple.forList h

theorem Preserves.foldList {f : β → α → Routine W P ε β} {b : β} {as : List α}
    (h : ∀ b, ∀ a ∈ as, Preserves d G I (f b a)) : Preserves d G I (Routine.foldList f b as) :=
  Triple.foldList h

/-- The state that a run ends in, if both ends of the triple say the same. -/
theorem Triple.exec {m : Routine W P ε α} (h : Triple d G A m (fun _ => R) R) {w : W}
    {as : List Answer} (hw : A w) (hf : m.Follows d G w as) : R (m.exec d w as).2 := by
  have hend := (h w hw).exec hf
  cases ho : (m.exec d w as).1 with
  | returned a =>
    rw [ho] at hend
    exact hend
  | failed e =>
    rw [ho] at hend
    exact hend
  | crashed =>
    rw [ho] at hend
    exact hend

/-! ## Specifications that tell the errors apart -/

/-- `Q` after a normal return, `F` after the error, or after a crash. -/
def ending (Q : α → W → Prop) (F : Option ε → W → Prop) : End ε α → W → Prop
  | .returned a, w => Q a w
  | .failed e, w => F (some e) w
  | .crashed, w => F none w

def Spec (d : Device W P) (G : W → P → Answer → Prop) (A : W → Prop) (m : Routine W P ε α)
    (Q : α → W → Prop) (F : Option ε → W → Prop) : Prop :=
  ∀ w, A w → m.Sat d G (ending Q F) w

variable {F F' : Option ε → W → Prop}

theorem Spec.ret {a : α} (h : ∀ w, A w → Q a w) :
    Spec d G A (.ret a : Routine W P ε α) Q F := h

theorem Spec.throw {e : ε} (h : ∀ w, A w → F (some e) w) :
    Spec d G A (.throw e : Routine W P ε α) Q F := h

theorem Spec.imp {m : Routine W P ε α} (h : Spec d G A m Q F) (hA : ∀ w, A' w → A w)
    (hQ : ∀ a w, Q a w → Q' a w) (hF : ∀ e w, F e w → F' e w) : Spec d G A' m Q' F' := by
  intro w hw
  refine (h w (hA w hw)).mono fun o w' ho => ?_
  cases o with
  | returned a => exact hQ a w' ho
  | failed e => exact hF (some e) w' ho
  | crashed => exact hF none w' ho

theorem Spec.bind {m : Routine W P ε α} {f : α → Routine W P ε β} {Q' : β → W → Prop}
    (hm : Spec d G A m Q F) (hf : ∀ a, Spec d G (Q a) (f a) Q' F) :
    Spec d G A (m >>= f) Q' F := by
  intro w hw
  rw [sat_bind]
  refine (hm w hw).mono fun o w' ho => ?_
  cases o with
  | returned a => exact hf a w' ho
  | failed e => exact ho
  | crashed => exact ho

theorem Spec.get_bind {f : W → Routine W P ε β} {Q' : β → W → Prop}
    (h : ∀ w₀, A w₀ → Spec d G (fun w => w = w₀) (f w₀) Q' F) :
    Spec d G A (Routine.get >>= f) Q' F := by
  intro w hw
  exact h w hw w rfl

/-- Every case of the state before. -/
theorem Spec.of_state {m : Routine W P ε α} (h : ∀ w₀, A w₀ → Spec d G (fun w => w = w₀) m Q F) :
    Spec d G A m Q F := fun w hw => h w hw w rfl

theorem Spec.perform {p : P} {e : ε} {Q : Unit → W → Prop}
    (hdone : ∀ w, A w → G w p .done → Q () (d.done p w))
    (hnot : ∀ w, A w → F (some e) w ∧ F none w)
    (htorn : ∀ w, A w → F (some e) (d.torn p w) ∧ F none (d.torn p w)) :
    Spec d G A (Routine.perform p e) Q F := by
  intro w hw
  exact ⟨hdone w hw, fun _ => (hnot w hw).1, fun _ => (htorn w hw).1, fun _ => (hnot w hw).2,
    fun _ => (htorn w hw).2⟩

/-- For an invariant that knows what is still to come. -/
theorem Spec.forList_rest {f : α → Routine W P ε Unit} {I : List α → W → Prop} {as : List α}
    (h : ∀ a rest, Spec d G (I (a :: rest)) (f a) (fun _ => I rest) F) :
    Spec d G (I as) (Routine.forList f as) (fun _ => I []) F := by
  induction as with
  | nil => exact Spec.ret fun w hw => hw
  | cons a as ih => exact Spec.bind (h a as) fun _ => ih

/-- What a run ends in. -/
theorem Spec.exec {m : Routine W P ε α} (h : Spec d G A m Q F) {w : W} {as : List Answer} (hw : A w)
    (hf : m.Follows d G w as) : ending Q F (m.exec d w as).1 (m.exec d w as).2 :=
  (h w hw).exec hf

/-! ## What a routine does -/

/-- Every operation of the run meets `C`. -/
def Performs (d : Device W P) (C : W → P → Prop) : Routine W P ε α → W → List Answer → Prop
  | .ret _, _, _ => True
  | .throw _, _, _ => True
  | .read k, w, as => (k w).Performs d C w as
  | .update f k, w, as => k.Performs d C (f w) as
  | .op p k, w, as => C w p ∧
    match as.headD .done with
    | .done => (k true).Performs d C (d.done p w) as.tail
    | .failed => (k false).Performs d C w as.tail
    | .torn => (k false).Performs d C (d.torn p w) as.tail
    | .crashed => True
    | .cut => True

/-- However the guarded answers fall, every operation meets `C`. -/
def Careful (d : Device W P) (G : W → P → Answer → Prop) (C : W → P → Prop) :
    Routine W P ε α → W → Prop
  | .ret _, _ => True
  | .throw _, _ => True
  | .read k, w => (k w).Careful d G C w
  | .update f k, w => k.Careful d G C (f w)
  | .op p k, w => C w p ∧
    (G w p .done → (k true).Careful d G C (d.done p w)) ∧
    (G w p .failed → (k false).Careful d G C w) ∧
    (G w p .torn → (k false).Careful d G C (d.torn p w))

variable {C : W → P → Prop}

theorem Careful.performs {m : Routine W P ε α} {w : W} {as : List Answer} (h : m.Careful d G C w)
    (hf : m.Follows d G w as) : m.Performs d C w as := by
  induction m generalizing w as with
  | ret a => exact True.intro
  | throw e => exact True.intro
  | read k ih => exact ih w h hf
  | update f k ih => exact ih h hf
  | op p k ih =>
    obtain ⟨hcheck, hdone, hfailed, htorn⟩ := h
    obtain ⟨hg, hrest⟩ := hf
    refine ⟨hcheck, ?_⟩
    cases ha : as.headD .done with
    | done =>
      rw [ha] at hg hrest
      exact ih true (hdone hg) hrest
    | failed =>
      rw [ha] at hg hrest
      exact ih false (hfailed hg) hrest
    | torn =>
      rw [ha] at hg hrest
      exact ih false (htorn hg) hrest
    | crashed => exact True.intro
    | cut => exact True.intro

theorem careful_bind {m : Routine W P ε α} {f : α → Routine W P ε β} {w : W}
    {Q : α → W → Prop} {R : W → Prop} (hm : m.Careful d G C w) (hs : m.Sat d G (outcome Q R) w)
    (hf : ∀ a w, Q a w → (f a).Careful d G C w) : (m >>= f).Careful d G C w := by
  show (m.bind f).Careful d G C w
  induction m generalizing w with
  | ret a => exact hf a w hs
  | throw e => exact True.intro
  | read k ih => exact ih w hm hs
  | update g k ih => exact ih hm hs
  | op p k ih =>
    obtain ⟨hcheck, hdone, hfailed, htorn⟩ := hm
    exact ⟨hcheck, fun hg => ih true (hdone hg) (hs.1 hg), fun hg => ih false (hfailed hg) (hs.2.1 hg),
      fun hg => ih false (htorn hg) (hs.2.2.1 hg)⟩

theorem careful_attempt {m : Routine W P ε α} {w : W} (h : m.Careful d G C w) :
    m.attempt.Careful d G C w := by
  induction m generalizing w with
  | ret a => exact True.intro
  | throw e => exact True.intro
  | read k ih => exact ih w h
  | update f k ih => exact ih h
  | op p k ih =>
    obtain ⟨hcheck, hdone, hfailed, htorn⟩ := h
    exact ⟨hcheck, fun hg => ih true (hdone hg), fun hg => ih false (hfailed hg),
      fun hg => ih false (htorn hg)⟩

/-- A triple of a routine that performs only operations meeting `C`. -/
def Checked (d : Device W P) (G : W → P → Answer → Prop) (C : W → P → Prop) (A : W → Prop)
    (m : Routine W P ε α) (Q : α → W → Prop) (R : W → Prop) : Prop :=
  Triple d G A m Q R ∧ ∀ w, A w → m.Careful d G C w

theorem Checked.ret {a : α} (h : ∀ w, A w → Q a w) :
    Checked d G C A (.ret a : Routine W P ε α) Q R := ⟨h, fun _ _ => True.intro⟩

theorem Checked.throw {e : ε} (h : ∀ w, A w → R w) :
    Checked d G C A (.throw e : Routine W P ε α) Q R := ⟨h, fun _ _ => True.intro⟩

theorem Checked.imp {m : Routine W P ε α} (h : Checked d G C A m Q R) (hA : ∀ w, A' w → A w)
    (hQ : ∀ a w, Q a w → Q' a w) (hR : ∀ w, R w → R' w) : Checked d G C A' m Q' R' :=
  ⟨h.1.imp hA hQ hR, fun w hw => h.2 w (hA w hw)⟩

theorem Checked.bind {m : Routine W P ε α} {f : α → Routine W P ε β} {Q' : β → W → Prop}
    (hm : Checked d G C A m Q R) (hf : ∀ a, Checked d G C (Q a) (f a) Q' R) :
    Checked d G C A (m >>= f) Q' R :=
  ⟨hm.1.bind fun a => (hf a).1, fun w hw => careful_bind (hm.2 w hw) (hm.1 w hw) fun a => (hf a).2⟩

theorem Checked.get_bind {f : W → Routine W P ε β} {Q' : β → W → Prop}
    (h : ∀ w₀, A w₀ → Checked d G C (fun w => w = w₀) (f w₀) Q' R) :
    Checked d G C A (Routine.get >>= f) Q' R :=
  ⟨Triple.get_bind fun w hw => (h w hw).1, fun w hw => (h w hw).2 w rfl⟩

/-- Every case of the state before. -/
theorem Checked.of_state {m : Routine W P ε α} (h : ∀ w₀, A w₀ → Checked d G C (fun w => w = w₀) m Q R) :
    Checked d G C A m Q R := ⟨fun w hw => (h w hw).1 w rfl, fun w hw => (h w hw).2 w rfl⟩

theorem Checked.lift {o : Except ε α} (hok : ∀ a w, o = .ok a → A w → Q a w)
    (herr : ∀ w, A w → R w) : Checked d G C A (Routine.lift o) Q R :=
  ⟨Triple.lift hok herr, fun _ _ => by cases o <;> exact True.intro⟩

theorem Checked.modify {f : W → W} {Q : Unit → W → Prop} (h : ∀ w, A w → Q () (f w)) :
    Checked d G C A (Routine.modify f : Routine W P ε Unit) Q R := ⟨h, fun _ _ => True.intro⟩

theorem Checked.perform {p : P} {e : ε} {Q : Unit → W → Prop} (hcheck : ∀ w, A w → C w p)
    (hdone : ∀ w, A w → G w p .done → Q () (d.done p w)) (hnot : ∀ w, A w → R w)
    (htorn : ∀ w, A w → G w p .torn ∨ G w p .cut → R (d.torn p w)) :
    Checked d G C A (Routine.perform p e) Q R :=
  ⟨Triple.perform hdone hnot htorn,
    fun w hw => ⟨hcheck w hw, fun _ => True.intro, fun _ => True.intro, fun _ => True.intro⟩⟩

theorem Checked.tryPerform {p : P} {Q : Unit → W → Prop} (hcheck : ∀ w, A w → C w p)
    (h : Triple d G A (Routine.tryPerform p : Routine W P ε Unit) Q R) :
    Checked d G C A (Routine.tryPerform p : Routine W P ε Unit) Q R :=
  ⟨h, fun w hw => ⟨hcheck w hw, fun _ => True.intro, fun _ => True.intro, fun _ => True.intro⟩⟩

theorem Checked.attempt {m : Routine W P ε α} (h : Checked d G C A m Q R) :
    Checked d G C A m.attempt (fun o w => match o with
      | .ok a => Q a w
      | .error _ => R w) R :=
  ⟨h.1.attempt, fun w hw => careful_attempt (h.2 w hw)⟩

theorem Checked.forList {f : α → Routine W P ε Unit} {as : List α}
    (h : ∀ a ∈ as, Checked d G C A (f a) (fun _ => A) R) :
    Checked d G C A (Routine.forList f as) (fun _ => A) R := by
  induction as with
  | nil => exact Checked.ret fun w hw => hw
  | cons a as ih =>
    refine Checked.bind (h a (by simp)) fun _ => ?_
    exact ih fun a' ha' => h a' (List.mem_cons_of_mem a ha')

theorem Checked.forList_rest {f : α → Routine W P ε Unit} {I : List α → W → Prop} {as : List α}
    (h : ∀ a rest, Checked d G C (I (a :: rest)) (f a) (fun _ => I rest) R) :
    Checked d G C (I as) (Routine.forList f as) (fun _ => I []) R := by
  induction as with
  | nil => exact Checked.ret fun w hw => hw
  | cons a as ih => exact Checked.bind (h a as) fun _ => ih

theorem Checked.foldList {f : β → α → Routine W P ε β} {I : β → W → Prop} {b : β} {as : List α}
    (h : ∀ b, ∀ a ∈ as, Checked d G C (I b) (f b a) I R) :
    Checked d G C (I b) (Routine.foldList f b as) I R := by
  induction as generalizing b with
  | nil => exact Checked.ret fun w hw => hw
  | cons a as ih =>
    refine Checked.bind (h b a (by simp)) fun b' => ?_
    exact ih fun b a' ha' => h b a' (List.mem_cons_of_mem a ha')

end Routine

end DigitalObjects.Lib
