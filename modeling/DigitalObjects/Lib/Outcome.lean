import DigitalObjects.Lib.Lists
set_option autoImplicit false

/-! Calls that return, fail with an error their caller can handle, or panic. -/

namespace DigitalObjects.Lib

inductive Outcome (ε α : Type) where
  | ok (a : α)
  | err (e : ε)
  | panic (message : String)
deriving Repr

namespace Outcome

variable {ε α β : Type}

protected def bind (o : Outcome ε α) (f : α → Outcome ε β) : Outcome ε β :=
  match o with
  | ok a => f a
  | err e => err e
  | panic m => panic m

instance : Monad (Outcome ε) where
  pure := ok
  bind := Outcome.bind

@[simp] theorem pure_eq (a : α) : (pure a : Outcome ε α) = ok a := rfl

@[simp] theorem ok_bind (a : α) (f : α → Outcome ε β) : (ok a >>= f) = f a := rfl

@[simp] theorem err_bind (e : ε) (f : α → Outcome ε β) : (err e >>= f) = err e := rfl

@[simp] theorem panic_bind (m : String) (f : α → Outcome ε β) :
    (panic m >>= f) = panic m := rfl

instance : LawfulMonad (Outcome ε) := by
  refine LawfulMonad.mk' _ ?_ (fun _ _ => rfl) ?_
  · intro α o
    cases o <;> rfl
  · intro α β γ o f g
    cases o <;> rfl

/-- A checked assertion; its proof is handed to what follows. -/
def require (p : Prop) [Decidable p] (message : String) : Outcome ε (PLift p) :=
  if h : p then ok ⟨h⟩ else panic message

/-- A check whose failure is an error. -/
def check (p : Prop) [Decidable p] (e : ε) : Outcome ε (PLift p) :=
  if h : p then ok ⟨h⟩ else err e

theorem require_pos {p : Prop} [Decidable p] {message : String} (h : p) :
    (require p message : Outcome ε (PLift p)) = ok ⟨h⟩ := dif_pos h

theorem bind_eq_ok {o : Outcome ε α} {f : α → Outcome ε β} {b : β} (h : (o >>= f) = ok b) :
    ∃ a, o = ok a ∧ f a = ok b := by
  cases o with
  | ok a => exact ⟨a, rfl, h⟩
  | err e => cases h
  | panic m => cases h

/-- `Result::unwrap`. -/
def unwrap {ε' : Type} : Outcome ε α → Outcome ε' α
  | ok a => ok a
  | err _ => panic "called unwrap on an error"
  | panic m => panic m

theorem unwrap_eq_ok {ε' : Type} {o : Outcome ε α} {a : α}
    (h : (o.unwrap : Outcome ε' α) = ok a) : o = ok a := by
  cases o with
  | ok b =>
    cases h
    rfl
  | err e => cases h
  | panic m => cases h

/-- A `match` on the result: an error becomes a value, a panic stays one. -/
def attempt {ε' : Type} : Outcome ε α → Outcome ε' (Except ε α)
  | ok a => ok (.ok a)
  | err e => ok (.error e)
  | panic m => panic m

/-- A call for every element, from left to right. -/
def mapList (f : α → Outcome ε β) : List α → Outcome ε (List β)
  | [] => pure []
  | a :: as => do
    let b ← f a
    let bs ← mapList f as
    pure (b :: bs)

theorem mapList_eq_ok {f : α → Outcome ε β} {as : List α} {bs : List β} :
    mapList f as = ok bs ↔ List.Forall₂ (fun a b => f a = ok b) as bs := by
  induction as generalizing bs with
  | nil => simp [mapList, eq_comm]
  | cons a as ih =>
    constructor
    · intro h
      obtain ⟨b, hb, h⟩ := bind_eq_ok h
      obtain ⟨bs', hbs, h⟩ := bind_eq_ok h
      cases h
      exact .cons hb (ih.mp hbs)
    · intro h
      cases h with
      | cons hb hbs => simp [mapList, hb, ih.mpr hbs]

theorem mem_mapList {f : α → Outcome ε β} {as : List α} {bs : List β} (h : mapList f as = ok bs)
    {b : β} (hb : b ∈ bs) : ∃ a ∈ as, f a = ok b := by
  exact forall₂_mem_right (mapList_eq_ok.mp h) hb

theorem mapList_ok {f : α → Outcome ε β} {as : List α}
    (h : ∀ a ∈ as, ∃ b, f a = ok b) : ∃ bs, mapList f as = ok bs := by
  induction as with
  | nil => exact ⟨[], rfl⟩
  | cons a as ih =>
    obtain ⟨b, hb⟩ := h a (by simp)
    obtain ⟨bs, hbs⟩ := ih fun a' ha' => h a' (List.mem_cons_of_mem a ha')
    exact ⟨b :: bs, by simp [mapList, hb, hbs]⟩

/-- Total correctness: no panic, `Q` of every result and `R` of every error. -/
def Meets (o : Outcome ε α) (Q : α → Prop) (R : ε → Prop) : Prop :=
  match o with
  | ok a => Q a
  | err e => R e
  | panic _ => False

@[simp] theorem meets_ok {a : α} {Q : α → Prop} {R : ε → Prop} :
    (ok a : Outcome ε α).Meets Q R ↔ Q a := Iff.rfl

@[simp] theorem meets_err {e : ε} {Q : α → Prop} {R : ε → Prop} :
    (err e : Outcome ε α).Meets Q R ↔ R e := Iff.rfl

@[simp] theorem meets_panic {m : String} {Q : α → Prop} {R : ε → Prop} :
    (panic m : Outcome ε α).Meets Q R ↔ False := Iff.rfl

variable {o : Outcome ε α} {Q Q' : α → Prop} {R R' : ε → Prop}

theorem Meets.mono (h : o.Meets Q R) (hQ : ∀ a, Q a → Q' a) (hR : ∀ e, R e → R' e) :
    o.Meets Q' R' := by
  cases o with
  | ok a => exact hQ a h
  | err e => exact hR e h
  | panic m => exact h

theorem Meets.bind {f : α → Outcome ε β} {Q' : β → Prop} (h : o.Meets Q R)
    (hR : ∀ e, R e → R' e) (hf : ∀ a, Q a → (f a).Meets Q' R') : (o >>= f).Meets Q' R' := by
  cases o with
  | ok a => exact hf a h
  | err e => exact hR e h
  | panic m => exact h

theorem Meets.require_bind {p : Prop} [Decidable p] {message : String}
    {f : PLift p → Outcome ε β} {Q' : β → Prop} (h : p) (hf : (f ⟨h⟩).Meets Q' R) :
    (require p message >>= f).Meets Q' R := by
  rw [require_pos h]
  exact hf

theorem Meets.check_bind {p : Prop} [Decidable p] {e : ε} {f : PLift p → Outcome ε β}
    {Q' : β → Prop} (h : p) (hf : (f ⟨h⟩).Meets Q' R) : (check p e >>= f).Meets Q' R := by
  rw [show check p e = ok ⟨h⟩ from dif_pos h]
  exact hf

theorem Meets.of_ok (h : o.Meets Q R) {a : α} (ha : o = ok a) : Q a := by
  rw [ha] at h
  exact h

theorem Meets.ok_or_err (h : o.Meets Q R) : (∃ a, o = ok a ∧ Q a) ∨ ∃ e, o = err e ∧ R e := by
  cases o with
  | ok a => exact .inl ⟨a, rfl, h⟩
  | err e => exact .inr ⟨e, rfl, h⟩
  | panic m => exact h.elim

/-- Partial correctness: `Q` of a result, if there is one. -/
def Ensures (o : Outcome ε α) (Q : α → Prop) : Prop := ∀ a, o = ok a → Q a

theorem Ensures.of_ok {a : α} (h : Q a) : (ok a : Outcome ε α).Ensures Q := by
  intro b hb
  cases hb
  exact h

theorem Ensures.bind {f : α → Outcome ε β} {Q' : β → Prop} (h : ∀ a, o = ok a → (f a).Ensures Q') :
    (o >>= f).Ensures Q' := by
  intro b hb
  obtain ⟨a, ha, hfa⟩ := bind_eq_ok hb
  exact h a ha b hfa

/-- The call returns, with a result or an error. -/
def NoPanic (o : Outcome ε α) : Prop := ∀ m, o ≠ panic m

@[simp] theorem noPanic_ok (a : α) : (ok a : Outcome ε α).NoPanic := by
  intro m h
  cases h

@[simp] theorem noPanic_err (e : ε) : (err e : Outcome ε α).NoPanic := by
  intro m h
  cases h

theorem NoPanic.bind {f : α → Outcome ε β} (ho : o.NoPanic) (hf : ∀ a, o = ok a → (f a).NoPanic) :
    (o >>= f).NoPanic := by
  cases o with
  | ok a => exact hf a rfl
  | err e => exact noPanic_err e
  | panic m => exact absurd rfl (ho m)

theorem NoPanic.err_of_ne_ok (ho : o.NoPanic) (hok : ∀ a, o ≠ ok a) : ∃ e, o = err e := by
  cases o with
  | ok a => exact absurd rfl (hok a)
  | err e => exact ⟨e, rfl⟩
  | panic m => exact absurd rfl (ho m)

end Outcome

end DigitalObjects.Lib
