import DigitalObjects.Lib.Outcome
set_option autoImplicit false

/-!
Programs over a store that outlives them: a program that fails leaves the store as it was at
that point. A triple bounds the store after a normal return and after any failure.
-/

namespace DigitalObjects.Lib

def Prog (σ ε α : Type) := σ → Outcome ε α × σ

namespace Prog

variable {σ ε α β : Type}

protected def bind (m : Prog σ ε α) (f : α → Prog σ ε β) : Prog σ ε β := fun s =>
  match m s with
  | (.ok a, s') => f a s'
  | (.err e, s') => (.err e, s')
  | (.panic p, s') => (.panic p, s')

instance : Monad (Prog σ ε) where
  pure a := fun s => (.ok a, s)
  bind := Prog.bind

def read (f : σ → α) : Prog σ ε α := fun s => (.ok (f s), s)

def lift (o : Outcome ε α) : Prog σ ε α := fun s => (o, s)

/-- A call for every element, from left to right. -/
def mapList (f : α → Prog σ ε β) : List α → Prog σ ε (List β)
  | [] => pure []
  | a :: as => do
    let b ← f a
    let bs ← mapList f as
    pure (b :: bs)

theorem pure_apply (a : α) (s : σ) : (pure a : Prog σ ε α) s = (.ok a, s) := rfl

theorem bind_ok {m : Prog σ ε α} {f : α → Prog σ ε β} {s s' : σ} {a : α} (h : m s = (.ok a, s')) :
    (m >>= f) s = f a s' := by
  show Prog.bind m f s = _
  rw [Prog.bind, h]

protected theorem bind_assoc {γ : Type} (m : Prog σ ε α) (f : α → Prog σ ε β)
    (g : β → Prog σ ε γ) : (m >>= f) >>= g = m >>= fun a => f a >>= g := by
  funext s
  show Prog.bind (Prog.bind m f) g s = Prog.bind m (fun a => Prog.bind (f a) g) s
  obtain ⟨o, s', heq⟩ : ∃ o s', m s = (o, s') := ⟨_, _, rfl⟩
  cases o <;> simp [Prog.bind, heq]

/-- `Q` holds after a normal return and `R` after a failure. -/
def Triple (P : σ → Prop) (m : Prog σ ε α) (Q : α → σ → Prop) (R : σ → Prop) : Prop :=
  ∀ s, P s → match (m s).1 with
    | .ok a => Q a (m s).2
    | .err _ => R (m s).2
    | .panic _ => R (m s).2

variable {P P' : σ → Prop} {Q Q' : α → σ → Prop} {R R' : σ → Prop}

theorem Triple.pure {a : α} (h : ∀ s, P s → Q a s) : Triple P (Pure.pure a : Prog σ ε α) Q R := h

theorem Triple.lift {o : Outcome ε α} (hok : ∀ a s, o = .ok a → P s → Q a s)
    (hfail : ∀ s, P s → R s) : Triple P (Prog.lift o) Q R := by
  intro s hs
  cases o with
  | ok a => exact hok a s rfl hs
  | err e => exact hfail s hs
  | panic m => exact hfail s hs

theorem Triple.bind {m : Prog σ ε α} {f : α → Prog σ ε β} {Q' : β → σ → Prop}
    (hm : Triple P m Q R) (hf : ∀ a, Triple (Q a) (f a) Q' R) : Triple P (m >>= f) Q' R := by
  intro s hs
  have hms := hm s hs
  show match (Prog.bind m f s).1 with
    | .ok b => Q' b (Prog.bind m f s).2
    | .err _ => R (Prog.bind m f s).2
    | .panic _ => R (Prog.bind m f s).2
  obtain ⟨o, s', heq⟩ : ∃ o s', m s = (o, s') := ⟨_, _, rfl⟩
  rw [heq] at hms
  cases o with
  | ok a =>
    have hfa := hf a s' hms
    simpa [Prog.bind, heq] using hfa
  | err e => simpa [Prog.bind, heq] using hms
  | panic p => simpa [Prog.bind, heq] using hms

theorem Triple.imp {m : Prog σ ε α} (h : Triple P m Q R) (hP : ∀ s, P' s → P s)
    (hQ : ∀ a s, Q a s → Q' a s) (hR : ∀ s, R s → R' s) : Triple P' m Q' R' := by
  intro s hs
  have hms := h s (hP s hs)
  cases ho : (m s).1 with
  | ok a =>
    rw [ho] at hms
    exact hQ _ _ hms
  | err e =>
    rw [ho] at hms
    exact hR _ hms
  | panic p =>
    rw [ho] at hms
    exact hR _ hms

/-- What the program needs beyond the store can be settled first. -/
theorem Triple.of_pre {p : Prop} {m : Prog σ ε α} (h : p → Triple P m Q R) :
    Triple (fun s => p ∧ P s) m Q R := fun s hs => h hs.1 s hs.2

theorem Triple.read_bind {f : σ → α} {g : α → Prog σ ε β} {Q' : β → σ → Prop}
    (h : ∀ a, Triple (fun s => f s = a ∧ P s) (g a) Q' R) : Triple P (Prog.read f >>= g) Q' R :=
  Triple.bind (Q := fun a s => f s = a ∧ P s) (fun _ hs => ⟨rfl, hs⟩) h

/-- An invariant of every call holds after all of them, with what each call returned. -/
theorem Triple.mapList {f : α → Prog σ ε β} {S : α → β → Prop} {as : List α}
    (hf : ∀ a ∈ as, Triple P (f a) (fun b s => S a b ∧ P s) P) :
    Triple P (Prog.mapList f as) (fun bs s => List.Forall₂ S as bs ∧ P s) P := by
  induction as with
  | nil => exact Triple.pure fun s hs => ⟨.nil, hs⟩
  | cons a as ih =>
    refine Triple.bind (hf a (by simp)) fun b => Triple.of_pre fun hb => ?_
    refine Triple.bind (ih fun a' ha' => hf a' (List.mem_cons_of_mem a ha')) fun bs => ?_
    exact Triple.pure fun s hs => ⟨.cons hb hs.1, hs.2⟩

/-- The store after a program, however it ended. -/
theorem Triple.store {I : σ → Prop} {m : Prog σ ε α} (h : Triple I m (fun _ => I) I) {s : σ}
    (hs : I s) : I (m s).2 := by
  have hms := h s hs
  cases ho : (m s).1 with
  | ok a =>
    rw [ho] at hms
    exact hms
  | err e =>
    rw [ho] at hms
    exact hms
  | panic p =>
    rw [ho] at hms
    exact hms

end Prog

end DigitalObjects.Lib
