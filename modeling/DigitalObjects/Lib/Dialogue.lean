import Mathlib.Logic.Basic
set_option autoImplicit false

/-!
Routines that ask their surroundings questions and go on with the answers. While one waits
for an answer others may act on the shared state, and it may stop there for good.
-/

namespace DigitalObjects.Lib

inductive Dialogue (Q : Type) (A : Q → Type) (ε α : Type) where
  | ret (a : α)
  | throw (e : ε)
  | ask (q : Q) (k : A q → Dialogue Q A ε α)

namespace Dialogue

/-- What happens next: an answer to whatever is asked, or an act of somebody else. -/
inductive Event (E Q : Type) (A : Q → Type) where
  | answer (f : ∀ q, A q)
  | outside (e : E)

/-- What an answered question and an act from outside do to the shared state. -/
structure Effects (σ E Q : Type) (A : Q → Type) where
  answered : σ → (q : Q) → A q → σ
  outside : σ → E → σ

variable {Q σ E : Type} {A : Q → Type} {ε α β : Type}

protected def bind : Dialogue Q A ε α → (α → Dialogue Q A ε β) → Dialogue Q A ε β
  | .ret a, f => f a
  | .throw e, _ => .throw e
  | .ask q k, f => .ask q fun a => (k a).bind f

instance : Monad (Dialogue Q A ε) where
  pure := .ret
  bind := Dialogue.bind

/-- A question whose answer is the result. -/
def query (q : Q) : Dialogue Q A ε (A q) := .ask q .ret

def lift : Except ε α → Dialogue Q A ε α
  | .ok a => .ret a
  | .error e => .throw e

/-- A `match` on the result: an error becomes a value. -/
def attempt : Dialogue Q A ε α → Dialogue Q A ε (Except ε α)
  | .ret a => .ret (.ok a)
  | .throw e => .ret (.error e)
  | .ask q k => .ask q fun a => (k a).attempt

/-- The state after the events; a routine that still asks when they end has stopped there. -/
def exec (d : Effects σ E Q A) : Dialogue Q A ε α → σ → List (Event E Q A) → σ
  | _, s, [] => s
  | m, s, .outside e :: es => m.exec d (d.outside s e) es
  | .ask q k, s, .answer f :: es => (k (f q)).exec d (d.answered s q (f q)) es
  | .ret a, s, .answer _ :: es => (Dialogue.ret a : Dialogue Q A ε α).exec d s es
  | .throw e, s, .answer _ :: es => (Dialogue.throw e : Dialogue Q A ε α).exec d s es

/-- Every answer to a question that is asked meets the guard. -/
def Follows (G : (q : Q) → A q → Prop) : Dialogue Q A ε α → List (Event E Q A) → Prop
  | _, [] => True
  | m, .outside _ :: es => m.Follows G es
  | .ask q k, .answer f :: es => G q (f q) ∧ (k (f q)).Follows G es
  | .ret a, .answer _ :: es => (Dialogue.ret a : Dialogue Q A ε α).Follows G es
  | .throw e, .answer _ :: es => (Dialogue.throw e : Dialogue Q A ε α).Follows G es

instance decidableFollows (G : (q : Q) → A q → Prop) [∀ q a, Decidable (G q a)] :
    (m : Dialogue Q A ε α) → (es : List (Event E Q A)) → Decidable (m.Follows G es)
  | .ret _, [] | .throw _, [] | .ask _ _, [] => .isTrue trivial
  | .ret a, .outside _ :: es | .ret a, .answer _ :: es =>
    decidableFollows G (.ret a : Dialogue Q A ε α) es
  | .throw e, .outside _ :: es | .throw e, .answer _ :: es =>
    decidableFollows G (.throw e : Dialogue Q A ε α) es
  | .ask q k, .outside _ :: es => decidableFollows G (.ask q k : Dialogue Q A ε α) es
  | .ask q k, .answer f :: es =>
    have := decidableFollows G (k (f q)) es
    inferInstanceAs (Decidable (G q (f q) ∧ (k (f q)).Follows G es))

theorem follows_of_forall {G : (q : Q) → A q → Prop} (h : ∀ q a, G q a) {m : Dialogue Q A ε α}
    {es : List (Event E Q A)} : m.Follows G es := by
  induction es generalizing m with
  | nil => cases m <;> exact trivial
  | cons event es ih =>
    cases event with
    | outside e => cases m <;> exact ih
    | answer f =>
      cases m with
      | ret a => exact ih
      | throw e => exact ih
      | ask q k => exact ⟨h q (f q), ih⟩

theorem Follows.and {G G' : (q : Q) → A q → Prop} {m : Dialogue Q A ε α} {es : List (Event E Q A)}
    (h : m.Follows G es) (h' : m.Follows G' es) : m.Follows (fun q a => G q a ∧ G' q a) es := by
  induction es generalizing m with
  | nil => cases m <;> exact trivial
  | cons event es ih =>
    cases event with
    | outside e => cases m <;> exact ih h h'
    | answer f =>
      cases m with
      | ret a => exact ih h h'
      | throw e => exact ih h h'
      | ask q k => exact ⟨⟨h.1, h'.1⟩, ih h.2 h'.2⟩

/-- Under guarded answers every question meets `P`, and the end meets `R`. -/
def Sat (G : (q : Q) → A q → Prop) (P : Q → Prop) : Dialogue Q A ε α → (Except ε α → Prop) → Prop
  | .ret a, R => R (.ok a)
  | .throw e, R => R (.error e)
  | .ask q k, R => P q ∧ ∀ a, G q a → (k a).Sat G P R

variable {G : (q : Q) → A q → Prop} {P : Q → Prop}

theorem Sat.mono {m : Dialogue Q A ε α} {R R' : Except ε α → Prop} (h : m.Sat G P R)
    (hR : ∀ o, R o → R' o) : m.Sat G P R' := by
  induction m with
  | ret a => exact hR _ h
  | throw e => exact hR _ h
  | ask q k ih => exact ⟨h.1, fun a ha => ih a (h.2 a ha)⟩

/-- The same questions under a weaker guard on the answers and a stronger demand. -/
theorem Sat.imp {G' : (q : Q) → A q → Prop} {P' : Q → Prop} {m : Dialogue Q A ε α}
    {R : Except ε α → Prop} (h : m.Sat G P R) (hG : ∀ q a, G' q a → G q a)
    (hP : ∀ q, P q → P' q) : m.Sat G' P' R := by
  induction m with
  | ret a => exact h
  | throw e => exact h
  | ask q k ih => exact ⟨hP q h.1, fun a ha => ih a (h.2 a (hG q a ha))⟩

theorem Sat.bind {m : Dialogue Q A ε α} {f : α → Dialogue Q A ε β} {R : Except ε α → Prop}
    {R' : Except ε β → Prop} (h : m.Sat G P R) (herr : ∀ e, R (.error e) → R' (.error e))
    (hf : ∀ a, R (.ok a) → (f a).Sat G P R') : (m >>= f).Sat G P R' := by
  show (m.bind f).Sat G P R'
  induction m with
  | ret a => exact hf a h
  | throw e => exact herr e h
  | ask q k ih => exact ⟨h.1, fun a ha => ih a (h.2 a ha)⟩

theorem Sat.attempt {m : Dialogue Q A ε α} {R : Except ε α → Prop}
    {R' : Except ε (Except ε α) → Prop} (h : m.Sat G P R) (hR : ∀ o, R o → R' (.ok o)) :
    m.attempt.Sat G P R' := by
  induction m with
  | ret a => exact hR _ h
  | throw e => exact hR _ h
  | ask q k ih => exact ⟨h.1, fun a ha => ih a (h.2 a ha)⟩

/-- What the questions and the acts from outside preserve holds wherever the routine stops. -/
theorem Sat.exec {d : Effects σ E Q A} {I : σ → Prop}
    (hanswered : ∀ s q a, I s → P q → G q a → I (d.answered s q a))
    (houtside : ∀ s e, I s → I (d.outside s e)) {m : Dialogue Q A ε α} {R : Except ε α → Prop}
    (h : m.Sat G P R) {es : List (Event E Q A)} (hf : m.Follows G es) {s : σ} (hs : I s) :
    I (m.exec d s es) := by
  induction es generalizing m s with
  | nil =>
    cases m with
    | ret a => exact hs
    | throw e => exact hs
    | ask q k => exact hs
  | cons event es ih =>
    cases event with
    | outside e =>
      cases m with
      | ret a => exact ih h hf (houtside s e hs)
      | throw e' => exact ih h hf (houtside s e hs)
      | ask q k => exact ih h hf (houtside s e hs)
    | answer f =>
      cases m with
      | ret a => exact ih h hf hs
      | throw e => exact ih h hf hs
      | ask q k => exact ih (h.2 (f q) hf.1) hf.2 (hanswered s q (f q) hs h.1 hf.1)

/-! ## Following what the answers leave -/

/-- The events answer everything that is asked, so that the routine comes to its end. -/
def Finishes : Dialogue Q A ε α → List (Event E Q A) → Prop
  | .ret _, _ => True
  | .throw _, _ => True
  | .ask _ _, [] => False
  | .ask q k, .outside _ :: es => (Dialogue.ask q k : Dialogue Q A ε α).Finishes es
  | .ask q k, .answer f :: es => (k (f q)).Finishes es

instance decidableFinishes :
    (m : Dialogue Q A ε α) → (es : List (Event E Q A)) → Decidable (m.Finishes es)
  | .ret _, [] | .ret _, _ :: _ | .throw _, [] | .throw _, _ :: _ => .isTrue trivial
  | .ask _ _, [] => .isFalse id
  | .ask q k, .outside _ :: es => decidableFinishes (.ask q k : Dialogue Q A ε α) es
  | .ask q k, .answer f :: es => decidableFinishes (k (f q)) es

theorem finishes_ret (a : α) (es : List (Event E Q A)) :
    (Dialogue.ret a : Dialogue Q A ε α).Finishes es := by
  cases es <;> trivial

theorem finishes_throw (e : ε) (es : List (Event E Q A)) :
    (Dialogue.throw e : Dialogue Q A ε α).Finishes es := by
  cases es <;> trivial

/-- The questions that the events answer. -/
def asked : Dialogue Q A ε α → List (Event E Q A) → List Q
  | .ret _, _ => []
  | .throw _, _ => []
  | .ask _ _, [] => []
  | .ask q k, .outside _ :: es => (Dialogue.ask q k : Dialogue Q A ε α).asked es
  | .ask q k, .answer f :: es => q :: (k (f q)).asked es

theorem Sat.asked {m : Dialogue Q A ε α} {R : Except ε α → Prop} (h : m.Sat G P R)
    {es : List (Event E Q A)} (hf : m.Follows G es) : ∀ q ∈ m.asked es, P q := by
  induction es generalizing m with
  | nil => cases m <;> simp [Dialogue.asked]
  | cons event es ih =>
    cases m with
    | ret a => simp [Dialogue.asked]
    | throw e => simp [Dialogue.asked]
    | ask q k =>
      cases event with
      | outside e => exact ih h hf
      | answer f =>
        intro q' hq'
        rcases List.mem_cons.mp hq' with rfl | hq'
        · exact h.1
        · exact ih (h.2 (f q) hf.1) hf.2 q' hq'

variable {S : Type}

/-- Under guarded answers the routine ends in `R`, with the track that the answers leave. -/
def Wp (update : S → (q : Q) → A q → S) (G : (q : Q) → A q → Prop) :
    Dialogue Q A ε α → (Except ε α → S → Prop) → S → Prop
  | .ret a, R, x => R (.ok a) x
  | .throw e, R, x => R (.error e) x
  | .ask q k, R, x => ∀ a, G q a → (k a).Wp update G R (update x q a)

variable {update : S → (q : Q) → A q → S}

theorem wp_bind {m : Dialogue Q A ε α} {f : α → Dialogue Q A ε β} {R : Except ε β → S → Prop} {x : S}
    (h : m.Wp update G (fun o x' => match o with
      | .ok a => (f a).Wp update G R x'
      | .error e => R (.error e) x') x) : (m >>= f).Wp update G R x := by
  show (m.bind f).Wp update G R x
  induction m generalizing x with
  | ret a => exact h
  | throw e => exact h
  | ask q k ih => exact fun a ha => ih a (h a ha)

theorem Wp.mono {m : Dialogue Q A ε α} {R R' : Except ε α → S → Prop} {x : S}
    (h : m.Wp update G R x) (hR : ∀ o x', R o x' → R' o x') : m.Wp update G R' x := by
  induction m generalizing x with
  | ret a => exact hR _ _ h
  | throw e => exact hR _ _ h
  | ask q k ih => exact fun a ha => ih a (h a ha)

/-- Questions that leave the track as it is. -/
theorem Sat.wp {m : Dialogue Q A ε α} {R : Except ε α → Prop} (h : m.Sat G P R) {x : S}
    (hP : ∀ q a, P q → update x q a = x) : m.Wp update G (fun o x' => x' = x ∧ R o) x := by
  induction m with
  | ret a => exact ⟨rfl, h⟩
  | throw e => exact ⟨rfl, h⟩
  | ask q k ih =>
    intro a ha
    rw [hP q a h.1]
    exact ih a (h.2 a ha)

/-- A track that answers and acts from outside keep true of the state tells how it ends. -/
theorem Wp.exec {d : Effects σ E Q A} {T : σ → S → Prop}
    (hanswered : ∀ s x q a, T s x → P q → G q a → T (d.answered s q a) (update x q a))
    (houtside : ∀ s x e, T s x → T (d.outside s e) x) {m : Dialogue Q A ε α}
    {R : Except ε α → S → Prop} {R' : Except ε α → Prop} {x : S} (h : m.Wp update G R x)
    (hasks : m.Sat G P R') {es : List (Event E Q A)} (hf : m.Follows G es) (hend : m.Finishes es)
    {s : σ} (hs : T s x) : ∃ o x', R o x' ∧ T (m.exec d s es) x' := by
  induction es generalizing m s x with
  | nil =>
    cases m with
    | ret a => exact ⟨_, x, h, hs⟩
    | throw e => exact ⟨_, x, h, hs⟩
    | ask q k => exact hend.elim
  | cons event es ih =>
    cases event with
    | outside e =>
      cases m with
      | ret a => exact ih h hasks hf (finishes_ret a es) (houtside s x e hs)
      | throw e' => exact ih h hasks hf (finishes_throw e' es) (houtside s x e hs)
      | ask q k => exact ih h hasks hf hend (houtside s x e hs)
    | answer f =>
      cases m with
      | ret a => exact ih h hasks hf (finishes_ret a es) hs
      | throw e => exact ih h hasks hf (finishes_throw e es) hs
      | ask q k =>
        exact ih (h (f q) hf.1) (hasks.2 (f q) hf.1) hf.2 hend
          (hanswered s x q (f q) hs hasks.1 hf.1)

/-! ## Answers by number -/

/-- How the routine ends when its questions are answered by number, from `k` on, and what it asks. -/
def serve (reply : Nat → (q : Q) → A q) : Dialogue Q A ε α → Nat → Except ε α × List Q
  | .ret a, _ => (.ok a, [])
  | .throw e, _ => (.error e, [])
  | .ask q f, k =>
    let rest := (f (reply k q)).serve reply (k + 1)
    (rest.1, q :: rest.2)

/-- The questions of the first part come first, and those of the second after them. -/
theorem serve_bind (reply : Nat → (q : Q) → A q) (m : Dialogue Q A ε α) (f : α → Dialogue Q A ε β)
    (k : Nat) : (m >>= f).serve reply k = match (m.serve reply k).1 with
      | .ok a => (((f a).serve reply (k + (m.serve reply k).2.length)).1,
        (m.serve reply k).2 ++ ((f a).serve reply (k + (m.serve reply k).2.length)).2)
      | .error e => (.error e, (m.serve reply k).2) := by
  show (m.bind f).serve reply k = _
  induction m generalizing k with
  | ret a => rfl
  | throw e => rfl
  | ask q g ih =>
    simp only [Dialogue.bind, serve, ih, List.length_cons]
    rw [Nat.add_right_comm k 1, Nat.add_assoc]
    split <;> rfl

/-- Replies that agree on what is asked serve alike. -/
theorem serve_congr {reply reply' : Nat → (q : Q) → A q} (m : Dialogue Q A ε α) (k : Nat)
    (h : ∀ i q, (m.serve reply k).2[i]? = some q → reply (k + i) q = reply' (k + i) q) :
    m.serve reply k = m.serve reply' k := by
  induction m generalizing k with
  | ret a => rfl
  | throw e => rfl
  | ask q f ih =>
    have hfirst : reply k q = reply' k q := h 0 q rfl
    have hrest := ih (reply k q) (k + 1) fun i q' hq' => by
      have hnext := h (i + 1) q' hq'
      rwa [← Nat.add_assoc, Nat.add_right_comm] at hnext
    simp only [serve]
    rw [hrest, hfirst]

end Dialogue

end DigitalObjects.Lib
