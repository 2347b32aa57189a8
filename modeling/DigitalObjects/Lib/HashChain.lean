import Mathlib.Data.List.Induction
set_option autoImplicit false

/-!
Hash chains. A link binds the chain value before it and the entry it adds, and the
value after it is larger, so a chain cannot run back into its own past.
-/

namespace DigitalObjects.Lib

structure HashChain (γ ε : Type) where
  link : γ → ε → γ
  /-- The entries for which the link is binding. -/
  Valid : ε → Prop
  rank : γ → Nat
  link_inj : ∀ {c d : γ} {e f : ε}, Valid e → Valid f → link c e = link d f → c = d ∧ e = f
  rank_lt : ∀ (c : γ) (e : ε), rank c < rank (link c e)

namespace HashChain

variable {γ ε : Type} (k : HashChain γ ε)

/-- The chain value after a list of entries. -/
def run (c : γ) (es : List ε) : γ := es.foldl k.link c

@[simp] theorem run_nil (c : γ) : k.run c [] = c := rfl

@[simp] theorem run_cons (c : γ) (e : ε) (es : List ε) :
    k.run c (e :: es) = k.run (k.link c e) es := rfl

theorem run_append (c : γ) (es fs : List ε) : k.run c (es ++ fs) = k.run (k.run c es) fs :=
  List.foldl_append

theorem run_concat (c : γ) (es : List ε) (e : ε) :
    k.run c (es ++ [e]) = k.link (k.run c es) e := by
  rw [run_append, run_cons, run_nil]

theorem rank_le_run (c : γ) (es : List ε) : k.rank c ≤ k.rank (k.run c es) := by
  induction es generalizing c with
  | nil => exact Nat.le_refl _
  | cons e es ih => exact Nat.le_trans (Nat.le_of_lt (k.rank_lt c e)) (ih (k.link c e))

theorem run_concat_ne (c : γ) (es : List ε) (e : ε) : k.run c (es ++ [e]) ≠ c := by
  intro h
  have hlt := k.rank_lt (k.run c es) e
  rw [← run_concat, h] at hlt
  exact absurd (k.rank_le_run c es) (Nat.not_le_of_lt hlt)

/-- Two lists of binding entries between the same chain values are the same list. -/
theorem run_injective (c : γ) {es fs : List ε} (hes : ∀ e ∈ es, k.Valid e)
    (hfs : ∀ f ∈ fs, k.Valid f) (h : k.run c es = k.run c fs) : es = fs := by
  -- Both lists are peeled from the back, where the last link binds the chain before it.
  induction es using List.reverseRecOn generalizing fs with
  | nil =>
    cases fs using List.reverseRecOn with
    | nil => rfl
    | append_singleton fs f => exact absurd h.symm (k.run_concat_ne c fs f)
  | append_singleton es e ih =>
    cases fs using List.reverseRecOn with
    | nil => exact absurd h (k.run_concat_ne c es e)
    | append_singleton fs f =>
      rw [run_concat, run_concat] at h
      obtain ⟨hinit, rfl⟩ := k.link_inj (hes e (by simp)) (hfs f (by simp)) h
      rw [ih (fun x hx => hes x (by simp [hx])) (fun x hx => hfs x (by simp [hx])) hinit]

end HashChain

end DigitalObjects.Lib
