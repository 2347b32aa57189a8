import Mathlib.Data.Set.Insert
import Mathlib.Data.List.Nodup
set_option autoImplicit false

/-!
Ledgers of single-use states. A move consumes at most one state and produces at
most one; a book remembers every state ever created and every state ever spent.
Nothing is removed from a book, so a state is live when it is created and unspent.
-/

namespace DigitalObjects.Lib

variable {α ι : Type}

structure Move (α : Type) where
  consumed : Option α
  produced : Option α

def produced (ms : List (Move α)) : List α := ms.filterMap Move.produced

def consumed (ms : List (Move α)) : List α := ms.filterMap Move.consumed

structure Book (α : Type) where
  created : Set α
  spent : Set α

def Book.empty : Book α := ⟨∅, ∅⟩

def Book.apply (b : Book α) (m : Move α) : Book α :=
  ⟨b.created ∪ {y | m.produced = some y}, b.spent ∪ {x | m.consumed = some x}⟩

def Book.run (b : Book α) (ms : List (Move α)) : Book α := ms.foldl Book.apply b

/-- What a book demands of its next move, given states that are available from outside. -/
structure Book.Allows (inputs : Set α) (b : Book α) (m : Move α) : Prop where
  available : ∀ x, m.consumed = some x → x ∈ inputs ∨ x ∈ b.created
  unspent : ∀ x, m.consumed = some x → x ∉ b.spent
  fresh : ∀ y, m.produced = some y → y ∉ b.created

def Book.AllowsAll (inputs : Set α) : Book α → List (Move α) → Prop
  | _, [] => True
  | b, m :: ms => b.Allows inputs m ∧ (b.apply m).AllowsAll inputs ms

/-- The same demand on a whole list of moves, without the intermediate books. -/
structure Book.Sequential (inputs : Set α) (b : Book α) (ms : List (Move α)) : Prop where
  available : ∀ pre m post, ms = pre ++ m :: post → ∀ x, m.consumed = some x →
    x ∈ inputs ∨ x ∈ b.created ∨ x ∈ produced pre
  consumed_nodup : (consumed ms).Nodup
  unspent : ∀ x ∈ consumed ms, x ∉ b.spent
  produced_nodup : (produced ms).Nodup
  fresh : ∀ y ∈ produced ms, y ∉ b.created

@[simp] theorem mem_apply_created {b : Book α} {m : Move α} {y : α} :
    y ∈ (b.apply m).created ↔ y ∈ b.created ∨ m.produced = some y := Iff.rfl

@[simp] theorem mem_apply_spent {b : Book α} {m : Move α} {x : α} :
    x ∈ (b.apply m).spent ↔ x ∈ b.spent ∨ m.consumed = some x := Iff.rfl

theorem mem_produced {ms : List (Move α)} {y : α} :
    y ∈ produced ms ↔ ∃ m ∈ ms, m.produced = some y := by simp [produced]

theorem mem_consumed {ms : List (Move α)} {x : α} :
    x ∈ consumed ms ↔ ∃ m ∈ ms, m.consumed = some x := by simp [consumed]

theorem mem_produced_cons {m : Move α} {ms : List (Move α)} {y : α} :
    y ∈ produced (m :: ms) ↔ m.produced = some y ∨ y ∈ produced ms := by
  simp [mem_produced]

theorem mem_consumed_cons {m : Move α} {ms : List (Move α)} {x : α} :
    x ∈ consumed (m :: ms) ↔ m.consumed = some x ∨ x ∈ consumed ms := by
  simp [mem_consumed]

theorem produced_nodup_cons {m : Move α} {ms : List (Move α)} :
    (produced (m :: ms)).Nodup ↔
      (∀ y, m.produced = some y → y ∉ produced ms) ∧ (produced ms).Nodup := by
  cases hm : m.produced with
  | none => simp [produced, hm]
  | some y => simp [produced, hm]

theorem consumed_nodup_cons {m : Move α} {ms : List (Move α)} :
    (consumed (m :: ms)).Nodup ↔
      (∀ x, m.consumed = some x → x ∉ consumed ms) ∧ (consumed ms).Nodup := by
  cases hm : m.consumed with
  | none => simp [consumed, hm]
  | some x => simp [consumed, hm]

theorem Book.run_created (b : Book α) (ms : List (Move α)) :
    (b.run ms).created = b.created ∪ {y | y ∈ produced ms} := by
  induction ms generalizing b with
  | nil => simp [run, produced]
  | cons m ms ih =>
    ext y
    rw [show b.run (m :: ms) = (b.apply m).run ms from rfl, ih]
    simp only [Set.mem_union, mem_apply_created, Set.mem_ofPred_eq, mem_produced_cons, or_assoc]

theorem Book.run_spent (b : Book α) (ms : List (Move α)) :
    (b.run ms).spent = b.spent ∪ {x | x ∈ consumed ms} := by
  induction ms generalizing b with
  | nil => simp [run, consumed]
  | cons m ms ih =>
    ext x
    rw [show b.run (m :: ms) = (b.apply m).run ms from rfl, ih]
    simp only [Set.mem_union, mem_apply_spent, Set.mem_ofPred_eq, mem_consumed_cons, or_assoc]

theorem Book.allowsAll_append (inputs : Set α) (b : Book α) (ms ns : List (Move α)) :
    b.AllowsAll inputs (ms ++ ns) ↔
      b.AllowsAll inputs ms ∧ (b.run ms).AllowsAll inputs ns := by
  induction ms generalizing b with
  | nil => simp [AllowsAll, run]
  | cons m ms ih =>
    simp only [List.cons_append, AllowsAll, ih, and_assoc]
    rfl

theorem Book.Allows.sequential {inputs : Set α} {b : Book α} {m : Move α} {ms : List (Move α)}
    (hm : b.Allows inputs m) (hs : (b.apply m).Sequential inputs ms) :
    b.Sequential inputs (m :: ms) where
  available := by
    intro pre n post heq x hx
    cases pre with
    | nil =>
      obtain ⟨rfl, -⟩ := List.cons.inj heq
      rcases hm.available x hx with h | h
      · exact .inl h
      · exact .inr (.inl h)
    | cons p pre =>
      obtain ⟨rfl, htail⟩ := List.cons.inj heq
      rcases hs.available pre n post htail x hx with h | (h | h) | h
      · exact .inl h
      · exact .inr (.inl h)
      · exact .inr (.inr (mem_produced_cons.mpr (.inl h)))
      · exact .inr (.inr (mem_produced_cons.mpr (.inr h)))
  consumed_nodup := by
    rw [consumed_nodup_cons]
    exact ⟨fun x hx hmem => hs.unspent x hmem (.inr hx), hs.consumed_nodup⟩
  unspent := by
    intro x hx
    rcases mem_consumed_cons.mp hx with h | h
    · exact hm.unspent x h
    · exact fun hb => hs.unspent x h (.inl hb)
  produced_nodup := by
    rw [produced_nodup_cons]
    exact ⟨fun y hy hmem => hs.fresh y hmem (.inr hy), hs.produced_nodup⟩
  fresh := by
    intro y hy
    rcases mem_produced_cons.mp hy with h | h
    · exact hm.fresh y h
    · exact fun hb => hs.fresh y h (.inl hb)

theorem Book.Sequential.head {inputs : Set α} {b : Book α} {m : Move α} {ms : List (Move α)}
    (hs : b.Sequential inputs (m :: ms)) : b.Allows inputs m where
  available := by
    intro x hx
    rcases hs.available [] m ms rfl x hx with h | h | h
    · exact .inl h
    · exact .inr h
    · simp [produced] at h
  unspent x hx := hs.unspent x (mem_consumed_cons.mpr (.inl hx))
  fresh y hy := hs.fresh y (mem_produced_cons.mpr (.inl hy))

theorem Book.Sequential.tail {inputs : Set α} {b : Book α} {m : Move α} {ms : List (Move α)}
    (hs : b.Sequential inputs (m :: ms)) : (b.apply m).Sequential inputs ms where
  available := by
    intro pre n post heq x hx
    rcases hs.available (m :: pre) n post (by rw [heq]; rfl) x hx with h | h | h
    · exact .inl h
    · exact .inr (.inl (.inl h))
    · rcases mem_produced_cons.mp h with h | h
      · exact .inr (.inl (.inr h))
      · exact .inr (.inr h)
  consumed_nodup := (consumed_nodup_cons.mp hs.consumed_nodup).2
  unspent := by
    rintro x hx (h | h)
    · exact hs.unspent x (mem_consumed_cons.mpr (.inr hx)) h
    · exact (consumed_nodup_cons.mp hs.consumed_nodup).1 x h hx
  produced_nodup := (produced_nodup_cons.mp hs.produced_nodup).2
  fresh := by
    rintro y hy (h | h)
    · exact hs.fresh y (mem_produced_cons.mpr (.inr hy)) h
    · exact (produced_nodup_cons.mp hs.produced_nodup).1 y h hy

/-- Checking moves one by one against the growing book is the same as checking
the list against the first book. -/
theorem Book.allowsAll_iff (inputs : Set α) (b : Book α) (ms : List (Move α)) :
    b.AllowsAll inputs ms ↔ b.Sequential inputs ms := by
  induction ms generalizing b with
  | nil =>
    refine ⟨fun _ => ⟨?_, List.nodup_nil, ?_, List.nodup_nil, ?_⟩, fun _ => trivial⟩
    · intro pre m post heq
      simp at heq
    · intro x hx
      simp [consumed] at hx
    · intro y hy
      simp [produced] at hy
  | cons m ms ih =>
    rw [AllowsAll, ih]
    exact ⟨fun h => h.1.sequential h.2, fun h => ⟨h.head, h.tail⟩⟩

/-- Moves that were checked against their own empty book may be replayed on a
larger one that holds their inputs and meets none of their results. -/
theorem Book.AllowsAll.lift {inputs : Set α} {ms : List (Move α)} {b : Book α}
    (h : Book.empty.AllowsAll inputs ms) (hin : inputs ⊆ b.created)
    (hfresh : ∀ y ∈ produced ms, y ∉ b.created) (hun : ∀ x ∈ consumed ms, x ∉ b.spent) :
    b.AllowsAll ∅ ms := by
  rw [allowsAll_iff] at h ⊢
  refine ⟨?_, h.consumed_nodup, hun, h.produced_nodup, hfresh⟩
  intro pre m post heq x hx
  rcases h.available pre m post heq x hx with hx | hx | hx
  · exact .inr (.inl (hin hx))
  · exact absurd hx (Set.notMem_empty x)
  · exact .inr (.inr hx)

/-- States carry an identity that is fixed at birth, and each identity has one
birth state. -/
structure Lineage (α ι : Type) where
  ident : α → ι → Prop
  birth : α → ι → Prop
  ident_unique : ∀ {x i j}, ident x i → ident x j → i = j
  birth_ident : ∀ {x i}, birth x i → ident x i
  birth_unique : ∀ {x y i}, birth x i → birth y i → x = y

/-- A move that only produces gives birth, and one that replaces a state keeps its identity. -/
def Move.Respects (l : Lineage α ι) (m : Move α) : Prop :=
  ∀ y, m.produced = some y →
    match m.consumed with
    | none => ∃ i, l.birth y i
    | some x => ∃ i, l.ident x i ∧ l.ident y i

/-- No identity has two live states. -/
structure Book.Singular (l : Lineage α ι) (b : Book α) : Prop where
  spent_created : b.spent ⊆ b.created
  born : ∀ x ∈ b.created, ∀ i, l.ident x i → ∃ y ∈ b.created, l.birth y i
  single : ∀ i x y, x ∈ b.created → x ∉ b.spent → y ∈ b.created → y ∉ b.spent →
    l.ident x i → l.ident y i → x = y

theorem Book.Singular.empty (l : Lineage α ι) : Book.empty.Singular l :=
  ⟨Set.Subset.rfl, fun _ h => absurd h (Set.notMem_empty _),
    fun _ _ _ h => absurd h (Set.notMem_empty _)⟩

theorem Book.Singular.not_live_of_birth {l : Lineage α ι} {b : Book α} {m : Move α}
    (h : b.Singular l) (ha : b.Allows ∅ m) (hr : m.Respects l) {x y : α} {i : ι}
    (hy : m.produced = some y) (hyi : l.ident y i)
    (hx : x ∈ b.created) (hxs : x ∉ (b.apply m).spent) (hxi : l.ident x i) : False := by
  have hm := hr y hy
  cases hc : m.consumed with
  | none =>
    rw [hc] at hm
    obtain ⟨j, hj⟩ := hm
    obtain rfl := l.ident_unique hyi (l.birth_ident hj)
    obtain ⟨z, hz, hzb⟩ := h.born x hx i hxi
    rw [l.birth_unique hzb hj] at hz
    exact ha.fresh y hy hz
  | some o =>
    rw [hc] at hm
    obtain ⟨j, hoj, hyj⟩ := hm
    obtain rfl := l.ident_unique hyi hyj
    have ho : o ∈ b.created := (ha.available o hc).resolve_left (Set.notMem_empty o)
    obtain rfl := h.single i x o hx (fun hs => hxs (.inl hs)) ho (ha.unspent o hc) hxi hoj
    exact hxs (.inr hc)

theorem Book.Singular.apply {l : Lineage α ι} {b : Book α} {m : Move α}
    (h : b.Singular l) (ha : b.Allows ∅ m) (hr : m.Respects l) : (b.apply m).Singular l where
  spent_created := by
    rintro x (hx | hx)
    · exact .inl (h.spent_created hx)
    · exact .inl ((ha.available x hx).resolve_left (Set.notMem_empty x))
  born := by
    rintro x (hx | hx) i hi
    · obtain ⟨y, hy, hb⟩ := h.born x hx i hi
      exact ⟨y, .inl hy, hb⟩
    · have hm := hr x hx
      cases hc : m.consumed with
      | none =>
        rw [hc] at hm
        obtain ⟨j, hj⟩ := hm
        obtain rfl := l.ident_unique hi (l.birth_ident hj)
        exact ⟨x, .inr hx, hj⟩
      | some o =>
        rw [hc] at hm
        obtain ⟨j, hoj, hxj⟩ := hm
        obtain rfl := l.ident_unique hi hxj
        obtain ⟨y, hy, hb⟩ :=
          h.born o ((ha.available o hc).resolve_left (Set.notMem_empty o)) i hoj
        exact ⟨y, .inl hy, hb⟩
  single := by
    rintro i x y (hx | hx) hxs (hy | hy) hys hxi hyi
    · exact h.single i x y hx (fun hs => hxs (.inl hs)) hy (fun hs => hys (.inl hs)) hxi hyi
    · exact (h.not_live_of_birth ha hr hy hyi hx hxs hxi).elim
    · exact (h.not_live_of_birth ha hr hx hxi hy hys hyi).elim
    · exact Option.some.inj (hx.symm.trans hy)

theorem Book.Singular.run {l : Lineage α ι} {ms : List (Move α)} {b : Book α}
    (h : b.Singular l) (ha : b.AllowsAll ∅ ms) (hr : ∀ m ∈ ms, m.Respects l) :
    (b.run ms).Singular l := by
  induction ms generalizing b with
  | nil => exact h
  | cons m ms ih =>
    have hm := h.apply ha.1 (hr m List.mem_cons_self)
    exact ih hm ha.2 fun n hn => hr n (List.mem_cons_of_mem m hn)

end DigitalObjects.Lib
