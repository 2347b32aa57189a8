import DigitalObjects.Archiver.Shape
set_option autoImplicit false

/-!
Deleting a block, finding the last header, and going back over a reorg, with a failure or a crash at
any operation. What a deletion removes belongs to one block, which is the highest.
-/

namespace DigitalObjects.Archiver

open Lib EthClients FileTree Routine

variable {net : Network} {t t' t₀ : Tree} {h k : BlockHeader} {q : Path} {α β : Type} {P : Prop}

/-! ## Specifications -/

/-- The errors of a run: not one that the code takes to be impossible. -/
def StoreError.Fine : StoreError → Prop
  | .refused r => r ≠ .alreadyExists
  | .io => True
  | .notALink => False
  | .invalidHeader => False
  | .client _ => True
  | .panicked message => message ≠ "attempt to subtract with overflow"
  | .outOfFuel => False

def Ends (e : Option StoreError) : Prop := ∀ s, e = some s → s.Fine

/-- `Q` after a normal return, `F` after a fine error or a crash, whatever the disk answers. -/
def Does (A : Tree → Prop) (m : Task α) (Q : α → Tree → Prop) (F : Tree → Prop) : Prop :=
  Spec disk (fun _ _ _ => True) A m Q fun e t => Ends e ∧ F t

variable {A A' : Tree → Prop} {Q Q' : α → Tree → Prop} {F F' : Tree → Prop}

theorem ends_none : Ends none := fun _ h => by cases h

theorem ends_some {e : StoreError} (h : e.Fine) : Ends (some e) := fun _ hs => Option.some.inj hs ▸ h

theorem ends_plain : Plain StoreError.refused .io Ends where
  crashed := ends_none
  failed := ends_some trivial
  refused _ he := ends_some he

theorem Does.imp {m : Task α} (h : Does A m Q F) (hA : ∀ t, A' t → A t) (hQ : ∀ a t, Q a t → Q' a t)
    (hF : ∀ t, F t → F' t) : Does A' m Q' F' :=
  Spec.imp h hA hQ fun _ t he => ⟨he.1, hF t he.2⟩

theorem Does.bind {m : Task α} {f : α → Task β} {Q' : β → Tree → Prop} (hm : Does A m Q F)
    (hf : ∀ a, Does (Q a) (f a) Q' F) : Does A (m >>= f) Q' F := Spec.bind hm hf

theorem Does.get_bind {f : Tree → Task β} {Q' : β → Tree → Prop}
    (h : ∀ t₀, A t₀ → Does (fun t => t = t₀) (f t₀) Q' F) : Does A (Routine.get >>= f) Q' F := Spec.get_bind h

theorem Does.ret {a : α} (h : ∀ t, A t → Q a t) : Does A (.ret a) Q F := Spec.ret h

theorem Does.throw {e : StoreError} (he : e.Fine) (h : ∀ t, A t → F t) : Does A (.throw e : Task α) Q F :=
  Spec.throw fun t ht => ⟨ends_some he, h t ht⟩

theorem Does.call {op : Op Name Content} {Q : Unit → Tree → Prop}
    (hdone : ∀ t t', A t → op.run t = .ok t' → Q () t')
    (hrefused : ∀ t r, A t → op.run t = .error r → r ≠ .alreadyExists) (hF : ∀ t, A t → F t)
    (htorn : ∀ t t' p data, A t → op = .write p data → (Op.write p .scrap).run t = .ok t' → F t') :
    Does A (Store.call op) Q F := by
  refine spec_call (fun t t' ht hrun _ => hdone t t' ht hrun) (fun t r ht hrun => ?_) (fun t ht => ?_) ?_
  · exact ⟨ends_some (hrefused t r ht hrun), hF t ht⟩
  · exact ⟨⟨ends_some trivial, hF t ht⟩, ends_none, hF t ht⟩
  · intro t t' p data ht hop hrun
    have hF' := htorn t t' p data ht hop hrun
    exact ⟨⟨ends_some trivial, hF'⟩, ends_none, hF'⟩

theorem Does.remove {Q : Unit → Tree → Prop} (hdone : ∀ t t', A t → (Op.remove q).run t = .ok t' → Q () t')
    (hF : ∀ t, A t → F t) : Does A (Store.call (.remove q)) Q F :=
  Does.call hdone (fun _ _ _ hrun => remove_refused hrun) hF fun _ _ _ _ _ hop => by cases hop

/-! ## Deleting a block -/

/-- The header of a root goes before what else is in its directory. -/
def HeaderFirst (order : RemovalOrder Name Content) : Prop :=
  ∀ t p, (order.list t p).Pairwise fun a b => ∀ r, b = .headerJson :: Store.rootDir r → Store.rootDir r <:+ a → b <:+ a

/-- Nothing but the link of `h` and what is at its root has gone, and under `P` nothing there while its
header stands. -/
structure Spared (P : Prop) (h : BlockHeader) (t₀ t : Tree) : Prop where
  sub : t.Sub t₀
  other : ∀ q, ¬ q <:+ Store.rootDir h.root → ¬ Store.rootDir h.root <:+ q → q ≠ Store.slotDir h.slot →
    t.lookup q = t₀.lookup q
  whole : P → t.lookup (.headerJson :: Store.rootDir h.root) ≠ none → ∀ q, Store.rootDir h.root <:+ q →
    t.lookup q = t₀.lookup q

theorem Spared.refl (P : Prop) (h : BlockHeader) (t : Tree) : Spared P h t t :=
  ⟨Sub.refl t, fun _ _ _ _ => rfl, fun _ _ _ _ => rfl⟩

theorem Spared.erase (hs : Spared P h t₀ t) (hq : q <:+ Store.rootDir h.root ∨ Store.rootDir h.root <:+ q ∨
    q = Store.slotDir h.slot) (hfirst : P → t.lookup (.headerJson :: Store.rootDir h.root) ≠ none →
      .headerJson :: Store.rootDir h.root ≠ q → ¬ Store.rootDir h.root <:+ q) : Spared P h t₀ (t.erase q) := by
  refine ⟨(Sub.erase t q).trans hs.sub, fun p hp hp' hslot => ?_, fun hP hheader p hp => ?_⟩
  · rw [AList.lookup_erase_ne]
    · exact hs.other p hp hp' hslot
    · rintro rfl
      rcases hq with hq | hq | hq
      · exact hp hq
      · exact hp' hq
      · exact hslot hq
  · have hne : .headerJson :: Store.rootDir h.root ≠ q := by
      intro heq
      rw [heq, AList.lookup_erase] at hheader
      exact hheader rfl
    rw [AList.lookup_erase_ne hne] at hheader
    rw [AList.lookup_erase_ne, hs.whole hP hheader p hp]
    rintro rfl
    exact hfirst hP hheader hne hp

/-- What is at another root stays. -/
theorem Spared.root (hs : Spared P h t₀ t) (hh : net.Known h) {r : B256} (hr : IsB256 r) (hne : r ≠ h.root)
    (hq : Store.rootDir r <:+ q) : t.lookup q = t₀.lookup q := by
  have hdir : ∀ p, Store.rootDir r <:+ p → Store.rootDir h.root <:+ p → False := by
    intro p hp hp'
    rcases List.suffix_or_suffix_of_suffix hp hp' with hsuf | hsuf
    · exact hne (Store.rootDir_inj hr hh.isB256 (hsuf.eq_of_length rfl))
    · exact hne (Store.rootDir_inj hr hh.isB256 (hsuf.eq_of_length rfl).symm)
  refine hs.other q (fun hsuf => ?_) (fun hsuf => hdir q hq hsuf) fun heq => ?_
  · exact hdir _ (hq.trans hsuf) (List.suffix_refl _)
  · rw [heq] at hq
    exact not_byRoot (slotDir_suffix h.slot) ((rootDir_suffix r).trans hq)

theorem Spared.link (hs : Spared P h t₀ t) {s : Nat} (hne : Store.slotDir s ≠ Store.slotDir h.slot) :
    t.lookup (Store.slotDir s) = t₀.lookup (Store.slotDir s) := by
  refine hs.other _ (fun hsuf => ?_) (fun hsuf => ?_) hne
  · exact not_byRoot ((slotDir_suffix s).trans hsuf) (rootDir_suffix h.root)
  · exact not_byRoot (slotDir_suffix s) ((rootDir_suffix h.root).trans hsuf)

/-- What stands at a slot is the link of a block of that slot. -/
theorem Shape.slot_linked (hs : Shape net t) {s : Nat} (hslot : s < 1000000000) (hne : t.lookup (Store.slotDir s) ≠ none) :
    ∃ k, net.Known k ∧ k.slot = s ∧ Linked t k := by
  obtain ⟨e, he⟩ := Option.ne_none_iff_exists'.mp hne
  have hentry := hs.slots _ e he (slotDir_suffix s)
  generalize hp : Store.slotDir s = p at hentry he
  cases hentry with
  | base => simp [Store.slotDir_eq] at hp
  | high n hn => simp [Store.slotDir_eq] at hp
  | mid m n hm hn => simp [Store.slotDir_eq] at hp
  | slot k hk => exact ⟨k, hk, (Store.slotDir_inj hslot hk.1 hp).symm, he⟩

/-- One entry at the root of the highest block may go. -/
theorem Shape.erase_root (hs : Shape net t) (hh : net.Known h) (hhigh : Highest net t h) (hrooted : Rooted (t.erase q))
    (hq : q <:+ Store.rootDir h.root ∨ Store.rootDir h.root <:+ q) : Shape net (t.erase q) := by
  refine hs.erase hrooted (fun k k' hk hk' hl hl' hlt heq => ?_) fun k hk hl heq => ?_
  · rw [heq] at hq
    rcases hq with hq | hq
    · have hlen := hq.length_le
      simp [Store.length_rootDir] at hlen
    · have hroot : Store.rootDir h.root = Store.rootDir k.root := by
        rcases List.suffix_cons_iff.mp hq with hq | hq
        · have hlen := congrArg List.length hq
          simp [Store.length_rootDir] at hlen
        · exact hq.eq_of_length rfl
      have hkh := hh.eq_of_root hk (Store.rootDir_inj hh.isB256 hk.isB256 hroot)
      have hle := hhigh k' hk' hl'
      rw [hkh] at hle
      omega
  · rw [heq] at hq
    rcases hq with hq | hq
    · exact absurd (rootDir_suffix h.root) (not_byRoot ((slotDir_suffix k.slot).trans hq))
    · exact absurd ((rootDir_suffix h.root).trans hq) (not_byRoot (slotDir_suffix k.slot))

namespace Store

theorem deleteBlockData_none (order : RemovalOrder Name Content) (hnone : t₀.lookup q = none) :
    Does (fun t => t = t₀) (deleteBlockData order q) (fun b t => b = false ∧ t = t₀) F := by
  refine Does.get_bind fun t ht => ?_
  subst ht
  rw [hnone]
  exact Does.ret fun t ht => ⟨rfl, ht⟩

/-- The link of the highest block goes once nothing is at its root. -/
theorem removeLink_spec (hh : net.Known h) (hlink : Linked t₀ h) (hhigh : Highest net t₀ h) :
    Does (fun t => Shape net t ∧ Spared P h t₀ t ∧ t.lookup (.headerJson :: rootDir h.root) = none) (do
      call (.remove (slotDir h.slot))
      Routine.ret true)
      (fun b t => b = true ∧ Shape net t ∧ Spared P h t₀ t ∧ t.lookup (slotDir h.slot) = none)
      (fun t => Shape net t ∧ Spared P h t₀ t) := by
  refine Does.bind (Q := fun _ t => Shape net t ∧ Spared P h t₀ t ∧ t.lookup (slotDir h.slot) = none) ?_ fun _ =>
    Does.ret fun t ht => ⟨rfl, ht⟩
  refine Does.remove (fun t t' ht hrun => ?_) fun t ht => ⟨ht.1, ht.2.1⟩
  obtain ⟨hst, hspared, hnone⟩ := ht
  obtain ⟨-, hempty, rfl⟩ := remove_ok hrun
  refine ⟨hst.erase (hst.rooted.erase hempty) (fun k k' _ _ _ _ _ => slotDir_ne_file _ _ _) fun k hk hl heq => ?_,
    hspared.erase (.inr (.inr rfl)) fun _ hheader => absurd hnone hheader, AList.lookup_erase _ t⟩
  obtain rfl := (hl.sub hspared.sub).eq_of_slot hlink hk hh (slotDir_inj hk.1 hh.1 heq.symm)
  exact ⟨fun k' hk' hl' => hhigh k' hk' (hl'.sub hspared.sub), hnone⟩

/-- The data of the highest block is deleted, and its link after that. -/
theorem deleteBlockData_linked {order : RemovalOrder Name Content} (hP : P → HeaderFirst order) (hs : Shape net t₀)
    (hh : net.Known h) (hl : Linked t₀ h) (hhigh : Highest net t₀ h) :
    Does (fun t => t = t₀) (deleteBlockData order (slotDir h.slot))
      (fun b t => b = true ∧ Shape net t ∧ Spared P h t₀ t ∧ t.lookup (slotDir h.slot) = none)
      (fun t => Shape net t ∧ Spared P h t₀ t) := by
  refine Does.get_bind fun t ht => ?_
  subst ht
  rw [show t.lookup (slotDir h.slot) = some (.link (rootLink h.root)) from hl]
  dsimp only
  rw [rootLink_eq, List.reverse_reverse]
  by_cases hroot : t.lookup (rootDir h.root) ≠ none
  · rw [if_pos hroot]
    have hsuffix := climb_suffix (t := t) (dirLevels - 1) (rootDir h.root)
    have horder : (order.list t (t.climb (dirLevels - 1) (rootDir h.root))).Pairwise fun a b =>
        P → ∀ r, b = .headerJson :: rootDir r → rootDir r <:+ a → b <:+ a := by
      by_cases hp : P
      · exact (hP hp t _).imp fun h _ => h
      · exact List.pairwise_of_forall fun _ _ hp' => absurd hp' hp
    refine Does.bind (Q := fun _ t' => Shape net t' ∧ Spared P h t t' ∧ t'.lookup (.headerJson :: rootDir h.root) = none)
      ?_ fun _ => removeLink_spec hh hl hhigh
    refine Spec.imp (spec_removeDirAll (K := fun t' => Shape net t' ∧ Spared P h t t') ends_plain hs.rooted
      ⟨hs, Spared.refl P h t⟩ horder ?_) (fun _ h => h) (fun _ t' ht' => ?_) fun e t' ht' => ⟨ht'.1, ht'.2.1⟩
    · intro t₁ t₂ q hK hpruned hbelow hrun _ hlater
      obtain ⟨hne, hempty, rfl⟩ := remove_ok hrun
      have hq := hs.rooted.climb hroot (by rw [length_rootDir]; decide) (hpruned.sub.ne_none hne) hbelow
      refine ⟨hK.1.erase_root hh (hhigh.sub hK.2.sub) (hK.1.rooted.erase hempty) hq, hK.2.erase ?_ ?_⟩
      · exact hq.elim .inl fun hq => .inr (.inl hq)
      · intro hp hheader hneq hroot'
        -- nothing is below a file
        have hsuf := hlater _ (hsuffix.trans (List.suffix_cons _ _)) hheader hneq hp h.root rfl hroot'
        have hdir := (hK.1.rooted.above hne hsuf hneq).resolve_left (by simp)
        obtain ⟨k, -, -, hfile, -⟩ := hK.1.headers h.root _ hh.isB256 hdir
        cases hfile
    · exact ⟨ht'.1.1, ht'.1.2, ht'.2.2 _ (hsuffix.trans (List.suffix_cons _ _))⟩
  · rw [if_neg hroot]
    refine (removeLink_spec hh hl hhigh).imp (fun t' ht' => ?_) (fun _ _ h => h) fun _ h => h
    subst ht'
    refine ⟨hs, Spared.refl P h t', ?_⟩
    by_contra hheader
    exact hroot (hs.rooted.above_ne_none hheader (List.suffix_cons _ _) (by simp [rootDir, rootDirFrom]))

end Store

/-! ## The last header -/

theorem Shape.isDir (hs : Shape net t) (hq : t.lookup q ≠ none) (hslot : [.bySlot] <:+ q) (hlen : q.length < 4) :
    t.lookup q = some .dir := by
  obtain ⟨e, he⟩ := Option.ne_none_iff_exists'.mp hq
  have hentry := hs.slots q e he hslot
  cases hentry with
  | base => exact he
  | high n hn => exact he
  | mid m n hm hn => exact he
  | slot h hknown =>
    rw [Store.length_slotDir] at hlen
    omega

/-- The names under `by_slot` are numbers in three digits. -/
theorem Shape.name (hs : Shape net t) {name : Name} (hq : t.lookup (name :: q) ≠ none) (hslot : [.bySlot] <:+ q) :
    ∃ n < 1000, name = .part (pad3 n) := by
  obtain ⟨e, he⟩ := Option.ne_none_iff_exists'.mp hq
  have hentry := hs.slots _ e he (hslot.trans (List.suffix_cons _ _))
  generalize hp : name :: q = p at hentry
  cases hentry with
  | base =>
    obtain ⟨rfl, rfl⟩ := List.cons_eq_cons.mp hp
    simp at hslot
  | high n hn =>
    obtain ⟨rfl, -⟩ := List.cons_eq_cons.mp hp
    exact ⟨n, hn, rfl⟩
  | mid m n hm hn =>
    obtain ⟨rfl, -⟩ := List.cons_eq_cons.mp hp
    exact ⟨m, hm, rfl⟩
  | slot h hknown =>
    rw [Store.slotDir_eq] at hp
    obtain ⟨rfl, -⟩ := List.cons_eq_cons.mp hp
    exact ⟨h.slot % 1000, by omega, rfl⟩

/-- The last name of a directory under `by_slot` is the greatest number. -/
theorem Shape.last (hs : Shape net t) (hslot : [.bySlot] <:+ q) {name : Name}
    (hmax : (t.children q).argmax Name.text = some name) :
    ∃ n < 1000, name = .part (pad3 n) ∧ t.lookup (.part (pad3 n) :: q) ≠ none ∧
      ∀ m < 1000, t.lookup (.part (pad3 m) :: q) ≠ none → m ≤ n := by
  have hmem : t.lookup (name :: q) ≠ none := mem_children.mp (List.argmax_mem hmax)
  obtain ⟨n, hn, rfl⟩ := hs.name hmem hslot
  refine ⟨n, hn, rfl, hmem, fun m hm hchild => ?_⟩
  have hnot := List.not_lt_of_mem_argmax (mem_children.mpr hchild) (Option.mem_def.mpr hmax)
  by_contra hlt
  exact hnot (pad3_lt hn hm (by omega))

/-- A linked block has the directories of its slot. -/
theorem Shape.above (hs : Shape net t) (hl : Linked t h) {p : Path} (hp : p <:+ Store.slotDir h.slot) (hne : p ≠ []) :
    t.lookup p ≠ none := by
  refine hs.rooted.above_ne_none ?_ hp hne
  rw [hl]
  simp

/-- How the descent along the last names ends. -/
inductive Descends (net : Network) (t : Tree) : Store.Descent → Prop
  | noBlocks (hnone : ∀ k, net.Known k → ¬ Linked t k) : Descends net t .noBlocks
  | emptyDir (p : Path) (hdir : t.lookup p = some .dir) (hempty : t.children p = []) (hslot : [.bySlot] <:+ p)
    (hlen : p.length < 4) : Descends net t (.emptyDir p)
  | reached (k : BlockHeader) (hk : net.Known k) (hl : Linked t k) (hhigh : Highest net t k) :
    Descends net t (.reached (Store.slotDir k.slot))

theorem readDir_dir (hdir : t.lookup q = some .dir) : t.readDir q = .ok (t.children q) := by
  rw [readDir, if_pos (.inr hdir)]

theorem Shape.descends (hs : Shape net t) : Descends net t (Store.descend t dirLevels [.bySlot]) := by
  have hself : [Name.bySlot] <:+ [Name.bySlot] := List.suffix_refl _
  by_cases hbase : t.lookup [.bySlot] = none
  · have hnotdir : ¬ t.isDir [.bySlot] := by
      rintro (hnil | hdir)
      · cases hnil
      · rw [hbase] at hdir
        cases hdir
    have hread : t.readDir [.bySlot] = .error .notFound := by rw [readDir, if_neg hnotdir, if_pos hbase]
    simp only [dirLevels, Store.descend, hread]
    exact .noBlocks fun k hk hl => hs.above hl (slotDir_suffix k.slot) (by simp) hbase
  have hread := readDir_dir (hs.isDir hbase hself (by decide))
  cases hmax : (t.children [.bySlot]).argmax Name.text with
  | none =>
    simp only [dirLevels, Store.descend, hread, hmax, if_true]
    refine .noBlocks fun k hk hl => ?_
    have hhigh := hs.above hl (p := [.part (pad3 (k.slot / 1000000)), .bySlot]) ⟨(Store.slotDir k.slot).take 2, rfl⟩ (by simp)
    have hmem := mem_children.mpr hhigh
    rw [List.argmax_eq_none.mp hmax] at hmem
    cases hmem
  | some name =>
    obtain ⟨a, ha, rfl, ha', hamax⟩ := hs.last hself hmax
    have hself₁ : [Name.bySlot] <:+ [.part (pad3 a), .bySlot] := List.suffix_cons _ _
    have hdir₁ := hs.isDir ha' hself₁ (by simp)
    have hread₁ := readDir_dir hdir₁
    cases hmax₁ : (t.children [.part (pad3 a), .bySlot]).argmax Name.text with
    | none =>
      simp only [dirLevels, Store.descend, hread, hmax, hread₁, hmax₁]
      exact .emptyDir _ hdir₁ (List.argmax_eq_none.mp hmax₁) hself₁ (by simp)
    | some name₁ =>
      obtain ⟨b, hb, rfl, hb', hbmax⟩ := hs.last hself₁ hmax₁
      have hself₂ : [Name.bySlot] <:+ [.part (pad3 b), .part (pad3 a), .bySlot] :=
        hself₁.trans (List.suffix_cons _ _)
      have hdir₂ := hs.isDir hb' hself₂ (by simp)
      have hread₂ := readDir_dir hdir₂
      cases hmax₂ : (t.children [.part (pad3 b), .part (pad3 a), .bySlot]).argmax Name.text with
      | none =>
        simp only [dirLevels, Store.descend, hread, hmax, hread₁, hmax₁, hread₂, hmax₂]
        exact .emptyDir _ hdir₂ (List.argmax_eq_none.mp hmax₂) hself₂ (by simp)
      | some name₂ =>
        obtain ⟨c, hc, rfl, hc', hcmax⟩ := hs.last hself₂ hmax₂
        simp only [dirLevels, Store.descend, hread, hmax, hread₁, hmax₁, hread₂, hmax₂]
        obtain ⟨e, he⟩ := Option.ne_none_iff_exists'.mp hc'
        have hentry := hs.slots _ e he (hself₂.trans (List.suffix_cons _ _))
        generalize hp : [Name.part (pad3 c), .part (pad3 b), .part (pad3 a), .bySlot] = p at hentry he
        cases hentry with
        | base => simp at hp
        | high n hn => simp at hp
        | mid m n hm hn => simp at hp
        | slot k hk =>
          have hslot := hk.1
          refine .reached k hk he fun k' hk' hl' => ?_
          have hslot' := hk'.1
          rw [Store.slotDir_eq] at hp
          simp only [List.cons.injEq, Name.part.injEq, and_true] at hp
          have hlow := pad3_inj hc (by omega) hp.1
          have hmid := pad3_inj hb (by omega) hp.2.1
          have htop := pad3_inj ha (by omega) hp.2.2
          -- the parts of the other slot are at most those found, from the left
          have hle := hamax (k'.slot / 1000000) (by omega) (hs.above hl' ⟨(Store.slotDir k'.slot).take 2, rfl⟩ (by simp))
          by_cases htop' : k'.slot / 1000000 = a
          · have hle₁ := hbmax (k'.slot / 1000 % 1000) (by omega)
              (hs.above hl' ⟨(Store.slotDir k'.slot).take 1, by rw [← htop']; exact (Store.slotDir_eq k'.slot).symm ▸ rfl⟩ (by simp))
            by_cases hmid' : k'.slot / 1000 % 1000 = b
            · have hle₂ := hcmax (k'.slot % 1000) (by omega)
                (hs.above hl' (by rw [← htop', ← hmid', ← Store.slotDir_eq]) (by simp))
              omega
            · omega
          · omega

/-- Only incomplete blocks and empty directories have gone: whatever is at the root of a complete
block stays, and at the root it settles. -/
structure Cleaned (net : Network) (t₀ t : Tree) : Prop where
  sub : t.Sub t₀
  kept : ∀ k, net.Known k → Complete t₀ k →
    Complete t k ∧ ∀ r, r = k.root ∨ net.Settles k r → ∀ q, Store.rootDir r <:+ q → t.lookup q = t₀.lookup q

theorem Cleaned.refl (net : Network) (t : Tree) : Cleaned net t t :=
  ⟨Sub.refl t, fun _ _ hc => ⟨hc, fun _ _ _ _ => rfl⟩⟩

theorem Cleaned.trans {t₁ : Tree} (hc : Cleaned net t₀ t₁) (hc' : Cleaned net t₁ t) : Cleaned net t₀ t := by
  refine ⟨hc'.sub.trans hc.sub, fun k hk hcomplete => ?_⟩
  obtain ⟨hcomplete₁, hsame₁⟩ := hc.kept k hk hcomplete
  obtain ⟨hcomplete₂, hsame₂⟩ := hc'.kept k hk hcomplete₁
  exact ⟨hcomplete₂, fun r hr q hq => (hsame₂ r hr q hq).trans (hsame₁ r hr q hq)⟩

theorem Complete.sub (hc : Complete t h) (hsub : t.Sub t') : Complete t' h := ⟨hc.linked.sub hsub, hsub _ _ hc.header⟩

theorem Cleaned.stocked (hc : Cleaned net t₀ t) (hstocked : Stocked net t₀) : Stocked net t := by
  intro k hk hcomplete r hr vh hvh
  have hcomplete₀ := hcomplete.sub hc.sub
  obtain ⟨-, hsame⟩ := hc.kept k hk hcomplete₀
  obtain ⟨i, hi⟩ := hstocked k hk hcomplete₀ r hr vh hvh
  refine ⟨i, ?_⟩
  rw [hsame r (.inr hr) _ (List.suffix_cons _ _)]
  exact hi

/-- A block below the highest settles another root. -/
theorem Network.Settles.ne_root {r : B256} (hr : net.Settles k r) (hk : net.Known k) (hh : net.Known h)
    (hne : k.root ≠ h.root) (hle : k.slot ≤ h.slot) : r ≠ h.root := by
  rintro rfl
  rcases (hr.before hk).2 with hroot | hbefore
  · exact hne hroot.symm
  · have hlt := hbefore h hh rfl
    omega

/-- Below the highest block, the complete blocks keep what is at the roots they settle. -/
theorem Spared.kept (hs : Spared P h t₀ t) (hh : net.Known h) (hl : Linked t₀ h) (hhigh : Highest net t₀ h)
    (hk : net.Known k) (hne : k ≠ h) (hcomplete : Complete t₀ k) :
    Complete t k ∧ ∀ r, r = k.root ∨ net.Settles k r → ∀ q, Store.rootDir r <:+ q → t.lookup q = t₀.lookup q := by
  have hroot : k.root ≠ h.root := fun heq => hne (hk.eq_of_root hh heq)
  have hslot : Store.slotDir k.slot ≠ Store.slotDir h.slot := by
    intro heq
    exact hne (hcomplete.linked.eq_of_slot hl hk hh (Store.slotDir_inj hk.1 hh.1 heq))
  have hdata : ∀ r, r = k.root ∨ net.Settles k r → ∀ q, Store.rootDir r <:+ q → t.lookup q = t₀.lookup q := by
    rintro r (rfl | hr) q hq
    · exact hs.root hh hk.isB256 hroot hq
    · exact hs.root hh (hr.before hk).1 (hr.ne_root hk hh hroot (hhigh k hk hcomplete.linked)) hq
  refine ⟨⟨?_, ?_⟩, hdata⟩
  · unfold Linked
    rw [hs.link hslot]
    exact hcomplete.linked
  · rw [hdata k.root (.inl rfl) _ (List.suffix_cons _ _)]
    exact hcomplete.header

theorem Spared.cleaned (hs : Spared P h t₀ t) (hh : net.Known h) (hl : Linked t₀ h) (hhigh : Highest net t₀ h)
    (hnot : ¬ Complete t₀ h) : Cleaned net t₀ t := by
  refine ⟨hs.sub, fun k hk hcomplete => hs.kept hh hl hhigh hk ?_ hcomplete⟩
  rintro rfl
  exact hnot hcomplete

/-- While its header stands, the block that is being deleted has its blobs. -/
theorem Spared.stocked (hs : Spared P h t₀ t) (hp : P) (hh : net.Known h) (hl : Linked t₀ h)
    (hhigh : Highest net t₀ h) (hstocked : Stocked net t₀) : Stocked net t := by
  intro k hk hcomplete r hr vh hvh
  have hcomplete₀ := hcomplete.sub hs.sub
  obtain ⟨i, hi⟩ := hstocked k hk hcomplete₀ r hr vh hvh
  refine ⟨i, ?_⟩
  by_cases hkh : k = h
  · subst hkh
    by_cases hroot : r = k.root
    · subst hroot
      rw [hs.whole hp (by rw [hcomplete.header]; simp) _ (List.suffix_cons _ _)]
      exact hi
    · rw [hs.root hk (hr.before hk).1 hroot (List.suffix_cons _ _)]
      exact hi
  · obtain ⟨-, hsame⟩ := hs.kept hh hl hhigh hk hkh hcomplete₀
    rw [hsame r (.inr hr) _ (List.suffix_cons _ _)]
    exact hi

/-- An empty directory under `by_slot` goes. -/
theorem Shape.erase_dir (hs : Shape net t) (hrooted : Rooted (t.erase q)) (hslot : [.bySlot] <:+ q)
    (hlen : q.length < 4) : Shape net (t.erase q) ∧ Cleaned net t (t.erase q) := by
  have hlink : ∀ s, q ≠ Store.slotDir s := by
    intro s heq
    rw [heq, Store.length_slotDir] at hlen
    omega
  have hroot : ∀ r p, Store.rootDir r <:+ p → q ≠ p := by
    rintro r p hp rfl
    exact not_byRoot hslot ((rootDir_suffix r).trans hp)
  refine ⟨hs.erase hrooted (fun k k' _ _ _ _ _ => hroot k.root _ (List.suffix_cons _ _))
    fun k _ _ heq => absurd heq (hlink k.slot), Sub.erase t q, fun k hk hcomplete => ⟨⟨?_, ?_⟩, fun r _ p hp => ?_⟩⟩
  · unfold Linked
    rw [AList.lookup_erase_ne (Ne.symm (hlink k.slot))]
    exact hcomplete.linked
  · rw [AList.lookup_erase_ne (Ne.symm (hroot k.root _ (List.suffix_cons _ _)))]
    exact hcomplete.header
  · exact AList.lookup_erase_ne (Ne.symm (hroot r p hp))

/-- What the last header says of the store. -/
def Found (net : Network) (t : Tree) : Option BlockHeader → Prop
  | none => ∀ k, net.Known k → ¬ Linked t k
  | some k => net.Known k ∧ Complete t k ∧ Highest net t k

/-- Behind the link of a block is its header or nothing. -/
theorem Shape.readHeader (hs : Shape net t) (hh : net.Known h) (hl : Linked t h) :
    Store.readHeader t (Store.slotDir h.slot) = .valid h ∧ Complete t h ∨
      Store.readHeader t (Store.slotDir h.slot) = .notFound ∧ ¬ Complete t h := by
  have hfollow : Store.follow t (Store.slotDir h.slot) = Store.rootDir h.root := by
    unfold Store.follow
    rw [show t.lookup (Store.slotDir h.slot) = some (.link (Store.rootLink h.root)) from hl]
    exact Store.resolve_rootLink h.slot h.root
  unfold Store.readHeader
  rw [hfollow]
  cases hheader : t.lookup (.headerJson :: Store.rootDir h.root) with
  | none =>
    refine .inr ⟨rfl, fun hc => ?_⟩
    rw [hc.header] at hheader
    cases hheader
  | some e =>
    obtain ⟨k, hk, hroot, rfl, -⟩ := hs.headers h.root e hh.isB256 hheader
    obtain rfl := hk.eq_of_root hh hroot
    exact .inl ⟨rfl, hl, hheader⟩

namespace Store

/-- What a round leaves to the next. -/
theorem lastHeaderLoop_next {order : RemovalOrder Name Content} {fuel : Nat}
    (ih : ∀ t, Shape net t → t.keys.length < fuel → Does (fun t' => t' = t) (lastHeaderLoop order fuel)
      (fun r t' => Shape net t' ∧ Cleaned net t t' ∧ Found net t' r) (fun t' => Shape net t' ∧ Cleaned net t t')) :
    Does (fun t => Shape net t ∧ Cleaned net t₀ t ∧ t.keys.length < fuel) (lastHeaderLoop order fuel)
      (fun r t => Shape net t ∧ Cleaned net t₀ t ∧ Found net t r) (fun t => Shape net t ∧ Cleaned net t₀ t) := by
  refine Spec.of_state fun t ht => ?_
  obtain ⟨hs, hcleaned, hlen⟩ := ht
  refine (ih t hs hlen).imp (fun _ h => h) (fun r t' ht' => ?_) fun t' ht' => ?_
  · exact ⟨ht'.1, hcleaned.trans ht'.2.1, ht'.2.2⟩
  · exact ⟨ht'.1, hcleaned.trans ht'.2⟩

/-- Every round deletes an entry or ends, so that the fuel suffices. -/
theorem lastHeaderLoop_spec (order : RemovalOrder Name Content) {fuel : Nat} (hs : Shape net t₀)
    (hfuel : t₀.keys.length < fuel) :
    Does (fun t => t = t₀) (lastHeaderLoop order fuel)
      (fun r t => Shape net t ∧ Cleaned net t₀ t ∧ Found net t r) (fun t => Shape net t ∧ Cleaned net t₀ t) := by
  induction fuel generalizing t₀ with
  | zero => omega
  | succ fuel ih =>
    refine Does.get_bind fun t ht => ?_
    subst ht
    have hnext : Does (fun t' => Shape net t' ∧ Cleaned net t t' ∧ t'.keys.length < fuel) (lastHeaderLoop order fuel)
        (fun r t' => Shape net t' ∧ Cleaned net t t' ∧ Found net t' r) (fun t' => Shape net t' ∧ Cleaned net t t') :=
      lastHeaderLoop_next fun t' hs' hlen => ih hs' hlen
    have hdescends := hs.descends
    generalize descend t dirLevels [.bySlot] = d at hdescends
    cases hdescends with
    | noBlocks hnone =>
      refine Does.ret fun t' ht' => ?_
      subst ht'
      exact ⟨hs, Cleaned.refl net t', hnone⟩
    | emptyDir p hdir hempty hslot hlen =>
      refine Does.bind (Does.remove (fun t₁ t₂ ht₁ hrun => ?_) fun t₁ ht₁ => ?_) fun _ => hnext
      · subst ht₁
        obtain ⟨hne, hchildren, rfl⟩ := remove_ok hrun
        obtain ⟨hs₂, hcleaned⟩ := hs.erase_dir (hs.rooted.erase hchildren) hslot hlen
        have hlt := Sub.length_lt (Sub.erase t₁ p) (AList.lookup_erase p t₁) hne
        exact ⟨hs₂, hcleaned, by omega⟩
      · subst ht₁
        exact ⟨hs, Cleaned.refl net t₁⟩
    | reached k hk hl hhigh =>
      rcases hs.readHeader hk hl with ⟨hread, hcomplete⟩ | ⟨hread, hnot⟩
      · simp only [hread]
        refine Does.ret fun t' ht' => ?_
        subst ht'
        exact ⟨hs, Cleaned.refl net t', hk, hcomplete, hhigh⟩
      · simp only [hread]
        refine Does.bind ((deleteBlockData_linked (P := False) False.elim hs hk hl hhigh).imp (fun _ h => h)
          ?_ ?_) fun _ => hnext
        · rintro _ t' ⟨-, hs', hspared, hgone⟩
          have hne : t.lookup (slotDir k.slot) ≠ none := by
            rw [hl]
            simp
          have hlt := Sub.length_lt hspared.sub hgone hne
          exact ⟨hs', hspared.cleaned hk hl hhigh hnot, by omega⟩
        · exact fun t' ht' => ⟨ht'.1, ht'.2.cleaned hk hl hhigh hnot⟩

/-- The last header is the greatest of the complete blocks; what is deleted is incomplete or empty. -/
theorem lastHeader_spec (order : RemovalOrder Name Content) (hs : Shape net t₀) :
    Does (fun t => t = t₀) (lastHeader order)
      (fun r t => Shape net t ∧ Cleaned net t₀ t ∧ Found net t r) (fun t => Shape net t ∧ Cleaned net t₀ t) := by
  refine Does.get_bind fun t ht => ?_
  subst ht
  exact lastHeaderLoop_spec order hs (Nat.lt_succ_self _)

end Store

/-- A complete block that stands highest is found again. -/
theorem Cleaned.found (hc : Cleaned net t₀ t) (hh : net.Known h) (hcomplete : Complete t₀ h) (hhigh : Highest net t₀ h)
    {r : Option BlockHeader} (hfound : Found net t r) : r = some h := by
  obtain ⟨hcomplete', -⟩ := hc.kept h hh hcomplete
  cases r with
  | none => exact absurd hcomplete'.linked (hfound h hh)
  | some k =>
    obtain ⟨hk, hcomplete'', hhigh'⟩ := hfound
    have hle := hhigh' h hh hcomplete'.linked
    have hge := hhigh k hk (hcomplete''.linked.sub hc.sub)
    rw [hcomplete''.linked.eq_of_slot hcomplete'.linked hk hh (by omega)]

/-- All complete blocks but one stay, with what is at their roots. -/
def Without (net : Network) (h : BlockHeader) (t₀ t : Tree) : Prop :=
  ∀ k, net.Known k → k ≠ h → Complete t₀ k →
    Complete t k ∧ ∀ r, r = k.root ∨ net.Settles k r → ∀ q, Store.rootDir r <:+ q → t.lookup q = t₀.lookup q

theorem Without.cleaned {t₁ : Tree} (hw : Without net h t₀ t₁) (hc : Cleaned net t₁ t) : Without net h t₀ t := by
  intro k hk hne hcomplete
  obtain ⟨hcomplete₁, hsame₁⟩ := hw k hk hne hcomplete
  obtain ⟨hcomplete₂, hsame₂⟩ := hc.kept k hk hcomplete₁
  exact ⟨hcomplete₂, fun r hr q hq => (hsame₂ r hr q hq).trans (hsame₁ r hr q hq)⟩

theorem Cleaned.without {t₁ : Tree} (hc : Cleaned net t₀ t₁) (hw : Without net h t₁ t) : Without net h t₀ t := by
  intro k hk hne hcomplete
  obtain ⟨hcomplete₁, hsame₁⟩ := hc.kept k hk hcomplete
  obtain ⟨hcomplete₂, hsame₂⟩ := hw k hk hne hcomplete₁
  exact ⟨hcomplete₂, fun r hr q hq => (hsame₂ r hr q hq).trans (hsame₁ r hr q hq)⟩

theorem Cleaned.without_any (hc : Cleaned net t₀ t) : Without net h t₀ t := fun k hk _ => hc.kept k hk

/-- Going back from a slot above the highest block deletes that block alone; it neither misses it nor
goes below slot zero. -/
theorem reorgLoop_spec {order : RemovalOrder Name Content} (hP : P → HeaderFirst order) {slot : Nat} (hh : net.Known h)
    (hlt : h.slot < slot) (hbound : slot ≤ 1000000000) (hs : Shape net t₀) (hstocked : P → Stocked net t₀)
    (hcomplete : Complete t₀ h) (hhigh : Highest net t₀ h) :
    Does (fun t => t = t₀) (reorgLoop order slot)
      (fun r t => Shape net t ∧ (P → Stocked net t) ∧ Without net h t₀ t ∧ Found net t r)
      (fun t => Shape net t ∧ (P → Stocked net t) ∧ Without net h t₀ t) := by
  induction slot generalizing t₀ with
  | zero => omega
  | succ slot ih =>
    by_cases hslot : slot = h.slot
    · subst hslot
      have hkept : ∀ t, Spared P h t₀ t → (P → Stocked net t) ∧ Without net h t₀ t := fun t hspared =>
        ⟨fun hp => hspared.stocked hp hh hcomplete.linked hhigh (hstocked hp),
          fun k hk hne hc => hspared.kept hh hcomplete.linked hhigh hk hne hc⟩
      refine Does.bind (Q := fun b t => b = true ∧ Shape net t ∧ (P → Stocked net t) ∧ Without net h t₀ t)
        ((Store.deleteBlockData_linked hP hs hh hcomplete.linked hhigh).imp (fun _ h => h)
          (fun b t ht => ⟨ht.1, ht.2.1, hkept t ht.2.2.1⟩) fun t ht => ⟨ht.1, hkept t ht.2⟩) fun b => ?_
      refine Spec.of_state fun t₁ ht₁ => ?_
      obtain ⟨rfl, hs₁, hstocked₁, hwithout⟩ := ht₁
      refine Does.bind (Q := fun r t => Shape net t ∧ (P → Stocked net t) ∧ Without net h t₀ t ∧ Found net t r)
        ((Store.lastHeader_spec order hs₁).imp (fun _ h => h)
          (fun r t ht => ⟨ht.1, fun hp => ht.2.1.stocked (hstocked₁ hp), hwithout.cleaned ht.2.1, ht.2.2⟩)
          fun t ht => ⟨ht.1, fun hp => ht.2.stocked (hstocked₁ hp), hwithout.cleaned ht.2⟩) fun r => ?_
      rw [if_pos (.inl rfl)]
      exact Does.ret fun t ht => ht
    · have habsent : t₀.lookup (Store.slotDir slot) = none := by
        by_contra hne
        obtain ⟨k, hk, hsame, hl⟩ := hs.slot_linked (by omega) hne
        have hle := hhigh k hk hl
        omega
      refine Does.bind (Store.deleteBlockData_none order habsent) fun b => ?_
      refine Spec.of_state fun t₁ ht₁ => ?_
      obtain ⟨rfl, rfl⟩ := ht₁
      refine Does.bind ((Store.lastHeader_spec order hs).imp (fun _ h => h) (fun _ _ h => h)
        fun t ht => ⟨ht.1, fun hp => ht.2.stocked (hstocked hp), ht.2.without_any⟩) fun r => ?_
      refine Spec.of_state fun t₂ ht₂ => ?_
      obtain ⟨hs₂, hcleaned, hfound⟩ := ht₂
      obtain rfl := hcleaned.found hh hcomplete hhigh hfound
      rw [if_neg (by simp)]
      refine (ih (by omega) (by omega) hs₂ (fun hp => hcleaned.stocked (hstocked hp)) hfound.2.1 hfound.2.2).imp
        (fun _ h => h) (fun r t ht => ?_) fun t ht => ?_
      · exact ⟨ht.1, ht.2.1, hcleaned.without ht.2.2.1, ht.2.2.2⟩
      · exact ⟨ht.1, ht.2.1, hcleaned.without ht.2.2⟩

end DigitalObjects.Archiver
