import DigitalObjects.Archiver.Processing
set_option autoImplicit false

/-!
The runs of the archiver: the loop over the slots keeps the shape of the store, whatever the views of
the chain are, with failures and crashes anywhere. Where a removal takes the header of a block first,
a complete block has all its blobs.
-/

namespace DigitalObjects.Archiver

open Lib EthClients FileTree Routine

variable {net : Network} {t t' t₀ : Tree} {h k : BlockHeader} {P : Prop}

/-! ## The loop -/

/-- What the process carries fits the store. -/
structure Following.Fits (net : Network) (f : Following) (t : Tree) : Prop where
  found : Found net t f.prev
  before : ∀ p, f.prev = some p → p.slot < f.slot
  prevBlock : ∀ p, f.prevBlock = some p → net.block p.root = some p.block

/-- The next block of a chain that goes on where the store ends. -/
theorem Following.Fits.next {f : Following} (hf : f.Fits net t) (hs : Shape net t) (hh : net.Known h)
    (hslot : h.slot = f.slot) (hreorg : isReorg f.prev h = false) : Next net t h := by
  have hfound := hf.found
  cases hprev : f.prev with
  | none =>
    rw [hprev] at hfound
    exact ⟨hh, fun k hk hl => absurd hl (hfound k hk), fun k hk hl => absurd hl (hfound k hk),
      fun k hk hl => absurd hl (hfound k hk)⟩
  | some p =>
    rw [hprev] at hfound hreorg
    obtain ⟨hp, hcomplete, hhigh⟩ := hfound
    have hlt := hf.before p hprev
    have hparent : h.parentRoot = p.root := by simpa [isReorg] using hreorg
    refine ⟨hh, fun k hk hl => ?_, fun k hk hl => ?_, fun k hk hl hhigh' => ?_⟩
    · have hle := hhigh k hk hl
      omega
    · by_cases hsame : k.slot = p.slot
      · rw [hl.eq_of_slot hcomplete.linked hk hp hsame]
        exact hcomplete
      · have hle := hhigh k hk hl
        exact hs.complete_below k p hk hp hl hcomplete.linked (by omega)
    · have hle := hhigh k hk hl
      have hge := hhigh' p hp hcomplete.linked
      rw [hl.eq_of_slot hcomplete.linked hk hp (by omega)]
      exact hparent

theorem startFollowing_spec (initStartSlot : Nat) (order : RemovalOrder Name Content) (hs : Shape net t₀) :
    Does (fun t => t = t₀) (startFollowing initStartSlot order)
      (fun f t => Shape net t ∧ Cleaned net t₀ t ∧ f.Fits net t) (fun t => Shape net t ∧ Cleaned net t₀ t) := by
  refine Does.bind (Store.lastHeader_spec order hs) fun prev => Does.ret fun t ht => ⟨ht.1, ht.2.1, ht.2.2, ?_, by simp⟩
  rintro p rfl
  exact Nat.lt_succ_self _

/-- A complete block stays, and no blob of what it settles goes. -/
def Stays (net : Network) (t₀ t : Tree) (k : BlockHeader) : Prop :=
  Complete t k ∧ ∀ r, net.Settles k r → ∀ i vh, t₀.lookup (.blob i vh :: Store.rootDir r) ≠ none →
    t.lookup (.blob i vh :: Store.rootDir r) ≠ none

theorem Cleaned.stays (hc : Cleaned net t₀ t) (hk : net.Known k) (hcomplete : Complete t₀ k) : Stays net t₀ t k := by
  obtain ⟨hcomplete', hsame⟩ := hc.kept k hk hcomplete
  refine ⟨hcomplete', fun r hr i vh hne => ?_⟩
  rw [hsame r (.inr hr) _ (List.suffix_cons _ _)]
  exact hne

theorem Without.stays (hw : Without net h t₀ t) (hk : net.Known k) (hne : k ≠ h) (hcomplete : Complete t₀ k) :
    Stays net t₀ t k := by
  obtain ⟨hcomplete', hsame⟩ := hw k hk hne hcomplete
  refine ⟨hcomplete', fun r hr i vh hne => ?_⟩
  rw [hsame r (.inr hr) _ (List.suffix_cons _ _)]
  exact hne

/-- The node's header means going back. -/
def goesBack (f : Following) : Option BlockHeader → Bool
  | none => false
  | some h => isReorg f.prev h

/-- What is left of the store after the check of a slot: going back may cost the last block. -/
structure SlotChecked (P : Prop) (net : Network) (f : Following) (reorg : Bool) (t₀ t : Tree) : Prop where
  shape : Shape net t
  stocked : P → Stocked net t
  stays : ∀ k, net.Known k → Complete t₀ k → (reorg = true → f.prev ≠ some k) → Stays net t₀ t k

theorem Safe.checked {f : Following} (hs : Safe P net t₀ t) : SlotChecked P net f false t₀ t :=
  ⟨hs.shape, hs.stocked, fun k hk hc _ => ⟨hs.lasting.complete k hk hc, fun r _ i vh hne => hs.lasting.blob r i vh hne⟩⟩

theorem checkSlot_spec (initStartSlot : Nat) {order : RemovalOrder Name Content} (hP : P → HeaderFirst order)
    (view : View net) (replies : Replies net) {f : Following} (hs : Shape net t₀) (hstocked : P → Stocked net t₀)
    (hf : f.Fits net t₀) :
    Does (fun t => t = t₀) (checkSlot initStartSlot replies.source order (view.header f.slot) f)
      (fun f' t => SlotChecked P net f (goesBack f (view.header f.slot)) t₀ t ∧ f'.Fits net t)
      (SlotChecked P net f (goesBack f (view.header f.slot)) t₀) := by
  have hsafe : Safe P net t₀ t₀ := ⟨hs, hstocked, Lasting.refl net t₀⟩
  cases hheader : view.header f.slot with
  | none =>
    refine Does.ret fun t ht => ?_
    subst ht
    refine ⟨hsafe.checked, hf.found, fun p hp => ?_, hf.prevBlock⟩
    have hlt := hf.before p hp
    exact Nat.lt_succ_of_lt hlt
  | some h =>
    obtain ⟨hslot, hh⟩ := view.known f.slot h hheader
    simp only [checkSlot, goesBack]
    by_cases hreorg : isReorg f.prev h = true
    · rw [if_pos hreorg, hreorg]
      cases hprev : f.prev with
      | none =>
        rw [hprev] at hreorg
        cases hreorg
      | some p =>
        have hfound := hf.found
        rw [hprev] at hfound
        obtain ⟨hp, hcomplete, hhigh⟩ := hfound
        have hbound := hh.1
        have hstays : ∀ t, Without net p t₀ t → ∀ k, net.Known k → Complete t₀ k → (true = true → f.prev ≠ some k) →
            Stays net t₀ t k := by
          intro t hw k hk hc hne
          refine hw.stays hk ?_ hc
          rintro rfl
          exact hne rfl hprev
        refine Does.bind ((reorgLoop_spec hP hp (hf.before p hprev) (by omega) hs hstocked hcomplete hhigh).imp
          (fun _ h => h) (fun _ _ h => h) fun t ht => ⟨ht.1, ht.2.1, hstays t ht.2.2⟩) fun prev => Does.ret fun t ht => ?_
        refine ⟨⟨ht.1, ht.2.1, hstays t ht.2.2.1⟩, ht.2.2.2, ?_, hf.prevBlock⟩
        rintro p' rfl
        exact Nat.lt_succ_self _
    · rw [if_neg hreorg, Bool.eq_false_of_not_eq_true hreorg]
      have hnext := hf.next hs hh hslot (by simpa using hreorg)
      refine Does.bind ((processBeaconBlockHeader_spec replies hf.prevBlock hsafe hnext).imp (fun _ h => h)
        (fun _ _ h => h) fun t ht => ht.checked) fun p => Does.ret fun t ht => ?_
      obtain ⟨⟨hsafe', hcomplete, hhigh⟩, hblock⟩ := ht
      refine ⟨hsafe'.checked, ⟨hh, hcomplete, hhigh⟩, ?_, ?_⟩
      · rintro p' hp'
        cases hp'
        exact hslot ▸ Nat.lt_succ_self _
      · rintro p' hp'
        cases hp'
        exact hblock

/-- The blobs of a complete block, as they are loaded. -/
theorem Stocked.blobs {r : B256} (hstocked : Stocked net t) (hs : Shape net t) (hk : net.Known k) (hc : Complete t k)
    (hr : net.Settles k r) : (∀ vh, net.Wanted r vh → ∃ s ∈ Store.loadBlobsDisk t r, s.versionedHash = vh) ∧
      ∀ s ∈ Store.loadBlobsDisk t r, s.Fits net r := by
  have hr256 := (hr.before hk).1
  refine ⟨fun vh hvh => ?_, fun s hmem => hs.blobs r _ _ _ hr256 (mem_loadBlobsDisk.mp hmem)⟩
  obtain ⟨i, hi⟩ := hstocked k hk hc r hr vh hvh
  obtain ⟨e, he⟩ := Option.ne_none_iff_exists'.mp hi
  obtain ⟨b, -, -, rfl⟩ := hs.blobs r i vh e hr256 he
  exact ⟨⟨i, vh, net.blobOf vh⟩, mem_loadBlobsDisk.mpr he, rfl⟩

/-! ## Headers first -/

/-- A path at or below the header of a root. -/
def underHeader (q : Path) : Bool :=
  match q.reverse with
  | .byRoot :: _ :: _ :: _ :: .headerJson :: _ => true
  | _ => false

theorem underHeader_append {p q : Path} (h : underHeader p = true) : underHeader (q ++ p) = true := by
  unfold underHeader at h ⊢
  split at h
  · rename_i heq
    rw [List.reverse_append, heq]
    rfl
  · cases h

def goesFirst (a b : Path) : Prop :=
  (underHeader a = true ∧ underHeader b = false) ∨ underHeader a = underHeader b ∧ b.length ≤ a.length

instance (a b : Path) : Decidable (goesFirst a b) := inferInstanceAs (Decidable (_ ∨ _))

theorem goesFirst_total : Std.Total goesFirst := by
  refine ⟨fun a b => ?_⟩
  unfold goesFirst
  have := le_total a.length b.length
  cases underHeader a <;> cases underHeader b <;> simp <;> omega

theorem goesFirst_trans : IsTrans Path goesFirst := by
  refine ⟨fun a b c h h' => ?_⟩
  unfold goesFirst at *
  revert h h'
  cases underHeader a <;> cases underHeader b <;> cases underHeader c <;> simp <;> omega

/-- Headers first, and the deepest entries first. -/
def headersFirst : RemovalOrder Name Content where
  list t p := (t.keys.filter fun q => p <:+ q).insertionSort goesFirst
  mem_list t p q := by
    rw [List.mem_insertionSort, List.mem_filter, lookup_ne_none, decide_eq_true_iff]
  inner_first t p := by
    have hperm := List.perm_insertionSort goesFirst (t.keys.filter fun q => p <:+ q)
    have hnodup : (t.keys.filter fun q => p <:+ q).Nodup := t.keys_nodup.filter _
    have htotal := goesFirst_total
    have htrans := goesFirst_trans
    have hsorted := List.pairwise_insertionSort goesFirst (t.keys.filter fun q => p <:+ q)
    refine (hsorted.and (hperm.nodup_iff.mpr hnodup)).imp ?_
    rintro a b ⟨hab, hne⟩ hsuf
    obtain ⟨q, rfl⟩ := hsuf
    rcases hab with ⟨ha, hb⟩ | ⟨-, hlen⟩
    · rw [underHeader_append ha] at hb
      cases hb
    · exact hne ((List.suffix_append q a).eq_of_length_le hlen)

theorem headersFirst_headerFirst : HeaderFirst headersFirst := by
  intro t p
  have htotal := goesFirst_total
  have htrans := goesFirst_trans
  refine (List.pairwise_insertionSort goesFirst (t.keys.filter fun q => p <:+ q)).imp ?_
  rintro a b hab r rfl ⟨q, rfl⟩
  have hb : underHeader (.headerJson :: Store.rootDir r) = true := rfl
  have ha : underHeader (q ++ Store.rootDir r) = true := by
    rcases hab with ⟨ha, -⟩ | ⟨ha, -⟩
    · exact ha
    · exact ha.trans hb
  have hrev : (q ++ Store.rootDir r).reverse = (Store.rootDir r).reverse ++ q.reverse := List.reverse_append
  unfold underHeader at ha
  rw [hrev] at ha
  cases hq : q.reverse with
  | nil => rw [hq] at ha; cases ha
  | cons n ns =>
    rw [hq] at ha
    have hn : n = .headerJson := by
      cases n <;> first | rfl | cases ha
    have hq' := congrArg List.reverse hq
    rw [List.reverse_reverse, List.reverse_cons, hn] at hq'
    exact ⟨ns.reverse, by rw [hq']; simp⟩

/-! ## Runs -/

namespace Archive

/-- The store has its shape, and what the process carries fits it. -/
structure Sound (net : Network) (a : Archive) : Prop where
  shape : Shape net a.tree
  fits : ∀ f, a.following = some f → f.Fits net a.tree

theorem Sound.empty (net : Network) : Sound net empty := ⟨Shape.empty net, fun f hf => by cases hf⟩

/-- A check that goes back takes headers first. -/
def Action.HeaderFirst : Action net → Prop
  | .check _ _ order _ => Archiver.HeaderFirst order
  | .start _ _ => True
  | .stop => True

/-- The block that an action may delete though it is complete: the last one, if it goes back. -/
def gone (a : Archive) : Action net → Option BlockHeader
  | .check view _ _ _ => a.following.bind fun f => if goesBack f (view.header f.slot) then f.prev else none
  | .start _ _ => none
  | .stop => none

/-- A task ends well or with a fine error, and the archive after it is sound. -/
structure StepSound (P : Prop) (net : Network) (a : Archive) (gone : Option BlockHeader)
    (result : End StoreError Following × Tree) : Prop where
  sound : Sound net (after result)
  fine : ∀ e, result.1 = .failed e → e.Fine
  stocked : P → Stocked net result.2
  stays : ∀ k, net.Known k → Complete a.tree k → gone ≠ some k → Stays net a.tree result.2 k

theorem tree_after (result : End StoreError Following × Tree) : (after result).tree = result.2 := by
  unfold after
  split <;> rfl

theorem following_after {result : End StoreError Following × Tree} {f : Following}
    (h : (after result).following = some f) : result.1 = .returned f := by
  unfold after at h
  split at h
  · rename_i f' hf'
    cases h
    exact hf'
  · cases h
  · cases h

/-- From a specification of the task to its end, whatever the disk answers. -/
theorem stepSound_exec {a : Archive} {m : Task Following} {gone : Option BlockHeader} {K : Tree → Prop}
    (hspec : Does (fun t => t = a.tree) m (fun f t => K t ∧ f.Fits net t) K)
    (hK : ∀ t, K t → Shape net t ∧ (P → Stocked net t) ∧
      ∀ k, net.Known k → Complete a.tree k → gone ≠ some k → Stays net a.tree t k) (answers : List Answer) :
    StepSound P net a gone (m.exec disk a.tree answers) := by
  have hend := Spec.exec hspec rfl (follows_true m a.tree answers)
  generalize m.exec disk a.tree answers = result at hend
  obtain ⟨outcome, t⟩ := result
  have hKt : K t := by
    cases outcome with
    | returned f => exact hend.1
    | failed e => exact hend.2
    | crashed => exact hend.2
  obtain ⟨hs, hstocked, hstays⟩ := hK t hKt
  refine ⟨⟨?_, fun f hf => ?_⟩, fun e he => ?_, hstocked, hstays⟩
  · rw [tree_after]
    exact hs
  · have hout : outcome = .returned f := following_after hf
    subst hout
    rw [tree_after]
    exact hend.2
  · have hout : outcome = .failed e := he
    subst hout
    exact hend.1 e rfl

variable {initStartSlot : Nat} {a a' : Archive} {action : Action net}

theorem task_sound (hP : P → action.HeaderFirst) (ha : Sound net a) (hstocked : P → Stocked net a.tree)
    {m : Task Following} {answers : List Answer} (htask : a.task initStartSlot action = some (m, answers)) :
    StepSound P net a (a.gone action) (m.exec disk a.tree answers) := by
  cases action with
  | start order answers' =>
    cases hf : a.following with
    | some f => simp [task, hf] at htask
    | none =>
      simp only [task, hf, Option.some.injEq, Prod.mk.injEq] at htask
      obtain ⟨rfl, rfl⟩ := htask
      refine stepSound_exec (K := fun t => Shape net t ∧ Cleaned net a.tree t)
        ((startFollowing_spec initStartSlot order ha.shape).imp (fun _ h => h) (fun f t ht => ⟨⟨ht.1, ht.2.1⟩, ht.2.2⟩)
          fun _ h => h) (fun t ht => ?_) answers'
      exact ⟨ht.1, fun hp => ht.2.stocked (hstocked hp), fun k hk hc _ => ht.2.stays hk hc⟩
  | check view replies order answers' =>
    cases hf : a.following with
    | none => simp [task, hf] at htask
    | some f =>
      simp only [task, hf, Option.some.injEq, Prod.mk.injEq] at htask
      obtain ⟨rfl, rfl⟩ := htask
      refine stepSound_exec (checkSlot_spec initStartSlot hP view replies ha.shape hstocked (ha.fits f hf))
        (fun t ht => ⟨ht.shape, ht.stocked, fun k hk hc hgone => ht.stays k hk hc fun hback hlast => ?_⟩) answers'
      refine hgone ?_
      simp [gone, hf, hback, hlast]
  | stop => cases htask

/-- A step is a task, or the process stops. -/
theorem step_cases (hstep : a.step initStartSlot action = some a') : a' = ⟨a.tree, none⟩ ∨
    ∃ m answers, a.task initStartSlot action = some (m, answers) ∧ a' = after (m.exec disk a.tree answers) := by
  cases action with
  | stop =>
    cases hstep
    exact .inl rfl
  | start order answers =>
    obtain ⟨⟨m, as⟩, htask, rfl⟩ := Option.map_eq_some_iff.mp hstep
    exact .inr ⟨m, as, htask, rfl⟩
  | check view replies order answers =>
    obtain ⟨⟨m, as⟩, htask, rfl⟩ := Option.map_eq_some_iff.mp hstep
    exact .inr ⟨m, as, htask, rfl⟩

theorem step_sound (hP : P → action.HeaderFirst) (ha : Sound net a) (hstocked : P → Stocked net a.tree)
    (hstep : a.step initStartSlot action = some a') : Sound net a' ∧ (P → Stocked net a'.tree) ∧
      ∀ k, net.Known k → Complete a.tree k → a.gone action ≠ some k → Stays net a.tree a'.tree k := by
  rcases step_cases hstep with rfl | ⟨m, answers, htask, rfl⟩
  · exact ⟨⟨ha.shape, fun f hf => by cases hf⟩, hstocked, fun k _ hc _ => ⟨hc, fun _ _ _ _ hne => hne⟩⟩
  · have hend := task_sound hP ha hstocked htask
    refine ⟨hend.sound, ?_⟩
    rw [tree_after]
    exact ⟨hend.stocked, hend.stays⟩

/-- Runs keep the archive sound, and stocked where headers go first. -/
theorem run_sound {actions : List (Action net)} (hP : P → ∀ action ∈ actions, action.HeaderFirst)
    (hrun : runSteps (step initStartSlot) empty actions = some a) : Sound net a ∧ (P → Stocked net a.tree) := by
  have hstep : ∀ a (action : Action net) a', (Sound net a ∧ (P → Stocked net a.tree)) → (P → action.HeaderFirst) →
      a.step initStartSlot action = some a' → Sound net a' ∧ (P → Stocked net a'.tree) := by
    intro a action a' ha hguard hstep
    obtain ⟨hs, hstocked, -⟩ := step_sound hguard ha.1 ha.2 hstep
    exact ⟨hs, hstocked⟩
  have hguard : RunMeets (step initStartSlot) (fun _ action => P → action.HeaderFirst) empty actions :=
    runMeets_of_mem (fun action hmem hp => hP hp action hmem) empty
  have hstocked : Stocked net (empty : Archive).tree := by
    intro k _ hc
    have hl := hc.linked
    simp [Linked, empty] at hl
  exact runSteps_invariant hstep ⟨Sound.empty net, fun _ => hstocked⟩ hguard hrun

def sampleRoot (n : Nat) : B256 := List.replicate 32 n

/-- A chain of slots 3 and 4, a sibling of the block of slot 4 at slot 5, and one of that of slot 3 at
slot 6. -/
def sampleBlock (r : B256) : Option Block :=
  if r = sampleRoot 1 then some ⟨[[9]], .embedded [5], sampleRoot 0, 3⟩
  else if r = sampleRoot 2 then some ⟨[], .embedded [6], sampleRoot 1, 4⟩
  else if r = sampleRoot 3 then some ⟨[], .embedded [7], sampleRoot 1, 5⟩
  else if r = sampleRoot 4 then some ⟨[], .embedded [8], sampleRoot 0, 6⟩
  else none

def sampleExecution (hash : B256) : Option RpcBlock :=
  if hash = [5] then some ⟨1, 12, some [⟨[1], some [7], some [[9]]⟩]⟩ else none

theorem sampleBlock_cases {r : B256} {b : Block} (h : sampleBlock r = some b) :
    r = sampleRoot 1 ∧ b = ⟨[[9]], .embedded [5], sampleRoot 0, 3⟩ ∨
    r = sampleRoot 2 ∧ b = ⟨[], .embedded [6], sampleRoot 1, 4⟩ ∨
    r = sampleRoot 3 ∧ b = ⟨[], .embedded [7], sampleRoot 1, 5⟩ ∨
    r = sampleRoot 4 ∧ b = ⟨[], .embedded [8], sampleRoot 0, 6⟩ := by
  unfold sampleBlock at h
  split at h
  · exact .inl ⟨‹_›, (Option.some.inj h).symm⟩
  · split at h
    · exact .inr (.inl ⟨‹_›, (Option.some.inj h).symm⟩)
    · split at h
      · exact .inr (.inr (.inl ⟨‹_›, (Option.some.inj h).symm⟩))
      · split at h
        · exact .inr (.inr (.inr ⟨‹_›, (Option.some.inj h).symm⟩))
        · cases h

def sampleNet : Network where
  block := sampleBlock
  execution := sampleExecution
  kzgToVersionedHash := id
  blobOf _ := [0]
  filterAddress := [7]
  valid r b h := by
    rcases sampleBlock_cases h with ⟨rfl, rfl⟩ | ⟨rfl, rfl⟩ | ⟨rfl, rfl⟩ | ⟨rfl, rfl⟩
    all_goals exact ⟨⟨rfl, by decide⟩, rfl, by decide⟩
  parent_before r b p h hp := by
    rcases sampleBlock_cases h with ⟨rfl, rfl⟩ | ⟨rfl, rfl⟩ | ⟨rfl, rfl⟩ | ⟨rfl, rfl⟩
    · cases hp
    · cases hp
      decide
    · cases hp
      decide
    · cases hp
  commitments r b x txs h hx htxs := by
    rcases sampleBlock_cases h with ⟨rfl, rfl⟩ | ⟨rfl, rfl⟩ | ⟨rfl, rfl⟩ | ⟨rfl, rfl⟩
    · cases hx
      cases htxs
      rfl
    · cases hx
    · cases hx
    · cases hx

def sampleHeader (n slot parent : Nat) : BlockHeader := ⟨sampleRoot n, sampleRoot parent, slot⟩

/-- A view of the chain up to one of the three ends. -/
def sampleView (last : Nat) : View sampleNet where
  header
    | 3 => if last = 6 then none else some (sampleHeader 1 3 0)
    | 4 => if last = 4 then some (sampleHeader 2 4 1) else none
    | 5 => if last = 5 then some (sampleHeader 3 5 1) else none
    | 6 => if last = 6 then some (sampleHeader 4 6 0) else none
    | _ => none
  known slot h hh := by
    split at hh
    all_goals
      try split at hh
      all_goals cases hh
    all_goals exact ⟨rfl, by decide, _, rfl, rfl, rfl⟩

def sampleReplies : Replies sampleNet where
  clients := ⟨sampleBlock, fun hash _ => sampleExecution hash⟩
  beaconBlobs r hs := (sampleBlock r).map fun b => (b.blobKzgCommitments.filter (· ∈ hs)).map fun _ => [0]
  beaconBlock_eq _ _ h := h
  rpcBlock_eq _ _ h := h
  beaconBlobs_eq r b hs blobs hb hblobs := by
    have hb' : sampleBlock r = some b := hb
    rw [hb'] at hblobs
    cases hblobs
    simp [sampleNet]

/-- Two blocks are stored, the process dies after the first operation of the third, and after a
restart it goes back. -/
def sampleRun : List (Action sampleNet) :=
  [.start headersFirst [], .check (sampleView 4) sampleReplies headersFirst [],
    .check (sampleView 4) sampleReplies headersFirst [], .check (sampleView 5) sampleReplies headersFirst [.done, .crashed],
    .start headersFirst [], .check (sampleView 5) sampleReplies headersFirst [],
    .check (sampleView 5) sampleReplies headersFirst []]

/-- In every run, over any views and with any failures and crashes, the store has its shape and what
is carried fits it; a task never fails because a link is there already, because `slot` would fall
below zero, because an entry is no link or a header is invalid, or because the search for the last
header does not end. -/
theorem archive_shape (net : Network) (initStartSlot : Nat) (actions : List (Action net)) (a : Archive)
    (hrun : runSteps (step initStartSlot) empty actions = some a) : Sound net a ∧
      ∀ (action : Action net) m answers e, a.task initStartSlot action = some (m, answers) →
        (m.exec disk a.tree answers).1 = .failed e → e.Fine := by
  obtain ⟨hs, -⟩ := run_sound (P := False) False.elim hrun
  refine ⟨hs, fun action m answers e htask he => ?_⟩
  exact (task_sound (P := False) False.elim hs False.elim htask).fine e he

theorem archive_shape_sample : ∃ a, runSteps (step 3) empty sampleRun = some a ∧ Sound sampleNet a := by
  obtain ⟨a, ha⟩ := Option.isSome_iff_exists.mp
    (show (runSteps (step 3) empty sampleRun).isSome = true by decide +kernel)
  exact ⟨a, ha, (archive_shape sampleNet 3 sampleRun a ha).1⟩

/-- In every run, a step costs no complete block and none of its blobs, except that going back may
cost the last block. -/
theorem complete_kept (net : Network) (initStartSlot : Nat) (actions : List (Action net)) (a a' : Archive)
    (action : Action net) (hrun : runSteps (step initStartSlot) empty actions = some a)
    (hstep : a.step initStartSlot action = some a') :
    ∀ k, net.Known k → Complete a.tree k → a.gone action ≠ some k → Stays net a.tree a'.tree k := by
  obtain ⟨hs, -⟩ := run_sound (P := False) False.elim hrun
  exact (step_sound (P := False) False.elim hs False.elim hstep).2.2

/-- The archive after the first actions of the run. -/
def sampleArchive (n : Nat) : Archive := (runSteps (step 3) empty (sampleRun.take n)).getD empty

theorem sampleArchive_run {n : Nat} (h : (runSteps (step 3) empty (sampleRun.take n)).isSome = true) :
    runSteps (step 3) empty (sampleRun.take n) = some (sampleArchive n) := by
  obtain ⟨a, ha⟩ := Option.isSome_iff_exists.mp h
  rw [sampleArchive, ha]
  rfl

theorem complete_kept_sample : ∃ a, (sampleArchive 3).step 3 (.check (sampleView 5) sampleReplies headersFirst
    [.done, .crashed]) = some a ∧ Stays sampleNet (sampleArchive 3).tree a.tree (sampleHeader 1 3 0) := by
  obtain ⟨a, ha⟩ := Option.isSome_iff_exists.mp
    (show ((sampleArchive 3).step 3 (.check (sampleView 5) sampleReplies headersFirst [.done, .crashed])).isSome = true by
      decide +kernel)
  refine ⟨a, ha, complete_kept sampleNet 3 (sampleRun.take 3) (sampleArchive 3) a _
    (sampleArchive_run (by decide +kernel)) ha (sampleHeader 1 3 0) ⟨by decide, _, rfl, rfl, rfl⟩ ⟨?_, ?_⟩ ?_⟩
  · unfold Linked
    decide +kernel
  · decide +kernel
  · decide +kernel

/-- In every run whose reorgs remove headers first, a complete block has on disk all the filtered
blobs of the payload it settles, each under its first position and with its bytes. -/
theorem archive_stocked (net : Network) (initStartSlot : Nat) (actions : List (Action net)) (a : Archive)
    (hfirst : ∀ action ∈ actions, action.HeaderFirst) (hrun : runSteps (step initStartSlot) empty actions = some a) :
    ∀ k r, net.Known k → Complete a.tree k → net.Settles k r →
      (∀ vh, net.Wanted r vh → ∃ s ∈ Store.loadBlobsDisk a.tree r, s.versionedHash = vh) ∧
      ∀ s ∈ Store.loadBlobsDisk a.tree r, s.Fits net r := by
  obtain ⟨hs, hstocked⟩ := run_sound (P := True) (fun _ => hfirst) hrun
  exact fun k r hk hc hr => (hstocked trivial).blobs hs.shape hk hc hr

theorem sampleRun_headerFirst (n : Nat) : ∀ action ∈ sampleRun.take n, action.HeaderFirst := by
  intro action hmem
  replace hmem := List.mem_of_mem_take hmem
  simp only [sampleRun, List.mem_cons, List.not_mem_nil, or_false] at hmem
  rcases hmem with rfl | rfl | rfl | rfl | rfl | rfl | rfl
  all_goals first | trivial | exact headersFirst_headerFirst

theorem archive_stocked_sample : ∃ s ∈ Store.loadBlobsDisk (sampleArchive 7).tree (sampleRoot 1), s.versionedHash = [9] := by
  refine (archive_stocked sampleNet 3 (sampleRun.take 7) (sampleArchive 7) ?_ ?_ (sampleHeader 1 3 0) (sampleRoot 1)
    ⟨by decide, _, rfl, rfl, rfl⟩ ⟨?_, ?_⟩ (.embedded _ [5] rfl rfl)).1 [9] ?_
  · exact sampleRun_headerFirst 7
  · exact sampleArchive_run (by decide +kernel)
  · unfold Linked
    decide +kernel
  · decide +kernel
  · exact ⟨_, _, _, rfl, rfl, rfl, by decide⟩

/-- A removal that takes the oldest of the deepest entries first, and is cut after one: the block still
counts as complete, without its blob. -/
example :
    let order := RemovalOrder.deepest List.reverse List.reverse_perm
    let check := fun answers => Action.check (sampleView 6) sampleReplies order answers
    (runSteps (step 3) empty [.start order [], .check (sampleView 4) sampleReplies order [], check [], check [],
        check [.done, .crashed], .start order []]).map
        (fun a => (a.following.map Following.prev, Store.loadBlobsDisk a.tree (sampleRoot 1))) =
      some (some (some (sampleHeader 1 3 0)), []) := by
  decide +kernel

end Archive

end DigitalObjects.Archiver
