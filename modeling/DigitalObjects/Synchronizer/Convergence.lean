import DigitalObjects.Synchronizer.SyncLoop
import DigitalObjects.Pod2.Terms
set_option autoImplicit false

/-!
Whatever chains the sync loop sees, the database holds one parent-linked chain from the
first slot on, and the tables are those of a node that derived only this chain.
-/

namespace DigitalObjects.Synchronizer

open Lib EthClients Prog

/-! ## Contexts are fixed by the block root -/

/-- A block at hand is the one its root stands for. -/
def World.Holds (w : World) (b : BlockAndRoot) : Prop := w.block b.root = some b.block

/-- A header of the block its root stands for. -/
def World.HeaderOf (w : World) (h : BlockHeader) (b : Block) : Prop :=
  w.block h.root = some b ∧ b.slot = h.slot ∧ b.parentRoot = h.parentRoot

theorem Network.canonicalPayload_prev {w : World} {header : BlockHeader} {b : Block}
    {prev : Option BlockAndRoot} (hprev : ∀ p ∈ prev, w.Holds p) :
    w.net.canonicalPayload header b prev = w.net.canonicalPayload header b none := by
  have hparent : w.net.parentBlock b prev = w.net.parentBlock b none := by
    cases prev with
    | none => rfl
    | some p =>
      by_cases hroot : p.root = b.parentRoot
      · have hp : w.net.clients.beaconBlock b.parentRoot = some p.block := by
          rw [← hroot]
          exact hprev p rfl
        simp [parentBlock, hroot, Clients.getBeaconBlock, hp, fetchOnceAvailable]
      · simp [parentBlock, hroot]
  unfold canonicalPayload committingBlock
  rw [hparent]

theorem World.fetchSlotContext_spec {V : Type} {w : World} {header : BlockHeader} {b : Block}
    {prev : Option BlockAndRoot} {c : BlockContext V} (hheader : w.HeaderOf header b)
    (hprev : ∀ p ∈ prev, w.Holds p) (h : w.fetchSlotContext header b prev = .ok c) :
    c.slot = header.slot ∧ c.beaconBlockRoot = header.root ∧
      w.contextOf header.root = .ok c.context := by
  have hget : w.net.clients.getBeaconBlock header.root = .ok b := by
    have hb : w.net.clients.beaconBlock header.root = some b := hheader.1
    rw [Clients.getBeaconBlock, hb]
    rfl
  have hsame : w.fetchSlotContext ⟨header.root, b.parentRoot, b.slot⟩ b none = .ok c := by
    rw [show (⟨header.root, b.parentRoot, b.slot⟩ : BlockHeader) = header by
      rw [hheader.2.1, hheader.2.2]]
    unfold fetchSlotContext at h ⊢
    rw [Network.canonicalPayload_prev hprev] at h
    exact h
  have hcontext : w.contextOf header.root = .ok c.context := by
    unfold contextOf
    rw [hget, Outcome.ok_bind, hsame]
    rfl
  refine ⟨?_, ?_, hcontext⟩
  · unfold fetchSlotContext at h
    obtain ⟨payload, -, h⟩ := Outcome.bind_eq_ok h
    cases payload with
    | none =>
      cases h
      rfl
    | some p =>
      obtain ⟨txs, -, h⟩ := Outcome.bind_eq_ok h
      cases h
      rfl
  · unfold fetchSlotContext at h
    obtain ⟨payload, -, h⟩ := Outcome.bind_eq_ok h
    cases payload with
    | none =>
      cases h
      rfl
    | some p =>
      obtain ⟨txs, -, h⟩ := Outcome.bind_eq_ok h
      cases h
      rfl

/-- The context of a block is that of a slot of the chain. -/
theorem World.contextOf_slot {V : Type} {w : World} {root : B256} {c : SlotContext V}
    (h : w.contextOf root = .ok c) : ∃ slot : Slot, Synchronizer.fetchSlotContext slot = c := by
  unfold contextOf at h
  obtain ⟨b, -, h⟩ := Outcome.bind_eq_ok h
  obtain ⟨bc, hfetch, h⟩ := Outcome.bind_eq_ok h
  cases h
  unfold World.fetchSlotContext at hfetch
  obtain ⟨payload, -, hfetch⟩ := Outcome.bind_eq_ok hfetch
  cases payload with
  | none =>
    cases hfetch
    exact ⟨⟨none, []⟩, rfl⟩
  | some p =>
    obtain ⟨txs, htxs, hfetch⟩ := Outcome.bind_eq_ok hfetch
    cases hfetch
    unfold CanonicalPayload.fetchTargetBlobs at htxs
    split at htxs
    · cases htxs
      exact ⟨⟨some p.executionBlock, []⟩, rfl⟩
    · obtain ⟨blobs, -, htxs⟩ := Outcome.bind_eq_ok htxs
      obtain ⟨ts, -, htxs⟩ := Outcome.bind_eq_ok htxs
      cases htxs
      exact ⟨⟨some p.executionBlock, ts⟩, rfl⟩

/-! ## Rows of consecutive slots, newest first -/

def Contiguous {α : Type} (init : Nat) : List (Nat × α) → Prop
  | [] => True
  | (k, _) :: rest => k = init + rest.length ∧ Contiguous init rest

namespace Contiguous

variable {α : Type} {init : Nat} {rows : List (Nat × α)}

theorem mem_bounds (h : Contiguous init rows) {r : Nat × α} (hr : r ∈ rows) :
    init ≤ r.1 ∧ r.1 < init + rows.length := by
  induction rows with
  | nil => cases hr
  | cons row rows ih =>
    obtain ⟨k, a⟩ := row
    obtain ⟨hk, hrest⟩ := h
    simp only [List.length_cons]
    rcases List.mem_cons.mp hr with rfl | hr
    · simp only
      omega
    · have hb := ih hrest hr
      omega

theorem map_fst (h : Contiguous init rows) :
    rows.map Prod.fst = (List.range' init rows.length).reverse := by
  induction rows with
  | nil => rfl
  | cons row rows ih =>
    obtain ⟨k, a⟩ := row
    obtain ⟨hk, hrest⟩ := h
    rw [List.map_cons, ih hrest, List.length_cons, List.range'_1_concat, List.reverse_append, hk]
    rfl

theorem lookup_next (h : Contiguous init rows) : rows.lookup (init + rows.length) = none := by
  rw [List.lookup_eq_none_iff]
  intro r hr
  have hb := (h.mem_bounds hr).2
  have hne : init + rows.length ≠ r.1 := by omega
  simpa using hne

theorem lookup_mem (h : Contiguous init rows) {k : Nat} {a : α} :
    rows.lookup k = some a ↔ (k, a) ∈ rows := by
  induction rows with
  | nil => simp
  | cons row rows ih =>
    obtain ⟨j, b⟩ := row
    obtain ⟨hj, hrest⟩ := h
    by_cases hkj : k = j
    · have hnot : (k, a) ∉ rows := by
        intro hmem
        have hb := (hrest.mem_bounds hmem).2
        simp only at hb
        omega
      subst hkj
      simp [hnot, eq_comm]
    · have hbeq : (k == j) = false := by simpa using hkj
      simp [List.lookup_cons, hbeq, ih hrest, hkj]

/-- What a rollback keeps is the older part. -/
theorem filter (h : Contiguous init rows) (keep : Nat) :
    Contiguous init (rows.filter fun r => r.1 ≤ keep) ∧
      (rows.filter fun r => r.1 ≤ keep).length = min rows.length (keep + 1 - init) := by
  induction rows with
  | nil => exact ⟨trivial, by simp⟩
  | cons row rows ih =>
    obtain ⟨k, a⟩ := row
    obtain ⟨hk, hrest⟩ := h
    by_cases hkeep : k ≤ keep
    · have hall : ((k, a) :: rows).filter (fun r => r.1 ≤ keep) = (k, a) :: rows := by
        rw [List.filter_eq_self]
        intro r hr
        rcases List.mem_cons.mp hr with rfl | hr
        · simpa using hkeep
        · have hb := (hrest.mem_bounds hr).2
          simp only [decide_eq_true_eq]
          omega
      rw [hall]
      refine ⟨⟨hk, hrest⟩, ?_⟩
      simp only [List.length_cons]
      omega
    · rw [List.filter_cons_of_neg (by simpa using hkeep)]
      refine ⟨(ih hrest).1, ?_⟩
      rw [(ih hrest).2, List.length_cons]
      omega

theorem pairwise (h : Contiguous init rows) : rows.Pairwise fun a b => b.1 < a.1 := by
  induction rows with
  | nil => exact .nil
  | cons row rows ih =>
    obtain ⟨k, a⟩ := row
    obtain ⟨hk, hrest⟩ := h
    refine .cons ?_ (ih hrest)
    intro r hr
    have hb := (hrest.mem_bounds hr).2
    simp only
    omega

end Contiguous

/-! ## The nearest earlier block root -/

/-- The query of `latest_block_root_before` on the rows. -/
def rootBefore (rows : List (Nat × Option B256)) (slot : Nat) : Option B256 :=
  rows.findSome? fun r => if r.1 < slot then r.2 else none

theorem rootBefore_filter (rows : List (Nat × Option B256)) {slot keep : Nat} (h : slot ≤ keep + 1) :
    rootBefore (rows.filter fun r => r.1 ≤ keep) slot = rootBefore rows slot := by
  induction rows with
  | nil => rfl
  | cons r rows ih =>
    unfold rootBefore at ih ⊢
    by_cases hr : r.1 ≤ keep
    · rw [List.filter_cons_of_pos (by simpa using hr), List.findSome?_cons, List.findSome?_cons, ih]
    · have hnot : ¬ r.1 < slot := by omega
      rw [List.filter_cons_of_neg (by simpa using hr), ih, List.findSome?_cons]
      simp [hnot]

theorem rootBefore_cons {rows : List (Nat × Option B256)} {r : Nat × Option B256} {slot : Nat}
    (h : slot ≤ r.1) : rootBefore (r :: rows) slot = rootBefore rows slot := by
  unfold rootBefore
  rw [List.findSome?_cons, if_neg (by omega)]

/-- The row that the query finds, and that nothing later has a root. -/
theorem Contiguous.rootBefore_eq {init slot : Nat} {rows : List (Nat × Option B256)} {root : B256}
    (h : Contiguous init rows) (hroot : rootBefore rows slot = some root) :
    ∃ p, p < slot ∧ (p, some root) ∈ rows ∧ ∀ k r, (k, some r) ∈ rows → k < slot → k ≤ p := by
  induction rows with
  | nil => cases hroot
  | cons row rows ih =>
    obtain ⟨k, a⟩ := row
    obtain ⟨hk, hrest⟩ := h
    unfold rootBefore at hroot
    rw [List.findSome?_cons] at hroot
    by_cases hlt : k < slot ∧ a = some root
    · obtain ⟨hlt, rfl⟩ := hlt
      refine ⟨k, hlt, by simp, ?_⟩
      intro j r hj _
      rcases List.mem_cons.mp hj with heq | hj
      · obtain ⟨rfl, -⟩ := Prod.mk.inj heq
        exact le_refl _
      · have hb := (hrest.mem_bounds hj).2
        simp only at hb
        omega
    · have htail : rootBefore rows slot = some root := by
        by_cases hks : k < slot
        · cases a with
          | none => simpa [hks, rootBefore] using hroot
          | some r =>
            simp only [hks, if_true, Option.some.injEq] at hroot
            exact absurd ⟨hks, by rw [hroot]⟩ hlt
        · simpa [hks, rootBefore] using hroot
      obtain ⟨p, hp, hmem, hlast⟩ := ih hrest htail
      refine ⟨p, hp, List.mem_cons_of_mem _ hmem, ?_⟩
      intro j r hj hjs
      rcases List.mem_cons.mp hj with heq | hj
      · obtain ⟨rfl, rfl⟩ := Prod.mk.inj heq
        simp only [hjs, if_true, Option.some.injEq] at hroot
        exact absurd ⟨hjs, by rw [hroot]⟩ hlt
      · exact hlast j r hj hjs

/-! ## The invariant of the database -/

/-- What a committed row stands for: an empty slot, or the block with its root. -/
def World.Describes {V : Type} (w : World) (e : Nat × Slot) (row : Nat × Option B256) : Prop :=
  e.1 = row.1 ∧ match row.2 with
    | none => e.2.payload = none
    | some root => w.contextOf (V := V) root = .ok (Synchronizer.fetchSlotContext e.2)

section Values

variable {V : Type} [Pod2.Values V] {w : World} {cfg : SyncConfig} {initRoot : B256}
  {parser : BlobParser V}

/-- The rows are one parent-linked chain of known blocks, and the log is that of a node which
committed the slots of these rows only. -/
structure Synced (w : World) (cfg : SyncConfig) (initRoot : B256) (parser : BlobParser V)
    (node : Node V) (rows : List (Nat × Option B256)) : Prop where
  contiguous : Contiguous cfg.initStartSlot rows
  first : rows ≠ [] → (cfg.initStartSlot, some initRoot) ∈ rows
  known : ∀ {k r}, (k, some r) ∈ rows → ∃ b, w.block r = some b ∧ b.slot = k ∧
    (cfg.initStartSlot < k → rootBefore rows k = some b.parentRoot)
  tracks : ∃ h, node.Tracks parser cfg.initStartSlot h ∧
    List.Forall₂ (w.Describes (V := V)) h rows.reverse

theorem Synced.genesis : Synced w cfg initRoot parser (Node.genesis : Node V) [] :=
  ⟨trivial, by simp, by simp, [], Node.Tracks.genesis parser _, .nil⟩

/-- Only the log counts: containers that nothing refers to are harmless. -/
theorem Synced.containers {node node' : Node V} {rows : List (Nat × Option B256)}
    (h : Synced w cfg initRoot parser node rows) (hlog : node'.stateLog = node.stateLog) :
    Synced w cfg initRoot parser node' rows := by
  obtain ⟨hc, hf, hk, hist, ht, hd⟩ := h
  refine ⟨hc, hf, hk, hist, ⟨?_, ht.increasing, ht.bounded⟩, hd⟩
  rw [hlog]
  exact ht.run

omit [Pod2.Values V] in
theorem forall₂_filter_fst {h : List (Nat × Slot)} {rows : List (Nat × Option B256)}
    (hd : List.Forall₂ (w.Describes (V := V)) h rows) (keep : Nat) :
    List.Forall₂ (w.Describes (V := V)) (h.filter fun e => e.1 ≤ keep)
      (rows.filter fun r => r.1 ≤ keep) := by
  induction hd with
  | nil => exact .nil
  | @cons e row h rows her _ ih =>
    have hfst : e.1 = row.1 := her.1
    by_cases hkeep : e.1 ≤ keep
    · have hkeep' : row.1 ≤ keep := hfst ▸ hkeep
      rw [List.filter_cons_of_pos (by simpa using hkeep),
        List.filter_cons_of_pos (by simpa using hkeep')]
      exact .cons her ih
    · have hkeep' : ¬ row.1 ≤ keep := hfst ▸ hkeep
      rw [List.filter_cons_of_neg (by simpa using hkeep),
        List.filter_cons_of_neg (by simpa using hkeep')]
      exact ih

theorem Synced.rollback {node : Node V} {rows : List (Nat × Option B256)}
    (h : Synced w cfg initRoot parser node rows) (keep : Nat) :
    Synced w cfg initRoot parser ⟨node.containers, node.stateLog.rollbackToSlot keep⟩
      (rows.filter fun r => r.1 ≤ keep) := by
  obtain ⟨hc, hf, hk, hist, ht, hd⟩ := h
  refine ⟨(hc.filter keep).1, ?_, ?_, _, ht.rollback keep, ?_⟩
  · intro hne
    obtain ⟨r, hr⟩ := List.exists_mem_of_ne_nil _ hne
    rw [List.mem_filter, decide_eq_true_eq] at hr
    have hle := (hc.mem_bounds hr.1).1
    have hfirst := hf (List.ne_nil_of_mem hr.1)
    simp only [List.mem_filter, decide_eq_true_eq]
    exact ⟨hfirst, by omega⟩
  · intro k r hr
    rw [List.mem_filter, decide_eq_true_eq] at hr
    obtain ⟨b, hb, hslot, hparent⟩ := hk hr.1
    refine ⟨b, hb, hslot, fun hlt => ?_⟩
    rw [rootBefore_filter rows (by have := hr.2; simp only at this; omega)]
    exact hparent hlt
  · rw [← List.filter_reverse]
    exact forall₂_filter_fst hd keep

/-- The slots of the log are those of the rows. -/
theorem Synced.slots {node : Node V} {rows : List (Nat × Option B256)}
    (h : Synced w cfg initRoot parser node rows) :
    node.stateLog.slots.map SlotRow.slot = rows.map Prod.fst := by
  obtain ⟨hist, ht, hd⟩ := h.tracks
  have hfst : hist.map Prod.fst = rows.reverse.map Prod.fst := by
    clear ht
    generalize rows.reverse = rows' at hd
    induction hd with
    | nil => rfl
    | cons her _ ih => rw [List.map_cons, List.map_cons, ih, her.1]
  rw [ht.slots, hfst, List.map_reverse, List.reverse_reverse]

theorem Synced.lastProcessedSlot {node : Node V} {rows : List (Nat × Option B256)}
    (h : Synced w cfg initRoot parser node rows) :
    node.stateLog.lastProcessedSlot =
      if rows = [] then none else some (cfg.initStartSlot + rows.length - 1) := by
  have hhead := congrArg List.head? h.slots
  rw [List.head?_map, List.head?_map] at hhead
  rw [StateLogDb.lastProcessedSlot, hhead]
  cases rows with
  | nil => rfl
  | cons row rows =>
    obtain ⟨k, r⟩ := row
    have hk := h.contiguous.1
    simp only [List.head?_cons, Option.map_some, reduceCtorEq, if_false, List.length_cons]
    rw [hk]
    rfl

theorem Synced.nextSlot_eq {node : Node V} {rows : List (Nat × Option B256)}
    (h : Synced w cfg initRoot parser node rows) :
    node.nextSlot cfg.initStartSlot = cfg.initStartSlot + rows.length := by
  rw [Node.nextSlot, h.lastProcessedSlot]
  cases rows with
  | nil => rfl
  | cons row rows =>
    simp only [reduceCtorEq, if_false, Option.elim_some, List.length_cons]
    omega

/-- A new row at the next slot. -/
theorem Synced.commit {node : Node V} {rows : List (Nat × Option B256)} {number : Nat}
    {blockRoot : Option B256} {slot : Slot} {node' : Node V} {as : List (Attempt V)}
    (h : Synced w cfg initRoot parser node rows) (hnumber : number = cfg.initStartSlot + rows.length)
    (hfirst : rows = [] → blockRoot = some initRoot)
    (hknown : ∀ r, blockRoot = some r → ∃ b, w.block r = some b ∧ b.slot = number ∧
      (cfg.initStartSlot < number → rootBefore rows number = some b.parentRoot))
    (hdesc : w.Describes (V := V) (number, slot) (number, blockRoot))
    (hstep : node.commitSlotAt parser number slot = .ok (node', as)) :
    Synced w cfg initRoot parser node' ((number, blockRoot) :: rows) := by
  have hnext := h.nextSlot_eq
  obtain ⟨hc, hf, hk, hist, ht, hd⟩ := h
  have hlast : ∀ {k r}, (k, some r) ∈ rows → k ≤ number := by
    intro k r hr
    have hb := (hc.mem_bounds hr).2
    simp only at hb
    omega
  refine ⟨⟨hnumber, hc⟩, ?_, ?_, hist ++ [(number, slot)], ht.commit (by omega) hstep, ?_⟩
  · intro _
    by_cases hnil : rows = []
    · subst hnil
      simp [hfirst rfl, hnumber]
    · exact List.mem_cons_of_mem _ (hf hnil)
  · intro k r hr
    rcases List.mem_cons.mp hr with heq | hr
    · obtain ⟨rfl, hroot⟩ := Prod.mk.inj heq
      obtain ⟨b, hb, hslot, hparent⟩ := hknown r hroot.symm
      refine ⟨b, hb, hslot, fun hlt => ?_⟩
      rw [rootBefore_cons (le_refl _)]
      exact hparent hlt
    · obtain ⟨b, hb, hslot, hparent⟩ := hk hr
      refine ⟨b, hb, hslot, fun hlt => ?_⟩
      rw [rootBefore_cons (hlast hr)]
      exact hparent hlt
  · rw [List.reverse_cons]
    exact List.rel_append (R := w.Describes (V := V)) hd (.cons hdesc .nil)

/-! ## The steps of the loop -/

/-- The invariant of a state, and of one whose next slot is `next`. -/
def SyncState.Good (parser : BlobParser V) (s : SyncState w cfg initRoot V) : Prop :=
  Synced w cfg initRoot parser s.node s.blockRoots

def SyncState.At (parser : BlobParser V) (next : Nat) (s : SyncState w cfg initRoot V) : Prop :=
  s.Good parser ∧ next = cfg.initStartSlot + s.blockRoots.length

section Calls

variable {P : SyncState w cfg initRoot V → Prop}

omit [Pod2.Values V]

theorem answer_triple (hP : ∀ s rest, P s → P { s with answers := rest }) :
    Triple P answer (fun _ => P) P := by
  intro s hs
  obtain ⟨node, rows, answers⟩ := s
  cases answers with
  | nil => exact hs
  | cons a rest =>
    cases a with
    | none => exact hP _ rest hs
    | some v => exact hP _ rest hs

theorem getBlockHeader_triple (hP : ∀ s rest, P s → P { s with answers := rest }) (slot : Nat) :
    Triple P (getBlockHeader slot)
      (fun h s => (∃ v : View w cfg initRoot, h = v.header slot) ∧ P s) P :=
  Triple.bind (answer_triple hP) fun v => Triple.pure fun _ hs => ⟨⟨v, rfl⟩, hs⟩

theorem getBeaconHeadHeader_triple (hP : ∀ s rest, P s → P { s with answers := rest }) :
    Triple P getBeaconHeadHeader
      (fun h s => (∃ v : View w cfg initRoot, h = v.head) ∧ P s) P :=
  Triple.bind (answer_triple hP) fun v => Triple.pure fun _ hs => ⟨⟨v, rfl⟩, hs⟩

theorem fetchContent_triple {α : Type} (hP : ∀ s rest, P s → P { s with answers := rest })
    (o : Fetch α) : Triple P (fetchContent o) (fun a s => o = .ok a ∧ P s) P :=
  Triple.bind (answer_triple hP) fun _ =>
    Triple.lift (fun _ _ ho hs => ⟨ho, hs⟩) fun _ hs => hs

end Calls

/-- A slot and the header that some view has for it. -/
structure SlotHeader (w : World) (cfg : SyncConfig) (initRoot : B256) (slot : Nat)
    (header : BlockHeader) : Prop where
  slot_eq : header.slot = slot
  block : ∃ b, w.HeaderOf header b
  init : slot = cfg.initStartSlot → header.root = initRoot

theorem View.slotHeader (v : View w cfg initRoot) {slot : Nat} {header : BlockHeader}
    (h : v.header slot = some header) : SlotHeader w cfg initRoot slot header := by
  obtain ⟨hslot, b, hb, hbs, hbp⟩ := v.genuine h
  refine ⟨hslot, ⟨b, hb, hbs, hbp⟩, ?_⟩
  intro hinit
  obtain ⟨h₀, hh₀, hroot⟩ := v.init
  rw [← hinit, h] at hh₀
  cases hh₀
  exact hroot

theorem findDivergenceSlot_triple {next : Nat} (cur : Nat) :
    Triple (SyncState.At parser next) (findDivergenceSlot cur : Sync w cfg initRoot V Nat)
      (fun start s => (cfg.initStartSlot ≤ start ∧ start ≤ max cur cfg.initStartSlot) ∧
        s.At parser next) (SyncState.Good parser) := by
  induction cur with
  | zero => exact Triple.pure fun s hs => ⟨⟨le_refl _, by omega⟩, hs⟩
  | succ prev ih =>
    rw [findDivergenceSlot]
    split
    case isFalse => exact Triple.pure fun s hs => ⟨⟨le_refl _, by omega⟩, hs⟩
    case isTrue hlt =>
      refine Triple.read_bind fun stored => ?_
      refine Triple.bind ((getBlockHeader_triple (fun _ _ h => h) prev).imp (fun _ h => h.2)
        (fun _ _ h => h.2) fun s h => h.1) fun live => ?_
      split
      · exact Triple.pure fun s hs => ⟨⟨by omega, by omega⟩, hs⟩
      · exact ih.imp (fun _ h => h) (fun start s h => ⟨⟨h.1.1, by have := h.1.2; omega⟩, h.2⟩)
          fun _ h => h

theorem rewindForReorg_triple {next : Nat} :
    Triple (SyncState.At parser next) (rewindForReorg next : Sync w cfg initRoot V Nat)
      (fun start s => s.At parser start) (SyncState.Good parser) := by
  intro s₀ hs₀
  have hinit : cfg.initStartSlot ≤ next := by
    have := hs₀.2
    omega
  have hpos := cfg.init_pos
  revert s₀
  refine Triple.bind (findDivergenceSlot_triple next) fun start => Triple.of_pre fun hstart => ?_
  refine Triple.bind (Q := fun _ s => s.At parser start) ?_ fun _ => Triple.pure fun _ hs => hs
  refine Triple.bind ((answer_triple fun _ _ h => h).imp (fun _ h => h) (fun _ _ h => h)
    fun s h => h.1) fun _ => ?_
  intro s hs
  obtain ⟨hgood, hnext⟩ := hs
  refine ⟨hgood.rollback (start - 1), ?_⟩
  have hlen := (hgood.contiguous.filter (start - 1)).2
  simp only [SyncState.rollbackToSlot, hlen]
  omega

/-- A slot that was derived at the head and may be committed under its block root. -/
structure SyncState.Ready (parser : BlobParser V) (number : Nat) (blockRoot : Option B256)
    (p : ProcessedSlot V) (s : SyncState w cfg initRoot V) : Prop where
  here : s.At parser number
  first : number = cfg.initStartSlot → blockRoot = some initRoot
  known : ∀ r, blockRoot = some r → ∃ b, w.block r = some b ∧ b.slot = number ∧
    (cfg.initStartSlot < number → rootBefore s.blockRoots number = some b.parentRoot)
  derived : ∃ (slot : Slot) (n : Node V) (as : List (Attempt V)), n.stateLog = s.node.stateLog ∧
    w.Describes (V := V) (number, slot) (number, blockRoot) ∧
    deriveFromContext parser n number (Synchronizer.fetchSlotContext slot) =
      .ok (p, s.node.containers, as)

theorem commitBlock_triple {number : Nat} {blockRoot : Option B256} {p : ProcessedSlot V} :
    Triple (SyncState.Ready parser number blockRoot p)
      (commitBlock blockRoot p : Sync w cfg initRoot V Unit)
      (fun _ s => s.At parser (number + 1)) (SyncState.Good parser) := by
  refine Triple.bind ((answer_triple fun _ _ h => ⟨h.here, h.first, h.known, h.derived⟩).imp
    (fun _ h => h) (fun _ _ h => h) fun s h => h.here.1) fun _ => ?_
  intro s hs
  obtain ⟨⟨hgood, hnext⟩, hfirst, hknown, slot, n, as, hlog, hdesc, hderive⟩ := hs
  by_cases hdup : blockRoot.isSome ∧ blockRoot ∈ s.blockRoots.map Prod.snd
  · simp only [hdup, and_self, if_true]
    exact hgood
  · simp only [hdup, if_false]
    cases hcommit : commitSlot s.node.stateLog p with
    | error e => exact hgood
    | ok log =>
      have hp := deriveFromContext_slot hderive
      simp only at hp
      have hstep : n.commitSlotAt parser number slot = .ok (⟨s.node.containers, log⟩, as) := by
        unfold Node.commitSlotAt
        rw [hderive]
        simp only [bind, Except.bind, hlog, hcommit]
      have hn : Synced w cfg initRoot parser n s.blockRoots :=
        Synced.containers hgood hlog
      have hnil : s.blockRoots = [] → blockRoot = some initRoot := by
        intro hnil
        refine hfirst ?_
        simp [hnext, hnil]
      refine ⟨?_, ?_⟩
      · rw [SyncState.Good, hp]
        exact hn.commit hnext hnil hknown hdesc hstep
      · simp only [List.length_cons]
        omega

theorem handleMissingSlot_triple {slot : Nat} (hslot : slot ≠ cfg.initStartSlot) :
    Triple (SyncState.At parser slot) (handleMissingSlot slot : Sync w cfg initRoot V _)
      (fun action s => match action with
        | .rewound next => s.At parser next
        | .applied => s.At parser (slot + 1)) (SyncState.Good parser) := by
  refine Triple.read_bind fun stored => ?_
  split
  · refine Triple.bind (rewindForReorg_triple.imp (fun _ h => h.2) (fun _ _ h => h) fun _ h => h)
      fun next => ?_
    exact Triple.pure fun s hs => hs
  · refine Triple.bind (commitBlock_triple.imp (fun s hs => ?_) (fun _ _ h => h) fun _ h => h)
      fun _ => Triple.pure fun _ hs => hs
    refine ⟨hs.2, fun h => absurd h hslot, by simp, ⟨none, []⟩, s.node, [], rfl, ⟨rfl, rfl⟩, rfl⟩

/-- A present slot that passed the checks: its parent is the last committed block. -/
def SyncState.Linked (parser : BlobParser V) (slot : Nat) (header : BlockHeader)
    (s : SyncState w cfg initRoot V) : Prop :=
  s.At parser slot ∧ (cfg.initStartSlot < slot → rootBefore s.blockRoots slot = some header.parentRoot)

theorem checkParent_triple {slot : Nat} {header : BlockHeader} :
    Triple (SyncState.At parser slot) (checkParent slot header : Sync w cfg initRoot V _)
      (fun rewind s => match rewind with
        | some next => s.At parser next
        | none => s.Linked parser slot header) (SyncState.Good parser) := by
  unfold checkParent
  split
  case isTrue hinit => exact Triple.pure fun s hs => ⟨hs, fun hlt => by omega⟩
  case isFalse =>
    refine Triple.read_bind fun prevRoot => ?_
    cases prevRoot with
    | none => exact Triple.lift (fun _ _ h _ => by cases h) fun s hs => hs.2.1
    | some prevRoot =>
      simp only
      split
      · refine Triple.bind (rewindForReorg_triple.imp (fun _ h => h.2) (fun _ _ h => h)
          fun _ h => h) fun next => ?_
        exact Triple.pure fun s hs => hs
      · rename_i hparent
        refine Triple.pure fun s hs => ⟨hs.2, fun _ => ?_⟩
        rw [not_not.mp hparent]
        exact hs.1

theorem handleReorgsForPresentSlot_triple {slot : Nat} {header : BlockHeader} :
    Triple (SyncState.At parser slot)
      (handleReorgsForPresentSlot slot header : Sync w cfg initRoot V _)
      (fun rewind s => match rewind with
        | some next => s.At parser next
        | none => s.Linked parser slot header) (SyncState.Good parser) := by
  refine Triple.read_bind fun last => Triple.read_bind fun stored => ?_
  split
  · refine Triple.bind (rewindForReorg_triple.imp (fun _ h => h.2.2) (fun _ _ h => h)
      fun _ h => h) fun next => ?_
    exact Triple.pure fun s hs => hs
  · split
    · refine Triple.bind (rewindForReorg_triple.imp (fun _ h => h.2.2) (fun _ _ h => h)
        fun _ h => h) fun next => ?_
      exact Triple.pure fun s hs => hs
    · exact checkParent_triple.imp (fun _ h => h.2.2) (fun _ _ h => h) fun _ h => h

/-- What a block context has to do with the header it was fetched for. -/
structure ContextFor (w : World) (slot : Nat) (header : BlockHeader) (c : BlockContext V) : Prop
    where
  slot_eq : c.slot = slot
  root_eq : c.beaconBlockRoot = header.root
  context : w.contextOf header.root = .ok c.context

/-- Derive a linked block and commit it. -/
theorem commitPresent_triple {slot : Nat} {header : BlockHeader} {c : BlockContext V}
    (hheader : SlotHeader w cfg initRoot slot header) (hc : ContextFor w slot header c) :
    Triple (SyncState.Linked parser slot header)
      (do
        let processed ← deriveBlock parser c
        commitBlock (some c.beaconBlockRoot) processed : Sync w cfg initRoot V Unit)
      (fun _ s => s.At parser (slot + 1)) (SyncState.Good parser) := by
  obtain ⟨ts, hts⟩ := World.contextOf_slot hc.context
  obtain ⟨b, hb, hbs, hbp⟩ := hheader.block
  refine Triple.bind (Q := SyncState.Ready parser slot (some c.beaconBlockRoot)) ?_ fun _ =>
    commitBlock_triple
  intro s hs
  obtain ⟨⟨hgood, hnext⟩, hlinked⟩ := hs
  unfold deriveBlock
  cases hderive : deriveFromContext parser s.node c.slot c.context with
  | error e => exact hgood
  | ok r =>
    obtain ⟨p, db, as⟩ := r
    simp only
    refine ⟨⟨hgood.containers rfl, hnext⟩, ?_, ?_, ts, s.node, as, rfl, ⟨rfl, ?_⟩, ?_⟩
    · intro hinit
      rw [hc.root_eq, hheader.init hinit]
    · intro r hr
      rw [hc.root_eq] at hr
      cases hr
      refine ⟨b, hb, by rw [hbs, hheader.slot_eq], fun hlt => ?_⟩
      rw [hbp]
      exact hlinked hlt
    · simp only
      rw [hts, hc.root_eq]
      exact hc.context
    · rw [hts, ← hc.slot_eq]
      exact hderive

/-! ## Batches -/

omit [Pod2.Values V] in
theorem getBeaconBlock_ok {root : B256} {b : Block}
    (h : w.net.clients.getBeaconBlock root = .ok b) : w.block root = some b := by
  unfold World.block
  unfold Clients.getBeaconBlock fetchOnceAvailable at h
  split at h
  · rename_i b' hb'
    cases h
    exact hb'
  · cases h

/-- What the first phase of a batch found at a slot. -/
def BlockFor (w : World) (cfg : SyncConfig) (initRoot : B256)
    (r : Nat × Option (BlockHeader × BlockAndRoot)) : Prop :=
  match r.2 with
  | none => r.1 ≠ cfg.initStartSlot
  | some (header, b) => SlotHeader w cfg initRoot r.1 header ∧ b.root = header.root ∧ w.Holds b

/-- What the second phase made of it. -/
def FetchedFor (w : World) (cfg : SyncConfig) (initRoot : B256) (slot : Nat) :
    FetchedSlot V → Prop
  | .missing k => k = slot ∧ slot ≠ cfg.initStartSlot
  | .present k header c => k = slot ∧ SlotHeader w cfg initRoot slot header ∧ ContextFor w slot header c

section Fetch

variable {P : SyncState w cfg initRoot V → Prop}

omit [Pod2.Values V]

theorem View.header_none (v : View w cfg initRoot) {slot : Nat} (h : v.header slot = none) :
    slot ≠ cfg.initStartSlot := by
  rintro rfl
  obtain ⟨h₀, hh₀, -⟩ := v.init
  rw [h] at hh₀
  cases hh₀

theorem fetchBlock_triple (hP : ∀ s rest, P s → P { s with answers := rest }) (slot : Nat) :
    Triple P (fetchBlock slot)
      (fun r s => (r.1 = slot ∧ BlockFor w cfg initRoot r) ∧ P s) P := by
  refine Triple.bind (getBlockHeader_triple hP slot) fun header => Triple.of_pre fun hview => ?_
  obtain ⟨v, hv⟩ := hview
  cases header with
  | none => exact Triple.pure fun s hs => ⟨⟨rfl, v.header_none hv.symm⟩, hs⟩
  | some header =>
    refine Triple.bind (fetchContent_triple hP _) fun block => Triple.of_pre fun hblock => ?_
    have hb := getBeaconBlock_ok hblock
    exact Triple.pure fun s hs => ⟨⟨rfl, v.slotHeader hv.symm, rfl, hb⟩, hs⟩

theorem fetchContextOf_triple (hP : ∀ s rest, P s → P { s with answers := rest })
    {blocks : List BlockAndRoot} (hblocks : ∀ b ∈ blocks, w.Holds b)
    {r : Nat × Option (BlockHeader × BlockAndRoot)} (hr : BlockFor w cfg initRoot r) :
    Triple P (fetchContextOf blocks r) (fun f s => FetchedFor w cfg initRoot r.1 f ∧ P s) P := by
  obtain ⟨slot, fetched⟩ := r
  cases fetched with
  | none => exact Triple.pure fun s hs => ⟨⟨rfl, hr⟩, hs⟩
  | some hb =>
    obtain ⟨header, block⟩ := hb
    obtain ⟨hheader, hroot, hholds⟩ := hr
    refine Triple.bind (fetchContent_triple hP _) fun c => Triple.of_pre fun hc => ?_
    obtain ⟨b, hb⟩ := hheader.block
    have hsame : block.block = b := by
      have h₁ : w.block block.root = some block.block := hholds
      rw [hroot, hb.1] at h₁
      exact (Option.some.inj h₁).symm
    rw [hsame] at hc
    have hparent : ∀ p ∈ blocks.find? (fun p => p.root = b.parentRoot), w.Holds p :=
      fun p hp => hblocks p (List.mem_of_find?_eq_some hp)
    obtain ⟨hslot, hcroot, hcontext⟩ := World.fetchSlotContext_spec hb hparent hc
    refine Triple.pure fun s hs => ⟨⟨rfl, hheader, ?_, hcroot, hcontext⟩, hs⟩
    rw [hslot, hheader.slot_eq]

theorem fetchBatch_triple (hP : ∀ s rest, P s → P { s with answers := rest }) (slots : List Nat) :
    Triple P (fetchBatch slots)
      (fun fs s => List.Forall₂ (FetchedFor w cfg initRoot) slots fs ∧ P s) P := by
  refine Triple.bind (Triple.mapList (S := fun slot r => r.1 = slot ∧ BlockFor w cfg initRoot r)
    fun slot _ => fetchBlock_triple hP slot) fun blocks => Triple.of_pre fun hblocks => ?_
  have hfor : ∀ r ∈ blocks, BlockFor w cfg initRoot r := by
    intro r hr
    obtain ⟨slot, -, h⟩ := forall₂_mem_right hblocks hr
    exact h.2
  have hholds : ∀ b ∈ blocks.filterMap (fun b => b.2.map Prod.snd), w.Holds b := by
    intro b hb
    obtain ⟨⟨slot, fetched⟩, hr, heq⟩ := List.mem_filterMap.mp hb
    cases fetched with
    | none => cases heq
    | some hb' =>
      cases heq
      exact (hfor _ hr).2.2
  have hslots : slots = blocks.map Prod.fst := by
    clear hfor hholds
    induction hblocks with
    | nil => rfl
    | cons h _ ih => rw [List.map_cons, ← ih, h.1]
  refine (Triple.mapList (S := fun r f => FetchedFor w cfg initRoot r.1 f)
    fun r hr => fetchContextOf_triple hP hholds (hfor r hr)).imp (fun _ h => h) ?_ fun _ h => h
  intro fs s h
  refine ⟨?_, h.2⟩
  rw [hslots, List.forall₂_map_left_iff]
  exact h.1

end Fetch

theorem processBatch_triple {next n : Nat} {fetched : List (FetchedSlot V)}
    (hf : List.Forall₂ (FetchedFor w cfg initRoot) (List.range' next n) fetched) :
    Triple (SyncState.At parser next)
      (processBatch parser next fetched : Sync w cfg initRoot V (Nat × Bool))
      (fun r s => s.At parser r.1) (SyncState.Good parser) := by
  induction fetched generalizing next n with
  | nil => exact Triple.pure fun s hs => hs
  | cons f fetched ih =>
    cases n with
    | zero => cases hf
    | succ n =>
      rw [List.range'_succ] at hf
      cases hf with
      | cons hhead htail =>
        cases f with
        | missing slot =>
          obtain ⟨rfl, hslot⟩ := hhead
          refine Triple.bind (handleMissingSlot_triple hslot) fun action => ?_
          cases action with
          | rewound rewindSlot => exact Triple.pure fun s hs => hs
          | applied => exact ih htail
        | present slot header context =>
          obtain ⟨rfl, hheader, hcontext⟩ := hhead
          refine Triple.bind handleReorgsForPresentSlot_triple fun rewind => ?_
          cases rewind with
          | some rewindSlot => exact Triple.pure fun s hs => hs
          | none =>
            simp only
            rw [← Prog.bind_assoc]
            exact Triple.bind (commitPresent_triple hheader hcontext) fun _ => ih htail

/-! ## The whole loop -/

/-- The variables of the loop at a state: the next slot follows the committed ones. -/
def LoopVars.Fits (vars : LoopVars) (parser : BlobParser V) (s : SyncState w cfg initRoot V) : Prop :=
  (∀ p ∈ vars.prevBlock, w.Holds p) ∧ s.At parser vars.nextSlot

theorem batchRound_triple (vars : LoopVars) :
    Triple (vars.Fits parser) (batchRound parser vars : Sync w cfg initRoot V LoopVars)
      (fun vars s => vars.Fits parser s) (SyncState.Good parser) := by
  refine Triple.of_pre fun hprev => ?_
  refine Triple.bind ((fetchBatch_triple (fun _ _ h => h) _).imp (fun _ h => h) (fun _ _ h => h)
    fun s h => h.1) fun fetched => Triple.of_pre fun hfetched => ?_
  refine Triple.bind (processBatch_triple hfetched) fun r => ?_
  obtain ⟨nextSlot, reorgDetected⟩ := r
  cases reorgDetected with
  | true =>
    refine Triple.bind ((getBeaconHeadHeader_triple fun _ _ h => h).imp (fun _ h => h)
      (fun _ _ h => h.2) fun s h => h.1) fun head => ?_
    exact Triple.pure fun s hs => ⟨hprev, hs⟩
  | false => exact Triple.pure fun s hs => ⟨hprev, hs⟩

theorem presentSlot_triple {vars : LoopVars} {header : BlockHeader}
    (hheader : SlotHeader w cfg initRoot vars.nextSlot header) :
    Triple (vars.Fits parser) (presentSlot parser vars header : Sync w cfg initRoot V LoopVars)
      (fun vars s => vars.Fits parser s) (SyncState.Good parser) := by
  refine Triple.of_pre fun hprev => ?_
  refine Triple.bind handleReorgsForPresentSlot_triple fun rewind => ?_
  cases rewind with
  | some rewindSlot => exact Triple.pure fun s hs => ⟨hprev, hs⟩
  | none =>
    refine Triple.bind ((fetchContent_triple (fun _ _ h => h) _).imp (fun _ h => h)
      (fun _ _ h => h) fun s h => h.1.1) fun block => Triple.of_pre fun hblock => ?_
    refine Triple.bind ((fetchContent_triple (fun _ _ h => h) _).imp (fun _ h => h)
      (fun _ _ h => h) fun s h => h.1.1) fun c => Triple.of_pre fun hc => ?_
    obtain ⟨b, hb⟩ := hheader.block
    have hroot := getBeaconBlock_ok hblock
    have hsame : b = block := Option.some.inj (hb.1.symm.trans hroot)
    subst hsame
    obtain ⟨hslot, hcroot, hcontext⟩ := World.fetchSlotContext_spec hb hprev hc
    have hfor : ContextFor w vars.nextSlot header c :=
      ⟨hslot.trans hheader.slot_eq, hcroot, hcontext⟩
    rw [← Prog.bind_assoc]
    refine Triple.bind (commitPresent_triple hheader hfor) fun _ => ?_
    refine Triple.pure fun s hs => ⟨?_, hs⟩
    intro p hp
    cases hp
    exact hroot

/-- What a slot was resolved to. -/
def StateFor (w : World) (cfg : SyncConfig) (initRoot : B256) (slot : Nat) : SlotHeaderState → Prop
  | .shutdown => True
  | .missing => slot ≠ cfg.initStartSlot
  | .present header => SlotHeader w cfg initRoot slot header

omit [Pod2.Values V] in
theorem View.stateFor (v : View w cfg initRoot) (slot : Nat) :
    StateFor w cfg initRoot slot ((v.header slot).elim .missing .present) := by
  cases hv : v.header slot with
  | none => exact v.header_none hv
  | some header => exact v.slotHeader hv

section Headers

variable {P : SyncState w cfg initRoot V → Prop}

omit [Pod2.Values V]

theorem resolveSlotFromHead_triple (hP : ∀ s rest, P s → P { s with answers := rest })
    (slot rounds : Nat) (head : BlockHeader) :
    Triple P (resolveSlotFromHead slot rounds head)
      (fun r s => StateFor w cfg initRoot slot r.1 ∧ P s) P := by
  induction rounds generalizing head with
  | zero => exact Triple.pure fun s hs => ⟨trivial, hs⟩
  | succ rounds ih =>
    refine Triple.bind (getBeaconHeadHeader_triple hP) fun head' => Triple.of_pre fun hview => ?_
    split
    · exact ih head'
    · split
      · rename_i hslot
        obtain ⟨v, rfl⟩ := hview
        refine Triple.pure fun s hs => ⟨?_, hs⟩
        have hmem := v.head_mem
        rw [hslot] at hmem
        exact v.slotHeader hmem
      · refine Triple.bind (getBlockHeader_triple hP slot) fun header =>
          Triple.of_pre fun hheader => ?_
        obtain ⟨u, rfl⟩ := hheader
        exact Triple.pure fun s hs => ⟨u.stateFor slot, hs⟩

theorem nextSlotHeader_triple (hP : ∀ s rest, P s → P { s with answers := rest })
    (rounds slot : Nat) (head : BlockHeader) :
    Triple P (nextSlotHeader rounds slot head)
      (fun r s => StateFor w cfg initRoot slot r.1 ∧ P s) P := by
  unfold nextSlotHeader
  split
  · refine Triple.bind (getBlockHeader_triple hP slot) fun header =>
      Triple.of_pre fun hheader => ?_
    obtain ⟨v, rfl⟩ := hheader
    exact Triple.pure fun s hs => ⟨v.stateFor slot, hs⟩
  · exact resolveSlotFromHead_triple hP slot rounds head

end Headers

theorem singleRound_triple (rounds : Nat) (vars : LoopVars) :
    Triple (vars.Fits parser) (singleRound parser rounds vars : Sync w cfg initRoot V _)
      (fun next s => match next with
        | some vars => vars.Fits parser s
        | none => s.Good parser) (SyncState.Good parser) := by
  refine Triple.bind ((nextSlotHeader_triple (P := vars.Fits parser) (fun _ _ h => h) rounds
    vars.nextSlot vars.head).imp (fun _ h => h) (fun _ _ h => h) fun s h => h.2.1) fun r => ?_
  obtain ⟨state, head⟩ := r
  refine Triple.of_pre fun hstate => ?_
  cases state with
  | shutdown => exact Triple.pure fun s hs => hs.2.1
  | missing =>
    refine Triple.of_pre fun hprev => ?_
    refine Triple.bind (handleMissingSlot_triple hstate) fun action => ?_
    cases action with
    | rewound rewindSlot => exact Triple.pure fun s hs => ⟨hprev, hs⟩
    | applied => exact Triple.pure fun s hs => ⟨hprev, hs⟩
  | present header =>
    have hheader : SlotHeader w cfg initRoot vars.nextSlot header := hstate
    refine Triple.bind (presentSlot_triple
      (show SlotHeader w cfg initRoot ({ vars with head := head } : LoopVars).nextSlot header
        from hheader)) fun vars => ?_
    exact Triple.pure fun s hs => hs

theorem runSyncLoop_triple (rounds : Nat) (vars : LoopVars) :
    Triple (vars.Fits parser) (runSyncLoop parser rounds vars : Sync w cfg initRoot V Unit)
      (fun _ => SyncState.Good parser) (SyncState.Good parser) := by
  induction rounds generalizing vars with
  | zero => exact Triple.pure fun s hs => hs.2.1
  | succ rounds ih =>
    rw [runSyncLoop]
    split
    · exact Triple.bind (batchRound_triple vars) fun vars => ih vars
    · refine Triple.bind (singleRound_triple rounds vars) fun next => ?_
      cases next with
      | none => exact Triple.pure fun s hs => hs
      | some vars => exact ih vars

omit [Pod2.Values V] in
theorem validateGenesisSlot_triple {P : SyncState w cfg initRoot V → Prop}
    (hP : ∀ s rest, P s → P { s with answers := rest }) (slot : Nat) :
    Triple P (validateGenesisSlot slot) (fun _ => P) P := by
  refine Triple.bind (answer_triple hP) fun v => ?_
  split
  · exact Triple.lift (fun _ _ h _ => by cases h) fun _ hs => hs
  · refine Triple.bind (getBlockHeader_triple hP slot) fun header => Triple.of_pre fun _ => ?_
    cases header with
    | none => exact Triple.lift (fun _ _ h _ => by cases h) fun _ hs => hs
    | some header =>
      refine Triple.bind (fetchContent_triple hP _) fun block => Triple.of_pre fun _ => ?_
      refine Triple.bind (fetchContent_triple hP _) fun payload => Triple.of_pre fun _ => ?_
      split
      · exact Triple.pure fun _ hs => hs
      · exact Triple.lift (fun _ _ h _ => by cases h) fun _ hs => hs

theorem initializeSync_triple :
    Triple (SyncState.Good parser) (initializeSync : Sync w cfg initRoot V LoopVars)
      (fun vars s => vars.Fits parser s) (SyncState.Good parser) := by
  refine Triple.bind (getBeaconHeadHeader_triple fun _ _ h => h) fun head =>
    Triple.of_pre fun _ => ?_
  refine Triple.read_bind fun last => ?_
  cases last with
  | some last =>
    refine Triple.pure fun s hs => ⟨by simp, hs.2, ?_⟩
    have hlast := hs.2.lastProcessedSlot
    rw [hs.1] at hlast
    split at hlast
    · cases hlast
    · rename_i hne
      have hpos := List.length_pos_iff.mpr hne
      cases hlast
      simp only
      omega
  | none =>
    refine Triple.bind ((validateGenesisSlot_triple (fun _ _ h => h) _).imp (fun _ h => h)
      (fun _ _ h => h) fun _ h => h.2) fun _ => ?_
    refine Triple.pure fun s hs => ⟨by simp, hs.2, ?_⟩
    have hlast := hs.2.lastProcessedSlot
    rw [hs.1] at hlast
    split at hlast
    · rename_i hnil
      simp [hnil]
    · cases hlast

theorem syncForever_good (runs : List Nat) {s : SyncState w cfg initRoot V}
    (hs : s.Good parser) : (syncForever parser runs s).Good parser := by
  induction runs generalizing s with
  | nil => exact hs
  | cons rounds runs ih =>
    have honce : Triple (SyncState.Good parser) (syncOnce parser rounds : Sync w cfg initRoot V Unit)
        (fun _ => SyncState.Good parser) (SyncState.Good parser) :=
      Triple.bind initializeSync_triple fun vars => runSyncLoop_triple rounds vars
    exact ih (honce.store hs)

/-! ## What a rewind keeps -/

/-- The stored and the live chain have the same block at a slot. -/
def View.Agrees (v : View w cfg initRoot) (rows : List (Nat × Option B256)) (slot : Nat) : Prop :=
  ∃ r, (slot, some r) ∈ rows ∧ (v.header slot).map BlockHeader.root = some r

/-- Two chains that share a block share everything before it. -/
theorem Synced.agrees_before {node : Node V} {rows : List (Nat × Option B256)}
    (h : Synced w cfg initRoot parser node rows) (v : View w cfg initRoot) {m : Nat}
    (hm : v.Agrees rows m) {k : Nat} {r : B256} (hk : (k, some r) ∈ rows) (hkm : k ≤ m) :
    (v.header k).map BlockHeader.root = some r := by
  induction m using Nat.strongRecOn with
  | _ m ih =>
    obtain ⟨rm, hrm, hlive⟩ := hm
    rcases Nat.lt_or_eq_of_le hkm with hlt | rfl
    case inr =>
      have heq : some (some rm) = some (some r) := by
        rw [← h.contiguous.lookup_mem.mpr hrm, ← h.contiguous.lookup_mem.mpr hk]
      cases heq
      exact hlive
    case inl =>
      cases hh : v.header m with
      | none => simp [hh] at hlive
      | some hd =>
        have hroot : hd.root = rm := by simpa [hh] using hlive
        have hinit := (h.contiguous.mem_bounds hk).1
        simp only at hinit
        obtain ⟨b, hb, -, hparent⟩ := h.known hrm
        obtain ⟨-, b', hb', -, hbp⟩ := v.genuine hh
        have hbb : b = b' := by
          rw [hroot, hb] at hb'
          exact Option.some.inj hb'
        -- The parent of the shared block is the nearest earlier block of both chains.
        obtain ⟨q, hq, hqmem, hqlast⟩ := h.contiguous.rootBefore_eq (hparent (by omega))
        obtain ⟨p, hp, -, hpm, hph, hproot, -⟩ := v.linked hh (by omega)
        obtain ⟨bq, hbq, hqslot, -⟩ := h.known hqmem
        obtain ⟨hpslot, bp, hbp', hbpslot, -⟩ := v.genuine hph
        have hsame : hp.root = b.parentRoot := by rw [hproot, hbb, hbp]
        rw [hsame, hbq] at hbp'
        have hpq : p = q := by
          rw [← hpslot, ← hbpslot, ← Option.some.inj hbp', hqslot]
        subst hpq
        refine ih p hq ⟨b.parentRoot, hqmem, ?_⟩ (hqlast k r hk hlt)
        rw [hph, Option.map_some, hsame]

/-- The walk against one view ends after the last block that both chains have. -/
theorem findDivergenceSlot_fixed {s : SyncState w cfg initRoot V} (hs : s.Good parser)
    (v : View w cfg initRoot) (cur m : Nat) (hm : cur - cfg.initStartSlot ≤ m) :
    ∃ start m', m ≤ m' + (cur - cfg.initStartSlot) ∧
      findDivergenceSlot cur { s with answers := List.replicate m (some v) } =
        (.ok start, { s with answers := List.replicate m' (some v) }) ∧
      cfg.initStartSlot ≤ start ∧ (start = cfg.initStartSlot ∨ v.Agrees s.blockRoots (start - 1)) ∧
      ∀ k, start ≤ k → k < cur → ¬ v.Agrees s.blockRoots k := by
  induction cur generalizing m with
  | zero => exact ⟨cfg.initStartSlot, m, by omega, rfl, le_refl _, .inl rfl, fun k _ hk => by omega⟩
  | succ prev ih =>
    rw [findDivergenceSlot]
    by_cases hlt : cfg.initStartSlot < prev + 1
    · rw [if_pos hlt]
      obtain ⟨m, rfl⟩ : ∃ m₀, m = m₀ + 1 := ⟨m - 1, by omega⟩
      have hagree : (s.slotRoot prev).isSome ∧
          s.slotRoot prev = (v.header prev).map BlockHeader.root ↔ v.Agrees s.blockRoots prev := by
        unfold SyncState.slotRoot View.Agrees
        constructor
        · rintro ⟨hsome, heq⟩
          obtain ⟨r, hr⟩ := Option.isSome_iff_exists.mp hsome
          refine ⟨r, ?_, by rw [← heq, hr]⟩
          rw [← hs.contiguous.lookup_mem]
          exact Option.join_eq_some_iff.mp hr
        · rintro ⟨r, hr, heq⟩
          rw [← hs.contiguous.lookup_mem] at hr
          simp [hr, heq]
      have hread : ∀ {β : Type} (f : Option B256 → Option BlockHeader → Sync w cfg initRoot V β),
          (do
            let storedRoot ← Prog.read fun s => s.slotRoot prev
            let live ← getBlockHeader prev
            f storedRoot live : Sync w cfg initRoot V β)
            { s with answers := List.replicate (m + 1) (some v) } =
          f (s.slotRoot prev) (v.header prev) { s with answers := List.replicate m (some v) } :=
        fun f => rfl
      rw [hread]
      by_cases hag : v.Agrees s.blockRoots prev
      · rw [if_pos (hagree.mpr hag)]
        exact ⟨prev + 1, m, by omega, rfl, by omega, .inr hag, fun k _ hk => by omega⟩
      · rw [if_neg fun h => hag (hagree.mp h)]
        obtain ⟨start, m', hm', hrun, hge, hstart, hnone⟩ := ih m (by omega)
        refine ⟨start, m', by omega, hrun, hge, hstart, ?_⟩
        intro k hk hkp
        rcases Nat.lt_or_eq_of_le (Nat.lt_succ_iff.mp hkp) with hkp | rfl
        · exact hnone k hk hkp
        · exact hag
    · rw [if_neg hlt]
      exact ⟨cfg.initStartSlot, m, by omega, rfl, le_refl _, .inl rfl, fun k _ hk => by omega⟩

/-- A rewind against one view: it returns, it deletes nothing up to a slot where both chains
have the same block, and every block it keeps is on the live chain. -/
structure RewindExact (v : View w cfg initRoot) (s s' : SyncState w cfg initRoot V) : Prop where
  rows : s'.blockRoots.map Prod.fst = s'.node.stateLog.slots.map SlotRow.slot
  kept : ∀ k r, (k, some r) ∈ s.blockRoots → (v.header k).map BlockHeader.root = some r →
    ∀ row ∈ s.blockRoots, row.1 ≤ k → row ∈ s'.blockRoots
  kept_state : ∀ k r, (k, some r) ∈ s.blockRoots → (v.header k).map BlockHeader.root = some r →
    ∀ row ∈ s.node.stateLog.slots, row.slot ≤ k → row ∈ s'.node.stateLog.slots
  live : ∀ k r, (k, some r) ∈ s'.blockRoots → (v.header k).map BlockHeader.root = some r

theorem rewindForReorg_fixed {s : SyncState w cfg initRoot V} (hs : s.Good parser)
    (v : View w cfg initRoot) {cur m : Nat} (hcur : s.node.nextSlot cfg.initStartSlot ≤ cur)
    (hm : cur + 1 - cfg.initStartSlot ≤ m) :
    ∃ start s', rewindForReorg cur { s with answers := List.replicate m (some v) } =
      (.ok start, s') ∧ RewindExact v s s' := by
  have hnext := hs.nextSlot_eq
  obtain ⟨start, m', hm', hrun, hge, hstart, hnone⟩ :=
    findDivergenceSlot_fixed hs v cur m (by omega)
  obtain ⟨m', rfl⟩ : ∃ m₀, m' = m₀ + 1 := ⟨m' - 1, by omega⟩
  have hpos := cfg.init_pos
  have hrewind : rewindForReorg cur { s with answers := List.replicate m (some v) } =
      (.ok start, SyncState.rollbackToSlot { s with answers := List.replicate m' (some v) }
        (start - 1)) := by
    unfold rewindForReorg
    rw [Prog.bind_ok hrun]
    rfl
  have hbelow : ∀ k r, (k, some r) ∈ s.blockRoots →
      (v.header k).map BlockHeader.root = some r → k ≤ start - 1 := by
    intro k r hk hlive
    by_contra hgt
    have hb := (hs.contiguous.mem_bounds hk).2
    simp only at hb
    exact hnone k (by omega) (by omega) ⟨r, hk, hlive⟩
  refine ⟨start, _, hrewind, ?_, ?_, ?_, ?_⟩
  · exact (hs.rollback (start - 1)).slots.symm
  · intro k r hk hlive row hrow hle
    have hk' := hbelow k r hk hlive
    simp only [SyncState.rollbackToSlot, List.mem_filter, decide_eq_true_eq]
    exact ⟨hrow, by omega⟩
  · intro k r hk hlive row hrow hle
    have hk' := hbelow k r hk hlive
    simp only [SyncState.rollbackToSlot, StateLogDb.rollbackToSlot, List.mem_filter,
      decide_eq_true_eq]
    exact ⟨hrow, by omega⟩
  · intro k r hk
    simp only [SyncState.rollbackToSlot, List.mem_filter, decide_eq_true_eq] at hk
    have hinit := (hs.contiguous.mem_bounds hk.1).1
    simp only at hinit
    rcases hstart with rfl | hag
    · omega
    · exact hs.agrees_before v hag hk.1 hk.2

/-! ## Convergence -/

/-- Derive committed rows in slot order: the blocks by their roots, and empty slots. -/
def World.replay (w : World) (parser : BlobParser V) :
    Node V → List (Nat × Option B256) → Option (Node V)
  | n, [] => some n
  | n, (slot, root) :: rows =>
    match (root.elim (.ok ⟨none, []⟩) w.contextOf : Fetch (SlotContext V)) with
    | .ok ctx => match deriveFromContext parser n slot ctx with
      | .ok (p, db, _) => match commitSlot n.stateLog p with
        | .ok log => w.replay parser ⟨db, log⟩ rows
        | .error _ => none
      | .error _ => none
    | _ => none

theorem World.replay_eq {h : List (Nat × Slot)} {rows : List (Nat × Option B256)} {n n' : Node V}
    {as : List (Attempt V)} (hd : List.Forall₂ (w.Describes (V := V)) h rows)
    (hrun : n.commitAll parser h = .ok (n', as)) : w.replay parser n rows = some n' := by
  induction hd generalizing n as with
  | nil =>
    cases hrun
    rfl
  | @cons e row h rows her _ ih =>
    obtain ⟨number, slot⟩ := e
    obtain ⟨k, root⟩ := row
    obtain ⟨rfl, hroot⟩ := her
    rw [Node.commitAll] at hrun
    obtain ⟨⟨n₁, as₁⟩, hstep, hrun⟩ := bind_eq_ok hrun
    obtain ⟨⟨n₂, as₂⟩, hrest, hrun⟩ := bind_eq_ok hrun
    cases hrun
    have htail := ih hrest
    unfold Node.commitSlotAt at hstep
    obtain ⟨⟨p, db, attempts⟩, hderive, hstep⟩ := bind_eq_ok hstep
    obtain ⟨log, hcommit, hstep⟩ := bind_eq_ok hstep
    cases hstep
    have hctx : (root.elim (.ok ⟨none, []⟩) w.contextOf : Fetch (SlotContext V)) =
        .ok (Synchronizer.fetchSlotContext slot) := by
      cases root with
      | none =>
        have hpay : slot.payload = none := hroot
        simp [Synchronizer.fetchSlotContext, hpay]
      | some r => exact hroot
    rw [replay, hctx]
    simp only [hderive, hcommit]
    exact htail

/-- What the database is after any run of the loop. -/
structure Converged (parser : BlobParser V) (s : SyncState w cfg initRoot V) : Prop where
  contiguous : s.node.stateLog.slots.map SlotRow.slot =
    (List.range' cfg.initStartSlot s.blockRoots.length).reverse
  rows : s.blockRoots.map Prod.fst = s.node.stateLog.slots.map SlotRow.slot
  linked : ∀ k r, (k, some r) ∈ s.blockRoots → ∃ b, w.block r = some b ∧ b.slot = k ∧
    (cfg.initStartSlot < k → s.latestBlockRootBefore k = some b.parentRoot)
  replayed : ∃ n, w.replay parser Node.genesis s.blockRoots.reverse = some n ∧
    n.stateLog = s.node.stateLog
  rewind : ∀ (v : View w cfg initRoot) (cur m : Nat), s.node.nextSlot cfg.initStartSlot ≤ cur →
    cur + 1 - cfg.initStartSlot ≤ m →
    ∃ start s', rewindForReorg cur { s with answers := List.replicate m (some v) } =
      (.ok start, s') ∧ RewindExact v s s'

/-- Every database that the sync loop leaves, whatever chains it saw and wherever it was
stopped, holds one linked chain and what deriving that chain alone gives. -/
theorem sync_converges (parser : BlobParser V) (runs : List Nat)
    (answers : List (Option (View w cfg initRoot))) :
    Converged parser (syncForever parser runs (SyncState.start answers)) := by
  have hgood : (syncForever parser runs (SyncState.start answers)).Good parser :=
    syncForever_good runs Synced.genesis
  generalize syncForever parser runs (SyncState.start answers) = s at hgood
  refine ⟨?_, hgood.slots.symm, fun k r hk => hgood.known hk, ?_, ?_⟩
  · rw [hgood.slots]
    exact hgood.contiguous.map_fst
  · obtain ⟨h, ⟨⟨base, as, hrun, hlog⟩, -, -⟩, hd⟩ := hgood.tracks
    exact ⟨base, World.replay_eq hd hrun, hlog⟩
  · intro v cur m hcur hm
    exact rewindForReorg_fixed hgood v hcur hm

end Values

/-! A reorg of the second block: it is first at slot 2, and then another one at slot 3. -/

def reorgBlock : B256 → Option Block
  | [1] => some ⟨[], .embedded [11], [0], 1⟩
  | [2] => some ⟨[], .embedded [12], [1], 2⟩
  | [3] => some ⟨[], .embedded [13], [1], 3⟩
  | _ => none

def reorgWorld : World :=
  ⟨⟨⟨reorgBlock, fun hash _ => some ⟨hash.sum, 0, none⟩⟩, fun _ => [], []⟩, fun _ _ => .ok []⟩

def reorgConfig : SyncConfig := ⟨1, 10, by decide⟩

/-- The chain that has a child of the first block at the given slot. -/
def forkView (root : B256) (slot : Nat) (b : Block) (hroot : reorgBlock root = some b)
    (hslot : b.slot = slot) (hparent : b.parentRoot = [1]) (hlt : 1 < slot) :
    View reorgWorld reorgConfig [1] where
  header s := if s = 1 then some ⟨[1], [0], 1⟩ else if s = slot then some ⟨root, [1], slot⟩ else none
  head := ⟨root, [1], slot⟩
  finalized := ⟨[1], [0], 1⟩
  genuine := by
    intro s h hs
    split at hs
    · rename_i hs1
      cases hs
      exact ⟨hs1.symm, _, rfl, rfl, rfl⟩
    · split at hs
      · rename_i hs2
        cases hs
        exact ⟨hs2.symm, b, hroot, hslot, hparent⟩
      · cases hs
  init := ⟨_, rfl, rfl⟩
  linked := by
    intro s h hs hinit
    have hs1 : s ≠ 1 := Nat.ne_of_gt hinit
    rw [if_neg hs1] at hs
    split at hs
    · rename_i hs2
      cases hs
      refine ⟨1, _, le_refl _, hinit, rfl, rfl, ?_⟩
      intro k hk hks
      rw [if_neg (by omega), if_neg (by omega)]
    · cases hs
  head_mem := by rw [if_neg (show slot ≠ 1 by omega), if_pos rfl]

def reorgAnswers : List (Option (View reorgWorld reorgConfig [1])) :=
  List.replicate 15 (some (forkView [2] 2 _ rfl rfl rfl (by decide))) ++
    none :: List.replicate 20 (some (forkView [3] 3 _ rfl rfl rfl (by decide)))

theorem sync_converges_reorg : Converged (fun _ => .ok none)
    (syncForever (V := Pod2.Term) (fun _ => .ok none) [10, 10] (SyncState.start reorgAnswers)) :=
  sync_converges _ _ _

end DigitalObjects.Synchronizer
