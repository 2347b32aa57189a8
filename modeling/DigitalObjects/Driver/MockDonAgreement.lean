import DigitalObjects.Driver.MockDon
import DigitalObjects.Pod2.Terms
set_option autoImplicit false

/-!
The mock network and the synchronizer on the chain of the mock network's blocks: both accept the
same payloads and derive the same states.
-/

namespace DigitalObjects.Driver.MockDon

open Pod2 Txlib Synchronizer Objects

variable {V : Type} [Values V]

/-! ## The loops of `apply` -/

/-- The index tells the positions of the list. -/
structure Indexed (index : Finmap fun _ : V => Int) (l : List V) : Prop where
  lookup : ∀ c j, index.lookup c = some j ↔ ∃ k : Nat, l[k]? = some c ∧ (k : Int) = j
  card : index.keys.card = l.length

theorem keys_insert {κ W : Type} [DecidableEq κ] (m : Finmap fun _ : κ => W) (k : κ) (v : W) :
    (m.insert k v).keys = insert k m.keys := by
  ext x
  simp [Finmap.mem_keys]

theorem Indexed.nil : Indexed (∅ : Finmap fun _ : V => Int) [] := by
  refine ⟨fun c j => ?_, rfl⟩
  simp

theorem Indexed.isSome_iff {index : Finmap fun _ : V => Int} {l : List V} (h : Indexed index l) (c : V) :
    (index.lookup c).isSome = true ↔ c ∈ l := by
  rw [Option.isSome_iff_exists, List.mem_iff_getElem?]
  constructor
  · rintro ⟨j, hj⟩
    obtain ⟨k, hk, -⟩ := (h.lookup c j).mp hj
    exact ⟨k, hk⟩
  · rintro ⟨k, hk⟩
    exact ⟨k, (h.lookup c k).mpr ⟨k, hk, rfl⟩⟩

theorem Indexed.append {index : Finmap fun _ : V => Int} {l : List V} (h : Indexed index l) {c : V}
    (hfresh : c ∉ l) : Indexed (index.insert c (l.length : Int)) (l ++ [c]) := by
  refine ⟨fun d j => ?_, ?_⟩
  · rw [lookup_insert_ite]
    by_cases hd : d = c
    · subst hd
      rw [if_pos rfl, Option.some.injEq]
      constructor
      · intro hj
        exact ⟨l.length, by simp, hj⟩
      · rintro ⟨k, hk, hkj⟩
        rcases Nat.lt_or_ge k l.length with hlt | hge
        · rw [List.getElem?_append_left hlt] at hk
          exact absurd (List.mem_of_getElem? hk) hfresh
        · have hbound : k < (l ++ [d]).length := (List.getElem?_eq_some_iff.mp hk).1
          have hlen : (l ++ [d]).length = l.length + 1 := by simp
          omega
    · rw [if_neg hd, h.lookup d j]
      refine exists_congr fun k => and_congr_left fun _ => ?_
      rcases Nat.lt_or_ge k l.length with hlt | hge
      · rw [List.getElem?_append_left hlt]
      · rw [List.getElem?_append_right hge, List.getElem?_eq_none hge]
        by_cases hk : k - l.length = 0
        · simp [hk, Ne.symm hd]
        · rw [List.getElem?_eq_none (by simp; omega)]
  · have hkey : c ∉ index.keys := by
      intro hin
      have hsome : (index.lookup c).isSome = true := Finmap.lookup_isSome.mpr (Finmap.mem_keys.mp hin)
      exact hfresh ((h.isSome_iff c).mp hsome)
    rw [keys_insert, Finset.card_insert_of_notMem hkey, h.card, List.length_append]
    rfl

namespace MockDonState

theorem insertCreated_spec {m : MockDonState V} {l : List V} (hcreated : Represents m.created l)
    (hindex : Indexed m.createdIndex l) {objs : List V} (hnodup : objs.Nodup) (hfresh : ∀ x ∈ objs, x ∉ l) :
    ∃ created index, m.insertCreated objs = .ok { m with created := created, createdIndex := index } ∧
      Represents created (l ++ objs) ∧ Indexed index (l ++ objs) := by
  induction objs generalizing m l with
  | nil => exact ⟨m.created, m.createdIndex, rfl, by simpa using hcreated, by simpa using hindex⟩
  | cons c objs ih =>
    obtain ⟨hc, hobjs⟩ := List.nodup_cons.mp hnodup
    have hfree : (m.created.lookup l.length).isSome = false := by
      rw [hcreated, List.getElem?_eq_none (Nat.le_refl _)]
      rfl
    have hrest : ∀ x ∈ objs, x ∉ l ++ [c] := by
      intro x hx hin
      rcases List.mem_append.mp hin with hin | hin
      · exact hfresh x (List.mem_cons_of_mem c hx) hin
      · obtain rfl := List.mem_singleton.mp hin
        exact hc hx
    have hstep := @ih { m with created := m.created.insert l.length c, createdIndex := m.createdIndex.insert c l.length }
      (l ++ [c]) (hcreated.append c) (hindex.append (hfresh c List.mem_cons_self)) hobjs hrest
    obtain ⟨created, index, hrun, hrep, hind⟩ := hstep
    refine ⟨created, index, ?_, by simpa using hrep, by simpa using hind⟩
    rw [insertCreated, hindex.card]
    simp only [hfree]
    exact hrun

theorem insertNullifiers_spec {m : MockDonState V} (hsame : m.nullifierHashes = m.nullifiers) {ns : List V}
    (hnodup : ns.Nodup) (hfresh : ∀ x ∈ ns, x ∉ m.nullifiers) :
    m.insertNullifiers ns = .ok { m with
      nullifiers := m.nullifiers ∪ ns.toFinset
      nullifierHashes := m.nullifiers ∪ ns.toFinset } := by
  induction ns generalizing m with
  | nil =>
    cases m
    cases hsame
    simp [insertNullifiers]
  | cons c ns ih =>
    obtain ⟨hc, hns⟩ := List.nodup_cons.mp hnodup
    have hnot : c ∉ m.nullifiers := hfresh c List.mem_cons_self
    have hrest : ∀ x ∈ ns, x ∉ insert c m.nullifiers := by
      intro x hx hin
      rcases Finset.mem_insert.mp hin with rfl | hin
      · exact hc hx
      · exact hfresh x (List.mem_cons_of_mem c hx) hin
    have hstep := @ih { m with
      nullifiers := insert c m.nullifiers
      nullifierHashes := insert c m.nullifierHashes } (by rw [hsame]) hns hrest
    have hunion : insert c m.nullifiers ∪ ns.toFinset = m.nullifiers ∪ (c :: ns).toFinset := by
      ext x
      simp
    rw [insertNullifiers, if_neg hnot, hstep]
    simp only [hunion]

/-- The next block over the containers of `m`. -/
structure Advanced (net : BlockHashes V) (m : MockDonState V) (now : Nat) (m' : MockDonState V) : Prop where
  head : m'.head = ⟨m.head.blockNumber + 1, max now (m.head.blockTimestamp + 1), net.blockHash (m.head.blockNumber + 1),
    ofArray m.created, ofSet m.nullifiers, ofArray m'.stateHistory⟩
  history : m'.stateHistory = m.stateHistory.insert (m.rootBlocks.keys.card - 1) m.head.hash
  roots : m'.rootBlocks = m.rootBlocks.insert m'.head.hash m'.head.blockNumber
  created : m'.created = m.created
  index : m'.createdIndex = m.createdIndex
  nullifiers : m'.nullifiers = m.nullifiers
  hashes : m'.nullifierHashes = m.nullifierHashes
  response : m'.derivedStates.lookup m'.head.blockNumber = some
    ⟨m'.head.blockNumber.toNat % 2 ^ 32, m'.head.hash, m'.head.blockNumber, net.hashBytes m'.head.blockHash,
      m'.createdIndex.keys.card, m'.nullifierHashes.card, m'.rootBlocks.keys.card⟩

theorem nextHead_spec (net : BlockHashes V) {m : MockDonState V} (now : Nat)
    (hfree : m.stateHistory.lookup (m.rootBlocks.keys.card - 1) = none) :
    ∃ m', m.nextHead net now = .ok m' ∧ m.Advanced net now m' := by
  unfold nextHead
  simp only [hfree, Option.isSome_none]
  exact ⟨_, rfl, rfl, rfl, rfl, rfl, rfl, rfl, rfl, Finmap.lookup_insert _⟩

end MockDonState

/-! ## The chain -/

def MockPayload.toPayload (proof : List Nat) (p : MockPayload V) : Synchronizer.Payload V :=
  ⟨proof, p.txFinal, p.stateRoot, p.nullifiers, p.created⟩

abbrev Chain (V : Type) : Type := List (ExecutionBlock × Option (Synchronizer.Payload V))

section Run

variable [EncodeHex V] (net : BlockHashes V) (proofOf : MockPayload V → List Nat)

namespace MockDonState

/-- The head's block. -/
def block (m : MockDonState V) : ExecutionBlock :=
  ⟨m.head.blockNumber.toNat, m.head.blockTimestamp.toNat, net.hashBytes m.head.blockHash⟩

/-- The payload that a submission gets a block for. -/
def accepts (m : MockDonState V) (s : Submission V) : Option (MockPayload V) :=
  match s.payload with
  | .error _ => none
  | .ok p => if m.jobIdsByTxFinal.lookup p.txFinal = none ∧ m.rejection p = none then some p else none

end MockDonState

/-- Submissions in turn, with the chain of the blocks that they are accepted in. -/
def submitAll : MockDonState V × Chain V → List (Submission V) → MockDonState V × Chain V
  | r, [] => r
  | (m, chain), s :: rest =>
    let m' := (m.submit net s).1
    match m.accepts s with
    | none => submitAll (m', chain) rest
    | some p => submitAll (m', chain ++ [(m'.block net, some (p.toPayload (proofOf p)))]) rest

/-- The chain begins with the genesis block, which holds nothing. -/
def runFrom (now : Nat) (submissions : List (Submission V)) : MockDonState V × Chain V :=
  let genesis := MockDonState.genesis net now
  submitAll net proofOf (genesis, [(genesis.block net, none)]) submissions

end Run

/-! ## The simulation -/

/-- The map has the block number of every root in the rows, and `count` roots. -/
structure Numbered (rootBlocks : Finmap fun _ : V => Int) (rows : List (SlotRow V)) (count : Nat) : Prop where
  lookup : ∀ root b, rootBlocks.lookup root = some b ↔ ∃ row ∈ rows, ∃ s, row.state = some s ∧
    s.metadata.stateRoot = root ∧ (s.metadata.block.number : Int) = b
  card : rootBlocks.keys.card = count

theorem Numbered.nil : Numbered (∅ : Finmap fun _ : V => Int) [] 0 := by
  refine ⟨fun root b => ?_, rfl⟩
  simp

theorem Numbered.cons {rootBlocks : Finmap fun _ : V => Int} {rows : List (SlotRow V)} {count slot : Nat}
    {state : DonState V} {root : V} {number : Int} (h : Numbered rootBlocks rows count)
    (hroot : state.metadata.stateRoot = root) (hnumber : (state.metadata.block.number : Int) = number)
    (hnew : ∀ row ∈ rows, ∀ s, row.state = some s → s.metadata.stateRoot ≠ root) :
    Numbered (rootBlocks.insert root number) (⟨slot, some state⟩ :: rows) (count + 1) := by
  have hkey : root ∉ rootBlocks.keys := by
    intro hin
    obtain ⟨b, hb⟩ := Option.isSome_iff_exists.mp (Finmap.lookup_isSome.mpr (Finmap.mem_keys.mp hin))
    obtain ⟨row, hrow, s, hs, heq, -⟩ := (h.lookup root b).mp hb
    exact hnew row hrow s hs heq
  refine ⟨fun r b => ?_, by rw [keys_insert, Finset.card_insert_of_notMem hkey, h.card]⟩
  rw [lookup_insert_ite]
  by_cases hr : r = root
  · subst hr
    rw [if_pos rfl, Option.some.injEq]
    constructor
    · intro hb
      exact ⟨_, List.mem_cons_self, state, rfl, hroot, hnumber.trans hb⟩
    · rintro ⟨row, hrow, s, hs, heq, hb⟩
      rcases List.mem_cons.mp hrow with rfl | hin
      · cases hs
        rw [← hb, hnumber]
      · exact absurd heq (hnew row hin s hs)
  · rw [if_neg hr, h.lookup r b]
    constructor
    · rintro ⟨row, hrow, hrest⟩
      exact ⟨row, List.mem_cons_of_mem _ hrow, hrest⟩
    · rintro ⟨row, hrow, s, hs, heq, hb⟩
      rcases List.mem_cons.mp hrow with rfl | hin
      · cases hs
        exact absurd (heq.symm.trans hroot) hr
      · exact ⟨row, hin, s, hs, heq, hb⟩

/-- The mock network's state beside a node that derived the chain. `l` lists the created objects,
`hl` the state roots before the head's. -/
structure Mirrors (net : BlockHashes V) (m : MockDonState V) (n : Node V) (l hl : List V) (state : DonState V) :
    Prop where
  below : n.Below l (m.head.blockNumber.toNat + 1)
  head : n.stateLog.donStateAtHead = some state
  block : state.metadata.block = m.block net
  header : state.stateHeader = m.head
  number : 1 ≤ m.head.blockNumber
  time : 0 ≤ m.head.blockTimestamp
  created : Represents m.created l
  created_root : state.roots.created = ofArray m.created
  index : Indexed m.createdIndex l
  nullifiers_root : state.roots.nullifiers = ofSet m.nullifiers
  hashes : m.nullifierHashes = m.nullifiers
  nullifier_count : state.metadata.nullifierCount = m.nullifiers.card
  history : Represents m.stateHistory hl
  prior : state.roots.priorStateHistory = ofArray m.stateHistory
  next : state.roots.nextStateHistory = ofArray (m.stateHistory.insert hl.length m.head.hash)
  root_count : state.metadata.stateRootCount = hl.length + 1
  roots : Numbered m.rootBlocks n.stateLog.slots (hl.length + 1)
  response : m.derivedStates.lookup m.head.blockNumber = some
    ⟨m.head.blockNumber.toNat % 2 ^ 32, m.head.hash, m.head.blockNumber, net.hashBytes m.head.blockHash,
      m.createdIndex.keys.card, m.nullifierHashes.card, m.rootBlocks.keys.card⟩

variable {net : BlockHashes V} {m : MockDonState V} {n : Node V} {l hl : List V} {state : DonState V}

theorem Mirrors.root (h : Mirrors net m n l hl state) : state.metadata.stateRoot = m.head.hash := by
  obtain ⟨row, hrow, hstate⟩ := List.exists_of_findSome?_eq_some h.head
  rw [h.below.rooted row hrow state hstate, h.header]

theorem Mirrors.block_number (h : Mirrors net m n l hl state) : (state.metadata.block.number : Int) = m.head.blockNumber :=
  congrArg StateHeader.blockNumber h.header

/-- The containers that the next slot starts from. -/
theorem Mirrors.start (h : Mirrors net m n l hl state) {w : WorkingState V}
    (hstart : startWorking n.containers n.stateLog.donStateAtHead n.window = .ok w) :
    w.created = m.created ∧ w.nullifiers = m.nullifiers ∧
      w.nextStateHistory = m.stateHistory.insert hl.length m.head.hash ∧
      w.nullifierCount = m.nullifiers.card := by
  obtain ⟨hcreated, hnullifiers, hhistory, hcount, -⟩ := startWorking_roots hstart
  simp only [h.head, Option.elim_some] at hcreated hnullifiers hhistory hcount
  rw [h.created_root, ofArray_inj] at hcreated
  rw [h.nullifiers_root, ofSet_inj] at hnullifiers
  rw [h.next, ofArray_inj] at hhistory
  exact ⟨hcreated, hnullifiers, hhistory, hcount.trans h.nullifier_count⟩

/-- Both accept the same payloads in the next block. -/
theorem Mirrors.rejection_eq_none (h : Mirrors net m n l hl state) {w : WorkingState V}
    (hstart : startWorking n.containers n.stateLog.donStateAtHead n.window = .ok w) (p : MockPayload V)
    (proof : List Nat) :
    m.rejection p = none ↔ Acceptable w (p.toPayload proof) (m.head.blockNumber.toNat + 1) := by
  obtain ⟨hcreated, hnullifiers, -, -⟩ := h.start hstart
  have hnumber := h.number
  have hnext : (((m.head.blockNumber.toNat + 1 : Nat)) : Int) = m.head.blockNumber + 1 := by omega
  have hgrounded : (∃ b, m.rootBlocks.lookup p.stateRoot = some b ∧
      groundingAgedOut (m.head.blockNumber + 1) b = false) ↔
      ∃ b, w.recentStateRoots.lookup p.stateRoot = some b ∧
        groundingAgedOut (m.head.blockNumber.toNat + 1 : Nat) b = false := by
    have hbelow : ∀ s, n.stateLog.donStateAtHead = some s →
        s.metadata.block.number < m.head.blockNumber.toNat + 1 := by
      intro s hs
      rw [h.head] at hs
      cases hs
      have hblock := h.block_number
      omega
    have hwindow := groundingCheck_window h.below.rooted h.below.tally hbelow
      (Node.Deriving.start hstart : n.Deriving n.window _ [] w) p.stateRoot
    rw [groundingCheck_eq_none] at hwindow
    have hright : (∃ b, w.recentStateRoots.lookup p.stateRoot = some b ∧
        groundingAgedOut (m.head.blockNumber.toNat + 1 : Nat) b = false) ↔
        n.Groundable p.stateRoot (m.head.blockNumber.toNat + 1) := by
      rw [← hwindow]
      simp [groundingAgedOut]
    rw [hright]
    constructor
    · rintro ⟨b, hb, hyoung⟩
      obtain ⟨row, hrow, s, hs, hroot, rfl⟩ := (h.roots.lookup _ _).mp hb
      refine ⟨row, hrow, s, hs, hroot, ?_⟩
      rw [hnext]
      simpa [groundingAgedOut] using hyoung
    · rintro ⟨row, hrow, s, hs, hroot, hyoung⟩
      refine ⟨_, (h.roots.lookup _ _).mpr ⟨row, hrow, s, hs, hroot, rfl⟩, ?_⟩
      rw [hnext] at hyoung
      simpa [groundingAgedOut] using hyoung
  have hfresh : ∀ x, (m.createdIndex.lookup x).isSome = false ↔ ∀ i, w.created.lookup i ≠ some x := by
    intro x
    have hiff : (m.createdIndex.lookup x).isSome = false ↔ x ∉ l := by
      rw [← h.index.isSome_iff x, Bool.not_eq_true]
    rw [hiff, hcreated, List.mem_iff_getElem?, not_exists]
    simp only [h.created _]
  have hunspent : ∀ x, decide (x ∈ m.nullifierHashes) = false ↔ x ∉ w.nullifiers := by
    intro x
    rw [hnullifiers, h.hashes, decide_eq_false_iff_not]
  constructor
  · intro hnone
    unfold MockDonState.rejection at hnone
    dsimp only at hnone
    split at hnone
    · cases hnone
    · rename_i b hb
      split at hnone
      · cases hnone
      · rename_i hyoung
        split at hnone
        · cases hnone
        · rename_i hcollision
          obtain ⟨hnodup, -, habsent⟩ := firstCollision_eq_none.mp hcollision
          obtain ⟨hnodup', -, habsent'⟩ := firstCollision_eq_none.mp hnone
          refine ⟨hgrounded.mp ⟨b, hb, by simpa using hyoung⟩, hnodup, fun x hx => (hfresh x).mp (habsent x hx), hnodup',
            fun x hx => (hunspent x).mp (habsent' x hx)⟩
  · rintro ⟨hroot, hnodup, hcreatedFresh, hnodup', hunspent'⟩
    obtain ⟨b, hb, hyoung⟩ := hgrounded.mpr hroot
    have hcollision : firstCollision "Duplicate created object within payload"
        "Created object already exists (creation collision)" (fun c => (m.createdIndex.lookup c).isSome) []
        p.created = none :=
      firstCollision_eq_none.mpr ⟨hnodup, by simp, fun x hx => (hfresh x).mpr (hcreatedFresh x hx)⟩
    have hcollision' : firstCollision "Duplicate nullifier within payload" "Duplicate nullifier"
        (fun n => n ∈ m.nullifierHashes) [] p.nullifiers = none :=
      firstCollision_eq_none.mpr ⟨hnodup', by simp, fun x hx => (hunspent x).mpr (hunspent' x hx)⟩
    unfold MockDonState.rejection
    simp only [hb, hyoung, hcollision, hcollision']
    rfl

/-- A slot that starts where `base` ends, and applies nothing else than what `w'` has, ends at `header`. -/
theorem finishState_header {base : Option (DonState V)} {w' : WorkingState V} (header : StateHeader V)
    {block : ExecutionBlock} {state' : DonState V} {history : Pod2.Array V}
    (hfinish : finishState base block w' = .ok (state', history)) (hnumber : (block.number : Int) = header.blockNumber)
    (htime : (block.timestamp : Int) = header.blockTimestamp) (hhash : b256ToHash block.hash = header.blockHash)
    (hcreated : ofArray w'.created = header.createdRoot) (hnullifiers : ofSet w'.nullifiers = header.nullifiersRoot)
    (hprior : (base.elim StateRoots.empty DonState.roots).nextStateHistory = header.priorStateHistoryRoot) :
    state'.stateHeader = header ∧ state'.metadata.stateRoot = header.hash := by
  obtain ⟨hroot, hroot', -, hstate⟩ := finishState_spec hfinish
  obtain ⟨hprior', -, hblock, -⟩ := finishState_history hfinish
  have heq : state'.stateHeader = header := by
    unfold DonState.stateHeader Synchronizer.stateHeader
    rw [hblock, hprior', hprior, hroot, hroot', hnumber, htime, hhash, hcreated, hnullifiers]
  rw [heq] at hstate
  exact ⟨heq, hstate⟩

theorem Mirrors.genesis (net : BlockHashes V) (now : Nat) :
    ∃ n as state, Node.genesis.commitBlock ((MockDonState.genesis net now).block net) none = .ok (n, as) ∧
      Mirrors net (MockDonState.genesis net now) n [] [] state := by
  obtain ⟨n, w, w', as, state, history, hcommit, ⟨hstart, hcalls, hfinish, hslots⟩, hbelow⟩ :=
    (Node.Below.genesis (V := V) 0).commitBlock (Nat.zero_le ((MockDonState.genesis net now).block net).number) none
  cases hcalls
  obtain ⟨hcreated, hnullifiers, hhistory, hcount, -⟩ := startWorking_roots hstart
  obtain ⟨hprior, hnext, hblock, hncount, hrcount⟩ := finishState_history hfinish
  obtain ⟨hroot, hroot', -, -⟩ := finishState_spec hfinish
  have hgenesis : (Node.genesis : Node V).stateLog.donStateAtHead = none := rfl
  simp only [hgenesis, Option.elim_none] at hcreated hnullifiers hhistory hcount hprior hnext hrcount
  have harray : (StateRoots.empty : StateRoots V).created = ofArray ∅ := Values.ofArray_empty.symm
  have hset : (StateRoots.empty : StateRoots V).nullifiers = ofSet ∅ := Values.ofSet_empty.symm
  have hroots : (StateRoots.empty : StateRoots V).nextStateHistory = ofArray ∅ := Values.ofArray_empty.symm
  rw [harray] at hcreated
  rw [hset] at hnullifiers
  rw [hroots] at hhistory hprior
  obtain ⟨hheader, hstate⟩ := finishState_header (MockDonState.genesis net now).head hfinish
    rfl rfl (net.b256ToHash_hashBytes 1) hcreated hnullifiers hroots
  have hslots' : n.stateLog.slots = [⟨1, some state⟩] := hslots
  refine ⟨n, [], state, hcommit, ?_⟩
  refine {
    below := hbelow
    head := (by rw [StateLogDb.donStateAtHead, hslots']; rfl)
    block := hblock
    header := hheader
    number := Int.le_refl 1
    time := Int.natCast_nonneg now
    created := Represents.nil
    created_root := hroot.trans hcreated
    index := Indexed.nil
    nullifiers_root := hroot'.trans hnullifiers
    hashes := rfl
    nullifier_count := hncount.trans hcount
    history := Represents.nil
    prior := hprior
    next := ?_
    root_count := hrcount
    roots := ?_
    response := Finmap.lookup_insert _ }
  · rw [ofArray_inj] at hhistory
    rw [hnext, hhistory, hstate]
    rfl
  · rw [hslots']
    have hnumber : (state.metadata.block.number : Int) = 1 := congrArg StateHeader.blockNumber hheader
    exact Numbered.nil.cons hstate hnumber fun row hrow => (by cases hrow)

/-- No root of the log is that of a later block. -/
theorem Mirrors.new_root (h : Mirrors net m n l hl state) {header : StateHeader V}
    (hnumber : header.blockNumber = m.head.blockNumber + 1) :
    ∀ row ∈ n.stateLog.slots, ∀ s, row.state = some s → s.metadata.stateRoot ≠ header.hash := by
  intro row hrow s hs heq
  rw [h.below.rooted row hrow s hs] at heq
  have hsame : (s.metadata.block.number : Int) = header.blockNumber := StateHeader.blockNumber_of_hash heq
  have hlt := (h.below.slots row hrow).2 s hs
  have hone := h.number
  omega

/-- An accepted payload is applied. -/
theorem Mirrors.apply_ok (h : Mirrors net m n l hl state) {p : MockPayload V} {w : WorkingState V} {proof : List Nat}
    (hstart : startWorking n.containers n.stateLog.donStateAtHead n.window = .ok w)
    (hacc : Acceptable w (p.toPayload proof) (m.head.blockNumber.toNat + 1)) (now : Nat) :
    ∃ m₁ m' : MockDonState V, m.apply net p now = .ok m' ∧ m₁.Advanced net now m' ∧ m₁.head = m.head ∧
      m₁.stateHistory = m.stateHistory ∧ m₁.rootBlocks = m.rootBlocks ∧
      Represents m₁.created (l ++ p.created) ∧ Indexed m₁.createdIndex (l ++ p.created) ∧
      m₁.nullifiers = m.nullifiers ∪ p.nullifiers.toFinset ∧ m₁.nullifierHashes = m₁.nullifiers := by
  obtain ⟨hcreated, hnullifiers, -, -⟩ := h.start hstart
  have hfresh : ∀ x ∈ p.created, x ∉ l := by
    intro x hx hin
    obtain ⟨i, hi⟩ := List.mem_iff_getElem?.mp hin
    have hnot := hacc.fresh x hx i
    rw [hcreated, h.created i] at hnot
    exact hnot hi
  have hunspent : ∀ x ∈ p.nullifiers, x ∉ m.nullifiers := by
    intro x hx
    rw [← hnullifiers]
    exact hacc.unspent x hx
  have hnodup : p.created.Nodup := hacc.created_nodup
  have hnodup' : p.nullifiers.Nodup := hacc.nullifiers_nodup
  obtain ⟨created, index, hinsert, hrep, hindex⟩ :=
    MockDonState.insertCreated_spec h.created h.index hnodup hfresh
  have hinsert' := MockDonState.insertNullifiers_spec (m := { m with created := created, createdIndex := index })
    h.hashes hnodup' hunspent
  have hfree : m.stateHistory.lookup (m.rootBlocks.keys.card - 1) = none := by
    rw [h.history, h.roots.card]
    simp
  obtain ⟨m', hhead, hadvanced⟩ := MockDonState.nextHead_spec net (m := { m with
    created := created
    createdIndex := index
    nullifiers := m.nullifiers ∪ p.nullifiers.toFinset
    nullifierHashes := m.nullifiers ∪ p.nullifiers.toFinset }) now hfree
  refine ⟨_, m', ?_, hadvanced, rfl, rfl, rfl, hrep, hindex, rfl, rfl⟩
  rw [MockDonState.apply, hinsert]
  simp only [bind, Except.bind]
  rw [hinsert']
  exact hhead

/-- The node derives the block of an accepted payload, which leaves it beside the next state. -/
theorem Mirrors.apply (h : Mirrors net m n l hl state) {p : MockPayload V} (hnone : m.rejection p = none) (now : Nat)
    (proof : List Nat) :
    ∃ m' n' as state', m.apply net p now = .ok m' ∧
      n.commitBlock (m'.block net) (some (p.toPayload proof)) = .ok (n', as) ∧
      Mirrors net m' n' (l ++ p.created) (hl ++ [m.head.hash]) state' := by
  have hone := h.number
  have htime := h.time
  obtain ⟨w, hstart⟩ := h.below.stocked.backed.startWorking n.window
  have hacc := (h.rejection_eq_none hstart p proof).mp hnone
  obtain ⟨m₁, m', happly, hadvanced, hhead₁, hhistory₁, hroots₁, hrep₁, hindex₁, hnull₁, hhashes₁⟩ :=
    h.apply_ok hstart hacc now
  have hhead' := hadvanced.head
  rw [hhead₁] at hhead'
  have hnumber' : m'.head.blockNumber = m.head.blockNumber + 1 := by rw [hhead']
  have hblock : (m'.block net).number = m.head.blockNumber.toNat + 1 := by
    show m'.head.blockNumber.toNat = _
    omega
  have hblock' : ((m'.block net).number : Int) = m'.head.blockNumber := by omega
  have hhash' : b256ToHash (m'.block net).hash = m'.head.blockHash := by
    have hhash : m'.head.blockHash = net.blockHash (m.head.blockNumber + 1) := by rw [hhead']
    show b256ToHash (net.hashBytes m'.head.blockHash) = m'.head.blockHash
    rw [hhash, net.b256ToHash_hashBytes]
  have hone' : 1 ≤ m'.head.blockNumber := by omega
  have htime' : 0 ≤ m'.head.blockTimestamp := by
    rw [hhead']
    simp only
    omega
  -- the node's side
  obtain ⟨n', u, w', as, state', history, hcommit, ⟨hstart', hcalls, hfinish, hslots⟩, hbelow⟩ :=
    h.below.commitBlock (Nat.le_of_eq hblock.symm) (some (p.toPayload proof))
  obtain rfl : w = u := Except.ok.inj (hstart.symm.trans hstart')
  obtain ⟨hcreated, hnullifiers, hhistory, hncount⟩ := h.start hstart
  have htally := startWorking_tally h.below.tally hstart
  have hprior : ∀ x ∈ (p.toPayload proof).created,
      (alreadyCreated w (n.stateLog.createdIndices p.created) x = true ↔ x ∈ l) :=
    h.below.tally.index.prefetched p.created w l htally
  obtain ⟨rejection, w₁, hstep, hiff, happlied, -⟩ :=
    applyPayload_exact (m.head.blockNumber.toNat + 1) htally hprior
  obtain rfl := hiff.mpr hacc
  obtain ⟨hpayload, htally'⟩ := happlied rfl
  have hcalls' : w' = w₁ ∧ as = [⟨w, p.toPayload proof, none⟩] := by
    have hone : applyPayloads (n.stateLog.createdIndices p.created) (m'.block net).number w [p.toPayload proof] =
        .ok (w', as) := hcalls
    rw [hblock, applyPayloads] at hone
    simp only [hstep, bind, Except.bind, applyPayloads] at hone
    cases hone
    exact ⟨rfl, rfl⟩
  obtain ⟨rfl, rfl⟩ := hcalls'
  have hwcreated : w'.created = m'.created := by
    rw [hadvanced.created]
    exact htally'.represents.unique hrep₁
  have hwnullifiers : w'.nullifiers = m'.nullifiers := by
    rw [hadvanced.nullifiers, hnull₁, hpayload.nullifiers, hnullifiers]
    rfl
  have hbase : (n.stateLog.donStateAtHead.elim StateRoots.empty DonState.roots).nextStateHistory =
      ofArray m'.stateHistory := by
    rw [h.head, Option.elim_some, h.next, hadvanced.history, hhistory₁, hroots₁, hhead₁, h.roots.card]
    rfl
  obtain ⟨hheader, hstate⟩ := finishState_header m'.head hfinish
    hblock' (Int.toNat_of_nonneg htime')
    hhash'
    (by rw [hhead', hwcreated, hadvanced.created])
    (by rw [hhead', hwnullifiers, hadvanced.nullifiers])
    (by rw [hhead', hbase])
  obtain ⟨hroot, hroot', -, -⟩ := finishState_spec hfinish
  obtain ⟨hprior, hnext, hmeta, hncount', hrcount⟩ := finishState_history hfinish
  rw [h.head, Option.elim_some, h.root_count] at hnext hrcount
  have hcards : w'.nullifierCount = m'.nullifiers.card := by
    have hdisjoint : Disjoint m.nullifiers p.nullifiers.toFinset := by
      rw [Finset.disjoint_right, ← hnullifiers]
      intro x hx
      exact hacc.unspent x (List.mem_toFinset.mp hx)
    have hnodup : p.nullifiers.Nodup := hacc.nullifiers_nodup
    rw [hpayload.nullifierCount, hncount, hadvanced.nullifiers, hnull₁, Finset.card_union_of_disjoint hdisjoint,
      List.toFinset_card_of_nodup hnodup]
    rfl
  refine ⟨m', n', _, state', happly, hcommit, ?_⟩
  refine {
    below := ?_
    head := (by rw [StateLogDb.donStateAtHead, hslots]; rfl)
    block := hmeta
    header := hheader
    number := hone'
    time := htime'
    created := (by rw [hadvanced.created]; exact hrep₁)
    created_root := (by rw [hroot, hwcreated])
    index := (by rw [hadvanced.index]; exact hindex₁)
    nullifiers_root := (by rw [hroot', hwnullifiers])
    hashes := (by rw [hadvanced.hashes, hhashes₁, hadvanced.nullifiers])
    nullifier_count := hncount'.trans hcards
    history := ?_
    prior := hprior.trans hbase
    next := ?_
    root_count := (by rw [hrcount, List.length_append]; rfl)
    roots := ?_
    response := hadvanced.response }
  · have hlist : createdBy [(⟨w, p.toPayload proof, none⟩ : Attempt V)] = p.created := by
      simp [createdBy, Attempt.created, MockPayload.toPayload]
    rw [hlist] at hbelow
    exact hbelow
  · rw [hadvanced.history, hhistory₁, hroots₁, hhead₁, h.roots.card]
    exact h.history.append m.head.hash
  · rw [hnext, hpayload.nextStateHistory, hhistory, hstate, hadvanced.history, hhistory₁, hroots₁, hhead₁, h.roots.card,
      List.length_append]
    rfl
  · rw [hslots, hadvanced.roots, hroots₁, List.length_append]
    exact h.roots.cons hstate (congrArg StateHeader.blockNumber hheader) (h.new_root hnumber')

/-! ## Submissions -/

variable [EncodeHex V]

/-- What `derive_slot_state` has a counterpart of. -/
structure Unchanged (m m' : MockDonState V) : Prop where
  head : m'.head = m.head
  created : m'.created = m.created
  createdIndex : m'.createdIndex = m.createdIndex
  nullifiers : m'.nullifiers = m.nullifiers
  nullifierHashes : m'.nullifierHashes = m.nullifierHashes
  stateHistory : m'.stateHistory = m.stateHistory
  rootBlocks : m'.rootBlocks = m.rootBlocks
  derivedStates : m'.derivedStates = m.derivedStates

omit [EncodeHex V] in
/-- The statuses and the jobs are no part of the simulation. -/
theorem Mirrors.unchanged (h : Mirrors net m n l hl state) {m' : MockDonState V} (hsame : Unchanged m m') :
    Mirrors net m' n l hl state := by
  cases m
  cases m'
  obtain ⟨h₁, h₂, h₃, h₄, h₅, h₆, h₇, h₈⟩ := hsame
  simp only at h₁ h₂ h₃ h₄ h₅ h₆ h₇ h₈
  subst h₁ h₂ h₃ h₄ h₅ h₆ h₇ h₈
  exact ⟨h.below, h.head, h.block, h.header, h.number, h.time, h.created, h.created_root, h.index, h.nullifiers_root, h.hashes,
    h.nullifier_count, h.history, h.prior, h.next, h.root_count, h.roots, h.response⟩

theorem MockDonState.record_unchanged (m : MockDonState V) (p : MockPayload V) (error : Option String)
    (createdAt : Nat) : Unchanged m (m.record p error createdAt) := ⟨rfl, rfl, rfl, rfl, rfl, rfl, rfl, rfl⟩

/-- A submission that gets no block is answered or refused, and changes nothing of the network. -/
theorem MockDonState.submit_unchanged (net : BlockHashes V) {m : MockDonState V} {s : Submission V}
    (hnone : m.accepts s = none) : Unchanged m (m.submit net s).1 := by
  have hsame : Unchanged m m := ⟨rfl, rfl, rfl, rfl, rfl, rfl, rfl, rfl⟩
  unfold submit
  unfold accepts at hnone
  cases hpayload : s.payload with
  | error err => exact hsame
  | ok p =>
    rw [hpayload] at hnone
    cases hjob : m.jobIdsByTxFinal.lookup p.txFinal with
    | some jobId =>
      simp only [hjob]
      exact hsame
    | none =>
      cases hreject : m.rejection p with
      | none => simp [hjob, hreject] at hnone
      | some reason =>
        simp only [hjob, hreject]
        exact m.record_unchanged p (some reason) s.createdAt

theorem Mirrors.submit_accepted (h : Mirrors net m n l hl state) {s : Submission V} {p : MockPayload V}
    (haccepts : m.accepts s = some p) (proof : List Nat) :
    ∃ n' as state', n.commitBlock ((m.submit net s).1.block net) (some (p.toPayload proof)) = .ok (n', as) ∧
      Mirrors net (m.submit net s).1 n' (l ++ p.created) (hl ++ [m.head.hash]) state' := by
  unfold MockDonState.accepts at haccepts
  cases hpayload : s.payload with
  | error err =>
    rw [hpayload] at haccepts
    cases haccepts
  | ok q =>
    rw [hpayload] at haccepts
    by_cases hfree : m.jobIdsByTxFinal.lookup q.txFinal = none ∧ m.rejection q = none
    · simp only [if_pos hfree, Option.some.injEq] at haccepts
      subst haccepts
      obtain ⟨m', n', as, state', happly, hcommit, hmirrors⟩ := h.apply hfree.2 s.now proof
      have hsubmit : (m.submit net s).1 = m'.record q none s.createdAt := by
        unfold MockDonState.submit
        simp only [hpayload, hfree.1, hfree.2, happly]
      rw [hsubmit]
      exact ⟨n', as, state', hcommit, hmirrors.unchanged (m'.record_unchanged q none s.createdAt)⟩
    · simp [if_neg hfree] at haccepts

theorem Mirrors.submitAll (proofOf : MockPayload V → List Nat) {chain : Chain V}
    (hchain : Node.genesis.commitBlocks chain = .ok n) (h : Mirrors net m n l hl state)
    (submissions : List (Submission V)) :
    ∃ n' l' hl' state', Node.genesis.commitBlocks (submitAll net proofOf (m, chain) submissions).2 = .ok n' ∧
      Mirrors net (MockDon.submitAll net proofOf (m, chain) submissions).1 n' l' hl' state' := by
  induction submissions generalizing m n l hl state chain with
  | nil => exact ⟨n, l, hl, state, hchain, h⟩
  | cons s submissions ih =>
    rw [MockDon.submitAll]
    cases haccepts : m.accepts s with
    | none => exact ih hchain (h.unchanged (MockDonState.submit_unchanged net haccepts))
    | some p =>
      obtain ⟨n', as, state', hcommit, hmirrors⟩ := h.submit_accepted haccepts (proofOf p)
      refine ih ?_ hmirrors
      rw [Node.commitBlocks_append hchain, Node.commitBlocks, hcommit]
      rfl

/-- What the mock network and the head that the synchronizer derived agree on. -/
structure Agrees (net : BlockHashes V) (m : MockDonState V) (n : Node V) (state : DonState V) : Prop where
  head : n.stateLog.donStateAtHead = some state
  header : state.stateHeader = m.head
  root : state.metadata.stateRoot = m.head.hash
  created : n.containers.openArray state.roots.created = .ok m.created
  indices : ∀ c j, m.createdIndex.lookup c = some j ↔
    ∃ r ∈ n.stateLog.createdIndex, r.commitment = c ∧ (r.arrayIndex : Int) = j
  nullifiers : n.containers.openSet state.roots.nullifiers = .ok m.nullifiers
  nullifierHashes : m.nullifierHashes = m.nullifiers
  priorStateHistory : state.roots.priorStateHistory = ofArray m.stateHistory
  response : m.derivedStates.lookup m.head.blockNumber = some
    ⟨state.metadata.block.number % 2 ^ 32, state.metadata.stateRoot, state.metadata.block.number,
      state.metadata.block.hash, state.metadata.createdCount, state.metadata.nullifierCount,
      state.metadata.stateRootCount⟩
  createdCount : m.createdIndex.keys.card = state.metadata.createdCount
  nullifierCount : m.nullifierHashes.card = state.metadata.nullifierCount
  stateRootCount : m.rootBlocks.keys.card = state.metadata.stateRootCount
  accepts : ∀ (p : MockPayload V) (proof : List Nat) (candidates : List V), p.created ⊆ candidates →
    ∃ w reason w', startWorking n.containers n.stateLog.donStateAtHead n.window = .ok w ∧
      applyPayload w (p.toPayload proof) (n.stateLog.createdIndices candidates) (state.metadata.block.number + 1) =
        .ok (reason, w') ∧
      (m.rejection p = none ↔ reason = none)

omit [EncodeHex V] in
theorem Mirrors.agrees (h : Mirrors net m n l hl state) : Agrees net m n state := by
  have hnumber := h.block_number
  have hone := h.number
  have hcount : state.metadata.createdCount = l.length := by
    have hhead := h.below.tally.head
    rw [h.head] at hhead
    exact hhead.2
  obtain ⟨w, hstart⟩ := h.below.stocked.backed.startWorking n.window
  obtain ⟨row, hrow, hstate⟩ := List.exists_of_findSome?_eq_some h.head
  obtain ⟨⟨created, hcreated⟩, ⟨nullifiers, hnullifiers, -⟩, -⟩ := h.below.stocked row hrow state hstate
  have hcreated' : created = m.created := by
    have hroot := ContainerDb.openArray_root hcreated
    rw [h.created_root, ofArray_inj] at hroot
    exact hroot
  have hnullifiers' : nullifiers = m.nullifiers := by
    have hroot := ContainerDb.openSet_root hnullifiers
    rw [h.nullifiers_root, ofSet_inj] at hroot
    exact hroot
  refine {
    head := h.head
    header := h.header
    root := h.root
    created := hcreated' ▸ hcreated
    indices := fun c j => ?_
    nullifiers := hnullifiers' ▸ hnullifiers
    nullifierHashes := h.hashes
    priorStateHistory := h.prior
    response := ?_
    createdCount := h.index.card.trans hcount.symm
    nullifierCount := (by rw [h.hashes, h.nullifier_count])
    stateRootCount := h.roots.card.trans h.root_count.symm
    accepts := fun p proof candidates hcover => ?_ }
  · rw [h.index.lookup c j]
    constructor
    · rintro ⟨k, hk, hkj⟩
      obtain ⟨r, hr, hrc, hrk⟩ := (h.below.tally.index c k).mpr hk
      exact ⟨r, hr, hrc, by rw [hrk, hkj]⟩
    · rintro ⟨r, hr, hrc, hrj⟩
      exact ⟨r.arrayIndex, (h.below.tally.index c r.arrayIndex).mp ⟨r, hr, hrc, rfl⟩, hrj⟩
  · have hslot : state.metadata.block.number = m.head.blockNumber.toNat := congrArg ExecutionBlock.number h.block
    have hhash : state.metadata.block.hash = net.hashBytes m.head.blockHash := congrArg ExecutionBlock.hash h.block
    rw [h.response, hnumber, hslot, hhash, h.root, hcount, h.nullifier_count, h.root_count, h.index.card, h.hashes,
      h.roots.card]
  · have htally := startWorking_tally h.below.tally hstart
    have hprior : ∀ x ∈ (p.toPayload proof).created,
        (alreadyCreated w (n.stateLog.createdIndices candidates) x = true ↔ x ∈ l) := fun x hx =>
      h.below.tally.index.prefetched candidates w l htally x (hcover hx)
    obtain ⟨reason, w', hstep, hiff, -⟩ :=
      applyPayload_exact (state.metadata.block.number + 1) htally hprior
    refine ⟨w, reason, w', hstart, hstep, ?_⟩
    rw [hiff, h.rejection_eq_none hstart p proof, ← hnumber]
    rfl

/-- After any submissions the chain of the accepted ones derives, its head is the mock network's state,
and both accept the same payloads next; what gets no block changes nothing. -/
theorem submissions_agree (net : BlockHashes V) (proofOf : MockPayload V → List Nat) (now : Nat)
    (submissions : List (Submission V)) :
    ∃ n state, Node.genesis.commitBlocks (runFrom net proofOf now submissions).2 = .ok n ∧
      Agrees net (runFrom net proofOf now submissions).1 n state ∧
      ∀ s, (runFrom net proofOf now submissions).1.accepts s = none →
        Unchanged (runFrom net proofOf now submissions).1 ((runFrom net proofOf now submissions).1.submit net s).1 := by
  obtain ⟨n, as, state, hcommit, hmirrors⟩ := Mirrors.genesis net now
  have hchain : Node.genesis.commitBlocks [((MockDonState.genesis net now).block net, none)] = .ok n := by
    simp only [Node.commitBlocks, hcommit, bind, Except.bind]
  obtain ⟨n', l', hl', state', hchain', hmirrors'⟩ := hmirrors.submitAll proofOf hchain submissions
  exact ⟨n', state', hchain', hmirrors'.agrees, fun s hs => MockDonState.submit_unchanged net hs⟩

def leaves : Term → List Nat
  | .pair (.atom n) rest => n :: leaves rest
  | _ => []

theorem leaves_list (limbs : List Nat) : leaves (Term.list (limbs.map .atom)) = limbs := by
  induction limbs with
  | nil => rfl
  | cons x limbs ih =>
    show x :: leaves (Term.list (limbs.map .atom)) = x :: limbs
    rw [ih]

/-- Hashes of one limb. -/
def rawHashes : BlockHashes Term where
  blockHash n := ofRaw [n.toNat % fieldOrder, 0, 0, 0]
  limbs
    | .pair _ rest => leaves rest
    | .atom _ => []
  length_limbs n := congrArg List.length (leaves_list [n.toNat % fieldOrder, 0, 0, 0])
  limbs_lt n x hx := by
    have hlimbs : x ∈ [n.toNat % fieldOrder, 0, 0, 0] := by
      rw [← leaves_list [n.toNat % fieldOrder, 0, 0, 0]]
      exact hx
    have hmod : n.toNat % fieldOrder < fieldOrder := Nat.mod_lt _ (by decide)
    simp only [List.mem_cons, List.not_mem_nil, or_false] at hlimbs
    omega
  ofRaw_limbs n := congrArg ofRaw (leaves_list [n.toNat % fieldOrder, 0, 0, 0])

instance : EncodeHex Term := ⟨fun t => toString t.code⟩

/-- An object created at genesis, and the same submission again. -/
def twice : List (Submission Term) :=
  let payload : MockPayload Term := ⟨ofInt 7, (MockDonState.genesis rawHashes 0).head.hash, [], [ofInt 5]⟩
  [⟨.ok payload, 0, 0⟩, ⟨.ok payload, 0, 0⟩]

theorem submissions_agree_twice :
    ∃ n state, Node.genesis.commitBlocks (runFrom rawHashes (fun _ => []) 0 twice).2 = .ok n ∧
      Agrees rawHashes (runFrom rawHashes (fun _ => []) 0 twice).1 n state := by
  obtain ⟨n, state, hchain, hagrees, -⟩ := submissions_agree rawHashes (fun _ => []) 0 twice
  exact ⟨n, state, hchain, hagrees⟩

end DigitalObjects.Driver.MockDon
