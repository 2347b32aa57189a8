import DigitalObjects.EthClients.Beacon
import DigitalObjects.Synchronizer.State
set_option autoImplicit false

/-!
`canonical_payload`: the execution payload that becomes canonical with a beacon block. Over
a whole chain it yields the execution chain, each payload once.
-/

namespace DigitalObjects.Synchronizer

open Lib EthClients

/-- A blob transaction of the payload that is sent to the target address. -/
structure TargetTxHashes where
  txHash : B256
  versionedHashes : List B256
deriving DecidableEq, Repr

/-- A payload, with the beacon block whose bid committed to its blobs. -/
structure CanonicalPayload where
  committingBlockRoot : B256
  executionBlock : ExecutionBlock
  kzgBlobCommitments : List (B256 × KzgCommitment)
  targetBlobTxs : List TargetTxHashes
deriving DecidableEq, Repr

/-- The node's clients and what it is configured with. -/
structure Network where
  clients : Clients
  kzgToVersionedHash : KzgCommitment → B256
  toAddress : Address

namespace Network

variable (net : Network)

/-- The parent block: `prev_block` where it is the parent, else as fetched. -/
def parentBlock (b : Block) (prev : Option BlockAndRoot) : Fetch Block :=
  match prev with
  | some p => if p.root = b.parentRoot then .ok p.block else net.clients.getBeaconBlock b.parentRoot
  | none => net.clients.getBeaconBlock b.parentRoot

/-- The block that committed to the canonical payload, with its root. -/
def committingBlock (header : BlockHeader) (b : Block) (prev : Option BlockAndRoot) :
    Fetch (Option (B256 × Block)) :=
  match b.executionPayload with
  | .embedded _ => pure (some (header.root, b))
  | .bid _ _ => do
    let parent ← net.parentBlock b prev
    pure (if b.buildsOnPayloadOf parent then some (b.parentRoot, parent) else none)

def commitments (b : Block) : List (B256 × KzgCommitment) :=
  b.blobKzgCommitments.map fun c => (net.kzgToVersionedHash c, c)

def targetTxHashes (txs : List Transaction) : List TargetTxHashes :=
  (txs.filter fun tx => tx.to_ = some net.toAddress).filterMap fun tx =>
    tx.blobVersionedHashes.map fun hashes => ⟨tx.hash, hashes⟩

def targetBlobTxs (commitments : List (B256 × KzgCommitment)) (txs : Option (List Transaction)) :
    Fetch (List TargetTxHashes) :=
  match txs with
  | some txs => pure (net.targetTxHashes txs)
  | none =>
    if commitments = [] then pure []
    else .err (.other "Consensus block has blobs but the execution block doesn't have txs")

/-- The payload that the committing block names, read from the execution node. -/
def readPayload (root : B256) (b : Block) : Fetch CanonicalPayload := do
  let commitments := net.commitments b
  let hash := b.executionPayload.blockHash
  let kind := if commitments = [] then BlockTransactionsKind.hashes else .full
  let block ← fetchOnceAvailable "execution block" (net.clients.rpcBlock hash kind)
  let txs ← net.targetBlobTxs commitments block.transactions
  pure ⟨root, ⟨block.number, block.timestamp, hash⟩, commitments, txs⟩

def canonicalPayload (header : BlockHeader) (b : Block) (prev : Option BlockAndRoot) :
    Fetch (Option CanonicalPayload) := do
  let committing ← net.committingBlock header b prev
  match committing with
  | none => pure none
  | some (root, block) => do
    let payload ← net.readPayload root block
    pure (some payload)

end Network

/-! ## The execution chain -/

/-- A block of the beacon chain, and whether its payload was revealed in time for its child. -/
structure ChainBlock where
  root : B256
  block : Block
  revealed : Bool
deriving DecidableEq, Repr

namespace ChainBlock

def header (b : ChainBlock) : BlockHeader := ⟨b.root, b.block.parentRoot, b.block.slot⟩

def hash (b : ChainBlock) : B256 := b.block.executionPayload.blockHash

def isBid (b : ChainBlock) : Bool :=
  match b.block.executionPayload with
  | .embedded _ => false
  | .bid _ _ => true

/-- The latest canonical execution hash that a block builds on, or carries itself. -/
def view (b : ChainBlock) : B256 :=
  match b.block.executionPayload with
  | .embedded h => h
  | .bid _ parentBlockHash => parentBlockHash

/-- The latest canonical execution hash that a child of the block has to build on. -/
def latest (b : ChainBlock) : B256 :=
  if b.isBid ∧ b.revealed = false then b.view else b.hash

end ChainBlock

/-- The execution hashes of a chain, newest block first, down to the hash that a first bid
builds on. -/
def executionHashes : List ChainBlock → List B256
  | [] => []
  | [b] => [b.hash] ++ if b.isBid then [b.view] else []
  | b :: rest => b.hash :: executionHashes rest

/-- A parent-linked beacon chain, newest block first: embedded payloads up to the fork and
bids from there on. Slots may be skipped. -/
inductive BeaconChain : List ChainBlock → Prop
  | first (b : ChainBlock) : (b.isBid → b.view ≠ b.hash) → BeaconChain [b]
  | next {b p : ChainBlock} {rest : List ChainBlock} :
      BeaconChain (p :: rest) →
      b.block.parentRoot = p.root → p.block.slot < b.block.slot →
      (p.isBid → b.isBid) →
      (b.isBid → b.view = p.latest) →
      b.hash ∉ executionHashes (p :: rest) →
      BeaconChain (b :: p :: rest)

/-- The blocks whose payloads are canonical in the view of the newest block, newest first. -/
def executionChain : List ChainBlock → List ChainBlock
  | [] => []
  | b :: rest =>
    if b.isBid then
      match rest.head? with
      | some p => if p.isBid ∧ p.revealed then p :: executionChain rest else executionChain rest
      | none => executionChain rest
    else b :: executionChain rest

theorem executionHashes_cons (b p : ChainBlock) (rest : List ChainBlock) :
    executionHashes (b :: p :: rest) = b.hash :: executionHashes (p :: rest) := rfl

theorem ChainBlock.view_embedded {b : ChainBlock} (h : b.isBid = false) : b.view = b.hash := by
  unfold isBid at h
  unfold view hash
  split at h
  · rename_i hb
    simp [hb, ExecutionPayloadRef.blockHash]
  · cases h

theorem hash_mem_executionHashes {b : ChainBlock} {rest : List ChainBlock} :
    b.hash ∈ executionHashes (b :: rest) := by
  cases rest with
  | nil => simp [executionHashes]
  | cons p rest => simp [executionHashes]

theorem BeaconChain.older {newer rest : List ChainBlock} {b : ChainBlock}
    (h : BeaconChain (newer ++ b :: rest)) : BeaconChain (b :: rest) := by
  induction newer with
  | nil => exact h
  | cons a newer ih =>
    refine ih ?_
    cases hlist : newer ++ b :: rest with
    | nil => simp at hlist
    | cons p rest' =>
      rw [List.cons_append, hlist] at h
      cases h with
      | next hp => exact hp

/-- What a block builds on is an execution hash of the chain, and not its own. -/
theorem BeaconChain.view_mem {b : ChainBlock} {rest : List ChainBlock} (h : BeaconChain (b :: rest)) :
    b.view ∈ executionHashes (b :: rest) ∧ (b.isBid → b.view ≠ b.hash) := by
  induction rest generalizing b with
  | nil =>
    cases h with
    | first _ hne =>
      refine ⟨?_, hne⟩
      cases hb : b.isBid with
      | false => simp [executionHashes, hb, ChainBlock.view_embedded hb]
      | true => simp [executionHashes, hb]
  | cons p rest ih =>
    cases h with
    | next hp _ _ _ hview hfresh =>
      have hlatest : p.latest ∈ executionHashes (p :: rest) := by
        unfold ChainBlock.latest
        split
        · exact (ih hp).1
        · exact hash_mem_executionHashes
      cases hb : b.isBid with
      | false =>
        rw [ChainBlock.view_embedded hb]
        exact ⟨hash_mem_executionHashes, by simp⟩
      | true =>
        have hmem : b.view ∈ executionHashes (p :: rest) := by
          rw [hview hb]
          exact hlatest
        refine ⟨List.mem_cons_of_mem _ hmem, ?_⟩
        intro _ heq
        rw [heq] at hmem
        exact hfresh hmem

/-- A bid builds on the payload of its parent exactly when the parent is a revealed bid. -/
theorem BeaconChain.buildsOn {b p : ChainBlock} {rest : List ChainBlock}
    (h : BeaconChain (b :: p :: rest)) (hb : b.isBid = true) :
    b.block.buildsOnPayloadOf p.block = true ↔ p.isBid = true ∧ p.revealed = true := by
  cases h with
  | next hp _ _ _ hview _ =>
    have hne := hp.view_mem.2
    have hlatest := hview hb
    unfold ChainBlock.latest at hlatest
    unfold ChainBlock.isBid at hb hne hlatest ⊢
    unfold ChainBlock.view ChainBlock.hash at hne hlatest
    unfold Block.buildsOnPayloadOf
    cases hbp : b.block.executionPayload with
    | embedded h => simp [hbp] at hb
    | bid h ph =>
      cases hpp : p.block.executionPayload with
      | embedded h' => simp
      | bid h' ph' =>
        simp only [hpp, hbp, ExecutionPayloadRef.blockHash, forall_const, true_and] at hne hlatest
        cases hr : p.revealed with
        | true => simp [hlatest, hr]
        | false => simpa [hlatest, hr] using hne

theorem executionChain_bid {b p : ChainBlock} {rest : List ChainBlock} (hb : b.isBid = true) :
    executionChain (b :: p :: rest) =
      if p.isBid ∧ p.revealed then p :: executionChain (p :: rest) else executionChain (p :: rest) := by
  rw [executionChain, if_pos hb]
  rfl

theorem executionChain_embedded {b : ChainBlock} {rest : List ChainBlock} (hb : b.isBid = false) :
    executionChain (b :: rest) = b :: executionChain rest := by
  simp [executionChain, hb]

theorem executionChain_suffix (b : ChainBlock) (rest : List ChainBlock) :
    executionChain rest <:+ executionChain (b :: rest) := by
  cases hb : b.isBid with
  | false =>
    rw [executionChain_embedded hb]
    exact List.suffix_cons b _
  | true =>
    cases rest with
    | nil => simp [executionChain]
    | cons p rest =>
      rw [executionChain_bid hb]
      split
      · exact List.suffix_cons p _
      · exact List.suffix_rfl

theorem executionChain_append_suffix (newer older : List ChainBlock) :
    executionChain older <:+ executionChain (newer ++ older) := by
  induction newer with
  | nil => exact List.suffix_rfl
  | cons b newer ih => exact ih.trans (executionChain_suffix b (newer ++ older))

/-- A bid becomes canonical only with a later block. -/
theorem executionChain_sublist (b : ChainBlock) (rest : List ChainBlock) :
    (executionChain (b :: rest)).Sublist (if b.isBid then rest else b :: rest) := by
  induction rest generalizing b with
  | nil => cases hb : b.isBid <;> simp [executionChain, hb]
  | cons p rest ih =>
    have hp := ih p
    have hall : (executionChain (p :: rest)).Sublist (p :: rest) := by
      split at hp
      · exact hp.cons p
      · exact hp
    cases hb : b.isBid with
    | false =>
      rw [executionChain_embedded hb]
      simpa using hall
    | true =>
      rw [executionChain_bid hb]
      split
      · rename_i hrev
        rw [if_pos hrev.1] at hp
        simpa using hp
      · simpa using hall

theorem executionChain_subset {c : List ChainBlock} {q : ChainBlock} (h : q ∈ executionChain c) :
    q ∈ c := by
  cases c with
  | nil => cases h
  | cons b rest =>
    have hmem := (executionChain_sublist b rest).subset h
    split at hmem
    · exact List.mem_cons_of_mem b hmem
    · exact hmem

theorem BeaconChain.nodup {c : List ChainBlock} (h : BeaconChain c) :
    (c.map ChainBlock.hash).Nodup := by
  induction h with
  | first b _ => simp
  | @next b p rest _ _ _ _ _ hfresh ih =>
    have hsub : ∀ c : List ChainBlock, ∀ q ∈ c, q.hash ∈ executionHashes c := by
      intro c
      induction c with
      | nil => simp
      | cons a c ihc =>
        intro q hq
        rcases List.mem_cons.mp hq with rfl | hq
        · exact hash_mem_executionHashes
        · cases c with
          | nil => cases hq
          | cons a' c => exact List.mem_cons_of_mem _ (ihc q hq)
    refine List.nodup_cons.mpr ⟨?_, ih⟩
    intro hmem
    obtain ⟨q, hq, heq⟩ := List.mem_map.mp hmem
    exact hfresh (heq ▸ hsub (p :: rest) q hq)

/-- The canonical payloads: those of the embedded blocks and of the revealed bids that have
a child in the chain. -/
theorem BeaconChain.mem_executionChain {b : ChainBlock} {rest : List ChainBlock}
    (h : BeaconChain (b :: rest)) (q : ChainBlock) :
    q ∈ executionChain (b :: rest) ↔
      (q = b ∧ b.isBid = false) ∨ (q ∈ rest ∧ (q.isBid → q.revealed)) := by
  induction rest generalizing b with
  | nil => cases hb : b.isBid <;> simp [executionChain, hb]
  | cons p rest ih =>
    cases h with
    | next hp _ _ hfork _ _ =>
      have hrest := ih hp
      cases hb : b.isBid with
      | false =>
        have hpe : p.isBid = false := by
          cases hpb : p.isBid with
          | false => rfl
          | true => simp [hfork hpb] at hb
        rw [executionChain_embedded hb, List.mem_cons, hrest]
        simp only [hpe, and_true, List.mem_cons]
        constructor
        · rintro (rfl | rfl | ⟨hq, hrev⟩)
          · exact .inl rfl
          · exact .inr ⟨.inl rfl, by simp [hpe]⟩
          · exact .inr ⟨.inr hq, hrev⟩
        · rintro (rfl | ⟨rfl | hq, hrev⟩)
          · exact .inl rfl
          · exact .inr (.inl rfl)
          · exact .inr (.inr ⟨hq, hrev⟩)
      | true =>
        rw [executionChain_bid hb]
        by_cases hrev : p.isBid = true ∧ p.revealed = true
        · rw [if_pos hrev, List.mem_cons, hrest]
          simp only [hrev.1, Bool.true_eq_false, and_false, false_or, List.mem_cons]
          constructor
          · rintro (rfl | ⟨hq, hr⟩)
            · exact ⟨.inl rfl, fun _ => hrev.2⟩
            · exact ⟨.inr hq, hr⟩
          · rintro ⟨rfl | hq, hr⟩
            · exact .inl rfl
            · exact .inr ⟨hq, hr⟩
        · rw [if_neg hrev, hrest]
          simp only [Bool.true_eq_false, and_false, false_or, List.mem_cons]
          constructor
          · rintro (⟨rfl, hpe⟩ | ⟨hq, hr⟩)
            · exact ⟨.inl rfl, by simp [hpe]⟩
            · exact ⟨.inr hq, hr⟩
          · rintro ⟨rfl | hq, hr⟩
            · cases hpb : q.isBid with
              | false => exact .inl ⟨rfl, rfl⟩
              | true => exact absurd ⟨hpb, hr hpb⟩ hrev
            · exact .inr ⟨hq, hr⟩

/-- The execution chain ends in the view of the newest block. -/
theorem BeaconChain.head_view {b : ChainBlock} {rest : List ChainBlock}
    (h : BeaconChain (b :: rest)) :
    ∀ q ∈ (executionChain (b :: rest)).head?, q.hash = b.view := by
  induction rest generalizing b with
  | nil =>
    intro q hq
    cases hb : b.isBid with
    | false =>
      simp only [executionChain, hb, Bool.false_eq_true, if_false, List.head?_cons,
        Option.mem_some_iff] at hq
      rw [← hq, ChainBlock.view_embedded hb]
    | true => simp [executionChain, hb] at hq
  | cons p rest ih =>
    intro q hq
    cases h with
    | next hp _ _ _ hview _ =>
      cases hb : b.isBid with
      | false =>
        rw [executionChain_embedded hb, List.head?_cons, Option.mem_some_iff] at hq
        rw [← hq, ChainBlock.view_embedded hb]
      | true =>
        rw [executionChain_bid hb] at hq
        rw [hview hb, ChainBlock.latest]
        split at hq
        · rename_i hrev
          rw [List.head?_cons, Option.mem_some_iff] at hq
          rw [if_neg (by simp [hrev.2]), hq]
        · rename_i hrev
          have hq := ih hp q hq
          cases hpb : p.isBid with
          | false => rw [if_neg (by simp), hq, ChainBlock.view_embedded hpb]
          | true =>
            rw [if_pos (by simpa [hpb] using hrev)]
            exact hq

/-- Every canonical bid builds on the canonical payload before it. -/
theorem BeaconChain.linked {c : List ChainBlock} (h : BeaconChain c) :
    (executionChain c).IsChain fun q p => q.isBid → q.view = p.hash := by
  induction h with
  | first b _ => cases hb : b.isBid <;> simp [executionChain, hb]
  | @next b p rest hp _ _ _ _ _ ih =>
    cases hb : b.isBid with
    | false =>
      rw [executionChain_embedded hb]
      refine List.isChain_cons.mpr ⟨?_, ih⟩
      simp [hb]
    | true =>
      rw [executionChain_bid hb]
      split
      · refine List.isChain_cons.mpr ⟨?_, ih⟩
        intro q hq _
        exact (hp.head_view q hq).symm
      · exact ih

/-! ## Deriving the chain -/

/-- A derived payload: who committed to it, its hash and its commitments. -/
def CanonicalPayload.key (p : CanonicalPayload) : B256 × B256 × List (B256 × KzgCommitment) :=
  (p.committingBlockRoot, p.executionBlock.hash, p.kzgBlobCommitments)

namespace Network

variable (net : Network)

def blockKey (b : ChainBlock) : B256 × B256 × List (B256 × KzgCommitment) :=
  (b.root, b.hash, net.commitments b.block)

/-- The nodes serve the blocks of the chain by their roots, and the canonical payloads by
their hashes, with transactions when asked for in full. -/
structure Serves (c : List ChainBlock) : Prop where
  beacon : ∀ b ∈ c, net.clients.beaconBlock b.root = some b.block
  rpc : ∀ b ∈ executionChain c, ∀ kind, ∃ block, net.clients.rpcBlock b.hash kind = some block ∧
    (kind = .full → block.transactions ≠ none)

/-- `prev_block` carries the block of its root, whichever block that is. -/
def GoodPrev (prev : Option BlockAndRoot) : Prop :=
  ∀ p ∈ prev, ∀ b, net.clients.beaconBlock p.root = some b → p.block = b

variable {net}

theorem Serves.older {newer older : List ChainBlock} (h : net.Serves (newer ++ older)) :
    net.Serves older := by
  refine ⟨fun b hb => h.beacon b (List.mem_append_right newer hb), ?_⟩
  intro b hb
  exact h.rpc b ((executionChain_append_suffix newer older).subset hb)

theorem readPayload_served {b : ChainBlock}
    (hrpc : ∀ kind, ∃ block, net.clients.rpcBlock b.hash kind = some block ∧
      (kind = .full → block.transactions ≠ none)) :
    ∃ payload, net.readPayload b.root b.block = .ok payload ∧ payload.key = net.blockKey b := by
  unfold readPayload
  by_cases hc : net.commitments b.block = []
  · obtain ⟨block, hblock, -⟩ := hrpc .hashes
    have htxs : ∃ txs, net.targetBlobTxs [] block.transactions = .ok txs := by
      cases ht : block.transactions <;> simp [targetBlobTxs]
    obtain ⟨txs, htxs⟩ := htxs
    simp only [ChainBlock.hash] at hblock
    simp [hc, hblock, fetchOnceAvailable, htxs, CanonicalPayload.key, blockKey, ChainBlock.hash]
  · obtain ⟨block, hblock, hfull⟩ := hrpc .full
    obtain ⟨txs, htxs⟩ := Option.ne_none_iff_exists'.mp (hfull rfl)
    simp only [ChainBlock.hash] at hblock
    simp [hc, hblock, fetchOnceAvailable, htxs, targetBlobTxs, CanonicalPayload.key, blockKey,
      ChainBlock.hash]

theorem parentBlock_served {b p : ChainBlock} {prev : Option BlockAndRoot}
    (hroot : b.block.parentRoot = p.root) (hp : net.clients.beaconBlock p.root = some p.block)
    (hprev : net.GoodPrev prev) : net.parentBlock b.block prev = .ok p.block := by
  unfold parentBlock
  cases prev with
  | none => simp [hroot, Clients.getBeaconBlock, fetchOnceAvailable, hp]
  | some q =>
    by_cases hq : q.root = b.block.parentRoot
    · have hblock : q.block = p.block := hprev q rfl p.block (by rw [hq, hroot, hp])
      simp [hq, hblock]
    · simp only [hq, if_false]
      simp [hroot, Clients.getBeaconBlock, fetchOnceAvailable, hp]

theorem canonicalPayload_embedded {b : ChainBlock} (hb : b.isBid = false)
    (prev : Option BlockAndRoot) : net.canonicalPayload b.header b.block prev =
      (net.readPayload b.root b.block >>= fun payload => pure (some payload)) := by
  have hkind : ∃ h, b.block.executionPayload = .embedded h := by
    unfold ChainBlock.isBid at hb
    split at hb
    · exact ⟨_, ‹_›⟩
    · cases hb
  obtain ⟨h, hkind⟩ := hkind
  simp [canonicalPayload, committingBlock, hkind, ChainBlock.header]

theorem canonicalPayload_bid {b p : ChainBlock} {prev : Option BlockAndRoot} (hb : b.isBid = true)
    (hroot : b.block.parentRoot = p.root) (hparent : net.parentBlock b.block prev = .ok p.block) :
    net.canonicalPayload b.header b.block prev =
      if b.block.buildsOnPayloadOf p.block then
        net.readPayload p.root p.block >>= fun payload => pure (some payload)
      else pure none := by
  have hkind : ∃ h ph, b.block.executionPayload = .bid h ph := by
    unfold ChainBlock.isBid at hb
    split at hb
    · cases hb
    · exact ⟨_, _, ‹_›⟩
  obtain ⟨h, ph, hkind⟩ := hkind
  unfold canonicalPayload committingBlock
  simp only [hkind, hparent, Outcome.ok_bind, Outcome.pure_eq, hroot]
  by_cases hbuilds : b.block.buildsOnPayloadOf p.block = true
  · simp only [hbuilds, if_true]
  · simp only [hbuilds, if_false, Bool.false_eq_true]

/-- One block adds what becomes canonical with it. -/
theorem canonicalPayload_step {b : ChainBlock} {older : List ChainBlock}
    {prev : Option BlockAndRoot} (hchain : BeaconChain (b :: older))
    (hstart : older = [] → b.isBid = false) (hserves : net.Serves (b :: older))
    (hprev : net.GoodPrev prev) :
    ∃ out, net.canonicalPayload b.header b.block prev = .ok out ∧
      out.toList.map CanonicalPayload.key ++ (executionChain older).map net.blockKey =
        (executionChain (b :: older)).map net.blockKey := by
  cases hb : b.isBid with
  | false =>
    rw [executionChain_embedded hb]
    have hrpc := hserves.rpc b (by simp [executionChain_embedded hb])
    obtain ⟨payload, hread, hkey⟩ := readPayload_served hrpc
    exact ⟨some payload, by rw [canonicalPayload_embedded hb, hread]; rfl, by simp [hkey]⟩
  | true =>
    cases older with
    | nil => simp [hstart rfl] at hb
    | cons p rest =>
      have hbuilds := hchain.buildsOn hb
      cases hchain with
      | next _ hroot _ _ _ _ =>
        have hparent := parentBlock_served hroot (hserves.beacon p (by simp)) hprev
        rw [canonicalPayload_bid hb hroot hparent, executionChain_bid hb]
        by_cases hrev : p.isBid = true ∧ p.revealed = true
        · have hrpc := hserves.rpc p (by rw [executionChain_bid hb, if_pos hrev]; simp)
          obtain ⟨payload, hread, hkey⟩ := readPayload_served hrpc
          rw [if_pos (hbuilds.mpr hrev), if_pos hrev, hread]
          exact ⟨some payload, rfl, by simp [hkey]⟩
        · rw [if_neg (fun h => hrev (hbuilds.mp h)), if_neg hrev]
          exact ⟨none, rfl, rfl⟩

/-- `canonical_payload` over blocks in order, each with the `prev_block` it is called with. -/
def canonicalPayloads (net : Network) (run : List (ChainBlock × Option BlockAndRoot)) :
    Fetch (List (Option CanonicalPayload)) :=
  Outcome.mapList (fun r => net.canonicalPayload r.1.header r.1.block r.2) run

theorem canonicalPayloads_run {older : List ChainBlock}
    {run : List (ChainBlock × Option BlockAndRoot)}
    (hchain : BeaconChain ((run.map Prod.fst).reverse ++ older))
    (hstart : older = [] → ∀ r ∈ run.head?, r.1.isBid = false)
    (hserves : net.Serves ((run.map Prod.fst).reverse ++ older))
    (hprev : ∀ r ∈ run, net.GoodPrev r.2) :
    ∃ outs, net.canonicalPayloads run = .ok outs ∧
      ((outs.filterMap id).map CanonicalPayload.key).reverse ++
        (executionChain older).map net.blockKey =
      (executionChain ((run.map Prod.fst).reverse ++ older)).map net.blockKey := by
  induction run generalizing older with
  | nil => exact ⟨[], rfl, rfl⟩
  | cons r run ih =>
    have hshape : ((r :: run).map Prod.fst).reverse ++ older =
        (run.map Prod.fst).reverse ++ (r.1 :: older) := by simp
    rw [hshape] at hchain hserves ⊢
    have hone : BeaconChain (r.1 :: older) := hchain.older
    obtain ⟨out, hout, hkeys⟩ := canonicalPayload_step hone (fun h => hstart h r (by simp))
      hserves.older (hprev r (by simp))
    obtain ⟨outs, houts, hrun⟩ := ih hchain (by simp) hserves
      (fun r' hr' => hprev r' (List.mem_cons_of_mem r hr'))
    refine ⟨out :: outs, ?_, ?_⟩
    · simp only [canonicalPayloads, Outcome.mapList] at houts ⊢
      rw [hout, Outcome.ok_bind, houts]
      rfl
    · rw [← hrun, ← hkeys]
      cases out <;> simp

/-- Over a beacon chain `canonical_payload` yields the execution chain up to the view of the
last block: each canonical payload once and in order, under the root and with the commitments
of the block that committed to it. The chain may start at any block that has an embedded
payload, or after `older` blocks. -/
theorem execution_chain_derived_once (net : Network) (older : List ChainBlock)
    (run : List (ChainBlock × Option BlockAndRoot))
    (hchain : BeaconChain ((run.map Prod.fst).reverse ++ older))
    (hstart : older = [] → ∀ r ∈ run.head?, r.1.isBid = false)
    (hserves : net.Serves ((run.map Prod.fst).reverse ++ older))
    (hprev : ∀ r ∈ run, net.GoodPrev r.2) :
    ∃ outs, net.canonicalPayloads run = .ok outs ∧
      ((outs.filterMap id).map CanonicalPayload.key).reverse ++
        (executionChain older).map net.blockKey =
      (executionChain ((run.map Prod.fst).reverse ++ older)).map net.blockKey ∧
      ((outs.filterMap id).map fun p => p.executionBlock.hash).Nodup ∧
      (executionChain ((run.map Prod.fst).reverse ++ older)).IsChain
        (fun q p => q.isBid → q.view = p.hash) ∧
      (∀ b rest, (run.map Prod.fst).reverse ++ older = b :: rest →
        (∀ q ∈ (executionChain (b :: rest)).head?, q.hash = b.view) ∧
        ∀ q, q ∈ executionChain (b :: rest) ↔
          (q = b ∧ b.isBid = false) ∨ (q ∈ rest ∧ (q.isBid → q.revealed))) ∧
      ∀ b ∈ (run.map Prod.fst).reverse ++ older, b.isBid = true → b.revealed = false →
        ∀ p ∈ outs.filterMap id, p.executionBlock.hash ≠ b.hash := by
  obtain ⟨outs, houts, hkeys⟩ := canonicalPayloads_run hchain hstart hserves hprev
  have hnodup := hchain.nodup
  have hlinked := hchain.linked
  generalize hall : (run.map Prod.fst).reverse ++ older = all at *
  have hcanonical : ((executionChain all).map ChainBlock.hash).Nodup := by
    cases all with
    | nil => simp [executionChain]
    | cons b rest =>
      have hsub := executionChain_sublist b rest
      have hfull : (executionChain (b :: rest)).Sublist (b :: rest) := by
        split at hsub
        · exact hsub.cons b
        · exact hsub
      exact (hfull.map ChainBlock.hash).nodup hnodup
  have hhashes : ((outs.filterMap id).map fun p => p.executionBlock.hash).reverse ++
      (executionChain older).map ChainBlock.hash = (executionChain all).map ChainBlock.hash := by
    have h := congrArg (List.map fun k : B256 × B256 × List (B256 × KzgCommitment) => k.2.1) hkeys
    simpa [List.map_map, Function.comp_def, CanonicalPayload.key, blockKey] using h
  refine ⟨outs, houts, hkeys, ?_, hlinked, ?_, ?_⟩
  · rw [← hhashes] at hcanonical
    exact List.nodup_reverse.mp (List.nodup_append.mp hcanonical).1
  · intro b rest heq
    subst heq
    exact ⟨hchain.head_view, hchain.mem_executionChain⟩
  · intro b hb hbid hrev p hp heq
    have hmem : b.hash ∈ (executionChain all).map ChainBlock.hash := by
      rw [← hhashes, List.mem_append, List.mem_reverse]
      exact .inl (List.mem_map.mpr ⟨p, hp, heq⟩)
    obtain ⟨q, hq, hqb⟩ := List.mem_map.mp hmem
    have hsame : q = b := List.inj_on_of_nodup_map hnodup (executionChain_subset hq) hb hqb
    subst hsame
    cases all with
    | nil => cases hb
    | cons a rest =>
      rcases (hchain.mem_executionChain q).mp hq with ⟨rfl, hnot⟩ | ⟨-, hr⟩
      · simp [hbid] at hnot
      · simp [hr hbid] at hrev

/-- The fork after one block, a withheld payload, and a skipped slot. -/
def sampleChain : List ChainBlock :=
  [⟨[10], ⟨[], .embedded [1], [9], 5⟩, false⟩, ⟨[11], ⟨[], .bid [2] [1], [10], 6⟩, false⟩,
    ⟨[12], ⟨[], .bid [3] [1], [11], 8⟩, true⟩, ⟨[13], ⟨[], .bid [4] [3], [12], 9⟩, false⟩]

def sampleNetwork : Network where
  clients :=
    { beaconBlock := fun root => (sampleChain.find? fun b => b.root = root).map (·.block)
      rpcBlock := fun _ _ => some ⟨0, 0, some []⟩ }
  kzgToVersionedHash := id
  toAddress := []

/-- Called without a previous block, with another block, and with the parent. -/
def sampleRun : List (ChainBlock × Option BlockAndRoot) :=
  sampleChain.zip [none, some ⟨[12], ⟨[], .bid [3] [1], [11], 8⟩⟩,
    some ⟨[11], ⟨[], .bid [2] [1], [10], 6⟩⟩, none]

theorem execution_chain_derived_once_withheld : ∃ outs,
    sampleNetwork.canonicalPayloads sampleRun = .ok outs ∧
    ((outs.filterMap id).map CanonicalPayload.key).reverse = [([12], [3], []), ([10], [1], [])] := by
  have hchain : BeaconChain ((sampleRun.map Prod.fst).reverse ++ []) := by
    refine .next (.next (.next (.first _ ?_) ?_ ?_ ?_ ?_ ?_) ?_ ?_ ?_ ?_ ?_) ?_ ?_ ?_ ?_ ?_ <;> decide
  have hserves : sampleNetwork.Serves ((sampleRun.map Prod.fst).reverse ++ []) := by
    refine ⟨by decide, fun b _ kind => ⟨⟨0, 0, some []⟩, rfl, by simp⟩⟩
  have hprev : ∀ r ∈ sampleRun, sampleNetwork.GoodPrev r.2 := by
    simp [sampleRun, sampleChain, GoodPrev, sampleNetwork]
  obtain ⟨outs, houts, hkeys, -⟩ := execution_chain_derived_once sampleNetwork [] sampleRun hchain
    (by decide) hserves hprev
  refine ⟨outs, houts, ?_⟩
  simp only [executionChain, List.map_nil, List.append_nil] at hkeys
  rw [hkeys]
  decide

end Network

end DigitalObjects.Synchronizer
