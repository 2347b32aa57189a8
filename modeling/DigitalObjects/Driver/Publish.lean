import DigitalObjects.Txlib.Size
import DigitalObjects.Wire.Payload
import Mathlib.Data.Finset.Sort
set_option autoImplicit false

/-!
From a finalized transaction to its payload: what `build_relayer_payload` makes of the sets,
and how far the driver carries a payload that no blob can hold.
-/

namespace DigitalObjects.Driver

open Lib Pod2 Txlib

/-- The order in which a Merkle set lists its entries. -/
structure SetOrder (V : Type) where
  iter : Finset V → List V
  nodup : ∀ s, (iter s).Nodup
  mem_iter : ∀ s x, x ∈ iter s ↔ x ∈ s

section Publish

variable {V Proof : Type} [Values V]

omit [Values V] in
theorem SetOrder.length_iter (order : SetOrder V) [DecidableEq V] (s : Finset V) :
    (order.iter s).length = s.card := by
  rw [← List.toFinset_card_of_nodup (order.nodup s)]
  congr 1
  ext x
  rw [List.mem_toFinset, order.mem_iter]

variable (c : Wire.ProofCodec Proof) (order : SetOrder V) (raw : V → Wire.Hash) (proof : Proof)
  (tx : Tx V) (stateRoot : V)

/-- `Payload::from_tx`; `raw` gives the four field elements of a value. -/
def payloadFromTx : Wire.Payload Proof :=
  ⟨proof, raw (ofDict tx.ctx), raw stateRoot, (order.iter tx.nullifiers).map raw,
    (order.iter tx.created).map raw⟩

def buildRelayerPayload : Outcome String Wire.Bytes :=
  (payloadFromTx order raw proof tx stateRoot).toBytes c

/-- The size check of the relayer client, and the post. -/
def submitProof (payloadBytes : Wire.Bytes) : Outcome String Unit :=
  if payloadBytes.length > Wire.maxSimpleBlobPayloadBytes then
    .err s!"payload exceeds single-blob limit: {payloadBytes.length} > {Wire.maxSimpleBlobPayloadBytes}"
  else .ok ()

/-- What a run of the driver has recorded and how it ended. -/
structure Run where
  recorded : Option Wire.Bytes
  result : Outcome String Unit

/-- `prove`, `record` and `submit` of one transaction. `checks` is how everything in them ends
that does not look at the payload. -/
def publish (checks : Except String Unit) : Run :=
  match buildRelayerPayload c order raw proof tx stateRoot with
  | .panic m => ⟨none, .panic m⟩
  | .err e => ⟨none, .err e⟩
  | .ok payloadBytes => match checks with
    | .error e => ⟨none, .err e⟩
    | .ok _ => ⟨some payloadBytes, submitProof payloadBytes⟩

/-- The payload is built and decodes back to the two sets, and one that no blob can hold is
refused before anything is recorded. -/
structure Publishable : Prop where
  decodes : ∃ bytes p, buildRelayerPayload c order raw proof tx stateRoot = .ok bytes ∧
    Wire.Payload.fromBytes c bytes = .ok p ∧
    (∀ h, h ∈ p.created ↔ ∃ x ∈ tx.created, raw x = h) ∧
    ∀ h, h ∈ p.nullifiers ↔ ∃ x ∈ tx.nullifiers, raw x = h
  refused : ∀ bytes e checks, buildRelayerPayload c order raw proof tx stateRoot = .ok bytes →
    Wire.encodeSimpleBlob bytes = .error e →
    (publish c order raw proof tx stateRoot checks).recorded = none ∧
      ∃ e', (publish c order raw proof tx stateRoot checks).result = .err e'

variable {c order raw proof tx stateRoot}

theorem payloadFromTx_counted : (payloadFromTx order raw proof tx stateRoot).Counted ↔
    tx.created.card ≤ 255 ∧ tx.nullifiers.card ≤ 255 := by
  simp only [Wire.Payload.Counted, payloadFromTx, List.length_map, order.length_iter]
  exact And.comm

/-- In terms of the sets alone. -/
theorem publishable_iff (hc : c.Faithful) : Publishable c order raw proof tx stateRoot ↔
    tx.created.card ≤ 255 ∧ tx.nullifiers.card ≤ 255 ∧
      (c.write proof).length + 69 + 32 * (tx.created.card + tx.nullifiers.card) ≤
        Wire.maxSimpleBlobPayloadBytes := by
  have hlength : ((payloadFromTx order raw proof tx stateRoot).encode c).length =
      (c.write proof).length + 69 + 32 * (tx.created.card + tx.nullifiers.card) := by
    rw [Wire.Payload.length_encode]
    simp [payloadFromTx, order.length_iter]
  constructor
  · rintro ⟨⟨bytes, p, hbytes, -, -, -⟩, hrefused⟩
    by_cases hcounted : (payloadFromTx order raw proof tx stateRoot).Counted
    · obtain ⟨hcreated, hnullifiers⟩ := payloadFromTx_counted.mp hcounted
      have hencode : buildRelayerPayload c order raw proof tx stateRoot = .ok _ :=
        Wire.Payload.toBytes_of_counted hcounted
      refine ⟨hcreated, hnullifiers, ?_⟩
      rw [← hlength]
      by_contra hbig
      obtain ⟨e, he⟩ := Wire.encodeSimpleBlob_error.mpr (Nat.lt_of_not_le hbig)
      have hnone := (hrefused _ e (.ok ()) hencode he).1
      simp [publish, hencode] at hnone
    · obtain ⟨m, hm⟩ := Wire.Payload.toBytes_of_not_counted (c := c) hcounted
      rw [buildRelayerPayload, hm] at hbytes
      cases hbytes
  · rintro ⟨hcreated, hnullifiers, hsize⟩
    have hcounted : (payloadFromTx order raw proof tx stateRoot).Counted :=
      payloadFromTx_counted.mpr ⟨hcreated, hnullifiers⟩
    have hencode : buildRelayerPayload c order raw proof tx stateRoot = .ok _ :=
      Wire.Payload.toBytes_of_counted hcounted
    have hback := (Wire.Payload.read_exact hc).read_write _ hcounted []
    rw [List.append_nil] at hback
    refine ⟨⟨_, _, hencode, Wire.Payload.fromBytes_eq_ok.mpr ⟨[], hback⟩, ?_, ?_⟩, ?_⟩
    · intro h
      simp [payloadFromTx, order.mem_iter]
    · intro h
      simp [payloadFromTx, order.mem_iter]
    · intro bytes e checks hbytes he
      cases hencode.symm.trans hbytes
      have hbig := Wire.encodeSimpleBlob_error.mp ⟨e, he⟩
      omega

/-- A finalized transaction can be published exactly when its calls create at most 255 states,
consume at most 255, and leave room for the proof in one blob. -/
theorem publishable_calls {G : Guard V} (hc : c.Faithful) {inputs : List (Dictionary V)}
    {grounding : GroundingWitness V} {calls : List (BuilderCall G)} {b₀ b : TxBuilder G}
    {r : FinalizedTx G} (hnew : TxBuilder.new G inputs grounding = .ok b₀)
    (hrun : b₀.run calls = .ok b) (h : b.finalize = .ok r) :
    Publishable c order raw proof r.tx stateRoot ↔
      (news (callEvents calls)).length ≤ 255 ∧ (olds (callEvents calls)).length ≤ 255 ∧
        (c.write proof).length + 69 +
            32 * ((news (callEvents calls)).length + (olds (callEvents calls)).length) ≤
          Wire.maxSimpleBlobPayloadBytes := by
  obtain ⟨hcreated, hnullifiers⟩ := (TxBuilder.finalize_effects hnew hrun h).card
  simp only [TxSets.start, Finset.card_empty, Nat.zero_add] at hcreated hnullifiers
  rw [publishable_iff hc, hcreated, hnullifiers]

end Publish

/-! ## Minting stones -/

namespace Sample

/-- The entries of a set in the order of the term model. -/
def setOrder : SetOrder Term where
  iter := Term.inOrder
  nodup := Term.inOrder_nodup
  mem_iter := Term.mem_inOrder

def raw (t : Term) : Wire.Hash := Wire.Sample.hash (Fin.ofNat Wire.order t.code)

def stone (i : Nat) : Mintable (ofStr "Stone" : Term) where
  object := keylessStone.insert "key" (ofInt i)
  fresh := by simp [keylessStone, Finmap.notMem_empty]
  typed := by rw [lookup_insert_ite, if_neg (by decide), keylessStone, Finmap.lookup_insert]

def stones (n : Nat) : List (Mintable (ofStr "Stone" : Term)) := (List.range n).map stone

theorem stones_nodup (n : Nat) : ((stones n).map fun m => stamped m.object).Nodup := by
  rw [stones, List.map_map]
  refine (List.nodup_range).map ?_
  intro i j h
  have hobject : (stone i).object.insert "stable_identifier" (ofDict (stone i).object) =
      (stone j).object.insert "stable_identifier" (ofDict (stone j).object) := by
    simpa [stamped] using h
  have hkey := congrArg (fun d : Dictionary Term => d.lookup "key") hobject
  simpa [stone, lookup_insert_ite] using hkey

end Sample

theorem not_publishable_stones {n : Nat} (hn : 255 < n) : ∃ b r,
    (TxBuilder.new (fun _ _ _ _ _ : Term => True) [] emptyGrounding >>= fun b₀ =>
      b₀.run (mintCalls emptyGrounding 0 nestedStart (Sample.stones n))) = .ok b ∧
    b.finalize = .ok r ∧
    ¬ Publishable Wire.Sample.codec Sample.setOrder Sample.raw 7 r.tx empty := by
  have hlength : (Sample.stones n).length = n := by simp [Sample.stones]
  obtain ⟨b, r, hrun, hr⟩ := mint_finalizes emptyGrounding (Sample.stones n)
    (by
      intro hnil
      simp only [hnil, List.length_nil] at hlength
      omega)
    (Sample.stones_nodup n)
  refine ⟨b, r, hrun, hr, ?_⟩
  have hcard := (TxBuilder.finalize_effects (nestedCalls_new emptyGrounding) hrun hr).card.1
  have hinserts : (Sample.stones n).map (fun m => Event.insert (stamped m.object)) =
      ((Sample.stones n).map fun m => stamped m.object).map Event.insert := by
    rw [List.map_map]
    rfl
  simp only [callEvents_mintCalls, TxSets.start, Finset.card_empty, Nat.zero_add] at hcard
  rw [hinserts, news_inserts, List.length_map, hlength] at hcard
  rw [publishable_iff Wire.Sample.codec_faithful]
  omega

/-- With 256 stones minted in one transaction the payload cannot be built. -/
theorem publishable_256_stones : ∃ b r,
    (TxBuilder.new (fun _ _ _ _ _ : Term => True) [] emptyGrounding >>= fun b₀ =>
      b₀.run (mintCalls emptyGrounding 0 nestedStart (Sample.stones 256))) = .ok b ∧
    b.finalize = .ok r ∧
    ¬ Publishable Wire.Sample.codec Sample.setOrder Sample.raw 7 r.tx empty :=
  not_publishable_stones (by decide)

theorem publishable_stone : ∃ b r,
    (TxBuilder.new (fun _ _ _ _ _ : Term => True) [] emptyGrounding >>= fun b₀ =>
      b₀.run (mintCalls emptyGrounding 0 nestedStart (Sample.stones 1))) = .ok b ∧
    b.finalize = .ok r ∧
    Publishable Wire.Sample.codec Sample.setOrder Sample.raw 7 r.tx empty := by
  obtain ⟨b, r, hrun, hr⟩ := mint_finalizes emptyGrounding (Sample.stones 1)
    (by simp [Sample.stones]) (Sample.stones_nodup 1)
  refine ⟨b, r, hrun, hr, ?_⟩
  rw [publishable_calls Wire.Sample.codec_faithful (nestedCalls_new emptyGrounding) hrun hr,
    callEvents_mintCalls]
  decide

end DigitalObjects.Driver
