import DigitalObjects.Synchronizer.Blobs
import DigitalObjects.Synchronizer.Derivation
import DigitalObjects.Wire.Payload
import DigitalObjects.Pod2.Terms
set_option autoImplicit false

/-!
A slot from its raw blobs: decoding, `ProofParser::parse_blob`, `parse_blobs` and
`derive_slot_state`. Whatever the blobs hold, each gets its own status and the slot is
derived, unless a blob carries the magic bytes and nothing else.
-/

namespace DigitalObjects.Synchronizer

open Lib Pod2 Txlib EthClients

variable {V : Type}

/-! ## Decoding -/

/-- The data bytes of all field elements but the first. -/
def blobData (blob : HeapBlob) : List Nat := ((fieldElements blob).drop 1).flatMap List.tail

/-- A blob with nothing in it but the payload magic. -/
def MagicOnly (blob : Wire.Bytes) : Prop :=
  64 ≤ blob.length ∧ blob.length % 32 = 0 ∧
    beNat (((blob.drop 1).take 8).map UInt8.toNat) = 2 ∧ (blob.drop 33).take 2 = [0x0b, 0xd1]

instance (blob : Wire.Bytes) : Decidable (MagicOnly blob) := inferInstanceAs (Decidable (_ ∧ _))

theorem decodeSimpleBlob_eq_ok {blob : HeapBlob} {bytes : Bytes} :
    decodeSimpleBlob blob = .ok bytes ↔ 9 ≤ blob.length ∧ blob.length % 32 = 0 ∧
      beNat ((blob.drop 1).take 8) ≤ (blob.length / 32 - 1) * 31 ∧
      bytes = (blobData blob).take (beNat ((blob.drop 1).take 8)) := by
  unfold decodeSimpleBlob
  by_cases hshort : blob.length < 9
  · simp only [hshort, if_true, reduceCtorEq, false_iff]
    omega
  by_cases hmod : blob.length % fieldElementBytes = 0
  · have hpos : ¬ blob.length / fieldElementBytes < 1 := by
      unfold fieldElementBytes at *
      omega
    have hdata : (((fieldElements blob).drop 1).map List.tail).flatten = blobData blob := by
      rw [blobData, List.flatMap_def]
    simp only [hshort, hmod, if_false, mapList_byteAt (Nat.le_of_not_lt hshort), Outcome.ok_bind,
      mapList_chunkData, hpos, hdata, ne_eq, not_true_eq_false]
    unfold fieldElementBytes at hmod ⊢
    split
    case isTrue hbig =>
      simp only [reduceCtorEq, false_iff]
      omega
    case isFalse hfit =>
      simp only [Outcome.pure_eq, Outcome.ok.injEq, Nat.le_of_not_lt hshort, hmod, true_and,
        Nat.le_of_not_lt hfit]
      exact eq_comm
  · have hmod' : blob.length % 32 ≠ 0 := hmod
    simp [hshort, hmod, hmod']

/-- The elements after the first, for a blob of at least one. -/
theorem blobData_succ {blob : HeapBlob} {m : Nat} (h : blob.length / 32 = m + 1) :
    blobData blob = (List.range m).flatMap fun i => ((blob.drop (32 * (i + 1))).take 32).tail := by
  rw [blobData, fieldElements, fieldElementBytes, h, List.range_succ_eq_map, List.map_cons,
    List.drop_succ_cons, List.drop_zero, List.map_map, List.flatMap_map]
  rfl

theorem length_blobData {blob : HeapBlob} {m : Nat} (h : blob.length / 32 = m + 1)
    (hmod : blob.length % 32 = 0) : (blobData blob).length = m * 31 := by
  have heach : ∀ i ∈ List.range m, (((blob.drop (32 * (i + 1))).take 32).tail).length = 31 := by
    intro i hi
    have him := List.mem_range.mp hi
    simp only [List.length_tail, List.length_take, List.length_drop]
    omega
  rw [blobData_succ h, List.length_flatMap, List.map_congr_left heach]
  simp

theorem take_blobData {blob : HeapBlob} (h : 64 ≤ blob.length) :
    (blobData blob).take 2 = (blob.drop 33).take 2 := by
  obtain ⟨m, hm⟩ : ∃ m, blob.length / 32 = m + 1 + 1 := ⟨blob.length / 32 - 2, by omega⟩
  have hfirst : ((blob.drop (32 * (0 + 1))).take 32).tail = (blob.drop 33).take 31 := by
    rw [← List.drop_one, List.drop_take, List.drop_drop]
  have hlen : 2 ≤ ((blob.drop 33).take 31).length := by
    simp only [List.length_take, List.length_drop]
    omega
  rw [blobData_succ hm, List.range_succ_eq_map, List.flatMap_cons, hfirst,
    List.take_append_of_le_length hlen, List.take_take]
  rfl

theorem map_ofNat_toNat (bytes : Wire.Bytes) : (bytes.map UInt8.toNat).map UInt8.ofNat = bytes := by
  have hcomp : UInt8.ofNat ∘ UInt8.toNat = id := by
    funext b
    simp
  rw [List.map_map, hcomp, List.map_id]

/-- The decoded data is the magic exactly for such a blob. -/
theorem decodes_magic_iff (blob : Wire.Bytes) :
    (∃ bytes, decodeSimpleBlob (blob.map UInt8.toNat) = .ok bytes ∧
      bytes.map UInt8.ofNat = toLe 2 Wire.payloadMagic) ↔ MagicOnly blob := by
  have hmagic : toLe 2 Wire.payloadMagic = [0x0b, 0xd1] := by decide
  have hfield : ((blob.map UInt8.toNat).drop 1).take 8 = ((blob.drop 1).take 8).map UInt8.toNat := by
    rw [List.map_take, List.map_drop]
  have hdata : ∀ {n : Nat}, (((blob.map UInt8.toNat).drop 33).take n).map UInt8.ofNat =
      (blob.drop 33).take n := by
    intro n
    rw [← List.map_drop, ← List.map_take, map_ofNat_toNat]
  constructor
  · rintro ⟨bytes, hbytes, heq⟩
    obtain ⟨-, hmod, hfit, rfl⟩ := decodeSimpleBlob_eq_ok.mp hbytes
    rw [hfield] at hfit heq
    rw [List.length_map] at hfit hmod
    -- Two bytes were taken, so the length field reads two and there is a second element.
    have htwo := congrArg List.length heq
    rw [List.length_map, List.length_take, length_toLe] at htwo
    have hlong : 2 ≤ blob.length / 32 := by
      by_contra hshort
      have hzero : blob.length / 32 - 1 = 0 := by omega
      rw [hzero] at hfit
      omega
    obtain ⟨m, hm⟩ : ∃ m, blob.length / 32 = m + 1 := ⟨blob.length / 32 - 1, by omega⟩
    rw [length_blobData (by rw [List.length_map]; exact hm) (by rw [List.length_map]; exact hmod)] at htwo
    rw [hm] at hfit
    have hlen : beNat (((blob.drop 1).take 8).map UInt8.toNat) = 2 := by omega
    rw [hlen, take_blobData (by rw [List.length_map]; omega), hdata, hmagic] at heq
    exact ⟨by omega, hmod, hlen, heq⟩
  · rintro ⟨hlong, hmod, hlen, heq⟩
    refine ⟨_, decodeSimpleBlob_eq_ok.mpr ⟨?_, ?_, ?_, rfl⟩, ?_⟩
    · rw [List.length_map]
      omega
    · rw [List.length_map]
      exact hmod
    · rw [hfield, hlen, List.length_map]
      omega
    · rw [hfield, hlen, take_blobData (by rw [List.length_map]; exact hlong), hdata, heq, hmagic]

/-! ## Parsing -/

section Parser

variable [Values V]

/-- `Value::from` a hash. -/
def hashValue (h : Wire.Hash) : V := ofRaw (h.toList.map Fin.val)

/-- The parsed payload as the state machine reads it. -/
def ofWire {Proof : Type} (c : Wire.ProofCodec Proof) (p : Wire.Payload Proof) : Payload V :=
  ⟨(c.write p.proof).map UInt8.toNat, hashValue p.txFinal, hashValue p.stateRoot,
    p.nullifiers.map hashValue, p.created.map hashValue⟩

/-- The arguments of the public `TxFinalized` statement. -/
def Payload.statementArgs (p : Payload V) : List V :=
  [p.stateRoot, p.txFinal, ofSet p.nullifiers.toFinset, ofSet p.created.toFinset]

/-- `ProofParser`, over plonky2's codec, decompressor and verifier. -/
structure ProofParser (Proof Decompressed V : Type) where
  codec : Wire.ProofCodec Proof
  /-- Decompress a proof with the public inputs of a statement. -/
  decompress : Proof → List V → Except String Decompressed
  verify : Decompressed → Except String Unit

variable {Proof Decompressed : Type} (P : ProofParser Proof Decompressed V)

def ProofParser.verifyShrunkMainPod (proof : Proof) (statement : List V) : Outcome String Unit :=
  match P.decompress proof statement with
  | .error e => .err ("decompress proof: " ++ e)
  | .ok decompressed => match P.verify decompressed with
    | .error e => .err ("proof verification failed: " ++ e)
    | .ok _ => .ok ()

def ProofParser.parseBlob (bytes : Bytes) : Outcome String (Option (Payload V)) :=
  match Wire.Payload.fromBytes P.codec (bytes.map UInt8.ofNat) with
  | .panic m => .panic m
  | .err _ => .ok none
  | .ok p => do
    let payload : Payload V := ofWire P.codec p
    let _ ← P.verifyShrunkMainPod p.proof payload.statementArgs
    .ok (some payload)

/-- What one blob leaves in the parsed list and in its status. -/
def parsedBlob (index : Nat) (s : BlobStatus V) :
    Except String (Option (Payload V)) → Option (Nat × Payload V) × BlobStatus V
  | .ok (some p) => (some (index, p), { s with txFinal := some p.txFinal })
  | .ok none => (none, { s with error := some "Blob did not contain a valid TxFinalized proof" })
  | .error err =>
    (none, { s with error := some ("Failed to parse/verify TxFinalized payload: " ++ err) })

/-- The blob loop of `parse_blobs`, which a panic of the parser ends. -/
def ProofParser.parseTxBlobs : List (Option (Nat × Bytes)) → List (BlobStatus V) →
    Outcome String (List (Option (Nat × Payload V)) × List (BlobStatus V))
  | none :: blobs, s :: statuses => do
    let rest ← ProofParser.parseTxBlobs blobs statuses
    .ok (none :: rest.1, s :: rest.2)
  | some (index, bytes) :: blobs, s :: statuses => do
    let result ← (P.parseBlob bytes).attempt
    let rest ← ProofParser.parseTxBlobs blobs statuses
    let blob := parsedBlob index s result
    .ok (blob.1 :: rest.1, blob.2 :: rest.2)
  | _, statuses => .ok ([], statuses)

def ProofParser.parseBlobs (txs : List (TargetTx V Bytes)) :
    Outcome String (List (TargetTx V (Payload V))) :=
  Outcome.mapList (fun t => do
    let parsed ← P.parseTxBlobs t.blobs t.status.blobs
    .ok ⟨parsed.1, { t.status with blobs := parsed.2 }⟩) txs

/-- The parser where it returns. -/
def ProofParser.toBlobParser : BlobParser V := fun bytes =>
  match P.parseBlob bytes with
  | .ok r => .ok r
  | .err e => .error e
  | .panic m => .error m

variable {P}

theorem ProofParser.parseBlob_noPanic {bytes : Bytes}
    (h : bytes.map UInt8.ofNat ≠ toLe 2 Wire.payloadMagic) : (P.parseBlob bytes).NoPanic := by
  have hread := Wire.Payload.fromBytes_noPanic (c := P.codec) h
  unfold parseBlob
  split
  case h_1 m heq => exact absurd heq (hread m)
  case h_2 => exact Outcome.noPanic_ok _
  case h_3 p _ =>
    have hverify : (P.verifyShrunkMainPod p.proof (ofWire P.codec p).statementArgs).NoPanic := by
      unfold verifyShrunkMainPod
      split
      · exact Outcome.noPanic_err _
      · split
        · exact Outcome.noPanic_err _
        · exact Outcome.noPanic_ok _
    exact hverify.bind fun _ _ => Outcome.noPanic_ok _

theorem ProofParser.parseBlob_magic {bytes : Bytes}
    (h : bytes.map UInt8.ofNat = toLe 2 Wire.payloadMagic) : ∃ m, P.parseBlob bytes = .panic m := by
  obtain ⟨m, hm⟩ := Wire.Payload.fromBytes_magic (c := P.codec)
  exact ⟨m, by simp [parseBlob, h, hm]⟩

theorem ProofParser.attempt_parseBlob {bytes : Bytes} (h : (P.parseBlob bytes).NoPanic) :
    ((P.parseBlob bytes).attempt : Outcome String _) = .ok (P.toBlobParser bytes) := by
  unfold toBlobParser
  cases hp : P.parseBlob bytes with
  | ok r => rfl
  | err e => rfl
  | panic m => exact absurd hp (h m)

/-- Without a panic the loop is the one over a total parser. -/
theorem ProofParser.parseTxBlobs_ok {blobs : List (Option (Nat × Bytes))}
    {statuses : List (BlobStatus V)}
    (h : ∀ i bytes, some (i, bytes) ∈ blobs → (P.parseBlob bytes).NoPanic) :
    P.parseTxBlobs blobs statuses = .ok (Synchronizer.parseTxBlobs P.toBlobParser blobs statuses) := by
  induction blobs generalizing statuses with
  | nil => rfl
  | cons b blobs ih =>
    have htail := fun i bytes hb => h i bytes (List.mem_cons_of_mem b hb)
    cases statuses with
    | nil => cases b <;> rfl
    | cons s statuses =>
      cases b with
      | none => simp [parseTxBlobs, Synchronizer.parseTxBlobs, ih htail]
      | some ib =>
        obtain ⟨i, bytes⟩ := ib
        have hhead := attempt_parseBlob (h i bytes List.mem_cons_self)
        simp only [parseTxBlobs, hhead, ih htail, Outcome.ok_bind, Synchronizer.parseTxBlobs]
        cases P.toBlobParser bytes with
        | error e => rfl
        | ok o => cases o <;> rfl

/-- A panic of the parser is one of the loop. -/
theorem ProofParser.parseTxBlobs_panic {blobs : List (Option (Nat × Bytes))}
    {statuses : List (BlobStatus V)} (hlen : blobs.length = statuses.length) {i : Nat} {bytes : Bytes}
    (hmem : some (i, bytes) ∈ blobs) {m : String} (hm : P.parseBlob bytes = .panic m) (r) :
    P.parseTxBlobs blobs statuses ≠ .ok r := by
  induction blobs generalizing statuses r with
  | nil => cases hmem
  | cons b blobs ih =>
    cases statuses with
    | nil => simp at hlen
    | cons s statuses =>
      have hlen' : blobs.length = statuses.length := by simpa using hlen
      intro h
      rcases List.mem_cons.mp hmem with rfl | hlater
      · rw [parseTxBlobs, hm] at h
        cases h
      · cases b with
        | none =>
          obtain ⟨rest, hrest, -⟩ := Outcome.bind_eq_ok h
          exact ih hlen' hlater rest hrest
        | some jb =>
          obtain ⟨result, -, h⟩ := Outcome.bind_eq_ok h
          obtain ⟨rest, hrest, -⟩ := Outcome.bind_eq_ok h
          exact ih hlen' hlater rest hrest

theorem ProofParser.parseBlobs_ok {txs : List (TargetTx V Bytes)}
    (h : ∀ t ∈ txs, ∀ i bytes, some (i, bytes) ∈ t.blobs → (P.parseBlob bytes).NoPanic) :
    P.parseBlobs txs = .ok (Synchronizer.parseBlobs P.toBlobParser txs) := by
  unfold parseBlobs Synchronizer.parseBlobs
  rw [Outcome.mapList_eq_ok, List.forall₂_map_right_iff, List.forall₂_same]
  intro t ht
  rw [parseTxBlobs_ok (h t ht)]
  rfl

/-! ## A slot from its raw blobs -/

/-- A target transaction as published: for each blob its index in the block and its bytes. -/
structure BlobTx where
  txHash : Nat
  blobs : List (Nat × Wire.Bytes)

/-- The decoding in `fetch_target_blobs`. -/
def decodeBlob (b : Nat × Wire.Bytes) : Outcome String (Except String (Nat × Bytes)) := do
  let decoded ← (decodeSimpleBlob (b.2.map UInt8.toNat)).attempt
  .ok (decoded.map fun bytes => (b.1, bytes))

def BlobTx.decode (tx : BlobTx) : Outcome String TargetBlobTx := do
  let blobs ← Outcome.mapList decodeBlob tx.blobs
  .ok ⟨tx.txHash, blobs⟩

structure SlotResult (V : Type) where
  parsed : List (TargetTx V (Payload V))
  derived : DerivedSlot V
  statuses : List (TxStatus V)
  attempts : List (Attempt V)

variable (P) in
/-- Decode and parse the blobs, prefetch and derive. -/
def ProofParser.deriveBlobs (n : Node V) (roots : List (V × Int)) (block : ExecutionBlock)
    (txs : List BlobTx) : Outcome String (SlotResult V) := do
  let txs ← Outcome.mapList BlobTx.decode txs
  let parsed ← P.parseBlobs (fetchTargetBlobs txs)
  match deriveSlotState n.containers n.stateLog.donStateAtHead roots block parsed
      (n.stateLog.createdIndices (candidatesOf parsed)) with
  | .ok (derived, statuses, _, attempts) => .ok ⟨parsed, derived, statuses, attempts⟩
  | .error _ => .err "derivation failed"

variable (P) in
/-- The payload that a blob carries, if it decodes, parses and verifies. -/
def ProofParser.payloadOf (b : Nat × Wire.Bytes) : Option (Payload V) :=
  match decodeSimpleBlob (b.2.map UInt8.toNat) with
  | .ok bytes => match P.parseBlob bytes with
    | .ok (some p) => some p
    | _ => none
  | _ => none

/-- The status of a blob after parsing. -/
structure ParsedStatus (P : ProofParser Proof Decompressed V) (b : Nat × Wire.Bytes)
    (s : BlobStatus V) : Prop where
  txFinal : s.txFinal = (P.payloadOf b).map Payload.txFinal
  error : s.error = none ↔ (P.payloadOf b).isSome

/-- The call made for a blob, if any, and its final status: the blob has no final transaction
or an error exactly when it was not applied. -/
structure Settled (P : ProofParser Proof Decompressed V) (b : Nat × Wire.Bytes)
    (r : Option (Attempt V) × BlobStatus V) : Prop where
  payload : r.1.map Attempt.payload = P.payloadOf b
  txFinal : r.2.txFinal = (P.payloadOf b).map Payload.txFinal
  applied : r.2.txFinal = none ∨ r.2.error ≠ none ↔ ¬ ∃ a, r.1 = some a ∧ a.rejection = none

/-- The blobs of a transaction without an error. -/
def BlobTx.withoutErrors (tx : BlobTx) (st : TxStatus V) : BlobTx :=
  { tx with blobs := ((tx.blobs.zip st.blobs).filter fun r => r.2.error = none).map Prod.fst }

variable (P) in
/-- No blob stops the slot: each transaction has one status a blob, in blob order, after parsing
and after the derivation, and the derived state is that of the blobs without an error. -/
def ProofParser.Completes (n : Node V) (roots : List (V × Int)) (block : ExecutionBlock)
    (txs : List BlobTx) : Prop :=
  ∃ r, P.deriveBlobs n roots block txs = .ok r ∧
    List.Forall₂ (fun tx t => t.status.txHash = tx.txHash ∧
      List.Forall₂ (ParsedStatus P) tx.blobs t.status.blobs) txs r.parsed ∧
    (∃ calls : List (List (Option (Attempt V) × BlobStatus V)),
      List.Forall₂ (fun tx c => List.Forall₂ (Settled P) tx.blobs c) txs calls ∧
      r.statuses = List.zipWith (fun tx c => ⟨tx.txHash, c.map Prod.snd⟩) txs calls ∧
      r.attempts = calls.flatMap fun c => c.filterMap Prod.fst) ∧
    ∃ r', P.deriveBlobs n roots block (List.zipWith BlobTx.withoutErrors txs r.statuses) = .ok r' ∧
      r'.derived = r.derived

/-! ## Every blob is settled -/

def decodedBlob (b : Nat × Wire.Bytes) : Except String (Nat × Bytes) :=
  match decodeSimpleBlob (b.2.map UInt8.toNat) with
  | .ok bytes => .ok (b.1, bytes)
  | .err e => .error e
  | .panic m => .error m

theorem decodeBlob_ok (b : Nat × Wire.Bytes) : decodeBlob b = .ok (decodedBlob b) := by
  unfold decodeBlob decodedBlob
  rcases decodeSimpleBlob_returns (b.2.map UInt8.toNat) with ⟨bytes, hb⟩ | ⟨e, he⟩
  · rw [hb]
    rfl
  · rw [he]
    rfl

def BlobTx.decoded (tx : BlobTx) : TargetBlobTx := ⟨tx.txHash, tx.blobs.map decodedBlob⟩

theorem decode_ok (txs : List BlobTx) :
    Outcome.mapList BlobTx.decode txs = .ok (txs.map BlobTx.decoded) := by
  rw [Outcome.mapList_eq_ok, List.forall₂_map_right_iff, List.forall₂_same]
  intro tx _
  have hblobs : Outcome.mapList decodeBlob tx.blobs = .ok (tx.blobs.map decodedBlob) := by
    rw [Outcome.mapList_eq_ok, List.forall₂_map_right_iff, List.forall₂_same]
    intro b _
    exact decodeBlob_ok b
  rw [BlobTx.decode, hblobs]
  rfl

/-- A decoded transaction as the parser gets it. -/
def BlobTx.target (tx : BlobTx) : TargetTx V Bytes :=
  ⟨tx.decoded.blobs.map Except.toOption, ⟨tx.txHash, tx.decoded.blobs.map fun b => match b with
    | .ok _ => ⟨none, none⟩
    | .error err => ⟨none, some ("Invalid byte encoding: " ++ err)⟩⟩⟩

variable (P) in
/-- The parsed transactions. -/
def ProofParser.parsedTx (tx : BlobTx) : TargetTx V (Payload V) :=
  let t : TargetTx V Bytes := tx.target
  let parsed := Synchronizer.parseTxBlobs P.toBlobParser t.blobs t.status.blobs
  ⟨parsed.1, ⟨tx.txHash, parsed.2⟩⟩

theorem ProofParser.parseBlobs_decoded (txs : List BlobTx) :
    Synchronizer.parseBlobs P.toBlobParser (fetchTargetBlobs (txs.map BlobTx.decoded)) =
      txs.map P.parsedTx := by
  simp only [Synchronizer.parseBlobs, fetchTargetBlobs, List.map_map]
  rfl

/-- Parsing keeps one place a blob, with its payload and its status. -/
theorem ProofParser.parsedTx_spec (tx : BlobTx) :
    List.Forall₂ (fun b o => o.map Prod.snd = P.payloadOf b) tx.blobs (P.parsedTx tx).blobs ∧
      List.Forall₂ (ParsedStatus P) tx.blobs (P.parsedTx tx).status.blobs := by
  obtain ⟨txHash, blobs⟩ := tx
  simp only [parsedTx, BlobTx.target, BlobTx.decoded]
  induction blobs with
  | nil => exact ⟨.nil, .nil⟩
  | cons b blobs ih =>
    simp only [List.map_cons]
    cases hd : decodedBlob b with
    | error e =>
      have hnone : P.payloadOf b = none := by
        unfold decodedBlob at hd
        unfold payloadOf
        split at hd <;> simp_all
      simp only [Except.toOption, Synchronizer.parseTxBlobs]
      exact ⟨.cons (by simp [hnone]) ih.1, .cons ⟨by simp [hnone], by simp [hnone]⟩ ih.2⟩
    | ok ib =>
      obtain ⟨i, bytes⟩ := ib
      have hb : decodeSimpleBlob (b.2.map UInt8.toNat) = .ok bytes := by
        unfold decodedBlob at hd
        split at hd <;> simp_all
      have hpayload : P.payloadOf b = match P.parseBlob bytes with
          | .ok (some p) => some p
          | _ => none := by
        simp only [payloadOf, hb]
      simp only [Except.toOption, Synchronizer.parseTxBlobs, toBlobParser]
      cases hp : P.parseBlob bytes with
      | panic m =>
        rw [hp] at hpayload
        exact ⟨.cons (by simp [hpayload]) ih.1, .cons ⟨by simp [hpayload], by simp [hpayload]⟩ ih.2⟩
      | err e =>
        rw [hp] at hpayload
        exact ⟨.cons (by simp [hpayload]) ih.1, .cons ⟨by simp [hpayload], by simp [hpayload]⟩ ih.2⟩
      | ok o =>
        rw [hp] at hpayload
        cases o with
        | none =>
          exact ⟨.cons (by simp [hpayload]) ih.1, .cons ⟨by simp [hpayload], by simp [hpayload]⟩ ih.2⟩
        | some p =>
          exact ⟨.cons (by simp [hpayload]) ih.1, .cons ⟨by simp [hpayload], by simp [hpayload]⟩ ih.2⟩

/-- The calls for a transaction settle its blobs in their order. -/
theorem Outcomes.settled {blobs : List (Nat × Wire.Bytes)} {os : List (Option (Nat × Payload V))}
    {ss ss' : List (BlobStatus V)} {as : List (Attempt V)} (h : Outcomes os ss as ss')
    (hos : List.Forall₂ (fun b o => o.map Prod.snd = P.payloadOf b) blobs os)
    (hss : List.Forall₂ (ParsedStatus P) blobs ss) :
    ∃ c, List.Forall₂ (Settled P) blobs c ∧ ss' = c.map Prod.snd ∧ as = c.filterMap Prod.fst := by
  induction h generalizing blobs with
  | nil =>
    cases hos
    exact ⟨[], .nil, rfl, rfl⟩
  | dropped s h ih =>
    cases hos with
    | cons ho hos =>
      cases hss with
      | cons hs hss =>
        obtain ⟨c, hc, rfl, rfl⟩ := ih hos hss
        have hnone := ho.symm
        refine ⟨(none, s) :: c, .cons ⟨ho, hs.txFinal, ?_⟩ hc, rfl, rfl⟩
        simp [hs.txFinal, hnone]
  | tried i s a h ih =>
    cases hos with
    | cons ho hos =>
      cases hss with
      | cons hs hss =>
        obtain ⟨c, hc, rfl, rfl⟩ := ih hos hss
        have hsome := ho.symm
        simp only [Option.map_some] at hsome
        have herror : s.error = none := hs.error.mpr (by simp [hsome])
        refine ⟨(some a, { s with error := a.rejection <|> s.error }) :: c,
          .cons ⟨by simp [hsome], hs.txFinal, ?_⟩ hc, rfl, rfl⟩
        simp [hs.txFinal, hsome, herror]

theorem TxOutcomes.settled {txs : List BlobTx} {as : List (Attempt V)} {sts : List (TxStatus V)}
    (h : TxOutcomes (txs.map P.parsedTx) as sts) :
    ∃ calls, List.Forall₂ (fun tx c => List.Forall₂ (Settled P) tx.blobs c) txs calls ∧
      sts = List.zipWith (fun tx c => ⟨tx.txHash, c.map Prod.snd⟩) txs calls ∧
      as = calls.flatMap fun c => c.filterMap Prod.fst := by
  induction txs generalizing as sts with
  | nil =>
    cases h
    exact ⟨[], .nil, rfl, rfl⟩
  | cons tx txs ih =>
    cases h with
    | cons h hrest =>
      obtain ⟨hos, hss⟩ := P.parsedTx_spec tx
      obtain ⟨c, hc, rfl, rfl⟩ := h.settled hos hss
      obtain ⟨calls, hcalls, rfl, rfl⟩ := ih hrest
      exact ⟨c :: calls, .cons hc hcalls, rfl, rfl⟩

theorem parsedPayloads_eq {blobs : List (Nat × Wire.Bytes)} {os : List (Option (Nat × Payload V))}
    (h : List.Forall₂ (fun b o => o.map Prod.snd = P.payloadOf b) blobs os) :
    parsedPayloads os = blobs.filterMap P.payloadOf := by
  induction h with
  | nil => rfl
  | @cons b o blobs os ho _ ih =>
    cases o with
    | none =>
      simp only [Option.map_none] at ho
      simpa [parsedPayloads, ← ho] using ih
    | some ip =>
      simp only [Option.map_some] at ho
      simpa [parsedPayloads, ← ho] using ih

theorem payloadsOf_parsedTx (txs : List BlobTx) :
    payloadsOf (txs.map P.parsedTx) = txs.flatMap fun tx => tx.blobs.filterMap P.payloadOf := by
  rw [payloadsOf, List.flatMap_map]
  congr 1
  funext tx
  exact parsedPayloads_eq (P.parsedTx_spec tx).1

/-- The accepted payloads of a transaction are those of its blobs without an error. -/
theorem accepted_settled {blobs : List (Nat × Wire.Bytes)}
    {c : List (Option (Attempt V) × BlobStatus V)} (h : List.Forall₂ (Settled P) blobs c) :
    accepted (c.filterMap Prod.fst) =
      (((blobs.zip (c.map Prod.snd)).filter fun r => r.2.error = none).map Prod.fst).filterMap
        P.payloadOf := by
  induction h with
  | nil => rfl
  | @cons b r blobs c hr _ ih =>
    obtain ⟨call, s⟩ := r
    have hpayload := hr.payload
    have htx := hr.txFinal
    have happlied := hr.applied
    dsimp only at hpayload htx happlied
    cases call with
    | none =>
      have hnone : P.payloadOf b = none := by simpa using hpayload.symm
      by_cases herr : s.error = none
      · simpa [herr, hnone] using ih
      · simpa [herr] using ih
    | some a =>
      have hsome : P.payloadOf b = some a.payload := by simpa using hpayload.symm
      rw [hsome] at htx
      have hiff : s.error = none ↔ a.rejection = none := by
        simpa [htx, not_iff_not] using happlied
      by_cases herr : s.error = none
      · have hrej := hiff.mp herr
        simpa [accepted, herr, hrej, hsome] using ih
      · have hrej : a.rejection ≠ none := fun hrej => herr (hiff.mpr hrej)
        simpa [accepted, herr, hrej] using ih

theorem accepted_calls {txs : List BlobTx} {calls : List (List (Option (Attempt V) × BlobStatus V))}
    (h : List.Forall₂ (fun tx c => List.Forall₂ (Settled P) tx.blobs c) txs calls) :
    accepted (calls.flatMap fun c => c.filterMap Prod.fst) =
      (List.zipWith BlobTx.withoutErrors txs
        (List.zipWith (fun tx c => ⟨tx.txHash, c.map Prod.snd⟩) txs calls)).flatMap
          fun tx => tx.blobs.filterMap P.payloadOf := by
  induction h with
  | nil => rfl
  | @cons tx c txs calls hc _ ih =>
    have happend : ∀ as bs : List (Attempt V), accepted (as ++ bs) = accepted as ++ accepted bs := by
      intro as bs
      simp [accepted]
    rw [List.flatMap_cons, happend, accepted_settled hc, ih]
    rfl

/-! ## The one blob that stops a slot -/

theorem ProofParser.deriveBlobs_eq {n : Node V} {roots : List (V × Int)} {block : ExecutionBlock}
    {txs : List BlobTx} (h : ∀ tx ∈ txs, ∀ b ∈ tx.blobs, ¬ MagicOnly b.2) :
    P.deriveBlobs n roots block txs =
      match deriveSlotState n.containers n.stateLog.donStateAtHead roots block (txs.map P.parsedTx)
        (n.stateLog.createdIndices (candidatesOf (txs.map P.parsedTx))) with
      | .ok (derived, statuses, _, attempts) =>
        .ok ⟨txs.map P.parsedTx, derived, statuses, attempts⟩
      | .error _ => .err "derivation failed" := by
  have hparse : P.parseBlobs (fetchTargetBlobs (txs.map BlobTx.decoded)) = .ok (txs.map P.parsedTx) := by
    rw [← parseBlobs_decoded]
    refine parseBlobs_ok fun t ht i bytes hb => parseBlob_noPanic fun hmagic => ?_
    simp only [fetchTargetBlobs, List.map_map, List.mem_map] at ht
    obtain ⟨tx, htx, rfl⟩ := ht
    simp only [Function.comp_apply, BlobTx.decoded, List.map_map, List.mem_map] at hb
    obtain ⟨b, hbtx, hb⟩ := hb
    refine h tx htx b hbtx ((decodes_magic_iff b.2).mp ⟨bytes, ?_, hmagic⟩)
    simp only [decodedBlob] at hb
    split at hb
    · rename_i hdecode
      simp only [Except.toOption, Option.some.injEq, Prod.mk.injEq] at hb
      rw [hdecode, hb.2]
    · simp [Except.toOption] at hb
    · simp [Except.toOption] at hb
  rw [deriveBlobs, decode_ok, Outcome.ok_bind, hparse, Outcome.ok_bind]

/-- A blob with the magic alone ends the run of the slot. -/
theorem ProofParser.deriveBlobs_magic {n : Node V} {roots : List (V × Int)} {block : ExecutionBlock}
    {txs : List BlobTx} {tx : BlobTx} (htx : tx ∈ txs) {b : Nat × Wire.Bytes} (hb : b ∈ tx.blobs)
    (hmagic : MagicOnly b.2) (r : SlotResult V) : P.deriveBlobs n roots block txs ≠ .ok r := by
  intro h
  rw [deriveBlobs, decode_ok, Outcome.ok_bind] at h
  obtain ⟨parsed, hparsed, -⟩ := Outcome.bind_eq_ok h
  have hall := Outcome.mapList_eq_ok.mp hparsed
  obtain ⟨bytes, hdecode, hbytes⟩ := (decodes_magic_iff b.2).mpr hmagic
  obtain ⟨m, hm⟩ := P.parseBlob_magic hbytes
  have ht : (tx.target : TargetTx V Bytes) ∈ fetchTargetBlobs (txs.map BlobTx.decoded) := by
    rw [fetchTargetBlobs, List.map_map]
    exact List.mem_map_of_mem (f := BlobTx.target) htx
  have hblob : some (b.1, bytes) ∈ (tx.target : TargetTx V Bytes).blobs := by
    simp only [BlobTx.target, BlobTx.decoded, List.map_map, List.mem_map]
    exact ⟨b, hb, by simp [decodedBlob, hdecode, Except.toOption]⟩
  obtain ⟨t', -, ht'⟩ := forall₂_mem_right hall.flip ht
  obtain ⟨r', hr', -⟩ := Outcome.bind_eq_ok ht'
  exact parseTxBlobs_panic (by simp [BlobTx.target]) hblob hm r' hr'

/-- A slot completes, from every node that commits and rollbacks lead to, exactly when none of
its blobs carries the magic bytes alone. -/
theorem ProofParser.completes_iff (P : ProofParser Proof Decompressed V) (parser : BlobParser V)
    (initStartSlot : Nat) (ops : List (NodeOp V)) (roots : List (V × Int)) (block : ExecutionBlock)
    (txs : List BlobTx) :
    P.Completes (Node.genesis.applyAll parser initStartSlot ops) roots block txs ↔
      ∀ tx ∈ txs, ∀ b ∈ tx.blobs, ¬ MagicOnly b.2 := by
  obtain ⟨h, htracks⟩ := (Node.Tracks.genesis parser initStartSlot).applyAll ops
  obtain ⟨l, htally⟩ := htracks.tally
  have hstocked := Node.genesis_stocked.applyAll parser initStartSlot ops
  generalize (Node.genesis : Node V).applyAll parser initStartSlot ops = n at htally hstocked
  constructor
  · rintro ⟨r, hr, -⟩ tx htx b hb hmagic
    exact deriveBlobs_magic htx hb hmagic r hr
  intro hclean
  have hlined : ∀ txs : List BlobTx, Lined (txs.map P.parsedTx) := by
    intro txs
    rw [← parseBlobs_decoded]
    exact parseBlobs_lined _ (fetchTargetBlobs_lined _)
  obtain ⟨w, w', as, state, history, sts, hstart, -, happly, -, hout, hfinish, hderive⟩ :=
    Node.deriveSlotState_total hstocked htally roots block (hlined txs) created_subset_candidatesOf
  obtain ⟨calls, hcalls, rfl, rfl⟩ := hout.settled
  refine ⟨_, by rw [deriveBlobs_eq hclean, hderive], ?_, ⟨calls, hcalls, rfl, rfl⟩, ?_⟩
  · rw [List.forall₂_map_right_iff, List.forall₂_same]
    intro tx _
    exact ⟨rfl, (P.parsedTx_spec tx).2⟩
  -- The second derivation, over the blobs that were kept.
  have hkept : ∀ tx ∈ List.zipWith BlobTx.withoutErrors txs
      (List.zipWith (fun tx c => (⟨tx.txHash, c.map Prod.snd⟩ : TxStatus V)) txs calls),
      ∀ b ∈ tx.blobs, ¬ MagicOnly b.2 := by
    intro tx htx b hb
    rw [← List.map_uncurry_zip_eq_zipWith, List.mem_map] at htx
    obtain ⟨⟨tx₀, st⟩, hzip, rfl⟩ := htx
    obtain ⟨r, hr, rfl⟩ := List.mem_map.mp hb
    exact hclean tx₀ (List.of_mem_zip hzip).1 r.1 (List.of_mem_zip (List.mem_filter.mp hr).1).1
  obtain ⟨sts', db', as', hagain⟩ := Node.deriveSlotState_regroup htally hstart happly hfinish
    created_subset_candidatesOf (hlined _) created_subset_candidatesOf
    (.inl ((payloadsOf_parsedTx _).trans (accepted_calls hcalls).symm))
  exact ⟨⟨_, ⟨state, w'.createdAdded⟩, sts', as'⟩, by rw [deriveBlobs_eq hkept, hagain], rfl⟩

end Parser

namespace Sample

/-- A full blob whose data is the two magic bytes. -/
def magicBlob : Wire.Bytes :=
  [0, 0, 0, 0, 0, 0, 0, 0, 2] ++ List.replicate 23 0 ++ [0, 0x0b, 0xd1] ++ List.replicate 131037 0

def parser : ProofParser Wire.F Unit Term := ⟨Wire.Sample.codec, fun _ _ => .ok (), fun _ => .ok ()⟩

end Sample

theorem magicOnly_magicBlob : Sample.magicBlob.length = 131072 ∧ MagicOnly Sample.magicBlob := by
  have hlen : Sample.magicBlob.length = 131072 := by
    simp only [Sample.magicBlob, List.length_append, List.length_replicate, List.length_cons,
      List.length_nil]
  refine ⟨hlen, by omega, by rw [hlen], rfl, rfl⟩

/-- One such blob and the slot is not derived. -/
theorem ProofParser.magic_stops_slot :
    ¬ Sample.parser.Completes Node.genesis [] ⟨1, 0, []⟩ [⟨1, [(0, Sample.magicBlob)]⟩] := by
  rintro ⟨r, hr, -⟩
  refine deriveBlobs_magic List.mem_cons_self List.mem_cons_self ?_ r hr
  exact magicOnly_magicBlob.2

end DigitalObjects.Synchronizer
