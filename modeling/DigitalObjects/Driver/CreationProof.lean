import DigitalObjects.Wire.Payload
import DigitalObjects.Lib.Base64
set_option autoImplicit false

/-!
The creation proof that travels inside an object file: a version, a state header, an index and
the siblings of a Merkle proof, as base64. The reader takes the bytes apart as the writer put
them together and leaves none.
-/

namespace DigitalObjects.Driver.Creation

open Lib Wire

/-! ## Data -/

def formatVersion : UInt8 := 1
def hashBytes : Nat := 32
def i64Bytes : Nat := 8

/-- Everything before the siblings. -/
def fixedBytes : Nat := 1 + 2 * i64Bytes + 4 * hashBytes + i64Bytes

structure StateHeader where
  blockNumber : Int64
  blockTimestamp : Int64
  blockHash : Hash
  createdRoot : Hash
  nullifiersRoot : Hash
  priorStateHistoryRoot : Hash
deriving DecidableEq

/-- Field-for-field copy of pod2's `MerkleProof`. -/
structure MerkleProofFields where
  existence : Bool
  siblings : List Hash
  otherLeaf : Option (Hash × Hash)
deriving DecidableEq

/-- What the coding and the check use of pod2, `serde_json` and `base64`. -/
structure Backend where
  MerkleProof : Type
  Value : Type
  ofInt : Int64 → Value
  ofHash : Hash → Value
  arrayCommitment : List Value → Hash
  arrayVerify : Hash → MerkleProof → Nat → Value → Except String Unit
  /-- `RawValue::to_bytes`. -/
  toBytes : Hash → Bytes
  /-- `from_value(to_value(proof)?)?`, both ways. -/
  toFields : MerkleProof → Except String MerkleProofFields
  ofFields : MerkleProofFields → Except String MerkleProof
  base64Encode : Bytes → String
  base64Decode : String → Except String Bytes

/-- The element that a machine word stands for. -/
def wordElem (n : Nat) : F := Fin.ofNat order n

structure Backend.Lawful (B : Backend) : Prop where
  /-- The little-endian bytes of the four limbs. -/
  limbs : ∀ hash : Hash, ∃ words : List.Vector UInt64 4,
    B.toBytes hash = words.toList.flatMap (fun w => toLe 8 w.toNat) ∧
      words.map (fun w => wordElem w.toNat) = hash
  of_toFields : ∀ proof, ∃ fields, B.toFields proof = .ok fields ∧ B.ofFields fields = .ok proof
  to_ofFields : ∀ fields, ∃ proof, B.ofFields fields = .ok proof ∧ B.toFields proof = .ok fields
  decode_encode : ∀ bytes, B.base64Decode (B.base64Encode bytes) = .ok bytes
  encode_decode : ∀ text bytes, B.base64Decode text = .ok bytes → B.base64Encode bytes = text

variable {B : Backend}

structure CreationProof (B : Backend) where
  stateHeader : StateHeader
  index : Int64
  proof : B.MerkleProof

def liftError {α : Type} : Except String α → Outcome String α
  | .ok a => .ok a
  | .error e => .err e

/-! ## Encoding -/

/-- `to_le_bytes` of an `i64`. -/
def leBytes (n : Int64) : Bytes := toLe 8 n.toUInt64.toNat

def encode (p : CreationProof B) : Outcome String String := do
  let fields ← liftError (B.toFields p.proof)
  let header := p.stateHeader
  let bytes := [formatVersion] ++ leBytes header.blockNumber ++ leBytes header.blockTimestamp ++
    [header.blockHash, header.createdRoot, header.nullifiersRoot,
      header.priorStateHistoryRoot].flatMap B.toBytes ++
    leBytes p.index ++ fields.siblings.flatMap B.toBytes
  pure (B.base64Encode bytes)

/-! ## Decoding -/

/-- `ByteReader::take`: `split_at` panics past the end. -/
def take (len : Nat) : Reader UInt8 String Bytes := fun bytes =>
  if len ≤ bytes.length then .ok (bytes.take len, bytes.drop len) else .panic "mid > len"

def readI64 : Reader UInt8 String Int64 := fun bytes => do
  let (head, bytes) ← take i64Bytes bytes
  if head.length = 8 then .ok ((UInt64.ofNat (fromLe head)).toInt64, bytes) else .panic "8 bytes"

def dbBytesToHash (bytes : Bytes) : Outcome String Hash :=
  let limbs := asChunks 8 bytes
  if h : limbs.length = 4 then .ok ⟨limbs.map fun limb => wordElem (fromLe limb), by simp [h]⟩
  else .err "invalid hash byte length"

def readHash : Reader UInt8 String Hash := fun bytes => do
  let (head, bytes) ← take hashBytes bytes
  let hash ← dbBytesToHash head
  .ok (hash, bytes)

/-- The fields after the version. -/
def readFields (bytes : Bytes) : Outcome String (StateHeader × Int64 × List Hash) := do
  let (blockNumber, bytes) ← readI64 bytes
  let (blockTimestamp, bytes) ← readI64 bytes
  let (blockHash, bytes) ← readHash bytes
  let (createdRoot, bytes) ← readHash bytes
  let (nullifiersRoot, bytes) ← readHash bytes
  let (priorStateHistoryRoot, bytes) ← readHash bytes
  let (index, bytes) ← readI64 bytes
  let siblings ← Outcome.mapList dbBytesToHash (chunks hashBytes bytes)
  .ok (⟨blockNumber, blockTimestamp, blockHash, createdRoot, nullifiersRoot, priorStateHistoryRoot⟩,
    index, siblings)

def decode (encoded : String) : Outcome String (CreationProof B) :=
  match B.base64Decode encoded with
  | .error e => .err s!"creation proof is not base64: {e}"
  | .ok bytes =>
    if ¬ (fixedBytes ≤ bytes.length ∧ (bytes.length - fixedBytes) % hashBytes = 0) then
      .err s!"creation proof has an invalid length of {bytes.length} bytes"
    else match bytes with
      | [] => .panic "index out of bounds"
      | version :: bytes =>
        if version ≠ formatVersion then .err s!"creation proof has unknown version {version}"
        else do
          let (stateHeader, index, siblings) ← readFields bytes
          let proof ← liftError (B.ofFields ⟨true, siblings, none⟩)
          .ok ⟨stateHeader, index, proof⟩

/-! ## Verifying -/

def StateHeader.hash (B : Backend) (h : StateHeader) : Hash :=
  B.arrayCommitment [B.ofInt h.blockNumber, B.ofInt h.blockTimestamp, B.ofHash h.blockHash,
    B.ofHash h.createdRoot, B.ofHash h.nullifiersRoot, B.ofHash h.priorStateHistoryRoot]

/-- `verify`; `try_from` admits no negative index. -/
def verify (p : CreationProof B) (commitment : Hash) : Except String Hash :=
  if p.index < 0 then .error s!"creation proof has a negative index {p.index}"
  else match B.arrayVerify p.stateHeader.createdRoot p.proof p.index.toInt.toNat (B.ofHash commitment) with
    | .error e => .error s!"creation proof does not prove the object's creation: {e}"
    | .ok () => .ok (p.stateHeader.hash B)

/-! ## Parts -/

/-- Bytes that are read as the hash. -/
def HashPart (part : Bytes) (hash : Hash) : Prop := part.length = 32 ∧ dbBytesToHash part = .ok hash

/-- The bytes are the parts of a header, an index and siblings, and nothing else. -/
def Parts (bytes : Bytes) (header : StateHeader) (index : Int64) (siblings : List Hash) : Prop :=
  ∃ blockHash createdRoot nullifiersRoot priorStateHistoryRoot : Bytes, ∃ rest : List Bytes,
    HashPart blockHash header.blockHash ∧ HashPart createdRoot header.createdRoot ∧
    HashPart nullifiersRoot header.nullifiersRoot ∧
    HashPart priorStateHistoryRoot header.priorStateHistoryRoot ∧
    List.Forall₂ HashPart rest siblings ∧
    bytes = leBytes header.blockNumber ++ (leBytes header.blockTimestamp ++ (blockHash ++
      (createdRoot ++ (nullifiersRoot ++ (priorStateHistoryRoot ++ (leBytes index ++ rest.flatten))))))

@[simp] theorem length_leBytes (n : Int64) : (leBytes n).length = 8 := by
  simp [leBytes]

theorem take_append {len : Nat} {part : Bytes} (h : part.length = len) (rest : Bytes) :
    take len (part ++ rest) = .ok (part, rest) := by
  rw [take, if_pos (by rw [List.length_append]; omega), List.take_left' h, List.drop_left' h]

theorem take_eq_ok {len : Nat} {bytes part rest : Bytes} (h : take len bytes = .ok (part, rest)) :
    part.length = len ∧ bytes = part ++ rest := by
  unfold take at h
  split at h
  case isTrue hlen =>
    cases h
    rw [List.length_take]
    exact ⟨by omega, (List.take_append_drop len bytes).symm⟩
  case isFalse => cases h

theorem toInt64_ofNat_fromLe (n : Int64) : (UInt64.ofNat (fromLe (leBytes n))).toInt64 = n := by
  have hsize : n.toUInt64.toNat < 256 ^ 8 := n.toUInt64.toNat_lt
  rw [leBytes, fromLe_toLe hsize, UInt64.ofNat_toNat]
  rfl

theorem leBytes_toInt64 {part : Bytes} (h : part.length = 8) :
    leBytes (UInt64.ofNat (fromLe part)).toInt64 = part := by
  have hback := toLe_fromLe part
  have hsize := fromLe_lt part
  rw [h] at hback hsize
  have hword : (UInt64.ofNat (fromLe part)).toNat = fromLe part := by
    rw [UInt64.toNat_ofNat']
    exact Nat.mod_eq_of_lt hsize
  rw [leBytes, UInt64.toUInt64_toInt64, hword, hback]

theorem readI64_exact : Exact readI64 leBytes fun _ => True := by
  constructor
  · intro n _ rest
    have htake := take_append (length_leBytes n) rest
    rw [readI64, i64Bytes, htake, Outcome.ok_bind]
    simp only [length_leBytes, if_true, toInt64_ofNat_fromLe]
  · intro bytes n rest h
    obtain ⟨⟨part, rest'⟩, htake, hvalue⟩ := Outcome.bind_eq_ok h
    obtain ⟨hlen, rfl⟩ := take_eq_ok htake
    rw [i64Bytes] at hlen
    simp only [hlen, if_true, Outcome.ok.injEq, Prod.mk.injEq] at hvalue
    obtain ⟨rfl, rfl⟩ := hvalue
    exact ⟨trivial, by rw [leBytes_toInt64 hlen]⟩

theorem readHash_eq_ok {bytes rest : Bytes} {hash : Hash} :
    readHash bytes = .ok (hash, rest) ↔ ∃ part, HashPart part hash ∧ bytes = part ++ rest := by
  constructor
  · intro h
    obtain ⟨⟨part, rest'⟩, htake, h⟩ := Outcome.bind_eq_ok h
    obtain ⟨hash', hhash, h⟩ := Outcome.bind_eq_ok h
    cases h
    obtain ⟨hlen, rfl⟩ := take_eq_ok htake
    exact ⟨part, ⟨hlen, hhash⟩, rfl⟩
  · rintro ⟨part, ⟨hlen, hhash⟩, rfl⟩
    rw [readHash, hashBytes, take_append hlen]
    simp [hhash]

/-- Every 32 bytes are read as some hash. -/
theorem exists_hashPart {part : Bytes} (h : part.length = 32) : ∃ hash, HashPart part hash := by
  have hlimbs : (asChunks 8 part).length = 4 := by
    simp [asChunks, h]
  exact ⟨_, h, dif_pos hlimbs⟩

theorem hashPart_toBytes (hB : B.Lawful) (hash : Hash) : HashPart (B.toBytes hash) hash := by
  obtain ⟨words, hbytes, hwords⟩ := hB.limbs hash
  have hparts : ∀ part ∈ words.toList.map (fun w => toLe 8 w.toNat), part.length = 8 := by
    intro part hpart
    obtain ⟨w, -, rfl⟩ := List.mem_map.mp hpart
    exact length_toLe 8 _
  have hlimbs : asChunks 8 (B.toBytes hash) = words.toList.map (fun w => toLe 8 w.toNat) := by
    rw [hbytes, List.flatMap_def]
    exact asChunks_flatten (by omega) hparts
  have hcount : (asChunks 8 (B.toBytes hash)).length = 4 := by
    rw [hlimbs, List.length_map, List.Vector.toList_length]
  have hlength : (B.toBytes hash).length = 32 := by
    rw [hbytes, List.length_flatMap]
    simp
  have hread : dbBytesToHash (B.toBytes hash) =
      .ok ⟨(asChunks 8 (B.toBytes hash)).map fun limb => wordElem (fromLe limb), by simp [hcount]⟩ :=
    dif_pos hcount
  refine ⟨hlength, hread.trans ?_⟩
  congr 1
  refine (List.Vector.eq _ _ ?_).trans hwords
  rw [List.Vector.toList_mk, hlimbs, List.map_map, List.Vector.toList_map]
  refine List.map_congr_left fun w _ => ?_
  have hsize : w.toNat < 256 ^ 8 := w.toNat_lt
  rw [Function.comp_apply, fromLe_toLe hsize]

theorem readFields_of_parts {bytes : Bytes} {header : StateHeader} {index : Int64}
    {siblings : List Hash} (h : Parts bytes header index siblings) :
    readFields bytes = .ok (header, index, siblings) := by
  obtain ⟨b₁, b₂, b₃, b₄, rest, h₁, h₂, h₃, h₄, hrest, rfl⟩ := h
  have hint : ∀ (n : Int64) (more : Bytes), readI64 (leBytes n ++ more) = .ok (n, more) :=
    fun n more => readI64_exact.read_write n trivial more
  have hhash : ∀ {part : Bytes} {hash : Hash} (more : Bytes), HashPart part hash →
      readHash (part ++ more) = .ok (hash, more) :=
    fun more hpart => readHash_eq_ok.mpr ⟨_, hpart, rfl⟩
  have hlengths : ∀ part ∈ rest, part.length = 32 := by
    intro part hpart
    obtain ⟨hash, -, hR⟩ := forall₂_mem_right hrest.flip hpart
    exact hR.1
  have hchunks : chunks hashBytes rest.flatten = rest := by
    have hdvd : rest.flatten.length % 32 = 0 := by
      rw [List.length_flatten, List.map_congr_left hlengths]
      simp
    rw [hashBytes, chunks_of_dvd (by omega) hdvd, asChunks_flatten (by omega) hlengths]
  have hsiblings : Outcome.mapList dbBytesToHash rest = .ok siblings :=
    Outcome.mapList_eq_ok.mpr (hrest.imp fun _ _ hR => hR.2)
  simp only [readFields, hint, Outcome.ok_bind, hhash _ h₁, hhash _ h₂, hhash _ h₃, hhash _ h₄,
    hchunks, hsiblings]

theorem exists_append (n : Nat) (bytes : Bytes) (h : n ≤ bytes.length) :
    ∃ part rest : Bytes, part.length = n ∧ bytes = part ++ rest := by
  refine ⟨bytes.take n, bytes.drop n, ?_, (List.take_append_drop n bytes).symm⟩
  rw [List.length_take]
  omega

theorem exists_leBytes {part : Bytes} (h : part.length = 8) : ∃ n : Int64, part = leBytes n :=
  ⟨_, (leBytes_toInt64 h).symm⟩

theorem exists_siblings {k : Nat} : ∀ bytes : Bytes, bytes.length = 32 * k →
    ∃ (parts : List Bytes) (siblings : List Hash),
      List.Forall₂ HashPart parts siblings ∧ bytes = parts.flatten := by
  induction k with
  | zero =>
    intro bytes h
    exact ⟨[], [], .nil, List.length_eq_zero_iff.mp h⟩
  | succ k ih =>
    intro bytes h
    rw [Nat.mul_succ] at h
    obtain ⟨part, rest, hpart, rfl⟩ := exists_append 32 bytes (by omega)
    rw [List.length_append] at h
    obtain ⟨parts, siblings, hparts, rfl⟩ := ih rest (by omega)
    obtain ⟨hash, hhash⟩ := exists_hashPart hpart
    exact ⟨part :: parts, hash :: siblings, .cons hhash hparts, rfl⟩

/-- Bytes of an admitted length always have their parts. -/
theorem parts_of_length {bytes : Bytes} {k : Nat} (h : bytes.length = 152 + 32 * k) :
    ∃ header index siblings, Parts bytes header index siblings := by
  obtain ⟨c₁, bytes, hlen₁, rfl⟩ := exists_append 8 bytes (by omega)
  rw [List.length_append] at h
  obtain ⟨c₂, bytes, hlen₂, rfl⟩ := exists_append 8 bytes (by omega)
  rw [List.length_append] at h
  obtain ⟨b₁, bytes, hpart₁, rfl⟩ := exists_append 32 bytes (by omega)
  rw [List.length_append] at h
  obtain ⟨b₂, bytes, hpart₂, rfl⟩ := exists_append 32 bytes (by omega)
  rw [List.length_append] at h
  obtain ⟨b₃, bytes, hpart₃, rfl⟩ := exists_append 32 bytes (by omega)
  rw [List.length_append] at h
  obtain ⟨b₄, bytes, hpart₄, rfl⟩ := exists_append 32 bytes (by omega)
  rw [List.length_append] at h
  obtain ⟨c₃, bytes, hlen₃, rfl⟩ := exists_append 8 bytes (by omega)
  rw [List.length_append] at h
  have hbytes : bytes.length = 32 * k := by omega
  obtain ⟨parts, siblings, hparts, rfl⟩ := exists_siblings bytes hbytes
  obtain ⟨blockNumber, rfl⟩ := exists_leBytes hlen₁
  obtain ⟨blockTimestamp, rfl⟩ := exists_leBytes hlen₂
  obtain ⟨index, rfl⟩ := exists_leBytes hlen₃
  obtain ⟨blockHash, h₁⟩ := exists_hashPart hpart₁
  obtain ⟨createdRoot, h₂⟩ := exists_hashPart hpart₂
  obtain ⟨nullifiersRoot, h₃⟩ := exists_hashPart hpart₃
  obtain ⟨priorStateHistoryRoot, h₄⟩ := exists_hashPart hpart₄
  exact ⟨⟨blockNumber, blockTimestamp, blockHash, createdRoot, nullifiersRoot, priorStateHistoryRoot⟩,
    index, siblings, b₁, b₂, b₃, b₄, parts, h₁, h₂, h₃, h₄, hparts, rfl⟩

theorem length_of_parts {bytes : Bytes} {header : StateHeader} {index : Int64} {siblings : List Hash}
    (h : Parts bytes header index siblings) : bytes.length = 152 + 32 * siblings.length := by
  obtain ⟨b₁, b₂, b₃, b₄, rest, h₁, h₂, h₃, h₄, hrest, rfl⟩ := h
  have hlengths : ∀ part ∈ rest, part.length = 32 := by
    intro part hpart
    obtain ⟨hash, -, hR⟩ := forall₂_mem_right hrest.flip hpart
    exact hR.1
  have hflatten : rest.flatten.length = 32 * siblings.length := by
    rw [List.length_flatten, List.map_congr_left hlengths, ← hrest.length_eq]
    simp [Nat.mul_comm]
  simp only [List.length_append, length_leBytes, h₁.1, h₂.1, h₃.1, h₄.1, hflatten]
  omega

/-! ## The coding -/

/-- What is decoded is a version and parts; decoding fails where there are none. -/
theorem decode_eq_ok (hB : B.Lawful) {text : String} {p : CreationProof B} :
    decode text = .ok p ↔ ∃ tail siblings,
      B.base64Decode text = .ok (formatVersion :: tail) ∧
      Parts tail p.stateHeader p.index siblings ∧ B.ofFields ⟨true, siblings, none⟩ = .ok p.proof := by
  constructor
  · intro h
    unfold decode at h
    split at h
    case h_1 => cases h
    case h_2 bytes hbytes =>
      split at h
      case isTrue => cases h
      case isFalse hlen =>
        rw [Decidable.not_not] at hlen
        split at h
        case h_1 => cases h
        case h_2 version tail =>
          split at h
          case isTrue => cases h
          case isFalse hversion =>
            rw [Decidable.not_not] at hversion
            subst hversion
            have htail : tail.length = 152 + 32 * ((tail.length - 152) / 32) := by
              simp only [fixedBytes, i64Bytes, hashBytes, List.length_cons] at hlen
              omega
            obtain ⟨header, index, siblings, hparts⟩ := parts_of_length htail
            rw [readFields_of_parts hparts, Outcome.ok_bind] at h
            obtain ⟨proof, hproof⟩ := hB.to_ofFields ⟨true, siblings, none⟩
            simp only [hproof.1, liftError, Outcome.ok_bind] at h
            cases h
            exact ⟨tail, siblings, hbytes, hparts, hproof.1⟩
  · rintro ⟨tail, siblings, hbytes, hparts, hproof⟩
    have hlen := length_of_parts hparts
    have hadmitted : fixedBytes ≤ (formatVersion :: tail).length ∧
        ((formatVersion :: tail).length - fixedBytes) % hashBytes = 0 := by
      simp only [fixedBytes, i64Bytes, hashBytes, List.length_cons, hlen]
      omega
    unfold decode
    rw [hbytes]
    dsimp only
    rw [if_neg (not_not_intro hadmitted), if_neg (not_not_intro rfl), readFields_of_parts hparts]
    simp only [Outcome.ok_bind, hproof, liftError]

theorem decode_noPanic (hB : B.Lawful) (text : String) :
    (decode text : Outcome String (CreationProof B)).NoPanic := by
  intro m h
  unfold decode at h
  split at h
  case h_1 => cases h
  case h_2 bytes hbytes =>
    split at h
    case isTrue => cases h
    case isFalse hlen =>
      rw [Decidable.not_not] at hlen
      split at h
      case h_1 =>
        simp [fixedBytes] at hlen
      case h_2 version tail =>
        split at h
        case isTrue => cases h
        case isFalse =>
          have htail : tail.length = 152 + 32 * ((tail.length - 152) / 32) := by
            simp only [fixedBytes, i64Bytes, hashBytes, List.length_cons] at hlen
            omega
          obtain ⟨header, index, siblings, hparts⟩ := parts_of_length htail
          rw [readFields_of_parts hparts, Outcome.ok_bind] at h
          obtain ⟨proof, hproof⟩ := hB.to_ofFields ⟨true, siblings, none⟩
          simp only [hproof.1, liftError, Outcome.ok_bind] at h
          cases h

/-- A proof of existence is encoded as its parts. -/
theorem encode_parts (hB : B.Lawful) {p : CreationProof B} {siblings : List Hash}
    (h : B.toFields p.proof = .ok ⟨true, siblings, none⟩) :
    ∃ tail, encode p = .ok (B.base64Encode (formatVersion :: tail)) ∧
      Parts tail p.stateHeader p.index siblings := by
  refine ⟨_, ?_, B.toBytes p.stateHeader.blockHash, B.toBytes p.stateHeader.createdRoot,
    B.toBytes p.stateHeader.nullifiersRoot, B.toBytes p.stateHeader.priorStateHistoryRoot,
    siblings.map B.toBytes, hashPart_toBytes hB _, hashPart_toBytes hB _, hashPart_toBytes hB _,
    hashPart_toBytes hB _, ?_, rfl⟩
  · simp [encode, h, liftError, List.flatMap_def]
  · rw [List.forall₂_map_left_iff, List.forall₂_same]
    exact fun hash _ => hashPart_toBytes hB hash

theorem decode_encode (hB : B.Lawful) {p : CreationProof B} {siblings : List Hash}
    (h : B.toFields p.proof = .ok ⟨true, siblings, none⟩) :
    ∃ text, encode p = .ok text ∧ decode text = .ok p := by
  obtain ⟨tail, hencode, hparts⟩ := encode_parts hB h
  obtain ⟨fields, hfields, hback⟩ := hB.of_toFields p.proof
  rw [h] at hfields
  cases hfields
  exact ⟨_, hencode, (decode_eq_ok hB).mpr ⟨tail, siblings, hB.decode_encode _, hparts, hback⟩⟩

/-- Proofs of existence survive the coding and have different encodings. Any text is decoded or
refused; a decoded one is the base64 of version 1 and of the parts that it was read as, and what
it verifies is what those parts prove. -/
theorem creationProof_coding (hB : B.Lawful) :
    (∀ (p : CreationProof B) (siblings : List Hash), B.toFields p.proof = .ok ⟨true, siblings, none⟩ →
      ∃ text, encode p = .ok text ∧ decode text = .ok p) ∧
    (∀ text, (decode text : Outcome String (CreationProof B)).NoPanic ∧
      ∀ p : CreationProof B, decode text = .ok p → ∃ tail siblings,
        text = B.base64Encode (formatVersion :: tail) ∧
        (formatVersion :: tail).length = fixedBytes + 32 * siblings.length ∧
        Parts tail p.stateHeader p.index siblings ∧
        B.toFields p.proof = .ok ⟨true, siblings, none⟩) ∧
    (∀ (p q : CreationProof B) (siblings siblings' : List Hash) (text : String),
      B.toFields p.proof = .ok ⟨true, siblings, none⟩ →
      B.toFields q.proof = .ok ⟨true, siblings', none⟩ →
      encode p = .ok text → encode q = .ok text → p = q) ∧
    ∀ (text : String) (commitment root : Hash),
      (∃ p : CreationProof B, decode text = .ok p ∧ verify p commitment = .ok root) ↔
      ∃ tail header index siblings proof, B.base64Decode text = .ok (formatVersion :: tail) ∧
        Parts tail header index siblings ∧ B.ofFields ⟨true, siblings, none⟩ = .ok proof ∧
        0 ≤ index ∧
        B.arrayVerify header.createdRoot proof index.toInt.toNat (B.ofHash commitment) = .ok () ∧
        root = header.hash B := by
  refine ⟨fun p siblings h => decode_encode hB h, fun text => ⟨decode_noPanic hB text, ?_⟩, ?_, ?_⟩
  · intro p h
    obtain ⟨tail, siblings, hbytes, hparts, hproof⟩ := (decode_eq_ok hB).mp h
    obtain ⟨proof, hof, hto⟩ := hB.to_ofFields ⟨true, siblings, none⟩
    rw [hproof] at hof
    cases hof
    refine ⟨tail, siblings, (hB.encode_decode _ _ hbytes).symm, ?_, hparts, hto⟩
    rw [List.length_cons, length_of_parts hparts]
    simp only [fixedBytes, i64Bytes, hashBytes]
    omega
  · intro p q siblings siblings' text hp hq hencode hencode'
    obtain ⟨text₁, h₁, hback₁⟩ := decode_encode hB hp
    obtain ⟨text₂, h₂, hback₂⟩ := decode_encode hB hq
    rw [hencode] at h₁
    rw [hencode'] at h₂
    cases h₁
    cases h₂
    rw [hback₁] at hback₂
    cases hback₂
    rfl
  · intro text commitment root
    constructor
    · rintro ⟨p, hdecode, hverify⟩
      obtain ⟨tail, siblings, hbytes, hparts, hproof⟩ := (decode_eq_ok hB).mp hdecode
      unfold verify at hverify
      split at hverify
      case isTrue => cases hverify
      case isFalse hindex =>
        split at hverify
        case h_1 => cases hverify
        case h_2 harray =>
          cases hverify
          exact ⟨tail, p.stateHeader, p.index, siblings, p.proof, hbytes, hparts, hproof,
            Int64.not_lt.mp hindex, harray, rfl⟩
    · rintro ⟨tail, header, index, siblings, proof, hbytes, hparts, hproof, hindex, harray, rfl⟩
      refine ⟨⟨header, index, proof⟩, (decode_eq_ok hB).mpr ⟨tail, siblings, hbytes, hparts, hproof⟩, ?_⟩
      rw [verify, if_neg (Int64.not_lt.mpr hindex)]
      dsimp only
      rw [harray]

/-! ## A backend of plain data -/

namespace Sample

/-- Its checker knows no tree. -/
def backend : Backend where
  MerkleProof := MerkleProofFields
  Value := Int64 ⊕ Hash
  ofInt := .inl
  ofHash := .inr
  arrayCommitment _ := List.Vector.replicate 4 0
  arrayVerify _ _ _ _ := .error "proof does not verify"
  toBytes := writeElems
  toFields := .ok
  ofFields := .ok
  base64Encode := Base64.encode
  base64Decode := Base64.decode

theorem backend_lawful : backend.Lawful where
  limbs hash := by
    refine ⟨hash.map fun elem => UInt64.ofNat elem.val, ?_, ?_⟩
    · have hlimb : ∀ elem ∈ hash.toList, writeElem elem = toLe 8 (UInt64.ofNat elem.val).toNat := by
        intro elem _
        have hsize : elem.val < 2 ^ 64 := elem.isLt.trans (by decide)
        rw [writeElem, UInt64.toNat_ofNat', Nat.mod_eq_of_lt hsize]
      rw [List.Vector.toList_map, List.flatMap_map]
      exact List.flatMap_congr hlimb
    · refine List.Vector.eq _ _ ?_
      rw [List.Vector.toList_map, List.Vector.toList_map, List.map_map]
      refine (List.map_congr_left fun elem _ => ?_).trans (List.map_id _)
      have hsize : elem.val < 2 ^ 64 := elem.isLt.trans (by decide)
      rw [Function.comp_apply, UInt64.toNat_ofNat', Nat.mod_eq_of_lt hsize, wordElem, id]
      exact Fin.ofNat_val_eq_self elem
  of_toFields proof := ⟨proof, rfl, rfl⟩
  to_ofFields fields := ⟨fields, rfl, rfl⟩
  decode_encode := Base64.decode_encode
  encode_decode _ _ := Base64.encode_of_decode

def hash (n : F) : Hash := ⟨[n, 1, 2, 3], rfl⟩

def proof : CreationProof backend :=
  ⟨⟨7, 1000, hash 1, hash 2, hash 3, hash 4⟩, -1, ⟨true, [hash 5, hash 6], none⟩⟩

end Sample

theorem creationProof_coding_sample : Sample.backend.Lawful ∧
    ∃ text, encode Sample.proof = .ok text ∧ decode text = .ok Sample.proof :=
  ⟨Sample.backend_lawful,
    (creationProof_coding Sample.backend_lawful).1 Sample.proof [Sample.hash 5, Sample.hash 6] rfl⟩

end DigitalObjects.Driver.Creation
