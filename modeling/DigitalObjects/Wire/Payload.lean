import DigitalObjects.Lib.Bytes
import Mathlib.Data.Fintype.Basic
set_option autoImplicit false

/-! The binary payload format, from the magic number to the two hash lists. -/

namespace DigitalObjects.Wire

open Lib

abbrev Bytes := List UInt8

/-- `F::ORDER` of the Goldilocks field. -/
def order : Nat := 2 ^ 64 - 2 ^ 32 + 1

instance : NeZero order := ⟨by decide⟩

/-- A field element in canonical form. -/
abbrev F := Fin order

abbrev Hash := List.Vector F 4

/-- The message of a `read_exact` that runs short. -/
def unexpectedEof : String := "failed to fill whole buffer"

/-! ## Field elements and hash lists -/

def writeElem (elem : F) : Bytes := toLe 8 elem.val

def readElem : Reader UInt8 String F := fun bytes => do
  let (elemBytes, bytes) ← readExact unexpectedEof 8 bytes
  let n := fromLe elemBytes
  if h : n < order then .ok (⟨n, h⟩, bytes) else .err s!"{n} >= F::ORDER"

def writeElems {N : Nat} (elems : List.Vector F N) : Bytes := elems.toList.flatMap writeElem

def readElems (N : Nat) : Reader UInt8 String (List.Vector F N) := readVector readElem N

def encodeHashes (hashes : List Hash) : Bytes := toLe 1 hashes.length ++ hashes.flatMap writeElems

def writeHashes (hashes : List Hash) : Outcome String Bytes :=
  if hashes.length ≤ 255 then .ok (encodeHashes hashes)
  else .panic "assertion failed: hashes.len() <= 255"

def readHashes : Reader UInt8 String (List Hash) := fun bytes => do
  let (buffer, bytes) ← readExact unexpectedEof 1 bytes
  readList (readElems 4) (fromLe buffer) bytes

theorem readElem_exact : Exact readElem writeElem fun _ => True := by
  constructor
  · intro a _ rest
    have hsize : a.val < 256 ^ 8 := a.isLt.trans (by decide)
    have hread := (readExact_exact unexpectedEof 8).read_write (toLe 8 a.val) (length_toLe 8 _) rest
    simp only [id] at hread
    rw [readElem, writeElem, hread]
    simp [fromLe_toLe hsize]
  · intro bytes a rest h
    obtain ⟨⟨elemBytes, bytes₁⟩, hread, hvalue⟩ := Outcome.bind_eq_ok h
    obtain ⟨hlen, rfl⟩ := (readExact_exact unexpectedEof 8).write_read _ _ _ hread
    dsimp only at hvalue
    split at hvalue
    · cases hvalue
      have hback := toLe_fromLe elemBytes
      rw [hlen] at hback
      simp [writeElem, hback]
    · cases hvalue

theorem readElem_noPanic (bytes : Bytes) : (readElem bytes).NoPanic := by
  refine (readExact_noPanic unexpectedEof 8 bytes).bind fun r _ => ?_
  dsimp only
  split <;> simp

theorem readElems_exact (N : Nat) : Exact (readElems N) writeElems fun _ => True := by
  have h := readVector_exact readElem_exact N
  simp only [implies_true] at h
  exact h

theorem readElems_noPanic (N : Nat) (bytes : Bytes) : (readElems N bytes).NoPanic :=
  readVector_noPanic readElem_noPanic N bytes

theorem readHashes_exact : Exact readHashes encodeHashes fun hashes => hashes.length ≤ 255 := by
  constructor
  · intro hashes hlen rest
    have hcount : fromLe (toLe 1 hashes.length) = hashes.length := fromLe_toLe (by omega)
    have hlength := (readExact_exact unexpectedEof 1).read_write (toLe 1 hashes.length)
      (length_toLe 1 _) (hashes.flatMap writeElems ++ rest)
    have hlist := (readList_exact (readElems_exact 4) hashes.length).read_write hashes (by simp) rest
    simp only [id] at hlength
    rw [readHashes, encodeHashes, List.append_assoc, hlength, Outcome.ok_bind]
    simp only [hcount]
    exact hlist
  · intro bytes hashes rest h
    obtain ⟨⟨buffer, bytes₁⟩, hbuffer, hlist⟩ := Outcome.bind_eq_ok h
    obtain ⟨hlen, rfl⟩ := (readExact_exact unexpectedEof 1).write_read _ _ _ hbuffer
    obtain ⟨⟨hcount, -⟩, rfl⟩ := (readList_exact (readElems_exact 4) _).write_read _ _ _ hlist
    have hback := toLe_fromLe buffer
    rw [hlen, ← hcount] at hback
    obtain ⟨b, rfl⟩ := List.length_eq_one_iff.mp hlen
    have hb : b.toNat < 256 := b.toNat_lt
    have hone : fromLe [b] = b.toNat := by simp [fromLe_cons]
    constructor
    · rw [hcount, hone]
      omega
    · rw [encodeHashes, hback]
      simp

theorem readHashes_noPanic (bytes : Bytes) : (readHashes bytes).NoPanic := by
  refine (readExact_noPanic unexpectedEof 1 bytes).bind fun r _ => ?_
  exact readList_noPanic (readElems_noPanic 4) _ _

/-! ## Proofs -/

/-- plonky2's codec of compressed proofs: `write_compressed_proof`, and
`read_compressed_proof` with the position it leaves the buffer at. -/
structure ProofCodec (Proof : Type) where
  write : Proof → Bytes
  read : Bytes → Except String (Proof × Nat)
  pos_le : ∀ bytes proof pos, read bytes = .ok (proof, pos) → pos ≤ bytes.length

/-- The codec round-trips, and its reader consumes exactly what the writer wrote. -/
structure ProofCodec.Faithful {Proof : Type} (c : ProofCodec Proof) : Prop where
  round_trip : ∀ proof rest, c.read (c.write proof ++ rest) = .ok (proof, (c.write proof).length)
  consumes : ∀ bytes proof pos, c.read bytes = .ok (proof, pos) → bytes.take pos = c.write proof

inductive ProofType where
  | plonky2
deriving DecidableEq, Repr

def ProofType.fromByte : UInt8 → Outcome String ProofType
  | 0 => .ok .plonky2
  | input => .err s!"unsupported PROOF_TYPE {input}"

def ProofType.toByte : ProofType → UInt8
  | .plonky2 => 0

section Codec

variable {Proof : Type}

/-- `PayloadProof::write_bytes`. -/
def writeProof (c : ProofCodec Proof) (proof : Proof) : Bytes :=
  ProofType.plonky2.toByte :: c.write proof

/-- `PayloadProof::from_bytes`: the proof and the number of bytes it takes. -/
def proofFromBytes (c : ProofCodec Proof) : Bytes → Outcome String (Proof × Nat)
  | [] => .panic "index out of bounds: the len is 0 but the index is 0"
  | b :: bytes => do
    let proofType ← ProofType.fromByte b
    match proofType with
    | .plonky2 => match c.read bytes with
      | .ok (proof, pos) => .ok (proof, pos + 1)
      | .error e => .err ("read_compressed_proof: " ++ e)

/-! ## Payloads -/

structure Payload (Proof : Type) where
  proof : Proof
  txFinal : Hash
  stateRoot : Hash
  nullifiers : List Hash
  created : List Hash
deriving DecidableEq

def payloadMagic : Nat := 0xd10b

/-- `{n:04x}`. -/
def hex4 (n : Nat) : String := String.ofList (List.leftpad 4 '0' (Nat.toDigits 16 n))

def Payload.toBytes (c : ProofCodec Proof) (p : Payload Proof) : Outcome String Bytes := do
  let nullifiers ← writeHashes p.nullifiers
  let created ← writeHashes p.created
  .ok (toLe 2 payloadMagic ++ writeProof c p.proof ++ writeElems p.txFinal ++
    writeElems p.stateRoot ++ nullifiers ++ created)

/-- The body of `from_bytes`, with the bytes that it leaves unread. -/
def Payload.read (c : ProofCodec Proof) : Reader UInt8 String (Payload Proof) := fun bytes => do
  let (buffer, bytes) ← readExact unexpectedEof 2 bytes
  let magic := fromLe buffer
  if magic ≠ payloadMagic then .err s!"Invalid payload magic: {hex4 magic}"
  else
    let (proof, len) ← proofFromBytes c bytes
    let _ ← Outcome.require (len ≤ bytes.length) "range start index out of range for slice"
    let (txFinal, bytes) ← readElems 4 (bytes.drop len)
    let (stateRoot, bytes) ← readElems 4 bytes
    let (nullifiers, bytes) ← readHashes bytes
    let (created, bytes) ← readHashes bytes
    .ok (⟨proof, txFinal, stateRoot, nullifiers, created⟩, bytes)

def Payload.fromBytes (c : ProofCodec Proof) (bytes : Bytes) : Outcome String (Payload Proof) := do
  let (payload, _) ← read c bytes
  .ok payload

/-! ## The format -/

variable {c : ProofCodec Proof}

/-- Both lists fit their one-byte count. -/
def Payload.Counted (p : Payload Proof) : Prop := p.nullifiers.length ≤ 255 ∧ p.created.length ≤ 255

instance (p : Payload Proof) : Decidable p.Counted := inferInstanceAs (Decidable (_ ∧ _))

/-- The bytes up to the end of the proof. -/
def Payload.head (c : ProofCodec Proof) (p : Payload Proof) : Bytes :=
  toLe 2 payloadMagic ++ writeProof c p.proof

/-- The bytes of a payload whose lists are counted. -/
def Payload.encode (c : ProofCodec Proof) (p : Payload Proof) : Bytes :=
  p.head c ++ writeElems p.txFinal ++ writeElems p.stateRoot ++ encodeHashes p.nullifiers ++
    encodeHashes p.created

theorem Payload.toBytes_of_counted {p : Payload Proof} (h : p.Counted) :
    p.toBytes c = .ok (p.encode c) := by
  simp [toBytes, writeHashes, h.1, h.2, encode, head]

theorem Payload.toBytes_of_not_counted {p : Payload Proof} (h : ¬ p.Counted) :
    ∃ m, p.toBytes c = .panic m := by
  unfold toBytes writeHashes
  by_cases hn : p.nullifiers.length ≤ 255
  · have hc : ¬ p.created.length ≤ 255 := fun hc => h ⟨hn, hc⟩
    simp [hn, hc]
  · simp [hn]

theorem ProofType.fromByte_eq_ok {b : UInt8} {t : ProofType} (h : fromByte b = .ok t) :
    b = t.toByte := by
  unfold fromByte at h
  split at h
  · cases h
    rfl
  · cases h

theorem proofFromBytes_write (hc : c.Faithful) (proof : Proof) (rest : Bytes) :
    proofFromBytes c (writeProof c proof ++ rest) = .ok (proof, (writeProof c proof).length) := by
  simp [writeProof, proofFromBytes, ProofType.toByte, ProofType.fromByte, hc.round_trip]

theorem proofFromBytes_eq_ok {bytes : Bytes} {proof : Proof} {len : Nat}
    (h : proofFromBytes c bytes = .ok (proof, len)) :
    ∃ pos tail, bytes = ProofType.plonky2.toByte :: tail ∧ c.read tail = .ok (proof, pos) ∧
      len = pos + 1 ∧ len ≤ bytes.length := by
  cases bytes with
  | nil => cases h
  | cons b tail =>
    obtain ⟨t, ht, h⟩ := Outcome.bind_eq_ok h
    cases t with
    | plonky2 =>
      cases hread : c.read tail with
      | error e => simp [hread] at h
      | ok r =>
        obtain ⟨proof', pos⟩ := r
        simp only [hread] at h
        cases h
        have hpos := c.pos_le tail proof pos hread
        refine ⟨pos, tail, ?_, hread, rfl, by simpa using hpos⟩
        rw [ProofType.fromByte_eq_ok ht]

theorem proofFromBytes_noPanic {bytes : Bytes} (h : bytes ≠ []) : (proofFromBytes c bytes).NoPanic := by
  cases bytes with
  | nil => exact absurd rfl h
  | cons b tail =>
    have hbyte : (ProofType.fromByte b).NoPanic := by
      unfold ProofType.fromByte
      split <;> simp
    refine hbyte.bind fun t _ => ?_
    cases t with
    | plonky2 => cases c.read tail <;> simp

theorem fromLe_payloadMagic : fromLe (toLe 2 payloadMagic) = payloadMagic := fromLe_toLe (by decide)

theorem Payload.read_exact (hc : c.Faithful) : Exact (read c) (encode c) Counted := by
  constructor
  · intro p hp rest
    have hmagic := (readExact_exact unexpectedEof 2).read_write (toLe 2 payloadMagic) (length_toLe 2 _)
    simp only [id] at hmagic
    simp only [read, encode, head, List.append_assoc, hmagic, Outcome.ok_bind, fromLe_payloadMagic,
      ne_eq, not_true_eq_false, if_false, proofFromBytes_write hc]
    rw [Outcome.require_pos (by simp)]
    simp [(readElems_exact 4).read_write, readHashes_exact.read_write _ hp.1,
      readHashes_exact.read_write _ hp.2]
  · intro bytes p rest h
    obtain ⟨⟨buffer, bytes₁⟩, hbuffer, hbody⟩ := Outcome.bind_eq_ok h
    obtain ⟨hlen, rfl⟩ := (readExact_exact unexpectedEof 2).write_read _ _ _ hbuffer
    clear h hbuffer
    dsimp only at hbody
    split at hbody
    · cases hbody
    rename_i hmagic
    obtain ⟨⟨proof, len⟩, hproof, h⟩ := Outcome.bind_eq_ok hbody
    obtain ⟨-, -, h⟩ := Outcome.bind_eq_ok h
    obtain ⟨⟨txFinal, bytes₂⟩, htx, h⟩ := Outcome.bind_eq_ok h
    obtain ⟨⟨stateRoot, bytes₃⟩, hroot, h⟩ := Outcome.bind_eq_ok h
    obtain ⟨⟨nullifiers, bytes₄⟩, hnull, h⟩ := Outcome.bind_eq_ok h
    obtain ⟨⟨created, bytes₅⟩, hcreated, h⟩ := Outcome.bind_eq_ok h
    cases h
    obtain ⟨pos, tail, rfl, hread, rfl, -⟩ := proofFromBytes_eq_ok hproof
    obtain ⟨-, htx⟩ := (readElems_exact 4).write_read _ _ _ htx
    obtain ⟨-, rfl⟩ := (readElems_exact 4).write_read _ _ _ hroot
    obtain ⟨hn, rfl⟩ := readHashes_exact.write_read _ _ _ hnull
    obtain ⟨hcr, rfl⟩ := readHashes_exact.write_read _ _ _ hcreated
    refine ⟨⟨hn, hcr⟩, ?_⟩
    -- The magic and the proof are put back from what was read of them.
    have hbuf : buffer = toLe 2 payloadMagic := by
      have hback := toLe_fromLe buffer
      rw [hlen, not_not.mp hmagic] at hback
      exact hback.symm
    have htail : tail = c.write proof ++ tail.drop pos := by
      rw [← hc.consumes tail proof pos hread, List.take_append_drop]
    rw [List.drop_succ_cons] at htx
    rw [htx] at htail
    simp [encode, head, writeProof, hbuf, htail]

/-- The reader panics on one input, the magic bytes alone. -/
theorem Payload.read_noPanic {bytes : Bytes} (h : bytes ≠ toLe 2 payloadMagic) :
    (read c bytes).NoPanic := by
  refine (readExact_noPanic unexpectedEof 2 bytes).bind fun r hr => ?_
  obtain ⟨buffer, bytes₁⟩ := r
  obtain ⟨hlen, rfl⟩ := (readExact_exact unexpectedEof 2).write_read _ _ _ hr
  dsimp only
  split
  · exact Outcome.noPanic_err _
  rename_i hmagic
  have hbuf := toLe_fromLe buffer
  rw [hlen, not_not.mp hmagic] at hbuf
  have hne : bytes₁ ≠ [] := by
    intro hnil
    rw [hnil, ← hbuf] at h
    simp at h
  refine (proofFromBytes_noPanic hne).bind fun r hr => ?_
  obtain ⟨pos, tail, -, -, -, hle⟩ := proofFromBytes_eq_ok hr
  rw [Outcome.require_pos hle, Outcome.ok_bind]
  refine (readElems_noPanic 4 _).bind fun _ _ => ?_
  refine (readElems_noPanic 4 _).bind fun _ _ => ?_
  refine (readHashes_noPanic _).bind fun _ _ => ?_
  refine (readHashes_noPanic _).bind fun _ _ => ?_
  exact Outcome.noPanic_ok _

theorem Payload.fromBytes_magic : ∃ m, fromBytes c (toLe 2 payloadMagic) = .panic m := by
  have hmagic := (readExact_exact unexpectedEof 2).read_write (toLe 2 payloadMagic) (length_toLe 2 _) []
  simp only [id, List.append_nil] at hmagic
  simp [fromBytes, read, hmagic, fromLe_payloadMagic, proofFromBytes]

theorem Payload.fromBytes_noPanic {bytes : Bytes} (h : bytes ≠ toLe 2 payloadMagic) :
    (fromBytes c bytes).NoPanic :=
  (read_noPanic h).bind fun _ _ => Outcome.noPanic_ok _

theorem Payload.fromBytes_eq_ok {bytes : Bytes} {p : Payload Proof} :
    fromBytes c bytes = .ok p ↔ ∃ rest, read c bytes = .ok (p, rest) := by
  constructor
  · intro h
    obtain ⟨⟨q, rest⟩, hread, h⟩ := Outcome.bind_eq_ok h
    cases h
    exact ⟨rest, hread⟩
  · rintro ⟨rest, hread⟩
    simp [fromBytes, hread]

/-- Decoding is exact on the image of the encoder and off it. -/
theorem Payload.decodes_exactly (hc : c.Faithful) :
    (∀ p : Payload Proof, p.Counted → ∃ bytes, p.toBytes c = .ok bytes ∧
      (∀ rest, fromBytes c (bytes ++ rest) = .ok p) ∧
      ∀ front, front <+: bytes → front ≠ bytes → p.head c <+: front →
        ∃ e, fromBytes c front = .err e) ∧
    (∀ p q : Payload Proof, p.Counted → q.Counted → p.toBytes c = q.toBytes c → p = q) ∧
    ∀ bytes p, fromBytes c bytes = .ok p → ∃ front, p.toBytes c = .ok front ∧ front <+: bytes := by
  have hexact := read_exact hc
  refine ⟨?_, ?_, ?_⟩
  · intro p hp
    refine ⟨p.encode c, toBytes_of_counted hp, ?_, ?_⟩
    · intro rest
      exact fromBytes_eq_ok.mpr ⟨rest, hexact.read_write p hp rest⟩
    · intro front hfront hne hhead
      have hlong : front ≠ toLe 2 payloadMagic := by
        intro hmagic
        have hlen := hhead.length_le
        rw [hmagic] at hlen
        simp [head, writeProof] at hlen
      refine (fromBytes_noPanic hlong).err_of_ne_ok fun q hq => ?_
      obtain ⟨rest, hread⟩ := fromBytes_eq_ok.mp hq
      exact hexact.prefix_not_ok hp hfront hne _ hread
  · intro p q hp hq h
    rw [toBytes_of_counted hp, toBytes_of_counted hq, Outcome.ok.injEq] at h
    exact hexact.injective hp hq h
  · intro bytes p h
    obtain ⟨rest, hread⟩ := fromBytes_eq_ok.mp h
    obtain ⟨hp, rfl⟩ := hexact.write_read _ _ _ hread
    exact ⟨p.encode c, toBytes_of_counted hp, List.prefix_append _ _⟩

end Codec

/-! ## Sizes -/

theorem length_writeElems {N : Nat} (elems : List.Vector F N) : (writeElems elems).length = 8 * N := by
  have heach : ∀ e ∈ elems.toList, (writeElem e).length = 8 := fun e _ => length_toLe 8 e.val
  rw [writeElems, List.length_flatMap, List.map_congr_left heach]
  simp [Nat.mul_comm]

theorem length_encodeHashes (hashes : List Hash) :
    (encodeHashes hashes).length = 1 + 32 * hashes.length := by
  have heach : ∀ h ∈ hashes, (writeElems h).length = 32 := fun h _ => length_writeElems h
  rw [encodeHashes, List.length_append, length_toLe, List.length_flatMap, List.map_congr_left heach]
  simp [Nat.mul_comm]

theorem Payload.length_encode {Proof : Type} (c : ProofCodec Proof) (p : Payload Proof) :
    (p.encode c).length =
      (c.write p.proof).length + 69 + 32 * (p.created.length + p.nullifiers.length) := by
  simp only [encode, head, writeProof, List.length_append, List.length_cons, length_toLe,
    length_writeElems, length_encodeHashes]
  omega

def simpleBlobBytes : Nat := 4096 * 32

def maxSimpleBlobPayloadBytes : Nat := (4096 - 1) * (32 - 1)

/-- The field elements of the data: a zero byte and up to 31 bytes each. -/
def dataElements (data : Bytes) : Bytes :=
  (List.range ((data.length + 30) / 31)).flatMap fun i =>
    let chunk := (data.drop (31 * i)).take 31
    0 :: chunk ++ List.replicate (31 - chunk.length) 0

def encodeSimpleBlob (data : Bytes) : Except String Bytes :=
  if data.length > maxSimpleBlobPayloadBytes then
    .error s!"Payload length {data.length} exceeds simple-blob maximum {maxSimpleBlobPayloadBytes}"
  else
    let used := 0 :: toBe 8 data.length ++ List.replicate 23 0 ++ dataElements data
    .ok (used ++ List.replicate (simpleBlobBytes - used.length) 0)

theorem encodeSimpleBlob_error {data : Bytes} :
    (∃ e, encodeSimpleBlob data = .error e) ↔ data.length > maxSimpleBlobPayloadBytes := by
  unfold encodeSimpleBlob
  split <;> simp [*]

/-! ## A codec whose proofs are single field elements -/

namespace Sample

def codec : ProofCodec F where
  write := writeElem
  read bytes := match readElem bytes with
    | .ok (a, rest) => .ok (a, bytes.length - rest.length)
    | .err e => .error e
    | .panic m => .error m
  pos_le := by
    intro bytes proof pos h
    split at h
    · cases h
      omega
    · cases h
    · cases h

theorem codec_faithful : codec.Faithful := by
  constructor
  · intro proof rest
    simp [codec, readElem_exact.read_write proof trivial]
  · intro bytes proof pos h
    simp only [codec] at h
    split at h
    case h_1 a rest hread =>
      cases h
      obtain ⟨-, rfl⟩ := readElem_exact.write_read _ _ _ hread
      simp [codec]
    case h_2 => cases h
    case h_3 => cases h

def hash (n : F) : Hash := ⟨[n, 0, 0, 0], rfl⟩

def payload : Payload F := ⟨7, hash 1, hash 2, [hash 3], [hash 4, hash 5]⟩

end Sample

theorem Payload.decodes_exactly_sample : Sample.codec.Faithful ∧ Sample.payload.Counted ∧
    ∃ bytes, Sample.payload.toBytes Sample.codec = .ok bytes ∧
      fromBytes Sample.codec (bytes ++ [1, 2]) = .ok Sample.payload := by
  have hcounted : Sample.payload.Counted := by decide
  obtain ⟨bytes, hbytes, hback, -⟩ := (decodes_exactly Sample.codec_faithful).1 _ hcounted
  exact ⟨Sample.codec_faithful, hcounted, bytes, hbytes, hback [1, 2]⟩

end DigitalObjects.Wire
