import DigitalObjects.Synchronizer.FailSoft
set_option autoImplicit false

/-!
The coding of a payload in one blob: an encoder that writes chunks at computed offsets, and the
decoder that streams the field elements. Each byte of the data has one place in the blob.
-/

namespace DigitalObjects.Wire

open Lib EthClients Synchronizer

/-! ## Writing into a buffer -/

/-- `dst[i] = b`. -/
def storeByte {ε : Type} (dst : Bytes) (i : Nat) (b : UInt8) : Outcome ε Bytes :=
  if i < dst.length then .ok (dst.set i b) else .panic "index out of bounds"

/-- `dst[start..stop].copy_from_slice(src)`. -/
def copyFromSlice {ε : Type} (dst : Bytes) (start stop : Nat) (src : Bytes) : Outcome ε Bytes :=
  if stop < start then .panic "slice index starts after its end"
  else if dst.length < stop then .panic "range end index out of range for slice"
  else if src.length ≠ stop - start then .panic "copy_from_slice: the slices differ in length"
  else .ok (dst.take start ++ src ++ dst.drop stop)

theorem storeByte_append {ε : Type} (front : Bytes) (old b : UInt8) (rest : Bytes) :
    (storeByte (front ++ old :: rest) front.length b : Outcome ε Bytes) = .ok (front ++ b :: rest) := by
  have hlen : front.length < (front ++ old :: rest).length := by
    rw [List.length_append, List.length_cons]
    omega
  rw [storeByte, if_pos hlen]
  simp

/-- A copy replaces as many bytes as it writes. -/
theorem copyFromSlice_append {ε : Type} (front old rest src : Bytes) (h : src.length = old.length) :
    (copyFromSlice (front ++ old ++ rest) front.length (front.length + src.length) src : Outcome ε Bytes) =
      .ok (front ++ src ++ rest) := by
  have hfit : front.length + src.length ≤ (front ++ old ++ rest).length := by
    rw [List.length_append, List.length_append]
    omega
  have hback : front.length + src.length = (front ++ old).length := by
    rw [List.length_append, h]
  rw [copyFromSlice, if_neg (by omega), if_neg (by omega), if_neg (by omega)]
  rw [hback, List.drop_left, List.append_assoc front old rest, List.take_left]

/-! ## Encoding -/

namespace Blob

def writeChunk (blob : Bytes) (chunk : Bytes × Nat) : Outcome String Bytes := do
  let offset := (chunk.2 + 1) * 32
  let blob ← storeByte blob offset 0
  copyFromSlice blob (offset + 1) (offset + 1 + chunk.1.length) chunk.1

/-- `encode_simple_blob`, which fills a zeroed array. -/
def encodeSimpleBlob (data : Bytes) : Outcome String Bytes :=
  if data.length > maxSimpleBlobPayloadBytes then
    .err s!"Payload length {data.length} exceeds simple-blob maximum {maxSimpleBlobPayloadBytes}"
  else do
    let blob ← copyFromSlice (List.replicate simpleBlobBytes 0) 1 9 (toBe 8 data.length)
    (chunks 31 data).zipIdx.foldlM writeChunk blob

/-- The chunk at `i` as a field element. -/
def element (data : Bytes) (i : Nat) : Bytes :=
  let chunk := (data.drop (31 * i)).take 31
  0 :: chunk ++ List.replicate (31 - chunk.length) 0

def header (data : Bytes) : Bytes := 0 :: toBe 8 data.length ++ List.replicate 23 0

/-- The array after the first `n` chunks. -/
def written (data : Bytes) (n : Nat) : Bytes :=
  header data ++ (List.range n).flatMap (element data) ++
    List.replicate (simpleBlobBytes - 32 * (n + 1)) 0

theorem length_element (data : Bytes) (i : Nat) : (element data i).length = 32 := by
  have hchunk : ((data.drop (31 * i)).take 31).length ≤ 31 := List.length_take_le _ _
  simp only [element, List.cons_append, List.length_cons, List.length_append, List.length_replicate]
  omega

theorem length_header (data : Bytes) : (header data).length = 32 := by
  simp [header]

theorem length_elements (data : Bytes) (n : Nat) :
    ((List.range n).flatMap (element data)).length = 32 * n := by
  have heach : ∀ i ∈ List.range n, (element data i).length = 32 := fun i _ => length_element data i
  rw [List.length_flatMap, List.map_congr_left heach]
  simp [Nat.mul_comm]

theorem length_written {data : Bytes} {n : Nat} (h : 32 * (n + 1) ≤ simpleBlobBytes) :
    (written data n).length = simpleBlobBytes := by
  rw [written, List.length_append, List.length_append, length_header, length_elements,
    List.length_replicate]
  omega

/-- A chunk goes where the zeros begin. -/
theorem writeChunk_zeros {front chunk : Bytes} {i k : Nat} (hfront : front.length = (i + 1) * 32)
    (hchunk : chunk.length ≤ 31) :
    writeChunk (front ++ List.replicate (k + 32) 0) (chunk, i) =
      .ok (front ++ (0 :: chunk ++ List.replicate (31 - chunk.length) 0) ++ List.replicate k 0) := by
  have hzeros : List.replicate (k + 32) (0 : UInt8) =
      0 :: (List.replicate chunk.length 0 ++ (List.replicate (31 - chunk.length) 0 ++ List.replicate k 0)) := by
    rw [← List.replicate_add, ← List.replicate_add, ← List.replicate_succ]
    congr 1
    omega
  have hstore := storeByte_append (ε := String) front 0 0
    (List.replicate chunk.length 0 ++ (List.replicate (31 - chunk.length) 0 ++ List.replicate k 0))
  have hcopy := copyFromSlice_append (ε := String) (front ++ [0]) (List.replicate chunk.length 0)
    (List.replicate (31 - chunk.length) 0 ++ List.replicate k 0) chunk (by simp)
  have hlen : (front ++ [(0 : UInt8)]).length = (i + 1) * 32 + 1 := by
    rw [List.length_append, hfront]
    rfl
  rw [hlen] at hcopy
  rw [hfront] at hstore
  rw [writeChunk, hzeros]
  simp only [hstore, Outcome.ok_bind]
  simpa using hcopy

theorem writeChunk_written {data : Bytes} {n : Nat} (h : 32 * (n + 2) ≤ simpleBlobBytes) :
    writeChunk (written data n) ((data.drop (31 * n)).take 31, n) = .ok (written data (n + 1)) := by
  have hfront : (header data ++ (List.range n).flatMap (element data)).length = (n + 1) * 32 := by
    rw [List.length_append, length_header, length_elements]
    omega
  have hroom : simpleBlobBytes - 32 * (n + 1) = simpleBlobBytes - 32 * (n + 2) + 32 := by omega
  rw [written, hroom, writeChunk_zeros hfront (List.length_take_le _ _), written, List.range_succ,
    List.flatMap_append, List.flatMap_singleton, List.append_assoc (header data)]
  rfl

/-- The loop, as far as the array has room. -/
theorem foldlM_writeChunk {data : Bytes} (n : Nat) (h : 32 * (n + 1) ≤ simpleBlobBytes) :
    (((List.range n).map fun i => (data.drop (31 * i)).take 31).zipIdx.foldlM writeChunk
      (written data 0)) = .ok (written data n) := by
  induction n with
  | zero => rfl
  | succ n ih =>
    have hstep : writeChunk (written data n) ((data.drop (31 * n)).take 31, n) =
        .ok (written data (n + 1)) := writeChunk_written h
    rw [List.range_succ, List.map_append, List.zipIdx_append, List.foldlM_append, ih (by omega)]
    simp [hstep]

/-- The array is the length, the chunks and zeros, as the plain encoding has it. -/
theorem encodeSimpleBlob_eq {data : Bytes} (h : data.length ≤ maxSimpleBlobPayloadBytes) :
    encodeSimpleBlob data = .ok (written data ((data.length + 30) / 31)) ∧
      Wire.encodeSimpleBlob data = .ok (written data ((data.length + 30) / 31)) := by
  have hroom : 32 * ((data.length + 30) / 31 + 1) ≤ simpleBlobBytes := by
    unfold maxSimpleBlobPayloadBytes at h
    unfold simpleBlobBytes
    omega
  have hbig : ¬ data.length > maxSimpleBlobPayloadBytes := Nat.not_lt.mpr h
  constructor
  · have hzeros : List.replicate simpleBlobBytes (0 : UInt8) =
        [0] ++ List.replicate 8 0 ++ (List.replicate 23 0 ++ List.replicate (simpleBlobBytes - 32) 0) := by
      rw [← List.replicate_add, ← List.replicate_one, ← List.replicate_add, ← List.replicate_add]
      rfl
    have hcopy := copyFromSlice_append (ε := String) [0] (List.replicate 8 0)
      (List.replicate 23 0 ++ List.replicate (simpleBlobBytes - 32) 0) (toBe 8 data.length) (by simp)
    have hstart : copyFromSlice (List.replicate simpleBlobBytes 0) 1 9 (toBe 8 data.length) =
        (.ok (written data 0) : Outcome String Bytes) := by
      rw [length_toBe] at hcopy
      rw [hzeros, written, header]
      simpa using hcopy
    rw [encodeSimpleBlob, if_neg hbig, hstart, Outcome.ok_bind]
    exact foldlM_writeChunk _ hroom
  · have hused : (0 :: toBe 8 data.length ++ List.replicate 23 0 ++ dataElements data).length =
        32 * ((data.length + 30) / 31 + 1) := by
      have hheader := length_header data
      have helements := length_elements data ((data.length + 30) / 31)
      unfold header at hheader
      unfold dataElements
      rw [List.length_append, hheader]
      unfold element at helements
      rw [helements]
      omega
    rw [Wire.encodeSimpleBlob, if_neg hbig]
    dsimp only
    rw [hused]
    rfl

/-- The field elements of the array, the length first. -/
def block (data : Bytes) : Nat → Bytes
  | 0 => header data
  | i + 1 => element data i

theorem length_block (data : Bytes) (i : Nat) : (block data i).length = 32 := by
  cases i with
  | zero => exact length_header data
  | succ i => exact length_element data i

theorem head?_block (data : Bytes) (i : Nat) : (block data i)[0]? = some 0 := by
  cases i <;> rfl

/-- Past the data there are only zeros. -/
theorem elements_past {data : Bytes} {n : Nat} (h : data.length ≤ 31 * n) (k : Nat) :
    (List.range k).flatMap (fun i => element data (n + i)) = List.replicate (32 * k) 0 := by
  induction k with
  | zero => rfl
  | succ k ih =>
    have hempty : data.drop (31 * (n + k)) = [] := List.drop_eq_nil_of_le (by omega)
    have hlast : element data (n + k) = List.replicate 32 0 := by
      rw [element, hempty]
      rfl
    rw [List.range_succ, List.flatMap_append, List.flatMap_singleton, ih, hlast, ← List.replicate_add,
      Nat.mul_succ]

theorem written_eq_blocks {data : Bytes} {n : Nat} (hdata : data.length ≤ 31 * n) (h : n ≤ 4095) :
    written data n = (List.range 4096).flatMap (block data) := by
  have hsplit : List.range 4095 = List.range n ++ (List.range (4095 - n)).map (n + ·) := by
    rw [← List.range_add]
    congr 1
    omega
  have hblocks : (List.range 4096).flatMap (block data) =
      header data ++ (List.range 4095).flatMap (element data) := by
    rw [List.range_succ_eq_map, List.flatMap_cons, List.flatMap_map]
    rfl
  have hrest : simpleBlobBytes - 32 * (n + 1) = 32 * (4095 - n) := by
    unfold simpleBlobBytes
    omega
  rw [hblocks, hsplit, List.flatMap_append, List.flatMap_map, elements_past hdata, written, hrest,
    List.append_assoc]

/-- The byte of the data at `k`, in its field element. -/
theorem element_data {data : Bytes} {k : Nat} (h : k < data.length) :
    (element data (k / 31))[k % 31 + 1]? = data[k]? := by
  have hk : 31 * (k / 31) + k % 31 = k := Nat.div_add_mod k 31
  have hr : k % 31 < 31 := Nat.mod_lt k (by omega)
  have hlen : k % 31 < ((data.drop (31 * (k / 31))).take 31).length := by
    rw [List.length_take, List.length_drop]
    omega
  rw [element, List.cons_append, List.getElem?_cons_succ, List.getElem?_append_left hlen,
    List.getElem?_take_of_lt hr, List.getElem?_drop, hk]

end Blob

/-! ## Decoding -/

theorem beNat_reverse (bytes : Bytes) : beNat (bytes.reverse.map UInt8.toNat) = fromLe bytes := by
  induction bytes with
  | nil => rfl
  | cons b bytes ih =>
    have hstep : beNat ((b :: bytes).reverse.map UInt8.toNat) =
        256 * beNat (bytes.reverse.map UInt8.toNat) + b.toNat := by
      rw [List.reverse_cons, List.map_append, beNat, List.foldl_append]
      rfl
    rw [hstep, ih, fromLe_cons, Nat.add_comm]

theorem beNat_map_toNat (bytes : Bytes) : beNat (bytes.map UInt8.toNat) = fromBe bytes := by
  have h := beNat_reverse bytes.reverse
  rw [List.reverse_reverse] at h
  exact h

/-- The decoder streams the bytes at offsets 1 to 31 of each field element. -/
theorem getElem?_blobData {blob : HeapBlob} {m i j : Nat} (h : blob.length / 32 = m + 1)
    (hmod : blob.length % 32 = 0) (hi : i < m) (hj : j < 31) :
    (blobData blob)[31 * i + j]? = blob[32 * (i + 1) + (j + 1)]? := by
  have heach : ∀ i < m, (((blob.drop (32 * (i + 1))).take 32).tail).length = 31 := by
    intro i hi
    simp only [List.length_tail, List.length_take, List.length_drop]
    omega
  rw [blobData_succ h, getElem?_flatMap_range heach hi hj, List.getElem?_tail,
    List.getElem?_take_of_lt (by omega), List.getElem?_drop]

theorem decodeSimpleBlob_noPanic (blob : HeapBlob) : (decodeSimpleBlob blob).NoPanic := by
  intro m h
  rcases decodeSimpleBlob_returns blob with ⟨bytes, hbytes⟩ | ⟨e, he⟩
  · rw [hbytes] at h
    cases h
  · rw [he] at h
    cases h

/-- Decoded data has the length that the header states, and each of its bytes its own place. -/
theorem decodeSimpleBlob_places {blob : Bytes} {bytes : List Nat}
    (h : decodeSimpleBlob (blob.map UInt8.toNat) = .ok bytes) :
    bytes.length = fromBe ((blob.drop 1).take 8) ∧ ∀ k < bytes.length,
      bytes[k]? = (blob[32 * (k / 31 + 1) + (k % 31 + 1)]?).map UInt8.toNat := by
  obtain ⟨hshort, hmod, hfit, rfl⟩ := decodeSimpleBlob_eq_ok.mp h
  rw [← List.map_drop, ← List.map_take, beNat_map_toNat] at hfit ⊢
  obtain ⟨m, hm⟩ : ∃ m, (blob.map UInt8.toNat).length / 32 = m + 1 :=
    ⟨(blob.map UInt8.toNat).length / 32 - 1, by omega⟩
  have hlen := length_blobData hm hmod
  rw [hm, Nat.add_sub_cancel] at hfit
  have hcount : ((blobData (blob.map UInt8.toNat)).take (fromBe ((blob.drop 1).take 8))).length =
      fromBe ((blob.drop 1).take 8) := by
    rw [List.length_take, hlen]
    omega
  refine ⟨hcount, fun k hk => ?_⟩
  rw [hcount] at hk
  have hi : k / 31 < m := by omega
  have hplace := getElem?_blobData hm hmod hi (Nat.mod_lt k (by omega))
  rw [Nat.div_add_mod, List.getElem?_map] at hplace
  rw [List.getElem?_take_of_lt hk, hplace]

/-- The coding is lossless on what fits in a blob, its field elements are small, nothing longer is
encoded, and the decoder returns exactly the bytes that the header announces. -/
theorem simpleBlob_coding :
    (∀ data : Bytes, data.length ≤ maxSimpleBlobPayloadBytes →
      ∃ blob, Blob.encodeSimpleBlob data = .ok blob ∧ blob.length = simpleBlobBytes ∧
        (∀ chunk ∈ chunks 32 blob, chunk.length = 32 ∧ chunk.head? = some 0) ∧
        decodeSimpleBlob (blob.map UInt8.toNat) = .ok (data.map UInt8.toNat)) ∧
    (∀ data : Bytes, (∃ e, Blob.encodeSimpleBlob data = .err e) ↔
      maxSimpleBlobPayloadBytes < data.length) ∧
    ∀ blob : Bytes, (decodeSimpleBlob (blob.map UInt8.toNat)).NoPanic ∧
      ∀ bytes, decodeSimpleBlob (blob.map UInt8.toNat) = .ok bytes →
        bytes.length = fromBe ((blob.drop 1).take 8) ∧ ∀ k < bytes.length,
          bytes[k]? = (blob[32 * (k / 31 + 1) + (k % 31 + 1)]?).map UInt8.toNat := by
  refine ⟨fun data hdata => ?_, fun data => ?_, fun blob => ?_⟩
  · have hcount : (data.length + 30) / 31 ≤ 4095 := by
      unfold maxSimpleBlobPayloadBytes at hdata
      omega
    have hroom : 32 * ((data.length + 30) / 31 + 1) ≤ simpleBlobBytes := by
      unfold simpleBlobBytes
      omega
    have hblocks : Blob.written data ((data.length + 30) / 31) =
        (List.range 4096).flatMap (Blob.block data) := Blob.written_eq_blocks (by omega) hcount
    have hlen : (Blob.written data ((data.length + 30) / 31)).length = simpleBlobBytes :=
      Blob.length_written hroom
    have hbyte : ∀ i < 4096, ∀ j < 32,
        (Blob.written data ((data.length + 30) / 31))[32 * i + j]? = (Blob.block data i)[j]? := by
      intro i hi j hj
      rw [hblocks]
      exact getElem?_flatMap_range (fun i _ => Blob.length_block data i) hi hj
    refine ⟨_, (Blob.encodeSimpleBlob_eq hdata).1, hlen, fun chunk hchunk => ?_, ?_⟩
    · obtain ⟨i, hi, rfl⟩ := List.mem_map.mp hchunk
      rw [hlen] at hi
      have hi := List.mem_range.mp hi
      have hi' : i < 4096 := by
        unfold simpleBlobBytes at hi
        omega
      have hzero := hbyte i hi' 0 (by omega)
      constructor
      · rw [List.length_take, List.length_drop, hlen]
        unfold simpleBlobBytes
        omega
      · rw [List.head?_eq_getElem?, List.getElem?_take_of_lt (by omega), List.getElem?_drop, hzero,
          Blob.head?_block]
    · generalize hblob : Blob.written data ((data.length + 30) / 31) = blob at hlen hbyte
      have hheader : (blob.drop 1).take 8 = toBe 8 data.length := by
        rw [← hblob, Blob.written, Blob.header]
        simp [List.take_append_of_le_length]
      have hsize : fromBe ((blob.drop 1).take 8) = data.length := by
        rw [hheader]
        unfold maxSimpleBlobPayloadBytes at hdata
        exact fromBe_toBe (by omega)
      have hdecode : ∃ bytes, decodeSimpleBlob (blob.map UInt8.toNat) = .ok bytes := by
        refine ⟨_, decodeSimpleBlob_eq_ok.mpr ⟨?_, ?_, ?_, rfl⟩⟩
        · rw [List.length_map, hlen]
          decide
        · rw [List.length_map, hlen]
          decide
        · rw [← List.map_drop, ← List.map_take, beNat_map_toNat, hsize, List.length_map, hlen]
          exact hdata
      obtain ⟨bytes, hbytes⟩ := hdecode
      obtain ⟨hcounted, hplaces⟩ := decodeSimpleBlob_places hbytes
      rw [hsize] at hcounted
      rw [hbytes]
      congr 1
      apply List.ext_getElem?
      intro k
      by_cases hk : k < data.length
      · have hi : k / 31 + 1 < 4096 := by omega
        have hj : k % 31 + 1 < 32 := by omega
        rw [hplaces k (by omega), hbyte _ hi _ hj, List.getElem?_map]
        congr 1
        exact Blob.element_data hk
      · rw [List.getElem?_eq_none (by omega), List.getElem?_eq_none]
        rw [List.length_map]
        omega
  · unfold Blob.encodeSimpleBlob
    by_cases hbig : data.length > maxSimpleBlobPayloadBytes
    · simp [hbig]
    · have hok := (Blob.encodeSimpleBlob_eq (Nat.le_of_not_lt hbig)).1
      unfold Blob.encodeSimpleBlob at hok
      rw [hok]
      simp [Nat.le_of_not_lt hbig]
  · exact ⟨decodeSimpleBlob_noPanic _, fun bytes h => decodeSimpleBlob_places h⟩

end DigitalObjects.Wire
