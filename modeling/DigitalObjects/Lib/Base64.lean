import Mathlib.Data.List.Basic
set_option autoImplicit false

/-!
Base64 with the standard alphabet and padding. A text decodes only if it is what the bytes it
decodes to are encoded as.
-/

namespace DigitalObjects.Lib.Base64

def alphabet : List Char := "ABCDEFGHIJKLMNOPQRSTUVWXYZabcdefghijklmnopqrstuvwxyz0123456789+/".toList

def digit (n : Nat) : Char := alphabet.getD n '='

def sextet (c : Char) : Option Nat :=
  if alphabet.idxOf c < 64 then some (alphabet.idxOf c) else none

/-- Three bytes make four digits; a shorter last group is padded. -/
def encodeChars : List UInt8 → List Char
  | a :: b :: c :: rest =>
    let n := 65536 * a.toNat + 256 * b.toNat + c.toNat
    digit (n / 262144) :: digit (n / 4096 % 64) :: digit (n / 64 % 64) :: digit (n % 64) ::
      encodeChars rest
  | [a, b] =>
    let n := 1024 * a.toNat + 4 * b.toNat
    [digit (n / 4096), digit (n / 64 % 64), digit (n % 64), '=']
  | [a] =>
    let n := 16 * a.toNat
    [digit (n / 64), digit (n % 64), '=', '=']
  | [] => []

/-- The bits of a last digit that no byte takes must be zero. -/
def decodeChars : List Char → Option (List UInt8)
  | w :: x :: y :: z :: rest => do
    let w ← sextet w
    let x ← sextet x
    if z = '=' then
      if rest ≠ [] then none
      else if y = '=' then
        let n := 64 * w + x
        if n % 16 ≠ 0 then none else some [UInt8.ofNat (n / 16)]
      else
        let y ← sextet y
        let n := 4096 * w + 64 * x + y
        if n % 4 ≠ 0 then none else some [UInt8.ofNat (n / 1024), UInt8.ofNat (n / 4 % 256)]
    else
      let y ← sextet y
      let z ← sextet z
      let n := 262144 * w + 4096 * x + 64 * y + z
      let bytes ← decodeChars rest
      some (UInt8.ofNat (n / 65536) :: UInt8.ofNat (n / 256 % 256) :: UInt8.ofNat (n % 256) :: bytes)
  | [] => some []
  | _ => none

def encode (bytes : List UInt8) : String := String.ofList (encodeChars bytes)

def decode (text : String) : Except String (List UInt8) :=
  match decodeChars text.toList with
  | some bytes => .ok bytes
  | none => .error "Invalid symbol, length or padding."

theorem sextet_digit {n : Nat} (h : n < 64) : sextet (digit n) = some n := by
  have hall : ∀ n < 64, sextet (digit n) = some n := by decide +kernel
  exact hall n h

theorem digit_ne_pad {n : Nat} (h : n < 64) : digit n ≠ '=' := by
  have hall : ∀ n < 64, digit n ≠ '=' := by decide +kernel
  exact hall n h

theorem digit_of_sextet {c : Char} {n : Nat} (h : sextet c = some n) : n < 64 ∧ digit n = c := by
  unfold sextet at h
  split at h
  case isTrue hlt =>
    cases h
    have hlen : alphabet.idxOf c < alphabet.length := hlt
    have hget : alphabet[alphabet.idxOf c] = c := List.getElem_idxOf hlen
    refine ⟨hlt, ?_⟩
    rw [digit, List.getD_eq_getElem?_getD, List.getElem?_eq_getElem hlen, hget]
    rfl
  case isFalse => cases h

theorem ofNat_toNat_eq {n : Nat} {b : UInt8} (h : n = b.toNat) : UInt8.ofNat n = b := by
  rw [h, UInt8.ofNat_toNat]

theorem decodeChars_encodeChars (bytes : List UInt8) : decodeChars (encodeChars bytes) = some bytes := by
  fun_induction encodeChars bytes with
  | case1 a b c rest n ih =>
    have ha := a.toNat_lt
    have hb := b.toNat_lt
    have hc := c.toNat_lt
    have hn : n = 65536 * a.toNat + 256 * b.toNat + c.toNat := rfl
    have hwhole : 262144 * (n / 262144) + 4096 * (n / 4096 % 64) + 64 * (n / 64 % 64) + n % 64 = n := by
      omega
    have h₁ : UInt8.ofNat (n / 65536) = a := ofNat_toNat_eq (by omega)
    have h₂ : UInt8.ofNat (n / 256 % 256) = b := ofNat_toNat_eq (by omega)
    have h₃ : UInt8.ofNat (n % 256) = c := ofNat_toNat_eq (by omega)
    simp only [decodeChars, sextet_digit (show n / 262144 < 64 by omega),
      sextet_digit (Nat.mod_lt (n / 4096) (show 64 > 0 by omega)),
      sextet_digit (Nat.mod_lt (n / 64) (show 64 > 0 by omega)),
      sextet_digit (Nat.mod_lt n (show 64 > 0 by omega)),
      if_neg (digit_ne_pad (Nat.mod_lt n (show 64 > 0 by omega))), ih, Option.bind_eq_bind,
      Option.bind_some, hwhole, h₁, h₂, h₃]
  | case2 a b n =>
    have ha := a.toNat_lt
    have hb := b.toNat_lt
    have hn : n = 1024 * a.toNat + 4 * b.toNat := rfl
    have hwhole : 4096 * (n / 4096) + 64 * (n / 64 % 64) + n % 64 = n := by omega
    have h₁ : UInt8.ofNat (n / 1024) = a := ofNat_toNat_eq (by omega)
    have h₂ : UInt8.ofNat (n / 4 % 256) = b := ofNat_toNat_eq (by omega)
    have hpad : n % 4 = 0 := by omega
    simp [decodeChars, sextet_digit (show n / 4096 < 64 by omega),
      sextet_digit (Nat.mod_lt (n / 64) (show 64 > 0 by omega)),
      sextet_digit (Nat.mod_lt n (show 64 > 0 by omega)),
      digit_ne_pad (Nat.mod_lt n (show 64 > 0 by omega)), hwhole, h₁, h₂, hpad]
  | case3 a n =>
    have ha := a.toNat_lt
    have hn : n = 16 * a.toNat := rfl
    have hwhole : 64 * (n / 64) + n % 64 = n := by omega
    have h₁ : UInt8.ofNat (n / 16) = a := ofNat_toNat_eq (by omega)
    have hpad : n % 16 = 0 := by omega
    simp [decodeChars, sextet_digit (show n / 64 < 64 by omega),
      sextet_digit (Nat.mod_lt n (show 64 > 0 by omega)), hwhole, h₁, hpad]
  | case4 => rfl

theorem toNat_ofNat {n : Nat} (h : n < 256) : (UInt8.ofNat n).toNat = n := by
  rw [UInt8.toNat_ofNat']
  omega

/-- Only an encoding is decoded. -/
theorem encodeChars_of_decodeChars {text : List Char} {bytes : List UInt8}
    (h : decodeChars text = some bytes) : encodeChars bytes = text := by
  induction text using decodeChars.induct generalizing bytes with
  | case1 w x y z rest ih =>
    simp only [decodeChars, Option.bind_eq_bind, Option.bind_eq_some_iff] at h
    obtain ⟨w', hw, x', hx, h⟩ := h
    obtain ⟨hw', rfl⟩ := digit_of_sextet hw
    obtain ⟨hx', rfl⟩ := digit_of_sextet hx
    split at h
    case isTrue hz =>
      subst hz
      split at h
      case isTrue => cases h
      case isFalse hrest =>
        have hrest : rest = [] := by simpa using hrest
        subst hrest
        split at h
        case isTrue hy =>
          subst hy
          split at h
          case isTrue => cases h
          case isFalse hpad =>
            cases h
            have hbyte : (UInt8.ofNat ((64 * w' + x') / 16)).toNat = (64 * w' + x') / 16 :=
              toNat_ofNat (by omega)
            have h₁ : 16 * ((64 * w' + x') / 16) / 64 = w' := by omega
            have h₂ : 16 * ((64 * w' + x') / 16) % 64 = x' := by omega
            simp only [encodeChars, hbyte, h₁, h₂]
        case isFalse hy =>
          simp only [Option.bind_eq_some_iff] at h
          obtain ⟨y', hy', h⟩ := h
          obtain ⟨hy', rfl⟩ := digit_of_sextet hy'
          split at h
          case isTrue => cases h
          case isFalse hpad =>
            cases h
            generalize hn : 4096 * w' + 64 * x' + y' = n at hpad ⊢
            have hfirst : (UInt8.ofNat (n / 1024)).toNat = n / 1024 := toNat_ofNat (by omega)
            have hsecond : (UInt8.ofNat (n / 4 % 256)).toNat = n / 4 % 256 := toNat_ofNat (by omega)
            have hback : 1024 * (n / 1024) + 4 * (n / 4 % 256) = n := by omega
            have h₁ : n / 4096 = w' := by omega
            have h₂ : n / 64 % 64 = x' := by omega
            have h₃ : n % 64 = y' := by omega
            simp only [encodeChars, hfirst, hsecond, hback, h₁, h₂, h₃]
    case isFalse hz =>
      simp only [Option.bind_eq_some_iff] at h
      obtain ⟨y', hy, z', hz', bytes', hbytes, h⟩ := h
      obtain ⟨hy', rfl⟩ := digit_of_sextet hy
      obtain ⟨hz', rfl⟩ := digit_of_sextet hz'
      cases h
      generalize hn : 262144 * w' + 4096 * x' + 64 * y' + z' = n
      have hfirst : (UInt8.ofNat (n / 65536)).toNat = n / 65536 := toNat_ofNat (by omega)
      have hsecond : (UInt8.ofNat (n / 256 % 256)).toNat = n / 256 % 256 := toNat_ofNat (by omega)
      have hthird : (UInt8.ofNat (n % 256)).toNat = n % 256 := toNat_ofNat (by omega)
      have hback : 65536 * (n / 65536) + 256 * (n / 256 % 256) + n % 256 = n := by omega
      have h₁ : n / 262144 = w' := by omega
      have h₂ : n / 4096 % 64 = x' := by omega
      have h₃ : n / 64 % 64 = y' := by omega
      have h₄ : n % 64 = z' := by omega
      simp only [encodeChars, hfirst, hsecond, hthird, hback, h₁, h₂, h₃, h₄, ih hbytes]
  | case2 =>
    cases h
    rfl
  | case3 text hfour hnil =>
    -- one to three digits are no group
    rw [decodeChars] at h
    · cases h
    · exact hfour
    · exact hnil

theorem decode_encode (bytes : List UInt8) : decode (encode bytes) = .ok bytes := by
  rw [decode, encode, String.toList_ofList, decodeChars_encodeChars]

theorem encode_of_decode {text : String} {bytes : List UInt8} (h : decode text = .ok bytes) :
    encode bytes = text := by
  unfold decode at h
  split at h
  case h_1 bytes' hbytes =>
    cases h
    rw [encode, encodeChars_of_decodeChars hbytes, String.ofList_toList]
  case h_2 => cases h

end DigitalObjects.Lib.Base64
