import DigitalObjects.Driver.ObjectStore
set_option autoImplicit false

/-!
The names that the store makes up and those that a player may choose: a generated name shows the
identifier and the commitment of its object, and no other name has that form.
-/

namespace DigitalObjects.Driver.Objects

open Txlib Lib

/-! ## The form of a name -/

/-- One component of a path on every platform, with the extension of object files. -/
def SafeName (name : String) : Prop :=
  dobjExtension.toList <:+ name.toList ∧
    ∀ c ∈ name.toList, isControl c = false ∧ c ∉ fileNameForbiddenChars

def isHexDigit (c : Char) : Bool := c.isDigit || ('a' ≤ c && c ≤ 'f')

theorem isHashPrefix_iff {part : List Char} :
    isHashPrefix part = true ↔ part.length = 16 ∧ ∀ c ∈ part, isHexDigit c = true := by
  simp [isHashPrefix, isHexDigit]

theorem stripSuffix_of_append {name suffix : String} {stem : List Char}
    (h : name.toList = stem ++ suffix.toList) : stripSuffix suffix name = some (String.ofList stem) := by
  unfold stripSuffix
  rw [h, if_pos (by simp [List.isSuffixOf_iff_suffix])]
  simp

theorem takeWhile_reverse_append {a b : List Char} (hb : '_' ∉ b) :
    ((a ++ b).reverse.takeWhile (· ≠ '_')).reverse = (a.reverse.takeWhile (· ≠ '_')).reverse ++ b := by
  have hall : ∀ c ∈ b.reverse, (decide (c ≠ '_')) = true := by
    intro c hc
    have hne : c ≠ '_' := by
      rintro rfl
      exact hb (List.mem_reverse.mp hc)
    simp [hne]
  rw [List.reverse_append, List.takeWhile_append_of_pos hall]
  simp

theorem splitLast_append {a b : List Char} (hb : '_' ∉ b) : splitLast (a ++ '_' :: b) = (b, some a) := by
  have hcons : a ++ '_' :: b = (a ++ ['_']) ++ b := by simp
  have hnone : ((a ++ ['_']).reverse.takeWhile (· ≠ '_')).reverse = [] := by simp
  have hlen : ((a ++ ['_']) ++ b).length - b.length - 1 = a.length := by
    simp
    omega
  unfold splitLast
  rw [hcons, takeWhile_reverse_append hb, hnone, List.nil_append]
  dsimp only
  rw [hlen, if_pos (by simp; omega)]
  simp

/-- A part after the last `_` that is no hash prefix. -/
theorem not_generated_of_tail {name : String} {a b : List Char} {x : Char}
    (hname : name.toList = a ++ b ++ dobjExtension.toList) (hb : '_' ∉ b) (hx : x ∈ b)
    (hhex : isHexDigit x = false) : hasGeneratedShape name = false := by
  unfold hasGeneratedShape
  rw [stripSuffix_of_append hname]
  dsimp only
  have hpart : (splitLast (a ++ b)).1 = (a.reverse.takeWhile (· ≠ '_')).reverse ++ b :=
    takeWhile_reverse_append hb
  have hnot : isHashPrefix (splitLast (a ++ b)).1 = false := by
    rw [hpart]
    by_contra htrue
    have hall := (isHashPrefix_iff.mp (by simpa using htrue)).2 x (by simp [hx])
    rw [hhex] at hall
    cases hall
  rw [String.toList_ofList]
  generalize splitLast (a ++ b) = parts at hnot
  obtain ⟨commitment, rest⟩ := parts
  simp only at hnot ⊢
  cases rest with
  | none => rfl
  | some rest =>
    simp only [Option.map_some]
    generalize splitLast rest = more
    obtain ⟨stable, beginning⟩ := more
    cases beginning with
    | none => rfl
    | some beginning => simp [hnot]

theorem generated_of_parts {name : String} {a b c : List Char} (ha : a ≠ [])
    (hb : isHashPrefix b = true) (hc : isHashPrefix c = true)
    (hname : name.toList = a ++ '_' :: b ++ '_' :: c ++ dobjExtension.toList) :
    hasGeneratedShape name = true := by
  have hfree : ∀ part, isHashPrefix part = true → '_' ∉ part := by
    intro part hpart hmem
    have hhex := (isHashPrefix_iff.mp hpart).2 '_' hmem
    revert hhex
    decide
  unfold hasGeneratedShape
  rw [stripSuffix_of_append hname]
  dsimp only
  rw [String.toList_ofList, splitLast_append (hfree c hc)]
  simp only [Option.map_some]
  rw [splitLast_append (hfree b hb)]
  simp [ha, hb, hc]

/-! ## Names that the store derives -/

theorem stemOf_toList {name : String} (h : dobjExtension.toList <:+ name.toList) :
    (stemOf name).toList ++ dobjExtension.toList = name.toList := by
  obtain ⟨stem, hstem⟩ := h
  rw [stemOf, stripSuffix_of_append hstem.symm]
  simpa using hstem

/-- Text after the stem of a safe name. -/
theorem SafeName.extend {name : String} (h : SafeName name) {more : String}
    (hmore : ∀ c ∈ more.toList, isControl c = false ∧ c ∉ fileNameForbiddenChars) :
    SafeName (stemOf name ++ more ++ dobjExtension) := by
  have hstem := stemOf_toList h.1
  constructor
  · exact ⟨(stemOf name ++ more).toList, by simp⟩
  · intro c hc
    simp only [String.toList_append, List.mem_append] at hc
    rcases hc with (hc | hc) | hc
    · exact h.2 c (by rw [← hstem]; simp [hc])
    · exact hmore c hc
    · exact h.2 c (by rw [← hstem]; simp [hc])

theorem digit_range {c : Char} (h : c.isDigit = true) : 48 ≤ c.toNat ∧ c.toNat ≤ 57 := by
  unfold Char.isDigit at h
  rw [Bool.and_eq_true, decide_eq_true_eq, decide_eq_true_eq] at h
  exact ⟨UInt32.le_iff_toNat_le.mp h.1, UInt32.le_iff_toNat_le.mp h.2⟩

/-- Checked over the characters of the list; `decide` would run over all characters. -/
theorem forall_mem_of_all {P : Char → Prop} [DecidablePred P] {l : List Char}
    (h : (l.all fun c => decide (P c)) = true) (c : Char) (hc : c ∈ l) : P c := by
  simp only [List.all_eq_true, decide_eq_true_eq] at h
  exact h c hc

theorem safe_chars {l : List Char}
    (h : (l.all fun c => decide (isControl c = false ∧ c ∉ fileNameForbiddenChars)) = true) {c : Char}
    (hc : c ∈ l) : isControl c = false ∧ c ∉ fileNameForbiddenChars :=
  forall_mem_of_all h c hc

/-- ASCII letters and digits. -/
theorem word_char_safe {c : Char} (h : 48 ≤ c.toNat ∧ c.toNat ≤ 57 ∨ 65 ≤ c.toNat ∧ c.toNat ≤ 90 ∨
    97 ≤ c.toNat ∧ c.toNat ≤ 122) : isControl c = false ∧ c ∉ fileNameForbiddenChars := by
  constructor
  · simp only [isControl, Bool.or_eq_false_iff, Bool.and_eq_false_iff, decide_eq_false_iff_not]
    omega
  · intro hmem
    have hall : ∀ d ∈ fileNameForbiddenChars, ¬ (48 ≤ d.toNat ∧ d.toNat ≤ 57 ∨
        65 ≤ d.toNat ∧ d.toNat ≤ 90 ∨ 97 ≤ d.toNat ∧ d.toNat ≤ 122) := forall_mem_of_all (by decide)
    exact hall c hmem h

theorem alphanum_range {c : Char} (h : c.isAlphanum = true) : 48 ≤ c.toNat ∧ c.toNat ≤ 57 ∨
    65 ≤ c.toNat ∧ c.toNat ≤ 90 ∨ 97 ≤ c.toNat ∧ c.toNat ≤ 122 := by
  have hranges : c.isAlphanum = (decide (c.val ≥ 'A'.val ∧ c.val ≤ 'Z'.val) ||
      (decide (c.val ≥ 'a'.val) && decide (c.val ≤ 'z'.val)) || c.isDigit) := by
    rfl
  simp only [hranges, Bool.or_eq_true, Bool.and_eq_true, decide_eq_true_eq] at h
  rcases h with (h | h) | h
  · exact .inr (.inl ⟨UInt32.le_iff_toNat_le.mp h.1, UInt32.le_iff_toNat_le.mp h.2⟩)
  · exact .inr (.inr ⟨UInt32.le_iff_toNat_le.mp h.1, UInt32.le_iff_toNat_le.mp h.2⟩)
  · exact .inl (digit_range h)

theorem hexDigit_safe {c : Char} (h : isHexDigit c = true) :
    isControl c = false ∧ c ∉ fileNameForbiddenChars := by
  simp only [isHexDigit, Bool.or_eq_true, Bool.and_eq_true, decide_eq_true_eq] at h
  apply word_char_safe
  rcases h with h | h
  · exact .inl (digit_range h)
  · have hlow : 97 ≤ c.toNat := h.1
    have hhigh : c.toNat ≤ 102 := h.2
    omega

theorem safeLower_safe (c : Char) :
    isControl (safeLower c) = false ∧ safeLower c ∉ fileNameForbiddenChars := by
  unfold safeLower
  dsimp only
  split
  · rename_i h
    simp only [Bool.or_eq_true, decide_eq_true_eq] at h
    rcases h with (h | h) | h
    · exact word_char_safe (alphanum_range h)
    · rw [h]
      decide
    · rw [h]
      decide
  · decide

theorem digits_safe (n : Nat) (c : Char) (hc : c ∈ (toString n).toList) :
    c ≠ '_' ∧ isControl c = false ∧ c ∉ fileNameForbiddenChars := by
  have hdigits : (toString n).toList = Nat.toDigits 10 n := Nat.toList_repr
  rw [hdigits] at hc
  have hval := digit_range (Nat.isDigit_of_mem_toDigits (by omega) (by omega) hc)
  refine ⟨?_, word_char_safe (.inl hval)⟩
  rintro rfl
  revert hval
  decide

theorem numberedFileName_form {name : String} (h : SafeName name) (number : Nat) :
    SafeName (numberedFileName name number) ∧ hasGeneratedShape (numberedFileName name number) = false := by
  have hmore : ∀ c ∈ (" " ++ toString number).toList,
      c ≠ '_' ∧ isControl c = false ∧ c ∉ fileNameForbiddenChars := by
    intro c hc
    rw [String.toList_append, List.mem_append] at hc
    rcases hc with hc | hc
    · have hspace : c = ' ' := by simpa using hc
      subst hspace
      decide
    · exact digits_safe number c hc
  have heq : numberedFileName name number = stemOf name ++ (" " ++ toString number) ++ dobjExtension := by
    simp [numberedFileName, String.append_assoc]
  rw [heq]
  refine ⟨h.extend fun c hc => (hmore c hc).2, ?_⟩
  refine not_generated_of_tail (x := ' ') (a := (stemOf name).toList)
    (b := (" " ++ toString number).toList) (by simp) (fun hmem => (hmore '_' hmem).1 rfl) (by simp)
    (by decide)

/-- A name made unique stays safe, and is the name itself or none of generated form. -/
theorem uniqueFileName_form {bound : Nat} {fileName name : String} {isTaken : String → Bool}
    (h : uniqueFileName bound fileName isTaken = .ok name) (hsafe : SafeName fileName)
    (hform : hasGeneratedShape fileName = false) : SafeName name ∧ hasGeneratedShape name = false := by
  unfold uniqueFileName at h
  split at h
  · split at h
    · rename_i candidate hfind
      cases h
      obtain ⟨i, -, rfl⟩ := List.mem_map.mp (List.mem_of_find?_eq_some hfind)
      exact numberedFileName_form hsafe _
    · cases h
  · cases h
    exact ⟨hsafe, hform⟩

theorem pendingFileName_form {bound : Nat} {finalName name : String} {isTaken : String → Bool}
    (h : pendingFileName bound finalName isTaken = .ok name) (hsafe : SafeName finalName) :
    SafeName name ∧ hasGeneratedShape name = false := by
  refine uniqueFileName_form h (hsafe.extend (forall_mem_of_all (by decide))) ?_
  exact not_generated_of_tail (x := 'p') (a := (stemOf finalName).toList) (b := "-pending".toList)
    (by simp) (by decide) (by decide) (by decide)

theorem customFileName_form {requested generated name : String}
    (h : customFileName requested generated = .ok name) :
    SafeName name ∧ (name = generated ∨ hasGeneratedShape name = false) := by
  unfold customFileName at h
  split at h
  · cases h
  · split at h
    · cases h
    · rename_i hchars
      split at h
      · cases h
      · have hsafe : ∀ c ∈ requested.toList, isControl c = false ∧ c ∉ fileNameForbiddenChars := by
          intro c hc
          have hnot : ¬ ((isControl c || decide (c ∈ fileNameForbiddenChars)) = true) :=
            fun hbad => hchars (List.any_eq_true.mpr ⟨c, hc, hbad⟩)
          simpa using hnot
        have hfile : SafeName (if dobjExtension.toList.isSuffixOf requested.toList then requested
            else requested ++ dobjExtension) := by
          split
          · rename_i hsuffix
            exact ⟨List.isSuffixOf_iff_suffix.mp hsuffix, hsafe⟩
          · constructor
            · exact ⟨requested.toList, by simp⟩
            · intro c hc
              rw [String.toList_append, List.mem_append] at hc
              rcases hc with hc | hc
              · exact hsafe c hc
              · exact safe_chars (by decide) hc
        dsimp only at h
        generalize (if dobjExtension.toList.isSuffixOf requested.toList then requested
            else requested ++ dobjExtension) = fileName at h hfile
        split at h
        · cases h
        · split at h
          · cases h
          · split at h
            · cases h
            · rename_i hshape
              cases h
              refine ⟨hfile, ?_⟩
              by_cases heq : name = generated
              · exact .inl heq
              · exact .inr (by simpa [heq] using hshape)

theorem importedFileName_form {bound : Nat} {requested generated name : String} {isTaken : String → Bool}
    (h : importedFileName bound requested generated isTaken = .ok name) :
    SafeName name ∧ (name = generated ∨ hasGeneratedShape name = false) := by
  unfold importedFileName at h
  split at h
  · cases h
  · rename_i fileName hcustom
    obtain ⟨hsafe, hform⟩ := customFileName_form hcustom
    split at h
    · rename_i heq
      cases h
      exact ⟨hsafe, .inl heq⟩
    · rename_i hne
      obtain ⟨hsafe', hform'⟩ := uniqueFileName_form h hsafe (hform.resolve_left hne)
      exact ⟨hsafe', .inr hform'⟩

/-! ## Generated names -/

/-- What `encode_hex` promises. -/
def EncodesHex (H : Type) [EncodeHex H] : Prop :=
  ∀ h : H, 16 ≤ (EncodeHex.encodeHex h).toList.length ∧
    ∀ c ∈ (EncodeHex.encodeHex h).toList, isHexDigit c = true

section

variable {H : Type} [EncodeHex H]

theorem hashHexPrefix_isHashPrefix (hhex : EncodesHex H) (hash : H) :
    isHashPrefix (hashHexPrefix hash 8).toList = true := by
  obtain ⟨hlen, hdigits⟩ := hhex hash
  rw [isHashPrefix_iff, hashHexPrefix, String.toList_ofList]
  constructor
  · rw [List.length_take]
    omega
  · intro c hc
    exact hdigits c (List.mem_of_mem_take hc)

theorem objectFileName_form (hhex : EncodesHex H) {cls : QualifiedName} {obj : Object H} {name : String}
    (h : objectFileName cls obj = some name) : SafeName name ∧ hasGeneratedShape name = true := by
  obtain ⟨stable, -, rfl⟩ := Option.map_eq_some_iff.mp h
  have hstable := hashHexPrefix_isHashPrefix hhex stable
  have hcommitment := hashHexPrefix_isHashPrefix hhex obj.commitment
  have hhexsafe : ∀ part : String, isHashPrefix part.toList = true →
      ∀ c ∈ part.toList, isControl c = false ∧ c ∉ fileNameForbiddenChars :=
    fun part hpart c hc => hexDigit_safe ((isHashPrefix_iff.mp hpart).2 c hc)
  refine ⟨⟨⟨_, (String.toList_append).symm⟩, ?_⟩, ?_⟩
  · intro c hc
    simp only [String.toList_append, List.mem_append, QualifiedName.filePrefix, String.toList_ofList,
      List.mem_map] at hc
    rcases hc with ((((((⟨d, -, rfl⟩ | hc) | ⟨d, -, rfl⟩) | hc) | hc) | hc) | hc) | hc
    · exact safeLower_safe d
    · exact safe_chars (by decide) hc
    · exact safeLower_safe d
    · exact safe_chars (by decide) hc
    · exact hhexsafe _ hstable c hc
    · exact safe_chars (by decide) hc
    · exact hhexsafe _ hcommitment c hc
    · exact safe_chars (by decide) hc
  · refine generated_of_parts (a := cls.filePrefix.toList) ?_ hstable hcommitment ?_
    · simp [QualifiedName.filePrefix]
    · simp

/-- A generated name tells the commitment of its object, up to the bytes that it shows. -/
theorem objectFileName_commitment (hhex : EncodesHex H) {cls cls' : QualifiedName} {obj obj' : Object H}
    {name : String} (h : objectFileName cls obj = some name) (h' : objectFileName cls' obj' = some name) :
    hashHexPrefix obj.commitment 8 = hashHexPrefix obj'.commitment 8 := by
  obtain ⟨stable, -, rfl⟩ := Option.map_eq_some_iff.mp h
  obtain ⟨stable', -, heq⟩ := Option.map_eq_some_iff.mp h'
  have hlen := (isHashPrefix_iff.mp (hashHexPrefix_isHashPrefix hhex obj.commitment)).1
  have hlen' := (isHashPrefix_iff.mp (hashHexPrefix_isHashPrefix hhex obj'.commitment)).1
  have hlist := congrArg String.toList heq
  simp only [String.toList_append] at hlist
  have hparts := (List.append_inj' hlist rfl).1
  exact String.toList_inj.mp (List.append_inj' hparts (hlen'.trans hlen.symm)).2.symm

end

end DigitalObjects.Driver.Objects
