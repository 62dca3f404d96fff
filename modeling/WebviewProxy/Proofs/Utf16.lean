import WebviewProxy.Json.Quoted

/-!
# Texts of quoted strings

The pieces of a quoted string stand for UTF-16 units: an escape by number for
the unit that it names, and any other piece for the units of its character.  The
string denotes the text with exactly these units.  There is such a text just if
every surrogate is one of a pair, and decoding finds it.
-/

namespace WebviewProxy

namespace Utf16

open Quoted

/-- The surrogates of a character above the first plane. -/
def highOf (c : Char) : UInt16 :=
  UInt16.ofNat (0xD800 + (c.toNat - 0x10000) / 0x400)

def lowOf (c : Char) : UInt16 :=
  UInt16.ofNat (0xDC00 + (c.toNat - 0x10000) % 0x400)

def ofChar (c : Char) : List UInt16 :=
  if c.toNat < 0x10000 then [UInt16.ofNat c.toNat] else [highOf c, lowOf c]

/-- The code point of a pair of surrogates. -/
def codeOf (high low : UInt16) : Nat :=
  0x10000 + (high.toNat - 0xD800) * 0x400 + (low.toNat - 0xDC00)

theorem isHigh_iff (unit : UInt16) :
    isHigh unit = true ↔ 0xD800 ≤ unit.toNat ∧ unit.toNat < 0xDC00 := by
  simp [isHigh, UInt16.le_iff_toNat_le, UInt16.lt_iff_toNat_lt]

theorem isLow_iff (unit : UInt16) :
    isLow unit = true ↔ 0xDC00 ≤ unit.toNat ∧ unit.toNat < 0xE000 := by
  simp [isLow, UInt16.le_iff_toNat_le, UInt16.lt_iff_toNat_lt]

theorem toNat_ofNat {code : Nat}
    (hcode : code < 0xD800 ∨ 0xDFFF < code ∧ code < 0x110000) :
    (Char.ofNat code).toNat = code := by
  have hvalid : code.isValidChar := hcode
  rw [Char.ofNat, dif_pos hvalid]
  rfl

theorem toNat_bounds (c : Char) :
    c.toNat < 0xD800 ∨ 0xDFFF < c.toNat ∧ c.toNat < 0x110000 :=
  c.valid

theorem ofChar_ofNat {unit : UInt16} (hhigh : ¬ isHigh unit = true)
    (hlow : ¬ isLow unit = true) :
    ofChar (Char.ofNat unit.toNat) = [unit] := by
  rw [isHigh_iff] at hhigh
  rw [isLow_iff] at hlow
  have hbound := unit.toNat_lt
  rw [ofChar, toNat_ofNat (by omega), if_pos hbound, UInt16.ofNat_toNat]

theorem ofChar_codeOf {high low : UInt16} (hhigh : isHigh high = true)
    (hlow : isLow low = true) :
    ofChar (Char.ofNat (codeOf high low)) = [high, low] := by
  rw [isHigh_iff] at hhigh
  rw [isLow_iff] at hlow
  have hcode : ¬ codeOf high low < 0x10000 ∧ codeOf high low < 0x110000 := by
    unfold codeOf
    omega
  have hfirst : 0xD800 + (codeOf high low - 0x10000) / 0x400 = high.toNat := by
    unfold codeOf
    omega
  have hsecond : 0xDC00 + (codeOf high low - 0x10000) % 0x400 = low.toNat := by
    unfold codeOf
    omega
  have hnat : (Char.ofNat (codeOf high low)).toNat = codeOf high low :=
    toNat_ofNat (by omega)
  rw [ofChar, highOf, lowOf, hnat, if_neg hcode.1, hfirst, hsecond,
    UInt16.ofNat_toNat, UInt16.ofNat_toNat]

theorem codeOf_eq {high low : UInt16} {code : Nat} (hcode : ¬ code < 0x10000)
    (hhigh : high.toNat = 0xD800 + (code - 0x10000) / 0x400)
    (hlow : low.toNat = 0xDC00 + (code - 0x10000) % 0x400) :
    codeOf high low = code := by
  unfold codeOf
  omega

/-- A character is one unit that is no surrogate, or a pair of surrogates. -/
theorem char_cases (c : Char) :
    (∃ unit, ¬ isHigh unit = true ∧ ¬ isLow unit = true ∧
      c = Char.ofNat unit.toNat) ∨
    ∃ high low, isHigh high = true ∧ isLow low = true ∧
      c = Char.ofNat (codeOf high low) := by
  have hbounds := toNat_bounds c
  by_cases hsmall : c.toNat < 0x10000
  · left
    have hunit : (UInt16.ofNat c.toNat).toNat = c.toNat :=
      UInt16.toNat_ofNat_of_lt hsmall
    refine ⟨UInt16.ofNat c.toNat, ?_, ?_, ?_⟩
    · rw [isHigh_iff, hunit]
      omega
    · rw [isLow_iff, hunit]
      omega
    · rw [hunit, Char.ofNat_toNat]
  · right
    have hsize : UInt16.size = 0x10000 := rfl
    have hhigh : (highOf c).toNat = 0xD800 + (c.toNat - 0x10000) / 0x400 :=
      UInt16.toNat_ofNat_of_lt (by omega)
    have hlow : (lowOf c).toNat = 0xDC00 + (c.toNat - 0x10000) % 0x400 :=
      UInt16.toNat_ofNat_of_lt (by omega)
    have hcode := codeOf_eq hsmall hhigh hlow
    refine ⟨highOf c, lowOf c, ?_, ?_, ?_⟩
    · rw [isHigh_iff, hhigh]
      omega
    · rw [isLow_iff, hlow]
      omega
    · rw [hcode, Char.ofNat_toNat]

theorem not_isLow_of_isHigh {unit : UInt16} (hhigh : isHigh unit = true) :
    ¬ isLow unit = true := by
  rw [isHigh_iff] at hhigh
  rw [isLow_iff]
  omega

/-- The first unit of a character is no low surrogate, and it is a high one just
if a low one follows. -/
theorem ofChar_append_eq_cons {c : Char} {unit : UInt16}
    {rest units : List UInt16} (heq : ofChar c ++ rest = unit :: units) :
    ¬ isLow unit = true ∧
      (¬ isHigh unit = true → c = Char.ofNat unit.toNat ∧ rest = units) ∧
      (isHigh unit = true → ∃ low, isLow low = true ∧
        c = Char.ofNat (codeOf unit low) ∧ units = low :: rest) := by
  rcases char_cases c with ⟨single, hhigh, hlow, hc⟩ |
    ⟨high, low, hhigh, hlow, hc⟩
  · rw [hc, ofChar_ofNat hhigh hlow] at heq
    cases heq
    exact ⟨hlow, fun _ => ⟨hc, rfl⟩, fun hother => absurd hother hhigh⟩
  · rw [hc, ofChar_codeOf hhigh hlow] at heq
    cases heq
    exact ⟨not_isLow_of_isHigh hhigh, fun hother => absurd hhigh hother,
      fun _ => ⟨low, hlow, hc, rfl⟩⟩

theorem ofChar_ne_nil (c : Char) : ofChar c ≠ [] := by
  unfold ofChar
  split <;> exact List.cons_ne_nil _ _

theorem ofChar_append_inj {c d : Char} {rest units : List UInt16}
    (heq : ofChar c ++ rest = ofChar d ++ units) : c = d ∧ rest = units := by
  rcases char_cases d with ⟨unit, hhigh, hlow, hd⟩ |
    ⟨high, low, hhigh, hlow, hd⟩
  · rw [hd, ofChar_ofNat hhigh hlow] at heq
    rw [hd]
    exact (ofChar_append_eq_cons heq).2.1 hhigh
  · rw [hd, ofChar_codeOf hhigh hlow] at heq
    obtain ⟨other, -, hc, htail⟩ := (ofChar_append_eq_cons heq).2.2 hhigh
    cases htail
    exact ⟨hc.trans hd.symm, rfl⟩

theorem eq_nil_of_flatMap_ofChar {chars : List Char}
    (hnil : chars.flatMap ofChar = []) : chars = [] := by
  cases chars with
  | nil => rfl
  | cons c rest =>
      rw [List.flatMap_cons, List.append_eq_nil_iff] at hnil
      exact absurd hnil.1 (ofChar_ne_nil c)

end Utf16

namespace Quoted

open Utf16

def Piece.units : Piece → List UInt16
  | .char c => ofChar c
  | .unit value => [value]

/-- The units that the pieces stand for are those of the text. -/
def Denotes (pieces : List Piece) (text : String) : Prop :=
  text.toList.flatMap ofChar = pieces.flatMap Piece.units

theorem units_unit (value : UInt16) (rest : List Piece) :
    (Piece.unit value :: rest).flatMap Piece.units =
      value :: rest.flatMap Piece.units :=
  rfl

theorem flatMap_of_decode? {pieces : List Piece} {chars : List Char}
    (hdecode : decode? pieces = some chars) :
    chars.flatMap ofChar = pieces.flatMap Piece.units := by
  fun_induction decode? pieces generalizing chars with
  | case1 =>
      cases hdecode
      rfl
  | case2 c rest ih =>
      obtain ⟨others, hothers, rfl⟩ := Option.map_eq_some_iff.mp hdecode
      rw [List.flatMap_cons, List.flatMap_cons, ih hothers]
      rfl
  | case3 high low rest hhigh hlow code =>
      rename_i ih
      obtain ⟨others, hothers, hchars⟩ := Option.map_eq_some_iff.mp hdecode
      have hpair := ofChar_codeOf hhigh hlow
      rw [← hchars, units_unit, units_unit, ← ih hothers]
      exact congrArg (· ++ others.flatMap ofChar) hpair
  | case4 => cases hdecode
  | case5 => cases hdecode
  | case6 high low rest hhigh hlow ih =>
      obtain ⟨others, hothers, rfl⟩ := Option.map_eq_some_iff.mp hdecode
      rw [List.flatMap_cons, ofChar_ofNat hhigh hlow, ih hothers]
      rfl
  | case7 => cases hdecode
  | case8 value rest hne hsurrogate ih =>
      obtain ⟨others, hothers, rfl⟩ := Option.map_eq_some_iff.mp hdecode
      rw [Bool.or_eq_true, not_or] at hsurrogate
      rw [List.flatMap_cons, ofChar_ofNat hsurrogate.1 hsurrogate.2,
        ih hothers]
      rfl

theorem exists_cons_of_flatMap {chars : List Char} {unit : UInt16}
    {units : List UInt16} (heq : chars.flatMap ofChar = unit :: units) :
    ∃ c others, chars = c :: others ∧
      ofChar c ++ others.flatMap ofChar = unit :: units := by
  cases chars with
  | nil => cases heq
  | cons c others => exact ⟨c, others, rfl, heq⟩

/-- A piece that is not written by its number begins with no low surrogate. -/
theorem not_isLow_of_units {pieces : List Piece} {unit : UInt16}
    {units : List UInt16}
    (hne : ∀ low rest, pieces = .unit low :: rest → False)
    (hunits : pieces.flatMap Piece.units = unit :: units) :
    ¬ isLow unit = true := by
  match pieces with
  | [] => cases hunits
  | .unit value :: rest => exact absurd rfl (hne value rest)
  | .char c :: rest => exact (ofChar_append_eq_cons hunits).1

theorem decode?_of_flatMap {pieces : List Piece} {chars : List Char}
    (hunits : chars.flatMap ofChar = pieces.flatMap Piece.units) :
    decode? pieces = some chars := by
  fun_induction decode? pieces generalizing chars with
  | case1 => rw [eq_nil_of_flatMap_ofChar hunits]
  | case2 c rest ih =>
      cases chars with
      | nil =>
          have hnil := (List.append_eq_nil_iff.mp hunits.symm).1
          exact absurd hnil (ofChar_ne_nil c)
      | cons d others =>
          obtain ⟨rfl, hothers⟩ := ofChar_append_inj hunits
          rw [ih hothers]
          rfl
  | case3 high low rest hhigh hlow code =>
      rename_i ih
      rw [units_unit, units_unit] at hunits
      obtain ⟨c, others, rfl, hcons⟩ := exists_cons_of_flatMap hunits
      obtain ⟨other, -, hc, hothers⟩ :=
        (ofChar_append_eq_cons hcons).2.2 hhigh
      obtain ⟨rfl, hrest⟩ := List.cons.inj hothers
      rw [ih hrest.symm, hc]
      rfl
  | case4 high low rest hhigh hlow =>
      rw [units_unit, units_unit] at hunits
      obtain ⟨c, others, rfl, hcons⟩ := exists_cons_of_flatMap hunits
      obtain ⟨other, hother, -, hothers⟩ :=
        (ofChar_append_eq_cons hcons).2.2 hhigh
      obtain ⟨rfl, -⟩ := List.cons.inj hothers
      exact absurd hother hlow
  | case5 high low rest hhigh hlow =>
      rw [units_unit] at hunits
      obtain ⟨c, others, rfl, hcons⟩ := exists_cons_of_flatMap hunits
      exact absurd hlow (ofChar_append_eq_cons hcons).1
  | case6 high low rest hhigh hlow ih =>
      rw [units_unit] at hunits
      obtain ⟨c, others, rfl, hcons⟩ := exists_cons_of_flatMap hunits
      obtain ⟨hc, hothers⟩ := (ofChar_append_eq_cons hcons).2.1 hhigh
      rw [ih hothers, hc]
      rfl
  | case7 value rest hne hsurrogate =>
      rw [units_unit] at hunits
      obtain ⟨c, others, rfl, hcons⟩ := exists_cons_of_flatMap hunits
      rw [Bool.or_eq_true, or_iff_left (ofChar_append_eq_cons hcons).1]
        at hsurrogate
      obtain ⟨low, hlow, -, hrest⟩ :=
        (ofChar_append_eq_cons hcons).2.2 hsurrogate
      exact absurd hlow (not_isLow_of_units hne hrest)
  | case8 value rest hne hsurrogate ih =>
      rw [units_unit] at hunits
      rw [Bool.or_eq_true, not_or] at hsurrogate
      obtain ⟨c, others, rfl, hcons⟩ := exists_cons_of_flatMap hunits
      obtain ⟨hc, hothers⟩ :=
        (ofChar_append_eq_cons hcons).2.1 hsurrogate.1
      rw [ih hothers, hc]
      rfl

/-- Decoding finds the text that the pieces denote, whenever there is one. -/
theorem text?_eq_some_iff (pieces : List Piece) (text : String) :
    text? pieces = some text ↔ Denotes pieces text := by
  rw [text?, Option.map_eq_some_iff]
  constructor
  · rintro ⟨chars, hdecode, rfl⟩
    rw [Denotes, String.toList_ofList]
    exact flatMap_of_decode? hdecode
  · intro hdenotes
    exact ⟨text.toList, decode?_of_flatMap hdenotes, String.ofList_toList⟩

end Quoted

end WebviewProxy
