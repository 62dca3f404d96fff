import WebviewProxy.Text.Percent

/-!
# Canonical escapes

A text is canonical when every escape in it is one of the encode set, written
with capital digits, and every other character is a byte outside that set.
Canonical texts are exactly what encoding produces, so on them encoding undoes
decoding.  The encode set is spelled out here as a list of bytes, apart from
the set with which the text is written.
-/

namespace WebviewProxy.Percent

/-- Space and the marks `"`, `#`, `%`, `<`, `>`, `?`, backslash, backtick and
the two braces. -/
def marks : List UInt8 :=
  [0x20, 0x22, 0x23, 0x25, 0x3C, 0x3E, 0x3F, 0x5C, 0x60, 0x7B, 0x7D]

/-- The encode set of an identity: controls, everything beyond ASCII and the
marks. -/
def isEscaped (byte : UInt8) : Bool :=
  byte < 0x20 || 0x7F ≤ byte || byte ∈ marks

def capitalDigits : List Char := "0123456789ABCDEF".toList

/-- A text in which exactly the bytes of the encode set are escaped. -/
inductive Canonical : List Char → Prop
  | nil : Canonical []
  | plain {c : Char} {rest : List Char} (hascii : c.toNat < 0x80)
      (hset : isEscaped (UInt8.ofNat c.toNat) = false)
      (hrest : Canonical rest) : Canonical (c :: rest)
  | escape {high low : Char} {rest : List Char} (hhigh : high ∈ capitalDigits)
      (hlow : low ∈ capitalDigits)
      (hset : isEscaped (UInt8.ofNat
        (16 * capitalDigits.idxOf high + capitalDigits.idxOf low)) = true)
      (hrest : Canonical rest) : Canonical ('%' :: high :: low :: rest)

theorem forall_byte {P : UInt8 → Prop}
    (h : ∀ n < 256, P (UInt8.ofNat n)) (byte : UInt8) : P byte := by
  have hbyte := h byte.toNat byte.toNat_lt
  rwa [UInt8.ofNat_toNat] at hbyte

/-- A character that only one byte is written with stands in a text exactly
where this byte is encoded. -/
theorem mem_encode_iff {escaped : UInt8 → Bool} {c : Char} {mark : UInt8}
    (hbyte : ∀ byte, c ∈ encodeByte escaped byte ↔ mark = byte)
    (bytes : List UInt8) : c ∈ encode escaped bytes ↔ mark ∈ bytes := by
  induction bytes with
  | nil => simp
  | cons byte bytes ih => simp [hbyte, ih]

theorem isReserved_eq_isEscaped {byte : UInt8} (hne : byte ≠ 0x5C) :
    isReserved byte = isEscaped byte :=
  forall_byte (P := fun byte => byte ≠ 0x5C →
    isReserved byte = isEscaped byte) (by decide +kernel) byte hne

/-! ## Digits -/

theorem digit_spec {value : Nat} (hvalue : value < 16) :
    Hex.digit .capital value ∈ capitalDigits ∧
      capitalDigits.idxOf (Hex.digit .capital value) = value := by
  have hall : ∀ v < 16, Hex.digit .capital v ∈ capitalDigits ∧
      capitalDigits.idxOf (Hex.digit .capital v) = v := by
    decide
  exact hall value hvalue

theorem exists_digit {c : Char} (hc : c ∈ capitalDigits) :
    ∃ value < 16, Hex.digit .capital value = c := by
  have hdigits : capitalDigits = (List.range 16).map (Hex.digit .capital) := by
    decide
  rw [hdigits] at hc
  obtain ⟨value, hvalue, hdigit⟩ := List.mem_map.mp hc
  exact ⟨value, List.mem_range.mp hvalue, hdigit⟩

theorem capitalDigit_spec {c : Char} (hc : c ∈ capitalDigits) :
    capitalDigits.idxOf c < 16 ∧
      Hex.value? c = some (capitalDigits.idxOf c) ∧
      Hex.digit .capital (capitalDigits.idxOf c) = c := by
  obtain ⟨value, hvalue, rfl⟩ := exists_digit hc
  rw [(digit_spec hvalue).2]
  exact ⟨hvalue, Hex.value?_digit .capital hvalue, rfl⟩

theorem ofByte_capital (byte : UInt8) :
    ∃ high ∈ capitalDigits, ∃ low ∈ capitalDigits,
      Hex.ofByte .capital byte = [high, low] ∧
        16 * capitalDigits.idxOf high + capitalDigits.idxOf low =
          byte.toNat := by
  have hbyte : byte.toNat / 16 < 16 := by
    have := byte.toNat_lt
    omega
  obtain ⟨hhigh, hhighValue⟩ := digit_spec hbyte
  obtain ⟨hlow, hlowValue⟩ := digit_spec
    (Nat.mod_lt byte.toNat (by decide : 0 < 16))
  refine ⟨_, hhigh, _, hlow, rfl, ?_⟩
  rw [hhighValue, hlowValue]
  exact Nat.div_add_mod ..

theorem ofByte_of_capitals {high low : Char} (hhigh : high ∈ capitalDigits)
    (hlow : low ∈ capitalDigits) :
    Hex.ofByte .capital (UInt8.ofNat
      (16 * capitalDigits.idxOf high + capitalDigits.idxOf low)) =
        [high, low] := by
  obtain ⟨hhighBound, -, hhighDigit⟩ := capitalDigit_spec hhigh
  obtain ⟨hlowBound, -, hlowDigit⟩ := capitalDigit_spec hlow
  have hvalue : (UInt8.ofNat (16 * capitalDigits.idxOf high +
      capitalDigits.idxOf low)).toNat =
        16 * capitalDigits.idxOf high + capitalDigits.idxOf low :=
    UInt8.toNat_ofNat_of_lt' (show _ < 256 by omega)
  rw [Hex.ofByte, hvalue, Nat.mul_add_div (by decide), Nat.mul_add_mod,
    Nat.div_eq_of_lt hlowBound, Nat.mod_eq_of_lt hlowBound, Nat.add_zero,
    hhighDigit, hlowDigit]

/-! ## Encoding and decoding -/

theorem Canonical.encodeByte {rest : List Char} (hrest : Canonical rest)
    (byte : UInt8) : Canonical (encodeByte isEscaped byte ++ rest) := by
  unfold Percent.encodeByte
  cases hset : isEscaped byte with
  | true =>
      obtain ⟨high, hhigh, low, hlow, hform, hvalue⟩ := ofByte_capital byte
      rw [if_pos rfl, hform]
      refine .escape hhigh hlow ?_ hrest
      rw [hvalue, UInt8.ofNat_toNat]
      exact hset
  | false =>
      have hascii : byte.toNat < 0x80 :=
        forall_byte (P := fun byte => isEscaped byte = false →
          byte.toNat < 0x80) (by decide +kernel) byte hset
      have hchar := toNat_ofNat_toNat byte
      rw [if_neg Bool.false_ne_true]
      refine .plain ?_ ?_ hrest
      · rw [hchar]
        exact hascii
      · rw [hchar, UInt8.ofNat_toNat]
        exact hset

theorem Canonical.encode_append {rest : List Char} (hrest : Canonical rest)
    (bytes : List UInt8) : Canonical (encode isEscaped bytes ++ rest) := by
  induction bytes with
  | nil => exact hrest
  | cons byte bytes ih =>
      rw [encode_cons, List.append_assoc]
      exact ih.encodeByte byte

theorem canonical_encode (bytes : List UInt8) :
    Canonical (encode isEscaped bytes) := by
  simpa using Canonical.nil.encode_append bytes

theorem decode_encode (bytes : List UInt8) :
    decode (encode isEscaped bytes) = bytes := by
  have hpercent : isEscaped 0x25 = true := by decide
  have hdecode := decode_encode_append hpercent bytes []
  rwa [List.append_nil, decode, List.append_nil] at hdecode

theorem decode_plain {c : Char} {rest : List Char}
    (hset : isEscaped (UInt8.ofNat c.toNat) = false) :
    decode (c :: rest) = UInt8.ofNat c.toNat :: decode rest := by
  apply decode_cons_of_ne
  rintro rfl
  exact absurd hset (by decide)

theorem decode_capitals {high low : Char} (hhigh : high ∈ capitalDigits)
    (hlow : low ∈ capitalDigits) (rest : List Char) :
    decode ('%' :: high :: low :: rest) =
      UInt8.ofNat (16 * capitalDigits.idxOf high + capitalDigits.idxOf low) ::
        decode rest := by
  rw [decode, (capitalDigit_spec hhigh).2.1, (capitalDigit_spec hlow).2.1]

theorem Canonical.encode_decode {text : List Char} (htext : Canonical text) :
    encode isEscaped (decode text) = text := by
  induction htext with
  | nil => rfl
  | @plain c rest hascii hset hrest ih =>
      have hvalue : (UInt8.ofNat c.toNat).toNat = c.toNat :=
        UInt8.toNat_ofNat_of_lt' (show _ < 256 by omega)
      rw [decode_plain hset, encode_cons, ih, Percent.encodeByte, hset, hvalue]
      simp
  | @escape high low rest hhigh hlow hset hrest ih =>
      rw [decode_capitals hhigh hlow, encode_cons, ih, Percent.encodeByte,
        hset, ofByte_of_capitals hhigh hlow]
      rfl

theorem Canonical.decode_append {text : List Char} (htext : Canonical text)
    (rest : List Char) : decode (text ++ rest) = decode text ++ decode rest := by
  have hpercent : isEscaped 0x25 = true := by decide
  have hdecode := decode_encode_append hpercent (decode text) rest
  rwa [htext.encode_decode] at hdecode

/-! ## What a canonical text is made of -/

theorem Canonical.append {text rest : List Char} (htext : Canonical text)
    (hrest : Canonical rest) : Canonical (text ++ rest) := by
  induction htext with
  | nil => exact hrest
  | plain hascii hset _ ih => exact .plain hascii hset ih
  | escape hhigh hlow hset _ ih => exact .escape hhigh hlow hset ih

/-- The characters of a canonical text are plain bytes, `%` and digits. -/
theorem Canonical.mem_cases {text : List Char} (htext : Canonical text)
    {c : Char} (hc : c ∈ text) :
    c = '%' ∨ c ∈ capitalDigits ∨
      (c.toNat < 0x80 ∧ isEscaped (UInt8.ofNat c.toNat) = false) := by
  induction htext with
  | nil => simp at hc
  | plain hascii hset _ ih =>
      rcases List.mem_cons.mp hc with rfl | hrest
      · exact Or.inr (Or.inr ⟨hascii, hset⟩)
      · exact ih hrest
  | escape hhigh hlow _ _ ih =>
      simp only [List.mem_cons] at hc
      rcases hc with rfl | rfl | rfl | hrest
      · exact Or.inl rfl
      · exact Or.inr (Or.inl hhigh)
      · exact Or.inr (Or.inl hlow)
      · exact ih hrest

/-- The characters that never stand in an identity as themselves: white space,
controls and everything beyond ASCII apart. -/
def excluded : List Char :=
  ['"', '#', '<', '>', '?', '`', '\x7b', '\x7d', '\\']

theorem Canonical.isPrintable {text : List Char} (htext : Canonical text)
    {c : Char} (hc : c ∈ text) :
    0x20 < c.toNat ∧ c.toNat < 0x7F ∧ c ∉ excluded := by
  rcases htext.mem_cases hc with rfl | hdigit | ⟨hascii, hset⟩
  · decide
  · have hall : ∀ value < 16, 0x20 < (Hex.digit .capital value).toNat ∧
        (Hex.digit .capital value).toNat < 0x7F ∧
        Hex.digit .capital value ∉ excluded := by
      decide
    obtain ⟨value, hvalue, rfl⟩ := exists_digit hdigit
    exact hall value hvalue
  · have hall : ∀ n < 128, isEscaped (UInt8.ofNat n) = false →
        0x20 < n ∧ n < 0x7F ∧ Char.ofNat n ∉ excluded := by
      decide +kernel
    simpa using hall c.toNat hascii hset

theorem Canonical.digits_follow {text before after : List Char}
    (htext : Canonical text) (hsplit : text = before ++ '%' :: after) :
    ∃ high ∈ capitalDigits, ∃ low ∈ capitalDigits, ∃ rest,
      after = high :: low :: rest := by
  have hpercent : '%' ∉ capitalDigits := by decide
  induction htext generalizing before with
  | nil => simp at hsplit
  | plain _ hset _ ih =>
      cases before with
      | nil =>
          simp only [List.nil_append, List.cons.injEq] at hsplit
          rw [hsplit.1] at hset
          exact absurd hset (by decide)
      | cons _ before =>
          simp only [List.cons_append, List.cons.injEq] at hsplit
          exact ih hsplit.2
  | @escape high low rest hhigh hlow _ _ ih =>
      match before with
      | [] =>
          simp only [List.nil_append, List.cons.injEq] at hsplit
          exact ⟨high, hhigh, low, hlow, rest, hsplit.2.symm⟩
      | [_] =>
          simp only [List.cons_append, List.nil_append,
            List.cons.injEq] at hsplit
          exact absurd (hsplit.2.1 ▸ hhigh) hpercent
      | [_, _] =>
          simp only [List.cons_append, List.nil_append,
            List.cons.injEq] at hsplit
          exact absurd (hsplit.2.2.1 ▸ hlow) hpercent
      | _ :: _ :: _ :: before =>
          simp only [List.cons_append, List.cons.injEq] at hsplit
          exact ih hsplit.2.2.2

end WebviewProxy.Percent
