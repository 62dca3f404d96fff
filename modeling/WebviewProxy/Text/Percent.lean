import WebviewProxy.Text.Hex

/-!
# Percent encoding of path segments

A byte that may not stand in a segment of a URL is written as `%` and two
capital hexadecimal digits.  Which bytes these are is a parameter; as long as
`%` is one of them, every `%` of an encoded segment begins an escape and
decoding gives the bytes back.
-/

namespace WebviewProxy.Percent

/-- Whether a byte has to be escaped in a segment of a URL path: controls,
everything beyond ASCII and the characters that would end or alter the segment.
A backslash is none of them. -/
def isReserved (byte : UInt8) : Bool :=
  byte < 0x20 || 0x7F ≤ byte ||
    (Char.ofNat byte.toNat) ∈
      [' ', '"', '#', '%', '<', '>', '?', '`', '\x7b', '\x7d']

def encodeByte (escaped : UInt8 → Bool) (byte : UInt8) : List Char :=
  if escaped byte then '%' :: Hex.ofByte .capital byte
  else [Char.ofNat byte.toNat]

/-- The bytes with those of the set `escaped` written as escapes. -/
def encode (escaped : UInt8 → Bool) (bytes : List UInt8) : List Char :=
  bytes.flatMap (encodeByte escaped)

/-- The bytes of an encoded segment; a `%` that begins no escape stands for
itself. -/
def decode : List Char → List UInt8
  | [] => []
  | '%' :: high :: low :: rest =>
      match Hex.value? high, Hex.value? low with
      | some h, some l => UInt8.ofNat (16 * h + l) :: decode rest
      | _, _ => 0x25 :: decode (high :: low :: rest)
  | c :: rest => UInt8.ofNat c.toNat :: decode rest

@[simp]
theorem encode_nil (escaped : UInt8 → Bool) : encode escaped [] = [] := rfl

@[simp]
theorem encode_cons (escaped : UInt8 → Bool) (byte : UInt8)
    (rest : List UInt8) :
    encode escaped (byte :: rest) =
      encodeByte escaped byte ++ encode escaped rest := rfl

theorem toNat_ofNat_toNat (byte : UInt8) :
    (Char.ofNat byte.toNat).toNat = byte.toNat := by
  have hvalid : byte.toNat.isValidChar := Or.inl (by
    have := byte.toNat_lt
    omega)
  rw [Char.ofNat, dif_pos hvalid]
  rfl

theorem decode_cons_of_ne {c : Char} (hne : c ≠ '%') (rest : List Char) :
    decode (c :: rest) = UInt8.ofNat c.toNat :: decode rest := by
  rw [decode]
  intro _ _ _ heq
  exact absurd heq hne

theorem decode_escape (byte : UInt8) (rest : List Char) :
    decode ('%' :: (Hex.ofByte .capital byte ++ rest)) =
      byte :: decode rest := by
  have hhigh : byte.toNat / 16 < 16 := by
    have := byte.toNat_lt
    omega
  have hlow : byte.toNat % 16 < 16 := Nat.mod_lt _ (by decide)
  have hsum : 16 * (byte.toNat / 16) + byte.toNat % 16 = byte.toNat :=
    Nat.div_add_mod ..
  simp [Hex.ofByte, decode, Hex.value?_digit _ hhigh, Hex.value?_digit _ hlow,
    hsum]

theorem decode_encodeByte {escaped : UInt8 → Bool}
    (hpercent : escaped 0x25 = true) (byte : UInt8) (rest : List Char) :
    decode (encodeByte escaped byte ++ rest) = byte :: decode rest := by
  unfold encodeByte
  split
  · exact decode_escape byte rest
  · rename_i hplain
    have hne : Char.ofNat byte.toNat ≠ '%' := by
      intro heq
      have hbyte : byte = 0x25 := by
        apply UInt8.toNat_inj.mp
        rw [← toNat_ofNat_toNat byte, heq]
        rfl
      exact hplain (hbyte ▸ hpercent)
    rw [List.singleton_append, decode_cons_of_ne hne, toNat_ofNat_toNat]
    simp

/-- Decoding undoes encoding, also in front of further text. -/
theorem decode_encode_append {escaped : UInt8 → Bool}
    (hpercent : escaped 0x25 = true) (bytes : List UInt8) (rest : List Char) :
    decode (encode escaped bytes ++ rest) = bytes ++ decode rest := by
  induction bytes with
  | nil => rfl
  | cons byte bytes ih =>
      rw [encode_cons, List.append_assoc, decode_encodeByte hpercent, ih,
        List.cons_append]

end WebviewProxy.Percent
