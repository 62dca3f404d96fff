/-!
# Hexadecimal text

A byte is written as two digits, the high one first.  Digests use the small
letters, percent escapes the capital ones, and readers take either.
-/

namespace WebviewProxy.Hex

inductive Letters where
  | small
  | capital
  deriving DecidableEq, Repr

/-- The digit of a value below sixteen. -/
def digit (letters : Letters) (value : Nat) : Char :=
  if value < 10 then Char.ofNat (48 + value)
  else match letters with
    | .small => Char.ofNat (87 + value)
    | .capital => Char.ofNat (55 + value)

def ofByte (letters : Letters) (byte : UInt8) : List Char :=
  [digit letters (byte.toNat / 16), digit letters (byte.toNat % 16)]

def ofBytes (letters : Letters) (bytes : List UInt8) : List Char :=
  bytes.flatMap (ofByte letters)

def value? (c : Char) : Option Nat :=
  if '0' ≤ c ∧ c ≤ '9' then some (c.toNat - 48)
  else if 'a' ≤ c ∧ c ≤ 'f' then some (c.toNat - 87)
  else if 'A' ≤ c ∧ c ≤ 'F' then some (c.toNat - 55)
  else none

theorem value?_digit (letters : Letters) {value : Nat} (h : value < 16) :
    value? (digit letters value) = some value := by
  have hall : ∀ v ∈ List.range 16, value? (digit letters v) = some v := by
    cases letters <;> decide
  exact hall value (List.mem_range.mpr h)

theorem ofBytes_length (letters : Letters) (bytes : List UInt8) :
    (ofBytes letters bytes).length = 2 * bytes.length := by
  induction bytes with
  | nil => rfl
  | cons byte rest ih =>
      simp only [ofBytes, List.flatMap_cons, List.length_append,
        List.length_cons] at ih ⊢
      simp only [ofByte, List.length_cons, List.length_nil]
      omega

end WebviewProxy.Hex
