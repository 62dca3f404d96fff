import WebviewProxy.Text.Hex

/-!
# Strings between quotation marks

A quoted string is read in two steps.  Reading up to the closing mark checks
the spelling and yields pieces: characters, written plainly or by a short
escape, and UTF-16 units written by their number.  Decoding the pieces then
fails exactly where the units do not pair up to characters.  A string whose
text nobody asks for is read but never decoded.
-/

namespace WebviewProxy.Quoted

inductive Piece where
  | char (value : Char)
  | unit (value : UInt16)
  deriving DecidableEq, Repr

/-- The character that a short escape stands for. -/
def escape? : Char → Option Char
  | '"' => some '"'
  | '\\' => some '\\'
  | '/' => some '/'
  | 'b' => some '\x08'
  | 'f' => some '\x0c'
  | 'n' => some '\n'
  | 'r' => some '\r'
  | 't' => some '\t'
  | _ => none

/-- The unit with the given four hexadecimal digits. -/
def unit? (a b c d : Char) : Option UInt16 := do
  let a ← Hex.value? a
  let b ← Hex.value? b
  let c ← Hex.value? c
  let d ← Hex.value? d
  some (UInt16.ofNat (((a * 16 + b) * 16 + c) * 16 + d))

def isPlain (c : Char) : Bool :=
  c ≠ '"' && c ≠ '\\' && 0x20 ≤ c.toNat

/-- The pieces up to the closing mark, and what follows it. -/
def read? : List Char → Option (List Piece × List Char)
  | [] => none
  | '"' :: rest => some ([], rest)
  | '\\' :: 'u' :: a :: b :: c :: d :: rest =>
      match unit? a b c d, read? rest with
      | some unit, some (pieces, rest) => some (.unit unit :: pieces, rest)
      | _, _ => none
  | '\\' :: letter :: rest =>
      match escape? letter, read? rest with
      | some c, some (pieces, rest) => some (.char c :: pieces, rest)
      | _, _ => none
  | c :: rest =>
      if isPlain c then
        (read? rest).map fun (pieces, rest) => (.char c :: pieces, rest)
      else none

theorem length_lt_of_read? {text rest : List Char} {pieces : List Piece}
    (h : read? text = some (pieces, rest)) : rest.length < text.length := by
  fun_induction read? text generalizing pieces rest with
  | case1 => simp at h
  | case2 tail =>
      simp only [Option.some.injEq, Prod.mk.injEq] at h
      simp [← h.2]
  | case3 a b c d tail unit pieces' rest' hrest _ ih =>
      simp only [Option.some.injEq, Prod.mk.injEq] at h
      have := ih hrest
      simp only [← h.2, List.length_cons]
      omega
  | case4 => simp at h
  | case5 letter tail _ c pieces' rest' hrest _ ih =>
      simp only [Option.some.injEq, Prod.mk.injEq] at h
      have := ih hrest
      simp only [← h.2, List.length_cons]
      omega
  | case6 => simp at h
  | case7 c tail _ _ _ hplain ih =>
      obtain ⟨⟨pieces', rest'⟩, hrest, heq⟩ := Option.map_eq_some_iff.mp h
      simp only [Prod.mk.injEq] at heq
      have := ih hrest
      simp only [← heq.2, List.length_cons]
      omega
  | case8 => simp at h

def isHigh (unit : UInt16) : Bool := 0xD800 ≤ unit && unit < 0xDC00

def isLow (unit : UInt16) : Bool := 0xDC00 ≤ unit && unit < 0xE000

/-- The characters of the pieces, when every high surrogate is followed by a
low one and no low one stands alone. -/
def decode? : List Piece → Option (List Char)
  | [] => some []
  | .char c :: rest => (decode? rest).map (c :: ·)
  | .unit high :: .unit low :: rest =>
      if isHigh high then
        if isLow low then
          let code := 0x10000 + (high.toNat - 0xD800) * 0x400 +
            (low.toNat - 0xDC00)
          (decode? rest).map (Char.ofNat code :: ·)
        else none
      else if isLow high then none
      else (decode? (.unit low :: rest)).map (Char.ofNat high.toNat :: ·)
  | .unit unit :: rest =>
      if isHigh unit || isLow unit then none
      else (decode? rest).map (Char.ofNat unit.toNat :: ·)

def text? (pieces : List Piece) : Option String :=
  (decode? pieces).map String.ofList

end WebviewProxy.Quoted
