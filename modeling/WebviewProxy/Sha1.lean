import WebviewProxy.Text.Hex
import WebviewProxy.Text.Utf8

/-!
# SHA-1

The message is padded to whole blocks of sixty-four bytes, each block is
expanded to eighty words, and eighty rounds mix them into a state of five
words.  The digest is the final state, twenty bytes with the high one first.
-/

namespace WebviewProxy

structure Sha1 where
  a : UInt32
  b : UInt32
  c : UInt32
  d : UInt32
  e : UInt32
  deriving DecidableEq, Repr

namespace Sha1

def initial : Sha1 :=
  ⟨0x67452301, 0xEFCDAB89, 0x98BADCFE, 0x10325476, 0xC3D2E1F0⟩

def rotateLeft (word : UInt32) (count : UInt32) : UInt32 :=
  (word <<< count) ||| (word >>> (32 - count))

/-- The Boolean function of the round, chosen by its quarter. -/
def mix (index : Nat) (b c d : UInt32) : UInt32 :=
  if index < 20 then (b &&& c) ||| (~~~b &&& d)
  else if index < 40 then b ^^^ c ^^^ d
  else if index < 60 then (b &&& c) ||| (b &&& d) ||| (c &&& d)
  else b ^^^ c ^^^ d

def roundConstant (index : Nat) : UInt32 :=
  if index < 20 then 0x5A827999
  else if index < 40 then 0x6ED9EBA1
  else if index < 60 then 0x8F1BBCDC
  else 0xCA62C1D6

def round (state : Sha1) (word : UInt32) (index : Nat) : Sha1 where
  a := rotateLeft state.a 5 + mix index state.b state.c state.d + state.e +
    roundConstant index + word
  b := state.a
  c := rotateLeft state.b 30
  d := state.c
  e := state.d

/-- The words of all eighty rounds: sixteen from the block, and each later one
from the words three, eight, fourteen and sixteen places before it. -/
def schedule (block : List UInt32) : List UInt32 :=
  ((List.range 64).foldl
    (fun words index =>
      words.push <| rotateLeft
        (words.getD (index + 13) 0 ^^^ words.getD (index + 8) 0 ^^^
          words.getD (index + 2) 0 ^^^ words.getD index 0) 1)
    block.toArray).toList

def compress (state : Sha1) (block : List UInt32) : Sha1 :=
  let mixed := (schedule block).zipIdx.foldl
    (fun state (word, index) => state.round word index) state
  ⟨state.a + mixed.a, state.b + mixed.b, state.c + mixed.c,
    state.d + mixed.d, state.e + mixed.e⟩

/-- A number in eight bytes, the high one first, modulo `2 ^ 64`. -/
def lengthBytes (bits : Nat) : List UInt8 :=
  [56, 48, 40, 32, 24, 16, 8, 0].map fun shift => UInt8.ofNat (bits >>> shift)

/-- The message, one bit, zeros up to eight bytes short of a whole block, and
the length of the message in bits. -/
def pad (message : List UInt8) : List UInt8 :=
  message ++ 0x80 :: List.replicate ((119 - message.length % 64) % 64) 0 ++
    lengthBytes (8 * message.length)

theorem pad_length (message : List UInt8) :
    (pad message).length % 64 = 0 := by
  simp only [pad, lengthBytes, List.length_append, List.length_cons,
    List.length_replicate, List.length_map, List.length_nil]
  omega

def words : List UInt8 → List UInt32
  | a :: b :: c :: d :: rest =>
      (a.toUInt32 <<< 24 ||| b.toUInt32 <<< 16 ||| c.toUInt32 <<< 8 |||
        d.toUInt32) :: words rest
  | _ => []

def blocks (words : List UInt32) : List (List UInt32) :=
  if _h : words = [] then []
  else words.take 16 :: blocks (words.drop 16)
termination_by words.length
decreasing_by
  have := List.length_pos_iff.mpr _h
  simp only [List.length_drop]
  omega

def wordBytes (word : UInt32) : List UInt8 :=
  [(word >>> 24).toUInt8, (word >>> 16).toUInt8, (word >>> 8).toUInt8,
    word.toUInt8]

def bytes (state : Sha1) : List UInt8 :=
  [state.a, state.b, state.c, state.d, state.e].flatMap wordBytes

@[simp]
theorem bytes_length (state : Sha1) : state.bytes.length = 20 := rfl

end Sha1

def sha1 (message : List UInt8) : List UInt8 :=
  ((Sha1.blocks (Sha1.words (Sha1.pad message))).foldl
    Sha1.compress Sha1.initial).bytes

end WebviewProxy
