/-!
# Reading bytes as text

A path is a string of bytes and need not be UTF-8.  For display it is read one
byte at a time: `State` records how many bytes the current character still owes
and which range the next of them must lie in.  A byte outside that range ends
the broken character with one replacement mark and is then read afresh, so each
mark stands for a longest start of a character that was never finished.
-/

namespace WebviewProxy.Utf8

def replacement : Char := '\uFFFD'

inductive State where
  | between
  | inside (owed : Nat) (low high : Nat) (code : Nat)
  deriving DecidableEq, Repr

def lead (byte : Nat) : List Char × State :=
  if byte < 0x80 then ([Char.ofNat byte], .between)
  else if byte < 0xC2 then ([replacement], .between)
  else if byte < 0xE0 then ([], .inside 1 0x80 0xBF (byte - 0xC0))
  else if byte = 0xE0 then ([], .inside 2 0xA0 0xBF 0)
  else if byte = 0xED then ([], .inside 2 0x80 0x9F 0xD)
  else if byte < 0xF0 then ([], .inside 2 0x80 0xBF (byte - 0xE0))
  else if byte = 0xF0 then ([], .inside 3 0x90 0xBF 0)
  else if byte < 0xF4 then ([], .inside 3 0x80 0xBF (byte - 0xF0))
  else if byte = 0xF4 then ([], .inside 3 0x80 0x8F 4)
  else ([replacement], .between)

def State.feed (state : State) (byte : Nat) : List Char × State :=
  match state with
  | .between => lead byte
  | .inside owed low high code =>
      if low ≤ byte ∧ byte ≤ high then
        let code := code * 64 + (byte - 0x80)
        if owed = 1 then ([Char.ofNat code], .between)
        else ([], .inside (owed - 1) 0x80 0xBF code)
      else
        let (chars, next) := lead byte
        (replacement :: chars, next)

def State.read : State → List UInt8 → List Char
  | .between, [] => []
  | .inside .., [] => [replacement]
  | state, byte :: rest =>
      let (chars, next) := state.feed byte.toNat
      chars ++ next.read rest

/-- The text of the bytes, with a replacement mark for what is not UTF-8. -/
def lossy (bytes : List UInt8) : String :=
  String.ofList (State.read .between bytes)

def bytes (text : String) : List UInt8 :=
  text.toUTF8.data.toList

end WebviewProxy.Utf8
