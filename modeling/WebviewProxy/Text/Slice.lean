/-!
# Slices of text by bytes

Offsets into a text count the bytes of its UTF-8 form.  A slice exists only
when both ends are in order, inside the text and between two characters.
-/

namespace WebviewProxy.Slice

/-- The characters after the first `count` bytes. -/
def drop? : Nat → List Char → Option (List Char)
  | 0, chars => some chars
  | _ + 1, [] => none
  | count + 1, c :: chars =>
      if c.utf8Size ≤ count + 1 then drop? (count + 1 - c.utf8Size) chars
      else none

def take? : Nat → List Char → Option (List Char)
  | 0, _ => some []
  | _ + 1, [] => none
  | count + 1, c :: chars =>
      if c.utf8Size ≤ count + 1 then
        (take? (count + 1 - c.utf8Size) chars).map (c :: ·)
      else none

/-- The characters from byte `start` up to byte `stop`. -/
def slice? (start stop : Nat) (chars : List Char) : Option (List Char) :=
  if start ≤ stop then (drop? start chars).bind (take? (stop - start))
  else none

end WebviewProxy.Slice
