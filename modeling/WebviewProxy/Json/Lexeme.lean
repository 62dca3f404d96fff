import WebviewProxy.Json.Numeral
import WebviewProxy.Json.Quoted

/-!
# Lexemes of a JSON text

A text is a sequence of lexemes with blanks around them.  Each lexeme is the
longest one at its place, and each takes at least one character.
-/

namespace WebviewProxy

inductive Lexeme where
  | openBrace
  | closeBrace
  | openBracket
  | closeBracket
  | colon
  | comma
  | null
  | bool (value : Bool)
  | number (spelling : List Char)
  | string (pieces : List Quoted.Piece)
  deriving DecidableEq, Repr

namespace Lexeme

def isBlank (c : Char) : Bool :=
  c = ' ' || c = '\t' || c = '\n' || c = '\r'

/-- The lexeme at the front of a text that begins with no blank. -/
def read? : List Char → Option (Lexeme × List Char)
  | '\x7b' :: rest => some (.openBrace, rest)
  | '\x7d' :: rest => some (.closeBrace, rest)
  | '[' :: rest => some (.openBracket, rest)
  | ']' :: rest => some (.closeBracket, rest)
  | ':' :: rest => some (.colon, rest)
  | ',' :: rest => some (.comma, rest)
  | 'n' :: 'u' :: 'l' :: 'l' :: rest => some (.null, rest)
  | 't' :: 'r' :: 'u' :: 'e' :: rest => some (.bool true, rest)
  | 'f' :: 'a' :: 'l' :: 's' :: 'e' :: rest => some (.bool false, rest)
  | '"' :: rest =>
      (Quoted.read? rest).map fun (pieces, rest) => (.string pieces, rest)
  | text =>
      (Numeral.read? text).map fun (spelling, rest) => (.number spelling, rest)

theorem length_lt_of_read? {text rest : List Char} {lexeme : Lexeme}
    (h : read? text = some (lexeme, rest)) : rest.length < text.length := by
  unfold read? at h
  split at h
  case h_10 tail =>
    obtain ⟨⟨pieces, rest'⟩, hread, heq⟩ := Option.map_eq_some_iff.mp h
    cases heq
    have := Quoted.length_lt_of_read? hread
    simp only [List.length_cons]
    omega
  case h_11 =>
    obtain ⟨⟨spelling, rest'⟩, hread, heq⟩ := Option.map_eq_some_iff.mp h
    cases heq
    obtain ⟨happend, hne⟩ := Numeral.read?_append hread
    have := List.length_pos_iff.mpr hne
    rw [← happend, List.length_append]
    omega
  all_goals
    cases h
    simp only [List.length_cons]
    omega

def readAll? (text : List Char) : Option (List Lexeme) :=
  match _htext : text.dropWhile isBlank with
  | [] => some []
  | c :: tail =>
      match _hread : read? (c :: tail) with
      | none => none
      | some (lexeme, rest) => (readAll? rest).map (lexeme :: ·)
termination_by text.length
decreasing_by
  have hdrop := (List.dropWhile_suffix isBlank (l := text)).length_le
  have hrest := length_lt_of_read? _hread
  rw [_htext] at hdrop
  omega

end Lexeme

end WebviewProxy
