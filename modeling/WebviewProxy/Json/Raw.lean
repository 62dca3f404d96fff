import WebviewProxy.Json.Lexeme

/-!
# JSON values as they are written

A raw value is a JSON value whose strings are still pieces and whose numbers
are still spellings.  It is read from its lexemes one at a time: a stack holds
the arrays and objects that are still open, each with what has been read of it,
and `Awaited` says what has to come next.  There is no bound on the depth.
-/

namespace WebviewProxy

abbrev Key := List Quoted.Piece

inductive RawJson where
  | null
  | bool (value : Bool)
  | number (spelling : List Char)
  | string (pieces : List Quoted.Piece)
  | array (items : List RawJson)
  | object (members : List (Key × RawJson))
  deriving Repr, Inhabited

namespace RawJson

/-- An array or object that waits for a value, with what it holds so far, the
latest first. -/
inductive Frame where
  | array (items : List RawJson)
  | object (members : List (Key × RawJson)) (key : Key)
  deriving Repr

/-- What has to come next.  An empty array or object may close at once; after a
comma it may not. -/
inductive Awaited where
  | value
  | firstItem
  | firstKey
  | nextKey (members : List (Key × RawJson))
  | colon (members : List (Key × RawJson)) (key : Key)
  | after (value : RawJson)
  deriving Repr

/-- A lexeme where a value has to begin. -/
def begin? (stack : List Frame) : Lexeme → Option (Awaited × List Frame)
  | .null => some (.after .null, stack)
  | .bool value => some (.after (.bool value), stack)
  | .number spelling => some (.after (.number spelling), stack)
  | .string pieces => some (.after (.string pieces), stack)
  | .openBracket => some (.firstItem, stack)
  | .openBrace => some (.firstKey, stack)
  | _ => none

/-- A lexeme after the value that completes the top of the stack so far. -/
def resume? (value : RawJson) :
    List Frame → Lexeme → Option (Awaited × List Frame)
  | .array items :: stack, .comma =>
      some (.value, .array (value :: items) :: stack)
  | .array items :: stack, .closeBracket =>
      some (.after (.array (value :: items).reverse), stack)
  | .object members key :: stack, .comma =>
      some (.nextKey ((key, value) :: members), stack)
  | .object members key :: stack, .closeBrace =>
      some (.after (.object ((key, value) :: members).reverse), stack)
  | _, _ => none

def step? : Awaited × List Frame → Lexeme → Option (Awaited × List Frame)
  | (.value, stack), lexeme => begin? stack lexeme
  | (.firstItem, stack), .closeBracket => some (.after (.array []), stack)
  | (.firstItem, stack), lexeme => begin? (.array [] :: stack) lexeme
  | (.firstKey, stack), .closeBrace => some (.after (.object []), stack)
  | (.firstKey, stack), .string key => some (.colon [] key, stack)
  | (.nextKey members, stack), .string key =>
      some (.colon members key, stack)
  | (.colon members key, stack), .colon =>
      some (.value, .object members key :: stack)
  | (.after value, stack), lexeme => resume? value stack lexeme
  | _, _ => none

/-- The value whose lexemes are given, with none left over. -/
def ofLexemes? (lexemes : List Lexeme) : Option RawJson :=
  match lexemes.foldlM step? (.value, []) with
  | some (.after value, []) => some value
  | _ => none

def ofText? (text : String) : Option RawJson :=
  (Lexeme.readAll? text.toList).bind ofLexemes?

end RawJson

end WebviewProxy
