import Mathlib.Data.List.Chain
import Mathlib.Data.List.TakeWhile
import WebviewProxy.Json.Lexeme
import WebviewProxy.Proofs.Numerals

/-!
# Spellings of lexemes

The spellings of a quoted string and of every other lexeme, and the blanks
between them, are written down here as relations, apart from the readers and
from the tables that the readers look characters up in.  A reader takes a lexeme
off the front of a text exactly when the text begins with a spelling of it.  Only
a number has to be followed by something that does not continue it; every other
lexeme shows by itself where it ends.  So a text with blanks around its lexemes
is read as these lexemes, as long as no two numbers are next to each other.
-/

namespace WebviewProxy

/-! ## Hexadecimal digits -/

namespace Hex

/-- The character is the digit of the value, with a letter of either case. -/
def IsDigit (c : Char) (value : Nat) : Prop :=
  "0123456789abcdef".toList[value]? = some c ∨
    "0123456789ABCDEF".toList[value]? = some c

theorem isDigit_iff (c : Char) (value : Nat) :
    IsDigit c value ↔ value < 16 ∧ ∃ letters, digit letters value = c := by
  have hall : ∀ v < 16,
      "0123456789abcdef".toList[v]? = some (digit .small v) ∧
        "0123456789ABCDEF".toList[v]? = some (digit .capital v) := by
    decide
  constructor
  · intro hdigit
    have hvalue : value < 16 := by
      rcases hdigit with hc | hc <;>
        exact (List.getElem?_eq_some_iff.mp hc).1
    obtain ⟨hsmall, hcapital⟩ := hall value hvalue
    rcases hdigit with hc | hc
    · exact ⟨hvalue, .small, Option.some.inj (hsmall.symm.trans hc)⟩
    · exact ⟨hvalue, .capital, Option.some.inj (hcapital.symm.trans hc)⟩
  · rintro ⟨hvalue, letters, rfl⟩
    cases letters with
    | small => exact .inl (hall value hvalue).1
    | capital => exact .inr (hall value hvalue).2

theorem digit_of_value? {c : Char} {value : Nat}
    (hread : value? c = some value) :
    value < 16 ∧ ∃ letters, digit letters value = c := by
  unfold value? at hread
  split at hread
  next hdecimal =>
    cases hread
    have hlow : 48 ≤ c.toNat := hdecimal.1
    have hhigh : c.toNat ≤ 57 := hdecimal.2
    refine ⟨by omega, .small, ?_⟩
    rw [digit, if_pos (by omega), Nat.add_sub_cancel' hlow, Char.ofNat_toNat]
  next =>
    split at hread
    next hsmall =>
      cases hread
      have hlow : 97 ≤ c.toNat := hsmall.1
      have hhigh : c.toNat ≤ 102 := hsmall.2
      refine ⟨by omega, .small, ?_⟩
      rw [digit, if_neg (by omega), Nat.add_sub_cancel' (by omega),
        Char.ofNat_toNat]
    next =>
      split at hread
      next hcapital =>
        cases hread
        have hlow : 65 ≤ c.toNat := hcapital.1
        have hhigh : c.toNat ≤ 70 := hcapital.2
        refine ⟨by omega, .capital, ?_⟩
        rw [digit, if_neg (by omega), Nat.add_sub_cancel' (by omega),
          Char.ofNat_toNat]
      next => cases hread

theorem value?_eq_some_iff (c : Char) (value : Nat) :
    value? c = some value ↔ IsDigit c value := by
  rw [isDigit_iff]
  constructor
  · exact digit_of_value?
  · rintro ⟨hvalue, letters, rfl⟩
    exact value?_digit letters hvalue

end Hex

/-! ## Quoted strings -/

namespace Quoted

/-- A character that stands for itself between the quotation marks. -/
structure Plain (c : Char) : Prop where
  noMark : c ≠ '"'
  noBackslash : c ≠ '\\'
  noControl : 0x20 ≤ c.toNat

/-- The letter behind a backslash stands for the character. -/
inductive Escapes : Char → Char → Prop
  | mark : Escapes '"' '"'
  | backslash : Escapes '\\' '\\'
  | slash : Escapes '/' '/'
  | backspace : Escapes 'b' '\x08'
  | formFeed : Escapes 'f' '\x0c'
  | lineFeed : Escapes 'n' '\n'
  | carriageReturn : Escapes 'r' '\r'
  | tab : Escapes 't' '\t'

/-- The four digits are the number of the unit. -/
inductive Numbers : List Char → UInt16 → Prop
  | digits {a b c d : Char} {i j k l : Nat} {unit : UInt16}
      (ha : Hex.IsDigit a i) (hb : Hex.IsDigit b j) (hc : Hex.IsDigit c k)
      (hd : Hex.IsDigit d l)
      (hunit : unit.toNat = 0x1000 * i + 0x100 * j + 0x10 * k + l) :
      Numbers [a, b, c, d] unit

/-- The characters between the quotation marks spell the pieces. -/
inductive Spells : List Piece → List Char → Prop
  | nil : Spells [] []
  | plain {c : Char} {pieces : List Piece} {chars : List Char}
      (hplain : Plain c) (hrest : Spells pieces chars) :
      Spells (.char c :: pieces) (c :: chars)
  | escape {letter c : Char} {pieces : List Piece} {chars : List Char}
      (hescape : Escapes letter c) (hrest : Spells pieces chars) :
      Spells (.char c :: pieces) ('\\' :: letter :: chars)
  | unit {a b c d : Char} {value : UInt16} {pieces : List Piece}
      {chars : List Char} (hunit : Numbers [a, b, c, d] value)
      (hrest : Spells pieces chars) :
      Spells (.unit value :: pieces)
        ('\\' :: 'u' :: a :: b :: c :: d :: chars)

theorem isPlain_iff (c : Char) : isPlain c = true ↔ Plain c := by
  simp only [isPlain, Bool.and_eq_true, decide_eq_true_eq]
  constructor
  · rintro ⟨⟨hmark, hbackslash⟩, hcontrol⟩
    exact ⟨hmark, hbackslash, hcontrol⟩
  · rintro ⟨hmark, hbackslash, hcontrol⟩
    exact ⟨⟨hmark, hbackslash⟩, hcontrol⟩

theorem escape?_eq_some_iff (letter c : Char) :
    escape? letter = some c ↔ Escapes letter c := by
  constructor
  · intro hread
    unfold escape? at hread
    split at hread <;> cases hread <;> constructor
  · intro hescapes
    cases hescapes <;> rfl

theorem unit?_eq_some_iff (a b c d : Char) (unit : UInt16) :
    unit? a b c d = some unit ↔ Numbers [a, b, c, d] unit := by
  have hbound {i j k l : Nat} {a b c d : Char} (ha : Hex.IsDigit a i)
      (hb : Hex.IsDigit b j) (hc : Hex.IsDigit c k) (hd : Hex.IsDigit d l) :
      0x1000 * i + 0x100 * j + 0x10 * k + l < 0x10000 := by
    rw [Hex.isDigit_iff] at ha hb hc hd
    omega
  simp only [unit?, Option.bind_eq_bind, Option.bind_eq_some_iff,
    Hex.value?_eq_some_iff, Option.some.injEq]
  constructor
  · rintro ⟨i, ha, j, hb, k, hc, l, hd, rfl⟩
    have hsize := hbound ha hb hc hd
    refine .digits ha hb hc hd ?_
    rw [UInt16.toNat_ofNat_of_lt' (show _ < 2 ^ 16 by omega)]
    omega
  · rintro ⟨ha, hb, hc, hd, hunit⟩
    refine ⟨_, ha, _, hb, _, hc, _, hd, ?_⟩
    have hsize := hbound ha hb hc hd
    apply UInt16.toNat_inj.mp
    rw [UInt16.toNat_ofNat_of_lt' (show _ < 2 ^ 16 by omega), hunit]
    omega

theorem spells_of_read? {text rest : List Char} {pieces : List Piece}
    (hread : read? text = some (pieces, rest)) :
    ∃ chars, Spells pieces chars ∧ text = chars ++ '"' :: rest := by
  fun_induction read? text generalizing pieces rest with
  | case1 => cases hread
  | case2 tail =>
      cases hread
      exact ⟨[], .nil, rfl⟩
  | case3 a b c d tail value others left htail hunit ih =>
      cases hread
      obtain ⟨chars, hchars, rfl⟩ := ih htail
      exact ⟨_, .unit ((unit?_eq_some_iff ..).mp hunit) hchars, rfl⟩
  | case4 => cases hread
  | case5 letter tail hne c others left htail hescape ih =>
      cases hread
      obtain ⟨chars, hchars, rfl⟩ := ih htail
      exact ⟨_, .escape ((escape?_eq_some_iff ..).mp hescape) hchars, rfl⟩
  | case6 => cases hread
  | case7 c tail _ _ _ hplain ih =>
      obtain ⟨⟨others, left⟩, htail, heq⟩ := Option.map_eq_some_iff.mp hread
      cases heq
      obtain ⟨chars, hchars, rfl⟩ := ih htail
      exact ⟨_, .plain ((isPlain_iff c).mp hplain) hchars, rfl⟩
  | case8 => cases hread

theorem read?_of_spells {pieces : List Piece} {chars : List Char}
    (hspells : Spells pieces chars) (rest : List Char) :
    read? (chars ++ '"' :: rest) = some (pieces, rest) := by
  induction hspells with
  | nil => rfl
  | @plain c pieces chars hplain hrest ih =>
      rw [List.cons_append, read?, if_pos ((isPlain_iff c).mpr hplain), ih]
      · rfl
      · exact hplain.noMark
      · rintro a b x y z rfl
        exact absurd rfl hplain.noBackslash
      · rintro letter z rfl
        exact absurd rfl hplain.noBackslash
  | @escape letter c pieces chars hescape hrest ih =>
      have hread := (escape?_eq_some_iff letter c).mpr hescape
      rw [List.cons_append, List.cons_append, read?, hread, ih]
      rintro a b x y z rfl
      cases hescape
  | unit hunit hrest ih =>
      have hread := (unit?_eq_some_iff ..).mpr hunit
      simp only [List.cons_append, read?, hread, ih]

end Quoted

/-! ## Lexemes -/

namespace Lexeme

inductive Spells : Lexeme → List Char → Prop
  | openBrace : Spells .openBrace ['\x7b']
  | closeBrace : Spells .closeBrace ['\x7d']
  | openBracket : Spells .openBracket ['[']
  | closeBracket : Spells .closeBracket [']']
  | colon : Spells .colon [':']
  | comma : Spells .comma [',']
  | null : Spells .null ['n', 'u', 'l', 'l']
  | boolTrue : Spells (.bool true) ['t', 'r', 'u', 'e']
  | boolFalse : Spells (.bool false) ['f', 'a', 'l', 's', 'e']
  | number {spelling : List Char} (hnumeral : Numeral.IsNumeral spelling) :
      Spells (.number spelling) spelling
  | string {pieces : List Quoted.Piece} {chars : List Char}
      (hchars : Quoted.Spells pieces chars) :
      Spells (.string pieces) ('"' :: chars ++ ['"'])

def isNumber : Lexeme → Bool
  | .number _ => true
  | _ => false

theorem spells_of_read? {text rest : List Char} {lexeme : Lexeme}
    (hread : read? text = some (lexeme, rest)) :
    ∃ spelled, lexeme.Spells spelled ∧ text = spelled ++ rest := by
  unfold read? at hread
  split at hread
  case h_10 tail =>
    obtain ⟨⟨pieces, left⟩, hpieces, heq⟩ := Option.map_eq_some_iff.mp hread
    cases heq
    obtain ⟨chars, hchars, rfl⟩ := Quoted.spells_of_read? hpieces
    exact ⟨_, .string hchars, by simp⟩
  case h_11 =>
    obtain ⟨⟨spelling, left⟩, hspelling, heq⟩ :=
      Option.map_eq_some_iff.mp hread
    cases heq
    have htext := (Numeral.read?_append hspelling).1
    exact ⟨_, .number (Numeral.isNumeral_of_read? hspelling), htext.symm⟩
  all_goals
    cases hread
    exact ⟨_, by constructor, rfl⟩

/-- A character that may stand between two lexemes. -/
def Blank (c : Char) : Prop :=
  c = ' ' ∨ c = '\t' ∨ c = '\n' ∨ c = '\r'

instance (c : Char) : Decidable (Blank c) :=
  inferInstanceAs (Decidable (_ ∨ _))

theorem isBlank_iff (c : Char) : isBlank c = true ↔ Blank c := by
  simp [isBlank, Blank, or_assoc]

theorem Spells.exists_head {lexeme : Lexeme} {spelled : List Char}
    (hspells : lexeme.Spells spelled) :
    ∃ c tail, spelled = c :: tail ∧ ¬ Blank c ∧
      (lexeme.isNumber = false →
        c.isDigit = false ∧ c ≠ '.' ∧ c ≠ 'e' ∧ c ≠ 'E') := by
  cases hspells with
  | number hnumeral =>
      obtain ⟨c, tail, rfl, hc⟩ := hnumeral.exists_head
      refine ⟨c, tail, rfl, ?_, fun hnumber => by cases hnumber⟩
      rintro (rfl | rfl | rfl | rfl) <;> rcases hc with hc | hc <;> cases hc
  | _ => exact ⟨_, _, rfl, by decide, fun _ => by decide⟩

theorem read?_of_spells {lexeme : Lexeme} {spelled : List Char}
    (hspells : lexeme.Spells spelled) {rest : List Char}
    (hrest : lexeme.isNumber = true → Numeral.Ends rest) :
    read? (spelled ++ rest) = some (lexeme, rest) := by
  cases hspells with
  | number hnumeral =>
      have hread := Numeral.read?_of_isNumeral hnumeral (hrest rfl)
      obtain ⟨c, tail, rfl, hc⟩ := hnumeral.exists_head
      rw [read?, hread]
      · rfl
      -- Every other lexeme begins with another character.
      all_goals
        rintro left heq
        rw [List.cons_append, List.cons.injEq] at heq
        obtain ⟨rfl, -⟩ := heq
        rcases hc with hc | hc <;> cases hc
  | @string pieces chars hchars =>
      have hread := Quoted.read?_of_spells hchars rest
      simp [read?, hread]
  | _ => rfl

/-- The text consists of spellings of the lexemes in their order, with any
blanks around them. -/
inductive Spaced : List Lexeme → List Char → Prop
  | nil {blanks : List Char} (hblanks : ∀ c ∈ blanks, Blank c) :
      Spaced [] blanks
  | cons {blanks spelled rest : List Char} {lexeme : Lexeme}
      {lexemes : List Lexeme} (hblanks : ∀ c ∈ blanks, Blank c)
      (hspells : lexeme.Spells spelled) (hrest : Spaced lexemes rest) :
      Spaced (lexeme :: lexemes) (blanks ++ (spelled ++ rest))

theorem blank_of_mem_takeWhile {text : List Char} {c : Char}
    (hc : c ∈ text.takeWhile isBlank) : Blank c :=
  (isBlank_iff c).mp (List.mem_takeWhile_imp hc)

theorem dropWhile_blanks_append {blanks : List Char}
    (hblanks : ∀ c ∈ blanks, Blank c) (rest : List Char) :
    (blanks ++ rest).dropWhile isBlank = rest.dropWhile isBlank :=
  List.dropWhile_append_of_pos fun c hc => (isBlank_iff c).mpr (hblanks c hc)

theorem spaced_of_readAll? {text : List Char} {lexemes : List Lexeme}
    (hread : readAll? text = some lexemes) : Spaced lexemes text := by
  fun_induction readAll? text generalizing lexemes with
  | case1 text hdrop =>
      cases hread
      rw [← List.takeWhile_append_dropWhile (p := isBlank) (l := text), hdrop,
        List.append_nil]
      exact .nil fun _ => blank_of_mem_takeWhile
  | case2 => cases hread
  | case3 text c tail hdrop lexeme rest hlexeme ih =>
      obtain ⟨others, hothers, rfl⟩ := Option.map_eq_some_iff.mp hread
      obtain ⟨spelled, hspells, htext⟩ := spells_of_read? hlexeme
      rw [← List.takeWhile_append_dropWhile (p := isBlank) (l := text), hdrop,
        htext]
      exact .cons (fun _ => blank_of_mem_takeWhile) hspells (ih hothers)

theorem readAll?_of_blank {text : List Char}
    (hdrop : text.dropWhile isBlank = []) : readAll? text = some [] := by
  rw [readAll?]
  split
  · rfl
  · rename_i heq
    rw [hdrop] at heq
    cases heq

theorem readAll?_of_read? {text rest : List Char} {lexeme : Lexeme}
    (hread : read? (text.dropWhile isBlank) = some (lexeme, rest)) :
    readAll? text = (readAll? rest).map (lexeme :: ·) := by
  rw [readAll?]
  split
  · rename_i heq
    rw [heq] at hread
    cases hread
  · rename_i heq
    rw [heq] at hread
    split
    · rename_i hnone
      rw [hread] at hnone
      cases hnone
    · rename_i hsome
      rw [hread] at hsome
      cases hsome
      rfl

theorem readAll?_of_read?_eq_none {text : List Char} {c : Char}
    {tail : List Char} (hdrop : text.dropWhile isBlank = c :: tail)
    (hread : read? (c :: tail) = none) : readAll? text = none := by
  rw [readAll?]
  split
  · rename_i heq
    rw [hdrop] at heq
    cases heq
  · rename_i heq
    rw [hdrop] at heq
    cases heq
    split
    · rfl
    · rename_i hsome
      rw [hread] at hsome
      cases hsome

theorem readAll?_blanks_append {blanks : List Char}
    (hblanks : ∀ c ∈ blanks, Blank c) (rest : List Char) :
    readAll? (blanks ++ rest) = readAll? rest := by
  have hdrop := dropWhile_blanks_append hblanks rest
  cases hrest : rest.dropWhile isBlank with
  | nil => rw [readAll?_of_blank hrest, readAll?_of_blank (hdrop.trans hrest)]
  | cons c tail =>
      cases hread : read? (c :: tail) with
      | none =>
          rw [readAll?_of_read?_eq_none hrest hread,
            readAll?_of_read?_eq_none (hdrop.trans hrest) hread]
      | some found =>
          rw [← hrest] at hread
          rw [readAll?_of_read? hread, readAll?_of_read? (hdrop ▸ hread)]

/-- No two numbers are next to each other. -/
def Apart (lexemes : List Lexeme) : Prop :=
  lexemes.IsChain fun first second =>
    first.isNumber = true → second.isNumber = false

theorem ends_of_blanks {blanks : List Char}
    (hblanks : ∀ c ∈ blanks, Blank c) {rest : List Char}
    (hrest : Numeral.Ends rest) : Numeral.Ends (blanks ++ rest) := by
  cases blanks with
  | nil => exact hrest
  | cons c tail =>
      apply Numeral.Ends.of_cons
      rcases hblanks c List.mem_cons_self with rfl | rfl | rfl | rfl <;> decide

theorem Spaced.ends_append {lexemes : List Lexeme} {text rest : List Char}
    (hspaced : Spaced lexemes text)
    (hfirst : ∀ lexeme ∈ lexemes.head?, lexeme.isNumber = false)
    (hrest : lexemes = [] → Numeral.Ends rest) :
    Numeral.Ends (text ++ rest) := by
  cases hspaced with
  | nil hblanks => exact ends_of_blanks hblanks (hrest rfl)
  | cons hblanks hspells _ =>
      rw [List.append_assoc]
      apply ends_of_blanks hblanks
      obtain ⟨c, tail, rfl, -, hhead⟩ := hspells.exists_head
      exact .of_cons (hhead (hfirst _ rfl))

/-- The lexemes of a text are read off its front, whatever follows it; only a
number at its end must not be continued. -/
theorem Spaced.readAll?_append {lexemes : List Lexeme} {text rest : List Char}
    (hspaced : Spaced lexemes text) (hapart : Apart lexemes)
    (hlast : ∀ lexeme ∈ lexemes.getLast?, lexeme.isNumber = true →
      Numeral.Ends rest) :
    readAll? (text ++ rest) = (readAll? rest).map (lexemes ++ ·) := by
  induction hspaced with
  | nil hblanks => simp [readAll?_blanks_append hblanks]
  | @cons blanks spelled tail lexeme lexemes hblanks hspells hspaced ih =>
      rw [Apart, List.isChain_cons] at hapart
      -- No number follows a number, so what follows it does not continue it.
      have hends : lexeme.isNumber = true → Numeral.Ends (tail ++ rest) := by
        intro hnumber
        apply hspaced.ends_append
        · exact fun next hnext => hapart.1 next hnext hnumber
        · rintro rfl
          exact hlast lexeme rfl hnumber
      have hread := read?_of_spells hspells hends
      have hrest := ih hapart.2 fun last hmem => hlast last <| by
        rw [List.getLast?_cons, Option.mem_def.mp hmem]
        rfl
      have hdrop : (spelled ++ (tail ++ rest)).dropWhile isBlank =
          spelled ++ (tail ++ rest) := by
        obtain ⟨c, others, rfl, hc, -⟩ := hspells.exists_head
        rw [List.cons_append, List.dropWhile_cons_of_neg]
        rwa [isBlank_iff]
      rw [List.append_assoc, List.append_assoc,
        readAll?_blanks_append hblanks, readAll?_of_read? (hdrop.symm ▸ hread),
        hrest, Option.map_map]
      rfl

theorem readAll?_of_spaced {lexemes : List Lexeme} {text : List Char}
    (hspaced : Spaced lexemes text) (hapart : Apart lexemes) :
    readAll? text = some lexemes := by
  have hnil : readAll? [] = some [] := readAll?_of_blank rfl
  have hread := hspaced.readAll?_append hapart
    fun _ _ _ => Numeral.Ends.nil
  rw [List.append_nil, hnil] at hread
  simpa using hread

end Lexeme

end WebviewProxy
