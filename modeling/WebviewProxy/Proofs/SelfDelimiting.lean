import Mathlib.Data.List.Induction
import WebviewProxy.Proofs.OptionsLanguage

/-!
# Options end where their text ends

An array or an object shows by itself where it ends, since no lexeme can follow
the closing bracket.  So what is added to a text of options spoils it unless it
is blank, and so does what is taken away from its end.  This is seen on the
lexemes: they are read off the front of a longer text one by one, the state after
them accepts no further one, and no lexeme ends in a blank.
-/

namespace WebviewProxy

/-! ## Blanks behind a text -/

namespace Numeral

theorem IsNumeral.char_cases {numeral : List Char}
    (hnumeral : IsNumeral numeral) {c : Char} (hc : c ∈ numeral) :
    c.isDigit = true ∨ c ∈ ['-', '+', '.', 'e', 'E'] := by
  cases hnumeral with
  | parts hsign hwhole hfraction hexponent =>
      simp only [List.mem_append] at hc
      rcases hc with ((hc | hc) | hc) | hc
      · rcases hsign with rfl | rfl
        · cases hc
        · rw [List.mem_singleton.mp hc]
          decide
      · cases hwhole with
        | zero =>
            rw [List.mem_singleton.mp hc]
            decide
        | positive hdigits _ => exact .inl (hdigits.isDigit c hc)
      · cases hfraction with
        | absent => cases hc
        | present hdigits =>
            rcases List.mem_cons.mp hc with rfl | hdigit
            · decide
            · exact .inl (hdigits.isDigit c hdigit)
      · cases hexponent with
        | absent => cases hc
        | present hmark hsign hdigits =>
            simp only [List.cons_append, List.mem_cons, List.mem_append] at hc
            rcases hc with rfl | hc | hc
            · rcases hmark with rfl | rfl <;> decide
            · rcases hsign with rfl | rfl | rfl
              · cases hc
              · rw [List.mem_singleton.mp hc]
                decide
              · rw [List.mem_singleton.mp hc]
                decide
            · exact .inl (hdigits.isDigit c hc)

end Numeral

namespace Lexeme

theorem Spells.last_not_blank {lexeme : Lexeme} {spelled : List Char}
    (hspells : lexeme.Spells spelled) :
    ∃ front c, spelled = front ++ [c] ∧ ¬ Blank c := by
  cases hspells with
  | number hnumeral =>
      rcases List.eq_nil_or_concat spelled with rfl | ⟨front, c, rfl⟩
      · obtain ⟨c, tail, hcons, -⟩ := hnumeral.exists_head
        cases hcons
      · rw [List.concat_eq_append] at hnumeral ⊢
        refine ⟨front, c, rfl, ?_⟩
        have hc := hnumeral.char_cases (by simp : c ∈ front ++ [c])
        rintro (rfl | rfl | rfl | rfl) <;> simp at hc
  | @string pieces chars hchars => exact ⟨'"' :: chars, '"', rfl, by decide⟩
  | null => exact ⟨['n', 'u', 'l'], _, rfl, by decide⟩
  | boolTrue => exact ⟨['t', 'r', 'u'], _, rfl, by decide⟩
  | boolFalse => exact ⟨['f', 'a', 'l', 's'], _, rfl, by decide⟩
  | _ => exact ⟨[], _, rfl, by decide⟩

theorem Spaced.of_append_singleton {lexemes : List Lexeme} {text : List Char}
    {c : Char} (hspaced : Spaced lexemes (text ++ [c]))
    (hc : Blank c) : Spaced lexemes text := by
  generalize hwhole : text ++ [c] = whole at hspaced
  induction hspaced generalizing text with
  | nil hblanks =>
      subst hwhole
      exact .nil fun other hother => hblanks other (by simp [hother])
  | @cons blanks spelled rest lexeme lexemes hblanks hspells hrest ih =>
      rcases List.eq_nil_or_concat rest with rfl | ⟨front, last, rfl⟩
      · -- A blank cannot be the last character of the lexeme.
        obtain ⟨front, last, rfl, hlast⟩ := hspells.last_not_blank
        rw [List.append_nil, ← List.append_assoc] at hwhole
        obtain ⟨-, hsame⟩ := List.append_inj' hwhole rfl
        rw [List.singleton_inj.mp hsame] at hc
        exact absurd hc hlast
      · rw [List.concat_eq_append, ← List.append_assoc,
          ← List.append_assoc] at hwhole
        obtain ⟨rfl, hsame⟩ := List.append_inj' hwhole rfl
        rw [List.append_assoc]
        apply Spaced.cons hblanks hspells
        apply ih
        rw [hsame, List.concat_eq_append]

theorem Spaced.of_append_blanks {lexemes : List Lexeme}
    {text blanks : List Char} (hspaced : Spaced lexemes (text ++ blanks))
    (hblanks : ∀ c ∈ blanks, Blank c) : Spaced lexemes text := by
  induction blanks using List.reverseRecOn with
  | nil => rwa [List.append_nil] at hspaced
  | append_singleton blanks c ih =>
      rw [← List.append_assoc] at hspaced
      apply ih
      · exact hspaced.of_append_singleton (hblanks c (by simp))
      · exact fun other hother => hblanks other (by simp [hother])

end Lexeme

/-! ## Text behind a value -/

namespace RawJson

/-- The value shows by its last lexeme where its text ends. -/
def IsClosed (value : RawJson) : Prop :=
  ∀ lexeme ∈ value.lexemes.getLast?, lexeme.isNumber = false

theorem isClosed_array (items : List RawJson) : (array items).IsClosed := by
  intro lexeme hlast
  rw [lexemes_array, ← List.cons_append, List.getLast?_concat] at hlast
  cases hlast
  rfl

theorem isClosed_object (members : List (Key × RawJson)) :
    (object members).IsClosed := by
  intro lexeme hlast
  rw [lexemes_object, ← List.cons_append, List.getLast?_concat] at hlast
  cases hlast
  rfl

/-- No lexeme follows those of a value. -/
theorem ofLexemes?_append (value : RawJson) (rest : List Lexeme) :
    ofLexemes? (value.lexemes ++ rest) =
      if rest = [] then some value else none := by
  cases rest with
  | nil =>
      rw [List.append_nil, if_pos rfl, ofLexemes?_eq_some_iff]
  | cons lexeme others =>
      have hstep : step? (.after value, []) lexeme = none := by
        simp [step?, resume?]
      have hrun := run?_append (reads value []) (lexeme :: others)
      rw [run?_cons, hstep, Option.bind_none, run?] at hrun
      rw [ofLexemes?, hrun, if_neg (List.cons_ne_nil _ _)]

theorem readAll?_eq_some_nil_iff (text : List Char) :
    Lexeme.readAll? text = some [] ↔ ∀ c ∈ text, Lexeme.Blank c := by
  constructor
  · intro hread
    cases Lexeme.spaced_of_readAll? hread with
    | nil hblanks => exact hblanks
  · intro hblanks
    exact Lexeme.readAll?_of_spaced (.nil hblanks) List.isChain_nil

theorem ofText?_append_eq_some_iff {text : String} {value : RawJson}
    (hvalue : ofText? text = some value) (hclosed : value.IsClosed)
    (tail : String) (other : RawJson) :
    ofText? (text ++ tail) = some other ↔
      other = value ∧ ∀ c ∈ tail.toList, Lexeme.Blank c := by
  have hspaced := (ofText?_eq_some_iff text value).mp hvalue
  have hlast : ∀ lexeme ∈ value.lexemes.getLast?, lexeme.isNumber = true →
      Numeral.Ends tail.toList := by
    intro lexeme hmem hnumber
    rw [hclosed lexeme hmem] at hnumber
    cases hnumber
  have hread := hspaced.readAll?_append (apart_lexemes value) hlast
  rw [ofText?, String.toList_append, hread, ← readAll?_eq_some_nil_iff]
  cases Lexeme.readAll? tail.toList with
  | none => simp
  | some rest =>
      rw [Option.map_some, Option.bind_some, ofLexemes?_append]
      by_cases hrest : rest = []
      · simp [hrest, eq_comm]
      · simp [hrest]

theorem ofText?_of_append_blanks {text blanks : String} {value : RawJson}
    (hvalue : ofText? (text ++ blanks) = some value)
    (hblanks : ∀ c ∈ blanks.toList, Lexeme.Blank c) :
    ofText? text = some value := by
  rw [ofText?_eq_some_iff, String.toList_append] at hvalue
  rw [ofText?_eq_some_iff]
  exact hvalue.of_append_blanks hblanks

end RawJson

/-! ## Text behind options -/

namespace Options

theorem isClosed_of_ofRaw? {value : RawJson} {options : Options}
    (hoptions : ofRaw? value = some options) : value.IsClosed := by
  cases (ofRaw?_eq_some_iff value options).mp hoptions with
  | object => exact RawJson.isClosed_object _
  | array => exact RawJson.isClosed_array _

/-- Text that consists of nothing but white space. -/
def Blank (text : String) : Prop :=
  ∀ c ∈ text.toList, c = ' ' ∨ c = '\t' ∨ c = '\n' ∨ c = '\r'

theorem blank_iff (text : String) :
    Blank text ↔ ∀ c ∈ text.toList, Lexeme.Blank c :=
  Iff.rfl

theorem ofText?_append_eq_some_iff {text : String} {options : Options}
    (hoptions : ofText? text = some options) (tail : String)
    (other : Options) :
    ofText? (text ++ tail) = some other ↔ other = options ∧ Blank tail := by
  obtain ⟨value, hvalue, hraw⟩ := Option.bind_eq_some_iff.mp hoptions
  have hclosed := isClosed_of_ofRaw? hraw
  rw [ofText?, Option.bind_eq_some_iff]
  simp only [RawJson.ofText?_append_eq_some_iff hvalue hclosed, ← blank_iff]
  constructor
  · rintro ⟨_, ⟨rfl, hblank⟩, hother⟩
    rw [hraw, Option.some.injEq] at hother
    exact ⟨hother.symm, hblank⟩
  · rintro ⟨rfl, hblank⟩
    exact ⟨value, ⟨rfl, hblank⟩, hraw⟩

/-- Cutting off the end of a text of options leaves such a text exactly when
the end is blank. -/
theorem ofText?_front_eq_some_iff {front lost : String} {options : Options}
    (hoptions : ofText? (front ++ lost) = some options) (other : Options) :
    ofText? front = some other ↔ other = options ∧ Blank lost := by
  constructor
  · intro hfront
    rw [ofText?_append_eq_some_iff hfront] at hoptions
    exact ⟨hoptions.1.symm, hoptions.2⟩
  · rintro ⟨rfl, hblank⟩
    obtain ⟨value, hvalue, hraw⟩ := Option.bind_eq_some_iff.mp hoptions
    have hfront := RawJson.ofText?_of_append_blanks hvalue
      ((blank_iff lost).mp hblank)
    rw [ofText?, hfront, Option.bind_some, hraw]

/-! ## What a host is told -/

theorem host_of_ofText?_eq_some {text : String} {options : Options}
    (hoptions : ofText? text = some options) :
    ofHost (some text) = options ∧ warnings (some text) = [] := by
  simp [ofHost, warnings, hoptions]

theorem host_of_ofText?_eq_none {text : String}
    (hnone : ofText? text = none) :
    ofHost (some text) = {} ∧ warnings (some text) = [.malformedOptions] := by
  simp [ofHost, warnings, hnone]

theorem exists_of_warnings_eq_nil {text : String}
    (haccepted : warnings (some text) = []) :
    ∃ options, ofText? text = some options := by
  cases hoptions : ofText? text with
  | some options => exact ⟨options, rfl⟩
  | none =>
      rw [(host_of_ofText?_eq_none hoptions).2] at haccepted
      cases haccepted

/-- How a host takes `other`, which goes on or stops short of the end of `text`
by `between`: white space makes no difference, and everything else leaves no
options at all. -/
structure TakenAlike (text other between : String) : Prop where
  accepted_iff : warnings (some other) = [] ↔ Blank between
  same : Blank between → ofHost (some other) = ofHost (some text)
  spoiled : ¬ Blank between → ofHost (some other) = {} ∧
    warnings (some other) = [.malformedOptions]

theorem takenAlike_of_iff {text other between : String} {options : Options}
    (hoptions : ofText? text = some options)
    (hother : ∀ found, ofText? other = some found ↔
      found = options ∧ Blank between) : TakenAlike text other between := by
  have hsame : Blank between → ofHost (some other) = ofHost (some text) ∧
      warnings (some other) = [] := by
    intro hblank
    rw [(host_of_ofText?_eq_some hoptions).1]
    exact host_of_ofText?_eq_some ((hother options).mpr ⟨rfl, hblank⟩)
  refine ⟨⟨fun haccepted => ?_, fun hblank => (hsame hblank).2⟩,
    fun hblank => (hsame hblank).1, fun hblank => ?_⟩
  · obtain ⟨found, hfound⟩ := exists_of_warnings_eq_nil haccepted
    exact ((hother found).mp hfound).2
  · apply host_of_ofText?_eq_none
    rw [Option.eq_none_iff_forall_ne_some]
    intro found hfound
    exact hblank ((hother found).mp hfound).2

/-- A text of options goes on with nothing but white space, and nothing but
white space can be cut off its end.  With anything else more or less there are
no options, and the host is told so once. -/
theorem options_self_delimiting (raw : String)
    (haccepted : warnings (some raw) = []) :
    (∀ tail : String, TakenAlike raw (raw ++ tail) tail) ∧
    ∀ front lost : String, raw = front ++ lost →
      TakenAlike raw front lost := by
  obtain ⟨options, hoptions⟩ := exists_of_warnings_eq_nil haccepted
  constructor
  · intro tail
    exact takenAlike_of_iff hoptions (ofText?_append_eq_some_iff hoptions tail)
  · rintro front lost rfl
    exact takenAlike_of_iff hoptions (ofText?_front_eq_some_iff hoptions)

/-- An object with a line break behind it, followed by blanks, and cut off
inside the string. -/
theorem options_self_delimiting_platform :
    warnings (some "\x7b\"platform\": \"ios\"\x7d\n") = [] ∧
    warnings (some ("\x7b\"platform\": \"ios\"\x7d\n" ++ " \t")) = [] ∧
    ofHost (some "\x7b\"platform\": \"io") = {} ∧
    warnings (some "\x7b\"platform\": \"io") = [.malformedOptions] := by
  have haccepted :
      warnings (some "\x7b\"platform\": \"ios\"\x7d\n") = [] := by
    decide +kernel
  obtain ⟨hlonger, hshorter⟩ := options_self_delimiting _ haccepted
  have hcut := hshorter "\x7b\"platform\": \"io" "s\"\x7d\n" rfl
  exact ⟨haccepted, (hlonger " \t").accepted_iff.mpr (by simp [Blank]),
    hcut.spoiled (by simp [Blank])⟩

end Options

end WebviewProxy
