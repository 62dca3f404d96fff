import Mathlib.Data.String.Basic
import WebviewProxy.Proofs.Surface

/-!
# What counts as the directive

A program carries the directive when a run of string literals at its start
leads up to one that spells it.  A literal that was written down spells it when
its source text is the directive between two characters of one byte each: the
bytes at the ends are cut off, and a cut inside a character leaves nothing.
What comes behind the literal, the values of written literals, and whether the
program is a module or a script do not matter.
-/

namespace WebviewProxy

/-! ## Slices -/

namespace Slice

theorem split_of_drop? {count : Nat} {chars rest : List Char}
    (hdrop : drop? count chars = some rest) :
    ∃ front, chars = front ++ rest ∧ String.utf8Len front = count := by
  fun_induction drop? count chars with
  | case1 chars =>
      cases hdrop
      exact ⟨[], rfl, rfl⟩
  | case2 count => cases hdrop
  | case3 count c chars hfits ih =>
      obtain ⟨front, rfl, hfront⟩ := ih hdrop
      refine ⟨c :: front, rfl, ?_⟩
      rw [String.utf8Len_cons, hfront]
      exact Nat.sub_add_cancel hfits
  | case4 count c chars hfits => cases hdrop

theorem split_of_take? {count : Nat} {chars front : List Char}
    (htake : take? count chars = some front) :
    ∃ rest, chars = front ++ rest ∧ String.utf8Len front = count := by
  fun_induction take? count chars generalizing front with
  | case1 chars =>
      cases htake
      exact ⟨chars, rfl, rfl⟩
  | case2 count => cases htake
  | case3 count c chars hfits ih =>
      obtain ⟨others, hothers, rfl⟩ := Option.map_eq_some_iff.mp htake
      obtain ⟨rest, rfl, hcount⟩ := ih hothers
      refine ⟨rest, rfl, ?_⟩
      rw [String.utf8Len_cons, hcount]
      exact Nat.sub_add_cancel hfits
  | case4 count c chars hfits => cases htake

theorem drop?_append (front rest : List Char) :
    drop? (String.utf8Len front) (front ++ rest) = some rest := by
  induction front with
  | nil => rw [String.utf8Len_nil, List.nil_append, drop?]
  | cons c front ih =>
      have hpos : 0 < String.utf8Len front + c.utf8Size :=
        Nat.add_pos_right _ c.utf8Size_pos
      rw [String.utf8Len_cons, List.cons_append]
      obtain ⟨count, hcount⟩ := Nat.exists_eq_add_one.mpr hpos
      rw [hcount, drop?, ← hcount, if_pos (Nat.le_add_left _ _),
        Nat.add_sub_cancel, ih]

theorem take?_append (front rest : List Char) :
    take? (String.utf8Len front) (front ++ rest) = some front := by
  induction front with
  | nil => rw [String.utf8Len_nil, take?]
  | cons c front ih =>
      have hpos : 0 < String.utf8Len front + c.utf8Size :=
        Nat.add_pos_right _ c.utf8Size_pos
      rw [String.utf8Len_cons, List.cons_append]
      obtain ⟨count, hcount⟩ := Nat.exists_eq_add_one.mpr hpos
      rw [hcount, take?, ← hcount, if_pos (Nat.le_add_left _ _),
        Nat.add_sub_cancel, ih]
      rfl

/-- A slice is what stands between two texts of the right lengths. -/
theorem slice?_eq_some_iff (start stop : Nat) (chars middle : List Char) :
    slice? start stop chars = some middle ↔
      ∃ front back, chars = front ++ (middle ++ back) ∧
        String.utf8Len front = start ∧
        start + String.utf8Len middle = stop := by
  unfold slice?
  constructor
  · intro hslice
    split at hslice
    next hle =>
      obtain ⟨rest, hrest, hmiddle⟩ := Option.bind_eq_some_iff.mp hslice
      obtain ⟨front, rfl, hfront⟩ := split_of_drop? hrest
      obtain ⟨back, rfl, hlength⟩ := split_of_take? hmiddle
      refine ⟨front, back, rfl, hfront, ?_⟩
      rw [hlength]
      exact Nat.add_sub_cancel' hle
    next => cases hslice
  · rintro ⟨front, back, rfl, rfl, rfl⟩
    rw [if_pos (Nat.le_add_right _ _), drop?_append, Option.bind_some,
      Nat.add_sub_cancel_left, take?_append]

theorem utf8Len_eq_one_iff (chars : List Char) :
    String.utf8Len chars = 1 ↔ ∃ c : Char, chars = [c] ∧ c.toNat < 128 := by
  constructor
  · intro hone
    cases chars with
    | nil => cases hone
    | cons c rest =>
        have hc := c.utf8Size_pos
        rw [String.utf8Len_cons] at hone
        have hrest : rest = [] := String.utf8Len_eq_zero.mp (by omega)
        have hsize : c.utf8Size = 1 := by omega
        refine ⟨c, by rw [hrest], ?_⟩
        have hval := Char.utf8Size_eq_one_iff.mp hsize
        rw [UInt32.le_iff_toNat_le] at hval
        exact Nat.lt_succ_of_le hval
  · rintro ⟨c, rfl, hascii⟩
    rw [String.utf8Len_cons, String.utf8Len_nil, Nat.zero_add,
      Char.utf8Size_eq_one_iff, UInt32.le_iff_toNat_le]
    exact Nat.le_of_lt_succ hascii

/-- Without the byte at either end, a text is what stands between two
characters of one byte. -/
theorem slice?_ends_eq_some_iff (text : String) (middle : List Char) :
    slice? 1 (text.utf8ByteSize - 1) text.toList = some middle ↔
      ∃ first last : Char, first.toNat < 128 ∧ last.toNat < 128 ∧
        text.toList = first :: (middle ++ [last]) := by
  rw [slice?_eq_some_iff, ← String.utf8Len_toList]
  constructor
  · rintro ⟨front, back, hsplit, hfront, hmiddle⟩
    have hback : String.utf8Len back = 1 := by
      rw [hsplit, String.utf8Len_append, String.utf8Len_append] at hmiddle
      omega
    obtain ⟨first, rfl, hfirst⟩ := (utf8Len_eq_one_iff front).mp hfront
    obtain ⟨last, rfl, hlast⟩ := (utf8Len_eq_one_iff back).mp hback
    exact ⟨first, last, hfirst, hlast, hsplit⟩
  · rintro ⟨first, last, hfirst, hlast, hsplit⟩
    have hfront : String.utf8Len [first] = 1 :=
      (utf8Len_eq_one_iff _).mpr ⟨first, rfl, hfirst⟩
    have hback : String.utf8Len [last] = 1 :=
      (utf8Len_eq_one_iff _).mpr ⟨last, rfl, hlast⟩
    refine ⟨[first], [last], hsplit, hfront, ?_⟩
    rw [hsplit, ← List.singleton_append, String.utf8Len_append,
      String.utf8Len_append, hfront, hback]
    omega

end Slice

/-! ## Literals that spell a directive -/

namespace Directive

/-- The item is an expression statement that is directly a string literal. -/
def IsLiteral (value : String) (raw : Option String) (item : Tree) : Prop :=
  ∃ outer inner, item = .statement outer (.string inner value raw)

/-- A literal spells the directive by its value when it was never written, and
otherwise by its source text between two ASCII characters. -/
inductive Spells (directive : String) : String → Option String → Prop
  | unwritten : Spells directive directive none
  | written (value : String) {first last : Char}
      (hfirst : first.toNat < 128) (hlast : last.toNat < 128) :
      Spells directive value
        (some (String.ofList (first :: (directive.toList ++ [last]))))

/-- The items up to `index` are string literals, and the last of them spells
the directive. -/
structure MarkedAt (items : List Tree) (index : Nat) : Prop where
  literals : ∀ i ≤ index, ∃ item value raw,
    items[i]? = some item ∧ IsLiteral value raw item
  spells : ∃ item value raw, items[index]? = some item ∧
    IsLiteral value raw item ∧ Spells useDom value raw

/-- The items are the same but for spans and values of written literals. -/
inductive SameSource : Tree → Tree → Prop
  | refl (item : Tree) : SameSource item item
  | written (outer inner outer' inner' : Span) (value value' raw : String) :
      SameSource (.statement outer (.string inner value (some raw)))
        (.statement outer' (.string inner' value' (some raw)))

theorem text_eq_iff_spells {directive : String} (hdirective : directive ≠ "")
    (value : String) (raw : Option String) :
    text value raw = directive ↔ Spells directive value raw := by
  cases raw with
  | none =>
      constructor
      · rintro rfl
        exact .unwritten
      · intro hspells
        cases hspells
        rfl
  | some raw =>
      have hslice : text value (some raw) = directive ↔
          Slice.slice? 1 (raw.utf8ByteSize - 1) raw.toList =
            some directive.toList := by
        have htext : text value (some raw) = String.ofList
            ((Slice.slice? 1 (raw.utf8ByteSize - 1) raw.toList).getD []) :=
          rfl
        rw [htext, ← String.toList_inj, String.toList_ofList]
        cases Slice.slice? 1 (raw.utf8ByteSize - 1) raw.toList with
        | none =>
            have hnonempty : directive.toList ≠ [] := by
              simpa using hdirective
            simpa using hnonempty.symm
        | some middle => simp
      rw [hslice, Slice.slice?_ends_eq_some_iff]
      constructor
      · rintro ⟨first, last, hfirst, hlast, hraw⟩
        have htext : Spells directive value
            (some (String.ofList (first :: (directive.toList ++ [last])))) :=
          .written value hfirst hlast
        rwa [← hraw, String.ofList_toList] at htext
      · intro hspells
        cases hspells with
        | @written _ first last hfirst hlast =>
            exact ⟨first, last, hfirst, hlast, String.toList_ofList⟩

theorem ofItem?_eq_some_iff (item : Tree) (spelled : String) :
    ofItem? item = some spelled ↔
      ∃ value raw, IsLiteral value raw item ∧ text value raw = spelled := by
  constructor
  · intro hitem
    unfold ofItem? at hitem
    split at hitem
    next outer inner value raw =>
      cases hitem
      exact ⟨value, raw, ⟨outer, inner, rfl⟩, rfl⟩
    next => cases hitem
  · rintro ⟨value, raw, ⟨outer, inner, rfl⟩, rfl⟩
    rfl

/-- Where a program begins with a literal, either this one or a later one
decides. -/
theorem markedAt_cons_iff {item : Tree} {value : String} {raw : Option String}
    (hitem : IsLiteral value raw item) (rest : List Tree) (index : Nat) :
    MarkedAt (item :: rest) index ↔
      index = 0 ∧ Spells useDom value raw ∨
        ∃ next, index = next + 1 ∧ MarkedAt rest next := by
  constructor
  · rintro ⟨hliterals, other, value', raw', hother, hliteral, hspells⟩
    cases index with
    | zero =>
        obtain ⟨outer, inner, rfl⟩ := hitem
        obtain ⟨outer', inner', rfl⟩ := hliteral
        simp only [List.getElem?_cons_zero, Option.some.injEq,
          Tree.statement.injEq, Tree.string.injEq] at hother
        obtain ⟨-, -, rfl, rfl⟩ := hother
        exact .inl ⟨rfl, hspells⟩
    | succ next =>
        refine .inr ⟨next, rfl, ?_, other, value', raw', hother, hliteral,
          hspells⟩
        intro i hi
        exact hliterals (i + 1) (Nat.succ_le_succ hi)
  · rintro (⟨rfl, hspells⟩ | ⟨next, rfl, hliterals, hspells⟩)
    · refine ⟨?_, item, value, raw, rfl, hitem, hspells⟩
      intro i hi
      cases Nat.le_zero.mp hi
      exact ⟨item, value, raw, rfl, hitem⟩
    · refine ⟨?_, hspells⟩
      intro i hi
      cases i with
      | zero => exact ⟨item, value, raw, rfl, hitem⟩
      | succ i => exact hliterals i (Nat.le_of_succ_le_succ hi)

theorem occursIn_iff_exists_markedAt (items : List Tree) :
    occursIn useDom items = true ↔ ∃ index, MarkedAt items index := by
  induction items with
  | nil =>
      simp only [occursIn, Bool.false_eq_true, false_iff]
      rintro ⟨index, -, item, value, raw, hitem, -⟩
      cases hitem
  | cons item rest ih =>
      rw [occursIn]
      cases hitem : ofItem? item with
      | none =>
          simp only [Bool.false_eq_true, false_iff]
          rintro ⟨index, hliterals, -⟩
          obtain ⟨first, value, raw, hfirst, hliteral⟩ :=
            hliterals 0 (Nat.zero_le index)
          cases hfirst
          have hsome := (ofItem?_eq_some_iff item _).mpr
            ⟨value, raw, hliteral, rfl⟩
          rw [hitem] at hsome
          cases hsome
      | some spelled =>
          obtain ⟨value, raw, hliteral, rfl⟩ :=
            (ofItem?_eq_some_iff item spelled).mp hitem
          simp only [Bool.or_eq_true, decide_eq_true_eq, ih,
            text_eq_iff_spells (by decide : useDom ≠ ""),
            markedAt_cons_iff hliteral]
          constructor
          · rintro (hspells | ⟨next, hnext⟩)
            · exact ⟨0, .inl ⟨rfl, hspells⟩⟩
            · exact ⟨next + 1, .inr ⟨next, rfl, hnext⟩⟩
          · rintro ⟨index, ⟨-, hspells⟩ | ⟨next, -, hnext⟩⟩
            · exact .inl hspells
            · exact .inr ⟨next, hnext⟩

theorem MarkedAt.take_append {items : List Tree} {index : Nat}
    (hmarked : MarkedAt items index) (tail : List Tree) :
    MarkedAt (items.take (index + 1) ++ tail) index := by
  have hkept : ∀ i ≤ index, ∀ item, items[i]? = some item →
      (items.take (index + 1) ++ tail)[i]? = some item := by
    intro i hi item hitem
    have htake : (items.take (index + 1))[i]? = some item := by
      rw [List.getElem?_take_of_lt (Nat.lt_succ_of_le hi)]
      exact hitem
    obtain ⟨hlt, -⟩ := List.getElem?_eq_some_iff.mp htake
    rw [List.getElem?_append_left hlt]
    exact htake
  constructor
  · intro i hi
    obtain ⟨item, value, raw, hitem, hliteral⟩ := hmarked.literals i hi
    exact ⟨item, value, raw, hkept i hi item hitem, hliteral⟩
  · obtain ⟨item, value, raw, hitem, hliteral⟩ := hmarked.spells
    exact ⟨item, value, raw, hkept index le_rfl item hitem, hliteral⟩

theorem SameSource.ofItem?_eq {item other : Tree}
    (hsame : SameSource item other) : ofItem? item = ofItem? other := by
  cases hsame with
  | refl => rfl
  | written outer inner outer' inner' value value' raw => rfl

theorem occursIn_congr {items others : List Tree}
    (hsame : List.Forall₂ SameSource items others) (directive : String) :
    occursIn directive items = occursIn directive others := by
  induction hsame with
  | nil => rfl
  | cons hitem _ ih => rw [occursIn, occursIn, hitem.ofItem?_eq, ih]

end Directive

namespace Program

open Directive

/-- A program carries the directive exactly when some index ends a run of
string literals in a literal that spells it.  Nothing behind that index
matters, no value and no span of a written literal does, and a script is judged
like the module with the same statements. -/
theorem hasDirective_iff_exists_markedAt :
    (∀ program : Program, program.hasDirective = true ↔
      ∃ index, MarkedAt program.body index) ∧
    (∀ (program : Program) (index : Nat) (tail : List Tree),
      MarkedAt program.body index →
        ({ program with body := program.body.take (index + 1) ++ tail } :
          Program).hasDirective = true) ∧
    (∀ program other : Program,
      List.Forall₂ SameSource program.body other.body →
        program.hasDirective = other.hasDirective) ∧
    ∀ (program : Program) (sourceType : SourceType),
      ({ program with sourceType } : Program).hasDirective =
        program.hasDirective := by
  refine ⟨?_, ?_, ?_, ?_⟩
  · intro program
    exact occursIn_iff_exists_markedAt program.body
  · intro program index tail hmarked
    unfold hasDirective
    rw [occursIn_iff_exists_markedAt]
    exact ⟨index, hmarked.take_append tail⟩
  · intro program other hsame
    exact occursIn_congr hsame useDom
  · intro program sourceType
    rfl

/-- A script with another directive in front and with quotes that do not
match. -/
def secondDirective (value : String) : Program where
  sourceType := .script
  span := ⟨1, 100⟩
  body := [.statement .zero (.string .zero "use strict" none),
    .statement .zero (.string .zero value (some "\"use dom'")),
    .node (some "EmptyStatement") []]
  interpreter := none

theorem hasDirective_secondDirective :
    MarkedAt (secondDirective "use dom").body 1 ∧
    (secondDirective "use dom").hasDirective = true ∧
    ({ secondDirective "use dom" with
      body := (secondDirective "use dom").body.take 2 ++ [] } :
        Program).hasDirective = true ∧
    List.Forall₂ SameSource (secondDirective "use dom").body
      (secondDirective "other").body ∧
    (secondDirective "use dom").hasDirective =
      (secondDirective "other").hasDirective := by
  obtain ⟨hiff, htail, hvalue, -⟩ := hasDirective_iff_exists_markedAt
  have hmarked : MarkedAt (secondDirective "use dom").body 1 := by
    have hspells : Spells useDom "use dom" (some "\"use dom'") :=
      .written "use dom" (by decide : ('"').toNat < 128)
        (by decide : ('\'').toNat < 128)
    refine ⟨?_, _, _, _, rfl, ⟨_, _, rfl⟩, hspells⟩
    intro i hi
    rcases Nat.le_one_iff_eq_zero_or_eq_one.mp hi with rfl | rfl
    · exact ⟨_, _, _, rfl, _, _, rfl⟩
    · exact ⟨_, _, _, rfl, _, _, rfl⟩
  have hsame : List.Forall₂ SameSource (secondDirective "use dom").body
      (secondDirective "other").body :=
    .cons (.refl _) (.cons (.written _ _ _ _ _ _ _) (.cons (.refl _) .nil))
  exact ⟨hmarked, (hiff _).mpr ⟨1, hmarked⟩, htail _ 1 [] hmarked, hsame,
    hvalue _ _ hsame⟩

end Program

end WebviewProxy
