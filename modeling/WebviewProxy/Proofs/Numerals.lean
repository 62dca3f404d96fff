import WebviewProxy.Json.Numeral

/-!
# The grammar of numerals

A numeral is an optional minus sign, whole digits without a leading zero, an
optional fraction and an optional exponent.  The reader takes nothing else off
the front of a text, and it takes a numeral in full when the text behind it
begins with nothing that continues a numeral.
-/

namespace WebviewProxy.Numeral

structure IsDigits (text : List Char) : Prop where
  ne_nil : text ≠ []
  isDigit : ∀ c ∈ text, c.isDigit = true

inductive IsWhole : List Char → Prop
  | zero : IsWhole ['0']
  | positive {digits : List Char} (hdigits : IsDigits digits)
      (hhead : digits.head? ≠ some '0') : IsWhole digits

inductive IsFraction : List Char → Prop
  | absent : IsFraction []
  | present {digits : List Char} (hdigits : IsDigits digits) :
      IsFraction ('.' :: digits)

inductive IsExponent : List Char → Prop
  | absent : IsExponent []
  | present {mark : Char} {sign digits : List Char}
      (hmark : mark = 'e' ∨ mark = 'E')
      (hsign : sign = [] ∨ sign = ['+'] ∨ sign = ['-'])
      (hdigits : IsDigits digits) : IsExponent (mark :: sign ++ digits)

inductive IsNumeral : List Char → Prop
  | parts {sign whole fraction exponent : List Char}
      (hsign : sign = [] ∨ sign = ['-']) (hwhole : IsWhole whole)
      (hfraction : IsFraction fraction) (hexponent : IsExponent exponent) :
      IsNumeral (sign ++ whole ++ fraction ++ exponent)

def NoDigit (text : List Char) : Prop :=
  ∀ c ∈ text.head?, c.isDigit = false

/-- No numeral can be continued into the text. -/
structure Ends (text : List Char) : Prop where
  noDigit : NoDigit text
  noPoint : '.' ∉ text.head?
  noMark : ∀ c ∈ text.head?, ¬ (c = 'e' ∨ c = 'E')

theorem Ends.nil : Ends [] :=
  ⟨nofun, nofun, nofun⟩

theorem Ends.of_cons {c : Char} {rest : List Char}
    (hc : c.isDigit = false ∧ c ≠ '.' ∧ c ≠ 'e' ∧ c ≠ 'E') :
    Ends (c :: rest) := by
  obtain ⟨hdigit, hpoint, hsmall, hcapital⟩ := hc
  refine ⟨?_, ?_, ?_⟩
  · rintro _ ⟨⟩
    exact hdigit
  · rintro ⟨⟩
    exact hpoint rfl
  · rintro _ ⟨⟩
    exact not_or.mpr ⟨hsmall, hcapital⟩

theorem takeWhile_of_digits? {text taken rest : List Char}
    (hread : digits? text = some (taken, rest)) :
    text.takeWhile Char.isDigit = taken ∧ taken ≠ [] := by
  by_cases hnil : text.takeWhile Char.isDigit = []
  · simp [digits?, hnil] at hread
  · rw [digits?, if_neg hnil] at hread
    cases hread
    exact ⟨rfl, hnil⟩

theorem isDigits_of_digits? {text taken rest : List Char}
    (hread : digits? text = some (taken, rest)) : IsDigits taken := by
  obtain ⟨rfl, hne⟩ := takeWhile_of_digits? hread
  exact ⟨hne, List.all_eq_true.mp List.all_takeWhile⟩

theorem digits?_of_isDigits {digits rest : List Char}
    (hdigits : IsDigits digits) (hrest : NoDigit rest) :
    digits? (digits ++ rest) = some (digits, rest) := by
  have hstop : rest.takeWhile Char.isDigit = [] ∧
      rest.dropWhile Char.isDigit = rest := by
    cases rest with
    | nil => exact ⟨rfl, rfl⟩
    | cons c tail =>
        have hc := hrest c rfl
        simp [hc]
  rw [digits?, List.takeWhile_append_of_pos hdigits.isDigit, hstop.1,
    List.append_nil, if_neg hdigits.ne_nil,
    List.dropWhile_append_of_pos hdigits.isDigit, hstop.2]

theorem IsDigits.exists_cons {digits : List Char} (hdigits : IsDigits digits) :
    ∃ c tail, digits = c :: tail ∧ c.isDigit = true := by
  obtain ⟨c, tail, rfl⟩ := List.exists_cons_of_ne_nil hdigits.ne_nil
  exact ⟨c, tail, rfl, hdigits.isDigit c List.mem_cons_self⟩

theorem sign_spec (marks text : List Char) :
    (sign marks text).1 = [] ∨ ∃ c ∈ marks, (sign marks text).1 = [c] := by
  cases text with
  | nil => exact .inl rfl
  | cons c rest =>
      by_cases hc : c ∈ marks
      · exact .inr ⟨c, hc, by simp [sign, hc]⟩
      · exact .inl (by simp [sign, hc])

theorem sign_of_notMem {marks text : List Char}
    (hhead : ∀ c ∈ text.head?, c ∉ marks) : sign marks text = ([], text) := by
  cases text with
  | nil => rfl
  | cons c rest =>
      have hc := hhead c rfl
      simp [sign, hc]

theorem isWhole_of_whole? {text taken rest : List Char}
    (hread : whole? text = some (taken, rest)) : IsWhole taken := by
  unfold whole? at hread
  split at hread
  · cases hread
    exact .zero
  · rename_i hzero
    refine .positive (isDigits_of_digits? hread) fun hhead => ?_
    have htaken := (takeWhile_of_digits? hread).1
    rw [← htaken, List.head?_takeWhile, Option.filter_eq_some_iff] at hhead
    obtain ⟨tail, rfl⟩ := List.head?_eq_some_iff.mp hhead.1
    exact hzero tail rfl

theorem whole?_of_isWhole {whole rest : List Char} (hwhole : IsWhole whole)
    (hrest : NoDigit rest) : whole? (whole ++ rest) = some (whole, rest) := by
  cases hwhole with
  | zero => rfl
  | positive hdigits hhead =>
      rw [whole?]
      · exact digits?_of_isDigits hdigits hrest
      · intro tail heq
        obtain ⟨c, digits, rfl, -⟩ := hdigits.exists_cons
        rw [List.cons_append, List.cons.injEq] at heq
        exact hhead (congrArg some heq.1)

theorem isFraction_of_fraction? {text taken rest : List Char}
    (hread : fraction? text = some (taken, rest)) : IsFraction taken := by
  unfold fraction? at hread
  split at hread
  · obtain ⟨⟨digits, left⟩, hdigits, heq⟩ := Option.map_eq_some_iff.mp hread
    cases heq
    exact .present (isDigits_of_digits? hdigits)
  · cases hread
    exact .absent

theorem fraction?_of_isFraction {fraction rest : List Char}
    (hfraction : IsFraction fraction) (hdigit : NoDigit rest)
    (hpoint : '.' ∉ rest.head?) :
    fraction? (fraction ++ rest) = some (fraction, rest) := by
  cases hfraction with
  | absent =>
      rw [List.nil_append, fraction?]
      rintro tail rfl
      exact hpoint rfl
  | present hdigits =>
      rw [List.cons_append, fraction?, digits?_of_isDigits hdigits hdigit]
      rfl

theorem isExponent_of_exponent? {text taken rest : List Char}
    (hread : exponent? text = some (taken, rest)) : IsExponent taken := by
  cases text with
  | nil =>
      cases hread
      exact .absent
  | cons c tail =>
      rw [exponent?] at hread
      split at hread
      · rename_i hmark
        obtain ⟨⟨digits, left⟩, hdigits, heq⟩ :=
          Option.map_eq_some_iff.mp hread
        cases heq
        have hsign : (sign ['+', '-'] tail).1 = [] ∨
            (sign ['+', '-'] tail).1 = ['+'] ∨
              (sign ['+', '-'] tail).1 = ['-'] := by
          simpa using sign_spec ['+', '-'] tail
        exact .present hmark hsign (isDigits_of_digits? hdigits)
      · cases hread
        exact .absent

theorem exponent?_of_isExponent {exponent rest : List Char}
    (hexponent : IsExponent exponent) (hrest : Ends rest) :
    exponent? (exponent ++ rest) = some (exponent, rest) := by
  cases hexponent with
  | absent =>
      cases rest with
      | nil => rfl
      | cons c tail =>
          rw [List.nil_append, exponent?, if_neg (hrest.noMark c rfl)]
  | @present mark mark' digits hmark hsign hdigits =>
      have hread : sign ['+', '-'] (mark' ++ (digits ++ rest)) =
          (mark', digits ++ rest) := by
        obtain ⟨c, tail, rfl, hc⟩ := hdigits.exists_cons
        rcases hsign with rfl | rfl | rfl
        · apply sign_of_notMem
          rintro _ ⟨⟩ hmem
          have hplain : c = '+' ∨ c = '-' := by simpa using hmem
          rcases hplain with rfl | rfl <;> cases hc
        · rfl
        · rfl
      rw [List.cons_append, List.cons_append, List.append_assoc, exponent?,
        if_pos hmark, hread]
      dsimp only
      rw [digits?_of_isDigits hdigits hrest.noDigit]
      rfl

theorem isNumeral_of_read? {text taken rest : List Char}
    (hread : read? text = some (taken, rest)) : IsNumeral taken := by
  simp only [read?, bind, Option.bind_eq_some_iff, Prod.exists] at hread
  obtain ⟨whole, text₁, hwhole, fraction, text₂, hfraction, exponent, text₃,
    hexponent, heq⟩ := hread
  cases heq
  refine .parts ?_ (isWhole_of_whole? hwhole)
    (isFraction_of_fraction? hfraction) (isExponent_of_exponent? hexponent)
  simpa using sign_spec ['-'] text

theorem IsExponent.ends_append {exponent rest : List Char}
    (hexponent : IsExponent exponent) (hrest : Ends rest) :
    NoDigit (exponent ++ rest) ∧ '.' ∉ (exponent ++ rest).head? := by
  cases hexponent with
  | absent => exact ⟨hrest.noDigit, hrest.noPoint⟩
  | present hmark hsign hdigits =>
      simp only [NoDigit, List.cons_append, List.head?_cons, Option.mem_def,
        Option.some.injEq, forall_eq']
      rcases hmark with rfl | rfl <;> decide

theorem IsFraction.noDigit_append {fraction rest : List Char}
    (hfraction : IsFraction fraction) (hrest : NoDigit rest) :
    NoDigit (fraction ++ rest) := by
  cases hfraction with
  | absent => exact hrest
  | present hdigits =>
      rintro _ ⟨⟩
      rfl

theorem IsWhole.head_isDigit {whole : List Char} (hwhole : IsWhole whole) :
    ∃ c tail, whole = c :: tail ∧ c.isDigit = true := by
  cases hwhole with
  | zero => exact ⟨'0', [], rfl, rfl⟩
  | positive hdigits hhead => exact hdigits.exists_cons

theorem IsNumeral.exists_head {numeral : List Char}
    (hnumeral : IsNumeral numeral) :
    ∃ c tail, numeral = c :: tail ∧ (c = '-' ∨ c.isDigit = true) := by
  cases hnumeral with
  | parts hsign hwhole hfraction hexponent =>
      obtain ⟨c, tail, rfl, hc⟩ := hwhole.head_isDigit
      rcases hsign with rfl | rfl
      · exact ⟨c, _, rfl, .inr hc⟩
      · exact ⟨'-', _, rfl, .inl rfl⟩

/-- A numeral is read to its end when nothing behind it continues it. -/
theorem read?_of_isNumeral {numeral rest : List Char}
    (hnumeral : IsNumeral numeral) (hrest : Ends rest) :
    read? (numeral ++ rest) = some (numeral, rest) := by
  cases hnumeral with
  | @parts mark whole fraction exponent hsign hwhole hfraction hexponent =>
      have hread : sign ['-'] (mark ++ (whole ++ (fraction ++
          (exponent ++ rest)))) =
            (mark, whole ++ (fraction ++ (exponent ++ rest))) := by
        obtain ⟨c, tail, rfl, hc⟩ := hwhole.head_isDigit
        rcases hsign with rfl | rfl
        · apply sign_of_notMem
          rintro _ ⟨⟩ hmem
          rw [List.mem_singleton.mp hmem] at hc
          cases hc
        · rfl
      obtain ⟨hdigit, hpoint⟩ := hexponent.ends_append hrest
      have hbehind := hfraction.noDigit_append hdigit
      simp only [List.append_assoc, read?, hread,
        whole?_of_isWhole hwhole hbehind,
        fraction?_of_isFraction hfraction hdigit hpoint,
        exponent?_of_isExponent hexponent hrest, Option.bind_eq_bind,
        Option.bind_some]

end WebviewProxy.Numeral
