/-!
# Numerals

A numeral is a sign, whole digits without a leading zero, a fraction and an
exponent, all but the whole digits optional.  Only its spelling is kept.
Reading takes the longest numeral off the front, and what it takes together
with what it leaves is the text.
-/

namespace WebviewProxy.Numeral

/-- One digit or more, and what follows them. -/
def digits? (text : List Char) : Option (List Char × List Char) :=
  let taken := text.takeWhile Char.isDigit
  if taken = [] then none else some (taken, text.dropWhile Char.isDigit)

def sign (marks : List Char) : List Char → List Char × List Char
  | [] => ([], [])
  | c :: rest => if c ∈ marks then ([c], rest) else ([], c :: rest)

def whole? : List Char → Option (List Char × List Char)
  | '0' :: rest => some (['0'], rest)
  | text => digits? text

def fraction? : List Char → Option (List Char × List Char)
  | '.' :: rest =>
      (digits? rest).map fun (digits, rest) => ('.' :: digits, rest)
  | text => some ([], text)

def exponent? : List Char → Option (List Char × List Char)
  | [] => some ([], [])
  | c :: rest =>
      if c = 'e' ∨ c = 'E' then
        let (mark, rest) := sign ['+', '-'] rest
        (digits? rest).map fun (digits, rest) => (c :: mark ++ digits, rest)
      else some ([], c :: rest)

/-- The longest numeral at the front of the text, and what follows it. -/
def read? (text : List Char) : Option (List Char × List Char) := do
  let (mark, text) := sign ['-'] text
  let (whole, text) ← whole? text
  let (fraction, text) ← fraction? text
  let (exponent, text) ← exponent? text
  some (mark ++ whole ++ fraction ++ exponent, text)

private theorem digits?_append {text taken rest : List Char}
    (h : digits? text = some (taken, rest)) :
    taken ++ rest = text ∧ taken ≠ [] := by
  by_cases hne : text.takeWhile Char.isDigit = []
  · simp [digits?, hne] at h
  · rw [digits?, if_neg hne] at h
    cases h
    exact ⟨List.takeWhile_append_dropWhile, hne⟩

private theorem sign_append (marks text : List Char) :
    (sign marks text).1 ++ (sign marks text).2 = text := by
  cases text with
  | nil => rfl
  | cons c rest =>
      by_cases hc : c ∈ marks <;> simp [sign, hc]

private theorem whole?_append {text taken rest : List Char}
    (h : whole? text = some (taken, rest)) :
    taken ++ rest = text ∧ taken ≠ [] := by
  unfold whole? at h
  split at h
  · simp only [Option.some.injEq, Prod.mk.injEq] at h
    obtain ⟨rfl, rfl⟩ := h
    simp
  · exact digits?_append h

private theorem fraction?_append {text taken rest : List Char}
    (h : fraction? text = some (taken, rest)) : taken ++ rest = text := by
  unfold fraction? at h
  split at h
  · obtain ⟨⟨digits, rest'⟩, hdigits, heq⟩ := Option.map_eq_some_iff.mp h
    simp only [Prod.mk.injEq] at heq
    obtain ⟨rfl, rfl⟩ := heq
    simp [(digits?_append hdigits).1]
  · simp only [Option.some.injEq, Prod.mk.injEq] at h
    obtain ⟨rfl, rfl⟩ := h
    rfl

private theorem exponent?_append {text taken rest : List Char}
    (h : exponent? text = some (taken, rest)) : taken ++ rest = text := by
  cases text with
  | nil => simp_all [exponent?]
  | cons c tail =>
      simp only [exponent?] at h
      split at h
      · obtain ⟨⟨digits, rest'⟩, hdigits, heq⟩ := Option.map_eq_some_iff.mp h
        simp only [Prod.mk.injEq] at heq
        obtain ⟨rfl, rfl⟩ := heq
        have hsign := sign_append ['+', '-'] tail
        rw [← (digits?_append hdigits).1] at hsign
        simpa using hsign
      · simp only [Option.some.injEq, Prod.mk.injEq] at h
        obtain ⟨rfl, rfl⟩ := h
        rfl

/-- Nothing is lost, and something is taken. -/
theorem read?_append {text taken rest : List Char}
    (h : read? text = some (taken, rest)) :
    taken ++ rest = text ∧ taken ≠ [] := by
  simp only [read?, bind, Option.bind_eq_some_iff, Prod.exists] at h
  obtain ⟨whole, text₁, hwhole, fraction, text₂, hfraction, exponent, text₃,
    hexponent, heq⟩ := h
  simp only [Option.some.injEq, Prod.mk.injEq] at heq
  obtain ⟨rfl, rfl⟩ := heq
  obtain ⟨hwhole, hne⟩ := whole?_append hwhole
  constructor
  · have hfraction := fraction?_append hfraction
    have hexponent := exponent?_append hexponent
    calc
      _ = (sign ['-'] text).1 ++ (whole ++ (fraction ++ (exponent ++ text₃))) := by
        simp
      _ = text := by
        rw [hexponent, hfraction, hwhole, sign_append]
  · simp [hne]

end WebviewProxy.Numeral
