import WebviewProxy.Path.Normal

/-!
# Segments of a path

A path is cut at its slashes, and its segments never hold one.  Joining two
paths puts the bytes of the second behind those of the first with a slash in
between where one is missing; so joining is associative, and a path may be cut
into a base and a rest at any place.
-/

namespace WebviewProxy.Path

theorem split_eq_splitOn (bytes : List UInt8) :
    split bytes = bytes.splitOn slash := by
  induction bytes with
  | nil => rfl
  | cons byte rest ih =>
      rw [split, ih, List.splitOn_cons_eq_if_modifyHead]
      by_cases hslash : byte = slash
      · simp [hslash]
      · cases hrest : rest.splitOn slash with
        | nil => exact absurd hrest (List.splitOn_ne_nil slash rest)
        | cons segment segments => simp [hslash]

theorem split_append_slash (front rest : List UInt8) :
    split (front ++ slash :: rest) = split front ++ split rest := by
  simp only [split_eq_splitOn]
  exact List.splitOn_append_cons_self front rest

theorem split_intercalate {names : List (List UInt8)}
    (hnames : ∀ name ∈ names, slash ∉ name) (hne : names ≠ []) :
    split ([slash].intercalate names) = names := by
  rw [split_eq_splitOn]
  exact List.splitOn_intercalate slash hnames hne

theorem slash_notMem_of_mem_split {bytes segment : List UInt8}
    (hsegment : segment ∈ split bytes) : slash ∉ segment := by
  induction bytes generalizing segment with
  | nil => simp_all [split]
  | cons byte rest ih =>
      by_cases hslash : byte = slash
      · rw [split, if_pos hslash, List.mem_cons] at hsegment
        rcases hsegment with rfl | hrest
        · simp
        · exact ih hrest
      · rw [split, if_neg hslash] at hsegment
        cases hsplit : split rest with
        | nil =>
            rw [split_eq_splitOn] at hsplit
            exact absurd hsplit (List.splitOn_ne_nil slash rest)
        | cons first others =>
            rw [hsplit] at hsegment ih
            rcases List.mem_cons.mp hsegment with rfl | hothers
            · have hfirst : slash ∉ first := ih List.mem_cons_self
              simp [hfirst, Ne.symm hslash]
            · exact ih (List.mem_cons_of_mem _ hothers)

/-! ## Joining -/

/-- What `join` puts between a base and a relative path. -/
def separator (base : Path) : List UInt8 :=
  if base.bytes = [] ∨ base.bytes.getLast? = some slash then [] else [slash]

theorem separator_eq_slash_iff (base : Path) :
    base.separator = [slash] ↔
      base.bytes ≠ [] ∧ base.bytes.getLast? ≠ some slash := by
  rw [← not_or]
  by_cases hends : base.bytes = [] ∨ base.bytes.getLast? = some slash
  · simp [separator, hends]
  · simp [separator, hends]

theorem join_of_isAbsolute {other : Path} (hother : other.isAbsolute = true)
    (base : Path) : base.join other = other := by
  simp [join, hother]

theorem join_of_not_isAbsolute {other : Path}
    (hother : other.isAbsolute = false) (base : Path) :
    base.join other = ⟨base.bytes ++ base.separator ++ other.bytes⟩ := by
  unfold join separator
  split
  · simp_all
  · split <;> simp

theorem isAbsolute_join (base other : Path) :
    (base.join other).isAbsolute = (other.isAbsolute || base.isAbsolute) := by
  cases hother : other.isAbsolute with
  | true => simp [join_of_isAbsolute hother, hother]
  | false =>
      rw [join_of_not_isAbsolute hother]
      cases hbase : base.bytes with
      | nil =>
          have hhead : other.bytes.head? ≠ some slash := by
            simpa [isAbsolute] using hother
          simp [isAbsolute, separator, hbase, hhead]
      | cons byte rest => simp [isAbsolute, hbase]

/-- Nothing is missing behind a base that an empty path was joined to. -/
theorem separator_append_separator (base : Path) :
    separator ⟨base.bytes ++ base.separator⟩ = [] := by
  by_cases hends : base.bytes = [] ∨ base.bytes.getLast? = some slash
  · simp [separator, hends]
  · simp [separator, hends]

theorem separator_append_of_ne_nil (front : List UInt8) {bytes : List UInt8}
    (hne : bytes ≠ []) :
    separator ⟨front ++ bytes⟩ = separator ⟨bytes⟩ := by
  have hlast : (front ++ bytes).getLast? = bytes.getLast? := by
    rw [List.getLast?_append]
    cases hbytes : bytes.getLast? with
    | none => exact absurd (List.getLast?_eq_none_iff.mp hbytes) hne
    | some last => rfl
  simp [separator, hlast, hne]

theorem join_assoc (base middle other : Path) :
    (base.join middle).join other = base.join (middle.join other) := by
  cases hother : other.isAbsolute with
  | true => simp only [join_of_isAbsolute hother]
  | false =>
      cases hmiddle : middle.isAbsolute with
      | true =>
          have hjoin : (middle.join other).isAbsolute = true := by
            simp [isAbsolute_join, hmiddle]
          rw [join_of_isAbsolute hmiddle, join_of_isAbsolute hjoin]
      | false =>
          have hjoin : (middle.join other).isAbsolute = false := by
            simp [isAbsolute_join, hmiddle, hother]
          rw [join_of_not_isAbsolute hother, join_of_not_isAbsolute hjoin,
            join_of_not_isAbsolute hmiddle, join_of_not_isAbsolute hother]
          by_cases hnil : middle.bytes = []
          · have hmiddleSeparator : middle.separator = [] := by
              simp [separator, hnil]
            simp [hnil, hmiddleSeparator, separator_append_separator]
          · rw [separator_append_of_ne_nil _ hnil]
            simp [List.append_assoc]

end WebviewProxy.Path
