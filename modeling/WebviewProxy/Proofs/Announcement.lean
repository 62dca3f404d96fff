import WebviewProxy.Proofs.Effects
import WebviewProxy.Proofs.IdentityUrl

/-!
# Printed announcements

A reference is published in a block comment, and a block comment ends at the
first end mark in its text.  An identity writes a slash behind every directory
and leaves asterisks as they are, so the end mark stands in the text exactly
when a directory on the way to the file has a name that ends in an asterisk.
For every other file the printed comment reads back as it was published.
-/

namespace WebviewProxy

/-! ## Block comments in source code -/

namespace Comment

def endMark : List Char := ['*', '/']

def printed (comment : Comment) : List Char :=
  ['/', '*'] ++ comment.text.toList ++ endMark

/-- The text up to the first end mark, and what follows the mark. -/
def close? : List Char → Option (List Char × List Char)
  | [] => none
  | '*' :: '/' :: rest => some ([], rest)
  | c :: rest => (close? rest).map fun (text, rest) => (c :: text, rest)

/-- The text of the block comment at the front of source code, and the code
behind the comment. -/
def read? : List Char → Option (List Char × List Char)
  | '/' :: '*' :: rest => close? rest
  | _ => none

theorem endMark_infix_append_iff (front back : List Char) :
    endMark <:+: front ++ back ↔
      endMark <:+: front ∨ endMark <:+: back ∨
        ['*'] <:+ front ∧ ['/'] <+: back := by
  rw [List.infix_append_iff]
  constructor
  · rintro (hfront | hback | ⟨first, second, hsplit, hfirst, hsecond⟩)
    · exact .inl hfront
    · exact .inr (.inl hback)
    · match first with
      | [] =>
          have hmark : endMark = second := hsplit
          exact .inr (.inl (hmark ▸ hsecond.isInfix))
      | [c] =>
          simp only [endMark, List.singleton_append, List.cons.injEq] at hsplit
          obtain ⟨rfl, rfl⟩ := hsplit
          exact .inr (.inr ⟨hfirst, hsecond⟩)
      | c :: d :: tail =>
          simp only [endMark, List.cons_append, List.cons.injEq,
            List.nil_eq, List.append_eq_nil_iff] at hsplit
          obtain ⟨rfl, rfl, rfl, rfl⟩ := hsplit
          exact .inl hfirst.isInfix
  · rintro (hfront | hback | ⟨hfront, hback⟩)
    · exact .inl hfront
    · exact .inr (.inl hback)
    · exact .inr (.inr ⟨['*'], ['/'], rfl, hfront, hback⟩)

theorem endMark_infix_append_of_notMem {front : List Char}
    (hfront : '*' ∉ front) (back : List Char) :
    endMark <:+: front ++ back ↔ endMark <:+: back := by
  have hmark : ¬ endMark <:+: front := by
    intro hinside
    exact hfront (hinside.subset List.mem_cons_self)
  have hlast : ¬ ['*'] <:+ front := by
    intro hsuffix
    exact hfront (hsuffix.subset List.mem_cons_self)
  rw [endMark_infix_append_iff, or_iff_right hmark,
    or_iff_left fun h => hlast h.1]

theorem close?_cons {c : Char} {rest : List Char}
    (hmark : ¬ endMark <+: c :: rest) :
    close? (c :: rest) =
      (close? rest).map fun (text, rest) => (c :: text, rest) := by
  rw [close?]
  rintro tail rfl rfl
  exact hmark ⟨tail, rfl⟩

/-- A text without an end mark is read up to the one behind it. -/
theorem close?_append {text : List Char} (htext : ¬ endMark <:+: text)
    (rest : List Char) :
    close? (text ++ (endMark ++ rest)) = some (text, rest) := by
  induction text with
  | nil => rfl
  | cons c tail ih =>
      rw [List.infix_cons_iff, not_or] at htext
      have hmark : ¬ endMark <+: c :: (tail ++ (endMark ++ rest)) := by
        intro hstart
        cases tail with
        | nil => simp [endMark] at hstart
        | cons d tail =>
            apply htext.1
            simpa [endMark] using hstart
      rw [List.cons_append, close?_cons hmark, ih htext.2]
      rfl

theorem close?_eq_some_iff (source text rest : List Char) :
    close? source = some (text, rest) ↔
      ¬ endMark <:+: text ∧ source = text ++ (endMark ++ rest) := by
  constructor
  · intro hread
    fun_induction close? source generalizing text rest with
    | case1 => cases hread
    | case2 tail =>
        cases hread
        exact ⟨by decide, rfl⟩
    | case3 c tail hne ih =>
        obtain ⟨⟨taken, left⟩, htail, heq⟩ := Option.map_eq_some_iff.mp hread
        cases heq
        obtain ⟨htaken, rfl⟩ := ih _ _ htail
        refine ⟨?_, rfl⟩
        rw [List.infix_cons_iff, not_or]
        refine ⟨?_, htaken⟩
        rintro ⟨end_, hmark⟩
        simp only [endMark, List.cons_append, List.nil_append,
          List.cons.injEq] at hmark
        obtain ⟨rfl, rfl⟩ := hmark
        exact hne _ rfl rfl
  · rintro ⟨htext, rfl⟩
    exact close?_append htext rest

theorem exists_first_endMark {text : List Char} (hmark : endMark <:+: text) :
    ∃ kept spilled, ¬ endMark <:+: kept ∧
      text = kept ++ (endMark ++ spilled) := by
  obtain ⟨before, after, rfl⟩ := hmark
  induction before with
  | nil => exact ⟨[], after, by decide, rfl⟩
  | cons c before ih =>
      obtain ⟨kept, spilled, hkept, hsplit⟩ := ih
      have htext : (c :: before) ++ endMark ++ after =
          (c :: kept) ++ (endMark ++ spilled) :=
        congrArg (c :: ·) hsplit
      by_cases hfirst : endMark <+: c :: kept
      · obtain ⟨tail, htail⟩ := hfirst
        refine ⟨[], tail ++ (endMark ++ spilled), by decide, ?_⟩
        rw [htext, ← htail, List.append_assoc, List.nil_append]
      · refine ⟨c :: kept, spilled, ?_, htext⟩
        rw [List.infix_cons_iff, not_or]
        exact ⟨hfirst, hkept⟩

theorem read?_printed (comment : Comment) (rest : List Char) :
    read? (comment.printed ++ rest) =
      close? (comment.text.toList ++ (endMark ++ rest)) := by
  simp [printed, read?]

/-- A printed comment reads back as it was published exactly when there is no
end mark in its text. -/
theorem read?_printed_iff (comment : Comment) :
    (∀ rest, read? (comment.printed ++ rest) =
        some (comment.text.toList, rest)) ↔
      ¬ endMark <:+: comment.text.toList := by
  simp only [read?_printed, close?_eq_some_iff, and_true, forall_const]

/-- A text with an end mark is not read to its end: what stands behind the first
end mark is code. -/
theorem exists_spilled {comment : Comment}
    (hmark : endMark <:+: comment.text.toList) :
    ∃ kept spilled, comment.text.toList = kept ++ (endMark ++ spilled) ∧
      ∀ rest, read? (comment.printed ++ rest) =
        some (kept, spilled ++ (endMark ++ rest)) := by
  obtain ⟨kept, spilled, hkept, hsplit⟩ := exists_first_endMark hmark
  refine ⟨kept, spilled, hsplit, fun rest => ?_⟩
  rw [read?_printed, close?_eq_some_iff, hsplit]
  exact ⟨hkept, by simp⟩

end Comment

/-! ## End marks in an identity -/

namespace Identity

open Comment

def asterisk : UInt8 := 0x2A

theorem singleton_suffix_iff {α : Type} (a : α) (items : List α) :
    [a] <:+ items ↔ items.getLast? = some a := by
  rw [List.getLast?_eq_some_iff]
  exact exists_congr fun _ => eq_comm

theorem singleton_suffix_append_iff {α : Type} (a : α) (front : List α)
    {back : List α} (hback : back ≠ []) :
    [a] <:+ front ++ back ↔ [a] <:+ back := by
  have hlast := List.getLast?_eq_some_getLast hback
  rw [singleton_suffix_iff, singleton_suffix_iff, List.getLast?_append, hlast,
    Option.some_or]

theorem asterisk_suffix_encode_iff (name : List UInt8) :
    ['*'] <:+ Percent.encode Percent.isEscaped name ↔
      [asterisk] <:+ name := by
  have hbyte : ∀ byte, Percent.encodeByte Percent.isEscaped byte ≠ [] ∧
      (['*'] <:+ Percent.encodeByte Percent.isEscaped byte ↔
        asterisk = byte) :=
    Percent.forall_byte (by decide +kernel)
  rcases List.eq_nil_or_concat name with rfl | ⟨front, byte, rfl⟩
  · decide
  · have hencode : Percent.encode Percent.isEscaped (front ++ [byte]) =
        Percent.encode Percent.isEscaped front ++
          Percent.encodeByte Percent.isEscaped byte := by
      simp [Percent.encode]
    rw [List.concat_eq_append, hencode,
      singleton_suffix_append_iff _ _ (hbyte byte).1, (hbyte byte).2,
      singleton_suffix_iff]
    simp [eq_comm]

theorem endMark_infix_slash_cons {segment : List Char}
    (hsegment : '/' ∉ segment) : ¬ endMark <:+: '/' :: segment := by
  rw [List.infix_cons_iff, not_or]
  constructor
  · intro hstart
    simp [endMark] at hstart
  · intro hinside
    exact hsegment (hinside.subset (by decide))

theorem endMark_infix_flatMap_iff {segments : List (List Char)}
    (hsegments : ∀ segment ∈ segments, IsSegment segment) :
    endMark <:+: segments.flatMap ('/' :: ·) ↔
      ∃ segment ∈ segments.dropLast, ['*'] <:+ segment := by
  induction segments with
  | nil => simp [endMark]
  | cons segment rest ih =>
      have hsegment := hsegments segment List.mem_cons_self
      have hfirst := endMark_infix_slash_cons hsegment.noSlash
      have hlast : ['*'] <:+ '/' :: segment ↔ ['*'] <:+ segment :=
        singleton_suffix_append_iff '*' ['/'] hsegment.ne_nil
      rw [List.flatMap_cons, endMark_infix_append_iff,
        ih fun other hother => hsegments other (List.mem_cons_of_mem _ hother),
        hlast]
      cases rest with
      | nil => simp [hfirst]
      | cons second others => simp [hfirst, or_comm]

theorem endMark_infix_slashed_iff {segments : List (List Char)}
    (hsegments : ∀ segment ∈ segments, IsSegment segment) :
    endMark <:+: slashed segments ↔
      ∃ segment ∈ segments.dropLast, ['*'] <:+ segment := by
  cases segments with
  | nil => decide
  | cons segment rest => exact endMark_infix_flatMap_iff hsegments

/-- The end mark stands in an identity exactly behind a directory whose name
ends in an asterisk. -/
theorem endMark_infix_urlOf_iff {names : List (List UInt8)}
    (hnames : ∀ name ∈ names, Path.IsName name) :
    endMark <:+: (urlOf names).toList ↔
      ∃ directory ∈ names.dropLast, [asterisk] <:+ directory := by
  have hscheme : '*' ∉ "file://".toList := by decide
  rw [toList_urlOf, endMark_infix_append_of_notMem hscheme,
    endMark_infix_slashed_iff (spells_urlOf hnames).isSegment,
    ← List.map_dropLast]
  constructor
  · rintro ⟨segment, hsegment, hlast⟩
    obtain ⟨directory, hdirectory, rfl⟩ := List.mem_map.mp hsegment
    exact ⟨directory, hdirectory,
      (asterisk_suffix_encode_iff directory).mp hlast⟩
  · rintro ⟨directory, hdirectory, hlast⟩
    exact ⟨_, List.mem_map_of_mem hdirectory,
      (asterisk_suffix_encode_iff directory).mpr hlast⟩

end Identity

theorem Program.endMark_infix_announce_iff {program : Program}
    {reference : String} {comment : Comment}
    (hcomment : comment ∈ program.announce reference) :
    Comment.endMark <:+: comment.text.toList ↔
      Comment.endMark <:+: reference.toList := by
  have hkey : '*' ∉ (" " ++ referenceKey ++ ": ").toList := by decide
  have hblank : ¬ Comment.endMark <:+: " ".toList := by
    intro hmark
    have hmem := hmark.subset List.mem_cons_self
    exact absurd hmem (by decide)
  have hslash : ¬ ['/'] <+: " ".toList := by
    intro hstart
    have hmem := hstart.subset List.mem_cons_self
    exact absurd hmem (by decide)
  have htext : comment.text =
      " " ++ referenceKey ++ ": " ++ reference ++ " " := by
    rw [announce_eq] at hcomment
    split at hcomment
    · cases hcomment
    · rw [List.mem_singleton.mp hcomment]
  rw [htext, String.append_assoc, String.toList_append,
    Comment.endMark_infix_append_of_notMem hkey, String.toList_append,
    Comment.endMark_infix_append_iff, or_iff_right hblank, or_iff_left]
  rintro ⟨-, hstart⟩
  exact hslash hstart

namespace Host

open Comment Identity

theorem exists_place_of_mem_comments {host : Host} {program : Program}
    {comment : Comment}
    (hcomment : comment ∈ (host.transform program).comments) :
    ∃ path place, host.filename.map Path.ofString = some path ∧
      locate path host.build.cwd = some place ∧
      ∃ after : Program,
        comment ∈ after.announce (urlOf (Path.resolve place.segments)) := by
  obtain ⟨reference, hresult, hmem⟩ := exists_rewritten_of_mem_comments hcomment
  obtain ⟨-, -, plan, hplan, rfl⟩ :=
    (Workspace.rewrite_eq_rewritten_iff _ _ _).mp hresult
  obtain ⟨path, hpath, -, hreference, -⟩ :=
    (Workspace.plan_eq_ok_iff _ _ _).mp hplan
  obtain ⟨place, hplace, -, hurl⟩ := (ofPath_eq_ok_iff _ _ _).mp hreference
  rw [hurl] at hmem
  exact ⟨path, place, Requirement.filename_of_usableFilename hpath, hplace,
    _, hmem⟩

theorem announcement_intact_iff (host : Host) (program : Program)
    (comment : Comment)
    (hcomment : comment ∈ (host.transform program).comments) :
    ∃ path place, host.filename.map Path.ofString = some path ∧
      locate path host.build.cwd = some place ∧
      (endMark <:+: comment.text.toList ↔
        ∃ directory ∈ (Path.resolve place.segments).dropLast,
          [asterisk] <:+ directory) ∧
      ((∀ rest, read? (comment.printed ++ rest) =
          some (comment.text.toList, rest)) ↔
        ∀ directory ∈ (Path.resolve place.segments).dropLast,
          ¬ [asterisk] <:+ directory) ∧
      ((∃ directory ∈ (Path.resolve place.segments).dropLast,
          [asterisk] <:+ directory) →
        ∃ kept spilled, comment.text.toList = kept ++ (endMark ++ spilled) ∧
          ∀ rest, read? (comment.printed ++ rest) =
            some (kept, spilled ++ (endMark ++ rest))) := by
  obtain ⟨path, place, hpath, hplace, after, hmem⟩ :=
    exists_place_of_mem_comments hcomment
  have hmark := (Program.endMark_infix_announce_iff hmem).trans
    (endMark_infix_urlOf_iff fun _ => Path.isName_of_mem_resolve)
  refine ⟨path, place, hpath, hplace, hmark, ?_, fun hdirectory => ?_⟩
  · rw [read?_printed_iff, hmark]
    simp only [not_exists, not_and]
  · exact exists_spilled (hmark.mpr hdirectory)

/-- An asterisk inside a directory's name and one at the end of the file's name
are harmless. -/
theorem announcement_intact_inner_asterisks :
    ⟨1, " expoDomComponentReference: file:///a*b/c* "⟩ ∈
      ((ofFilename "/a*b/c*").transform exportedApp).comments ∧
    ∀ rest, read?
        ("/* expoDomComponentReference: file:///a*b/c* */".toList ++ rest) =
      some (" expoDomComponentReference: file:///a*b/c* ".toList, rest) := by
  have hcomment : ⟨1, " expoDomComponentReference: file:///a*b/c* "⟩ ∈
      ((ofFilename "/a*b/c*").transform exportedApp).comments := by
    rw [show ((ofFilename "/a*b/c*").transform exportedApp).comments =
      [⟨1, " expoDomComponentReference: file:///a*b/c* "⟩] from rfl]
    exact List.mem_singleton_self _
  obtain ⟨path, place, hpath, hplace, -, hread, -⟩ :=
    announcement_intact_iff _ _ _ hcomment
  cases hpath
  cases hplace
  exact ⟨hcomment, hread.mpr (by decide)⟩

/-- The comment for a file below a directory `x*` ends within the path, and the
rest of the path is code. -/
theorem announcement_spills :
    ((ofFilename "/app/x*/alert(1);/*/Foo.js").transform
        exportedApp).comments =
      [⟨1, " expoDomComponentReference: file:///app/x*/alert(1);/*/Foo.js "⟩] ∧
    endMark <:+:
      " expoDomComponentReference: file:///app/x*/alert(1);/*/Foo.js ".toList ∧
    read? (Comment.printed ⟨1,
        " expoDomComponentReference: file:///app/x*/alert(1);/*/Foo.js "⟩) =
      some (" expoDomComponentReference: file:///app/x".toList,
        "alert(1);/*/Foo.js */".toList) := by
  refine ⟨rfl, ?_, rfl⟩
  exact ⟨" expoDomComponentReference: file:///app/x".toList,
    "alert(1);/*/Foo.js ".toList, rfl⟩

end Host

end WebviewProxy
