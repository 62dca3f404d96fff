import WebviewProxy.Proofs.Basename

/-!
# The route of a page

In development the page of a file is asked for under a route of the server.  The
base name stands in the path of the route as the filename spells it, and the
identity of the file is the value of a parameter.  The route is read as a URL
without a scheme: the fragment begins at the first `#`, the query at the first
`?` before it, and the parameters are divided by `&`.  The identity has its own
escapes, but they are those of a path, and the base name has none.  So the
server is told the whole identity exactly for the files without the wrong
delimiters in their names.
-/

namespace WebviewProxy

/-! ## Reading a route -/

/-- A URL without scheme and host, taken apart. -/
structure Target where
  path : List Char
  query : Option (List Char)
  fragment : Option (List Char)
  deriving DecidableEq, Repr

namespace Target

/-- The text in front of the first mark, and the text behind it if there is a
mark. -/
def cut (mark : Char) : List Char → List Char × Option (List Char)
  | [] => ([], none)
  | c :: rest =>
      if c = mark then ([], some rest)
      else (c :: (cut mark rest).1, (cut mark rest).2)

def read (text : List Char) : Target where
  path := (cut '?' (cut '#' text).1).1
  query := (cut '?' (cut '#' text).1).2
  fragment := (cut '#' text).2

/-- The names and the raw values of the parameters. -/
def parameters (target : Target) :
    List (List Char × Option (List Char)) :=
  match target.query with
  | none => []
  | some query => (query.splitOn '&').map (cut '=')

/-- What the server is asked for is the page under the base name, and nothing
else but the identity as a whole is handed to it. -/
structure Carries (target : Target) (basename reference : String) : Prop where
  path : target.path = "/_expo/@dom/".toList ++ basename.toList
  parameters : target.parameters =
    [("file".toList, some reference.toList)]
  fragment : target.fragment = none

/-! ## Cuts -/

variable {mark : Char} {text : List Char}

theorem cut_of_notMem (htext : mark ∉ text) : cut mark text = (text, none) := by
  induction text with
  | nil => rfl
  | cons c rest ih =>
      rw [List.mem_cons, not_or] at htext
      rw [cut, if_neg (Ne.symm htext.1), ih htext.2]

theorem cut_append {front : List Char} (hfront : mark ∉ front)
    (back : List Char) :
    cut mark (front ++ mark :: back) = (front, some back) := by
  induction front with
  | nil => exact if_pos rfl
  | cons c rest ih =>
      rw [List.mem_cons, not_or] at hfront
      rw [List.cons_append, cut, if_neg (Ne.symm hfront.1), ih hfront.2]

theorem cut_snd_eq_none_iff : (cut mark text).2 = none ↔ mark ∉ text := by
  constructor
  · intro hnone hmark
    obtain ⟨front, back, rfl, hfront⟩ := List.eq_append_cons_of_mem hmark
    rw [cut_append hfront] at hnone
    cases hnone
  · intro htext
    rw [cut_of_notMem htext]

theorem notMem_cut_fst : mark ∉ (cut mark text).1 := by
  by_cases hmark : mark ∈ text
  · obtain ⟨front, back, rfl, hfront⟩ := List.eq_append_cons_of_mem hmark
    rw [cut_append hfront]
    exact hfront
  · rw [cut_of_notMem hmark]
    exact hmark

theorem notMem_of_splitOn_eq_singleton {piece : List Char}
    (hsplit : text.splitOn mark = [piece]) : mark ∉ text := by
  intro hmark
  obtain ⟨front, back, rfl⟩ := List.mem_iff_append.mp hmark
  rw [List.splitOn_append_cons_self, List.append_eq_singleton_iff] at hsplit
  rcases hsplit with ⟨hnone, -⟩ | ⟨-, hnone⟩
  · exact List.splitOn_ne_nil mark front hnone
  · exact List.splitOn_ne_nil mark back hnone

theorem read_append {front query : List Char} (hsharp : '#' ∉ front ++ query)
    (hquestion : '?' ∉ front) :
    read (front ++ '?' :: query) = ⟨front, some query, none⟩ := by
  have hall : '#' ∉ front ++ '?' :: query := by
    simpa using hsharp
  rw [read, cut_of_notMem hall, cut_append hquestion]

/-! ## The delimiters -/

theorem toList_route_append (basename reference : String) :
    (Page.route basename ++ reference).toList =
      ("/_expo/@dom/".toList ++ basename.toList) ++
        '?' :: ("file".toList ++ '=' :: reference.toList) := by
  have hquery : "?file=".toList = '?' :: ("file".toList ++ ['=']) := by decide
  rw [Page.route, String.toList_append, String.toList_append,
    String.toList_append, hquery]
  simp only [List.append_assoc, List.cons_append, List.nil_append]

/-- The identity comes through whole just if no delimiter stands in front of it
and none divides it. -/
theorem carries_read_route_iff {basename reference : String}
    (hreference : '#' ∉ reference.toList) :
    (read (Page.route basename ++ reference).toList).Carries basename
        reference ↔
      '#' ∉ basename.toList ∧ '?' ∉ basename.toList ∧
        '&' ∉ reference.toList := by
  rw [toList_route_append]
  constructor
  · rintro ⟨hpath, hparameters, hfragment⟩
    -- Without a fragment there is no `#` at all, so the path ends at the first
    -- `?` of the whole text.
    have hsharp : '#' ∉ basename.toList ∧ '#' ∉ reference.toList := by
      simpa using cut_snd_eq_none_iff.mp hfragment
    have hquestion : '?' ∉ "/_expo/@dom/".toList ++ basename.toList := by
      rw [← hpath]
      exact notMem_cut_fst
    rw [read_append (by simpa using hsharp) hquestion] at hparameters
    obtain ⟨piece, hpiece, -⟩ := List.map_eq_singleton_iff.mp hparameters
    have hampersand := notMem_of_splitOn_eq_singleton hpiece
    exact ⟨hsharp.1, by simpa using hquestion, by simpa using hampersand⟩
  · rintro ⟨hsharp, hquestion, hampersand⟩
    have hname : '=' ∉ "file".toList := by decide
    have hparameter : '&' ∉ "file".toList ++ '=' :: reference.toList := by
      simpa using hampersand
    rw [read_append (by simp [hsharp, hreference]) (by simpa using hquestion)]
    refine ⟨rfl, ?_, rfl⟩
    simp only [parameters]
    rw [List.splitOn_eq_singleton hparameter, List.map_singleton,
      cut_append hname]

end Target

namespace Identity

theorem mem_slashed_iff {c : Char} (hc : c ≠ '/')
    (segments : List (List Char)) :
    c ∈ slashed segments ↔ ∃ segment ∈ segments, c ∈ segment := by
  cases segments with
  | nil => simp [slashed, hc]
  | cons segment rest => simp [slashed, hc]

theorem ampersand_mem_urlOf_iff (names : List (List UInt8)) :
    '&' ∈ (urlOf names).toList ↔ ∃ name ∈ names, 0x26 ∈ name := by
  have hscheme : '&' ∉ "file://".toList := by decide
  have hencode : ∀ name,
      '&' ∈ Percent.encode Percent.isEscaped name ↔ 0x26 ∈ name :=
    Percent.mem_encode_iff (Percent.forall_byte (by decide +kernel))
  rw [toList_urlOf, List.mem_append, mem_slashed_iff (by decide)]
  simp only [hscheme, List.mem_map, false_or]
  simp [hencode]

theorem sharp_notMem_urlOf {names : List (List UInt8)}
    (hnames : ∀ name ∈ names, Path.IsName name) :
    '#' ∉ (urlOf names).toList := by
  intro hsharp
  have hspells := spells_urlOf hnames
  have hcanonical := hspells.canonical fun _ => canonical_of_mem_map_encode
  exact (hcanonical.isPrintable hsharp).2.2 (by decide)

end Identity

namespace Workspace

/-- The base name holds neither `#` nor `?`, and no name on the whole way to the
file holds an `&`. -/
structure RouteIsPlain (path place : Path) : Prop where
  noSharp : 0x23 ∉ path.fileName?.getD []
  noQuestion : 0x3F ∉ path.fileName?.getD []
  noAmpersand : ∀ name ∈ Path.resolve place.segments, 0x26 ∉ name

variable {file : Workspace} {build : Build} {reference : String}

/-- The server is asked for the page under the base name, with the identity as
a whole, exactly for the files whose names hold no delimiter of the route. -/
theorem development_route_carries_iff
    (hdevelopment : build.production = false)
    (hresult : (file.rewrite build).1 = .ok (.rewritten reference)) :
    ∃ path place address first second, file.filename = some path ∧
      Identity.locate path build.cwd = some place ∧
      Tree.address? (file.rewrite build).2.program.body = some address ∧
      address.urlArgument?.bind Tree.literals? = some [first, second] ∧
      ((Target.read (first ++ second).toList).Carries
          (Utf8.lossy (path.fileName?.getD [])) reference ↔
        RouteIsPlain path place) := by
  obtain ⟨path, hfilename, -, hidentity, hbody⟩ :=
    exists_route_of_rewritten hdevelopment hresult
  obtain ⟨place, hplace, -, rfl⟩ :=
    (Identity.ofPath_eq_ok_iff path build.cwd reference).mp hidentity
  let basename := Utf8.lossy (path.fileName?.getD [])
  let names := Path.resolve place.segments
  refine ⟨path, place, (Page.devServer basename (Identity.urlOf names)).uri,
    Page.route basename, Identity.urlOf names, hfilename, hplace, ?_,
    Page.literals?_devServer _ _, ?_⟩
  · rw [hbody, Page.address?_proxyBody]
  · have hnames : ∀ name ∈ names, Path.IsName name :=
      fun _ => Path.isName_of_mem_resolve
    rw [Target.carries_read_route_iff (Identity.sharp_notMem_urlOf hnames),
      Identity.ampersand_mem_urlOf_iff,
      Utf8.mem_lossy_iff (by decide) (by decide),
      Utf8.mem_lossy_iff (by decide) (by decide)]
    constructor
    · rintro ⟨hsharp, hquestion, hampersand⟩
      exact ⟨hsharp, hquestion, fun name hname hmem =>
        hampersand ⟨name, hname, hmem⟩⟩
    · rintro ⟨hsharp, hquestion, hampersand⟩
      exact ⟨hsharp, hquestion, fun ⟨name, hname, hmem⟩ =>
        hampersand name hname hmem⟩

/-- A file with a percent sign, a space, an equals sign and a letter beyond
ASCII in its name. -/
theorem development_route_carries_odd_name :
    let build : Build := ⟨false, some .ios, none⟩
    let file : Workspace :=
      { Host.exportedApp.located with filename := some ⟨[0x2F, 0x61, 0x25, 0x2F,
          0x62, 0x20, 0x3D, 0xC3, 0xA9]⟩ }
    (file.rewrite build).1 = .ok (.rewritten "file:///a%25/b%20=%C3%A9") ∧
      ∃ address first second,
        Tree.address? (file.rewrite build).2.program.body = some address ∧
        address.urlArgument?.bind Tree.literals? = some [first, second] ∧
        (Target.read (first ++ second).toList).Carries "b =é"
          "file:///a%25/b%20=%C3%A9" := by
  intro build file
  have hresult : (file.rewrite build).1 =
      .ok (.rewritten "file:///a%25/b%20=%C3%A9") := rfl
  obtain ⟨path, place, address, first, second, hpath, hplace, haddress,
    hliterals, hcarries⟩ := development_route_carries_iff rfl hresult
  cases hpath
  cases hplace
  exact ⟨hresult, address, first, second, haddress, hliterals,
    hcarries.mpr ⟨by decide, by decide, by decide⟩⟩

/-- Behind a `#` in the name nothing of the route reaches the server, and an `&`
in a directory ends the parameter. -/
theorem development_route_loses_identity :
    let build : Build := ⟨false, some .ios, none⟩
    let hashed : Workspace :=
      { Host.exportedApp.located with
        filename := some ⟨[0x2F, 0x61, 0x23, 0x62]⟩ }
    let divided : Workspace :=
      { Host.exportedApp.located with
        filename := some ⟨[0x2F, 0x61, 0x26, 0x62, 0x2F, 0x63]⟩ }
    ((hashed.rewrite build).1 = .ok (.rewritten "file:///a%23b") ∧
      ∃ address first second,
        Tree.address? (hashed.rewrite build).2.program.body = some address ∧
        address.urlArgument?.bind Tree.literals? = some [first, second] ∧
        Target.read (first ++ second).toList =
          ⟨"/_expo/@dom/a".toList, none,
            some "b?file=file:///a%23b".toList⟩ ∧
        ¬ (Target.read (first ++ second).toList).Carries "a#b"
          "file:///a%23b") ∧
    (divided.rewrite build).1 = .ok (.rewritten "file:///a&b/c") ∧
      ∃ address first second,
        Tree.address? (divided.rewrite build).2.program.body = some address ∧
        address.urlArgument?.bind Tree.literals? = some [first, second] ∧
        (Target.read (first ++ second).toList).parameters =
          [("file".toList, some "file:///a".toList), ("b/c".toList, none)] ∧
        ¬ (Target.read (first ++ second).toList).Carries "c"
          "file:///a&b/c" := by
  intro build hashed divided
  have hhashed : Target.read
      (Page.route "a#b" ++ "file:///a%23b").toList =
        ⟨"/_expo/@dom/a".toList, none, some "b?file=file:///a%23b".toList⟩ := by
    decide
  have hdivided : (Target.read
      (Page.route "c" ++ "file:///a&b/c").toList).parameters =
        [("file".toList, some "file:///a".toList), ("b/c".toList, none)] := by
    decide
  refine ⟨⟨rfl, _, Page.route "a#b", "file:///a%23b", rfl, rfl, hhashed, ?_⟩,
    rfl, _, Page.route "c", "file:///a&b/c", rfl, rfl, hdivided, ?_⟩
  · intro hcarries
    have hfragment := hcarries.fragment
    rw [hhashed] at hfragment
    cases hfragment
  · intro hcarries
    have hparameters := hcarries.parameters
    rw [hdivided] at hparameters
    exact absurd (congrArg List.length hparameters) (by decide)

end Workspace

end WebviewProxy
