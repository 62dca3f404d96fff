import WebviewProxy.Proofs.Lossy
import WebviewProxy.Proofs.OneIdentity

/-!
# Base name and identity

In development the address of a page shows a base name next to the identity of
the file.  The one is read off the filename as it was given, and the other is
what is left of the place of the file after it was joined to the working
directory, brought to its normal form and encoded.  Both end in the same name:
the last segment of the filename that means anything comes to lie on top of the
stack of names.
-/

namespace WebviewProxy

namespace Path

/-! ## The end of a path -/

/-- A segment that means nothing where another one stands in front of it. -/
def Idle (segment : List UInt8) : Prop :=
  segment = [] ∨ segment = dot

/-- Behind the segment there are only idle ones. -/
def LastSegment (path : Path) (segment : List UInt8) : Prop :=
  ∃ front back, path.segments = front ++ segment :: back ∧
    ∀ other ∈ back, Idle other

/-- What a path ends in once the idle segments at its end are dropped. -/
def EndsIn (path : Path) : Component → Prop
  | .name name => Plain name ∧ path.LastSegment name
  | .parent => path.LastSegment dotDot
  | .root => path.isAbsolute = true ∧ ∀ segment ∈ path.segments, Idle segment
  | .current => ∃ back, path.segments = dot :: back ∧
      ∀ segment ∈ back, Idle segment

theorem ofSegment?_of_idle {segment : List UInt8} (hidle : Idle segment) :
    Component.ofSegment? segment = none := by
  exact if_pos hidle

theorem filterMap_ofSegment?_of_idle {segments : List (List UInt8)}
    (hidle : ∀ segment ∈ segments, Idle segment) :
    segments.filterMap Component.ofSegment? = [] := by
  rw [List.filterMap_eq_nil_iff]
  intro segment hsegment
  exact ofSegment?_of_idle (hidle segment hsegment)

/-- Either no segment means anything, or one is the last that does. -/
theorem exists_lastSegment (segments : List (List UInt8)) :
    (∀ segment ∈ segments, Idle segment) ∨
      ∃ front segment back, segments = front ++ segment :: back ∧
        ¬ Idle segment ∧ ∀ other ∈ back, Idle other := by
  induction segments with
  | nil => exact .inl (by simp)
  | cons first rest ih =>
      rcases ih with hidle | ⟨front, segment, back, rfl, hsegment, hback⟩
      · by_cases hfirst : Idle first
        · exact .inl (List.forall_mem_cons.mpr ⟨hfirst, hidle⟩)
        · exact .inr ⟨[], first, rest, rfl, hfirst, hidle⟩
      · exact .inr ⟨first :: front, segment, back, rfl, hsegment, hback⟩

theorem LastSegment.getLast?_components {path : Path} {segment : List UInt8}
    {component : Component} (hlast : path.LastSegment segment)
    (hcomponent : Component.ofSegment? segment = some component) :
    path.components.getLast? = some component := by
  obtain ⟨front, back, hsegments, hback⟩ := hlast
  rw [components, hsegments, List.filterMap_append,
    List.filterMap_cons_some hcomponent, filterMap_ofSegment?_of_idle hback,
    ← List.append_assoc]
  exact List.getLast?_concat

theorem getLast?_components_of_idle {path : Path}
    (hidle : ∀ segment ∈ path.segments, Idle segment) :
    path.components.getLast? = path.anchor.getLast? := by
  rw [components, filterMap_ofSegment?_of_idle hidle, List.append_nil]

theorem exists_segments_of_isAbsolute {path : Path}
    (habsolute : path.isAbsolute = true) :
    ∃ rest, path.segments = [] :: rest := by
  have hhead : path.bytes.head? = some slash := by
    simpa [isAbsolute] using habsolute
  obtain ⟨rest, hbytes⟩ := List.head?_eq_some_iff.mp hhead
  exact ⟨split rest, by rw [segments, hbytes, split, if_pos rfl]⟩

theorem exists_segments_of_relative {path : Path}
    (hrelative : path.isAbsolute = false) (hne : path.bytes ≠ []) :
    ∃ first rest, path.segments = first :: rest ∧ first ≠ [] := by
  obtain ⟨byte, bytes, hbytes⟩ := List.exists_cons_of_ne_nil hne
  have hbyte : byte ≠ slash := by
    rintro rfl
    simp [isAbsolute, hbytes] at hrelative
  rw [segments, hbytes, split, if_neg hbyte]
  cases split bytes with
  | nil => exact ⟨[byte], [], rfl, by simp⟩
  | cons first rest => exact ⟨byte :: first, rest, rfl, by simp⟩

theorem EndsIn.getLast?_components {path : Path} {component : Component}
    (hends : path.EndsIn component) :
    path.components.getLast? = some component := by
  cases component with
  | root =>
      obtain ⟨habsolute, hidle⟩ := hends
      rw [getLast?_components_of_idle hidle, anchor, if_pos habsolute]
      rfl
  | current =>
      obtain ⟨back, hsegments, hback⟩ := hends
      have hidle : ∀ segment ∈ path.segments, Idle segment := by
        rw [hsegments]
        exact List.forall_mem_cons.mpr ⟨.inr rfl, hback⟩
      have hrelative : ¬ path.isAbsolute = true := by
        intro habsolute
        obtain ⟨rest, hempty⟩ := exists_segments_of_isAbsolute habsolute
        rw [hsegments, List.cons.injEq] at hempty
        exact absurd hempty.1 (by decide)
      have hhead : path.segments.head? = some dot := by
        rw [hsegments]
        rfl
      rw [getLast?_components_of_idle hidle, anchor, if_neg hrelative,
        if_pos hhead]
      rfl
  | parent => exact LastSegment.getLast?_components hends rfl
  | name name =>
      exact hends.2.getLast?_components (ofSegment?_of_plain hends.1)

theorem exists_endsIn {path : Path} (hne : path.bytes ≠ []) :
    ∃ component, path.EndsIn component := by
  rcases exists_lastSegment path.segments with
    hidle | ⟨front, segment, back, hsegments, hsegment, hback⟩
  · -- Where no segment means anything, the first one shows what is left.
    cases hpath : path.isAbsolute with
    | true => exact ⟨.root, hpath, hidle⟩
    | false =>
        obtain ⟨first, rest, hsegments, hfirst⟩ :=
          exists_segments_of_relative hpath hne
        rw [hsegments, List.forall_mem_cons] at hidle
        have hdot : first = dot := hidle.1.resolve_left hfirst
        exact ⟨.current, rest, hdot ▸ hsegments, hidle.2⟩
  · rcases segment_cases segment with rfl | rfl | rfl | hplain
    · exact absurd (.inl rfl) hsegment
    · exact absurd (.inr rfl) hsegment
    · exact ⟨.parent, front, back, hsegments, hback⟩
    · exact ⟨.name segment, hplain, front, back, hsegments, hback⟩

theorem fileName?_of_endsIn {path : Path} {component : Component}
    (hends : path.EndsIn component) :
    path.fileName? =
      match component with
      | .name name => some name
      | _ => none := by
  rw [fileName?, hends.getLast?_components]
  cases component <;> rfl

/-- The base name is missing just where a path does not end in a name. -/
theorem lossy_fileName?_eq_empty_iff {path : Path} (hne : path.bytes ≠ []) :
    Utf8.lossy (path.fileName?.getD []) = "" ↔
      path.EndsIn .parent ∨ path.EndsIn .root ∨ path.EndsIn .current := by
  rw [Utf8.lossy_eq_empty_iff]
  constructor
  · intro hempty
    obtain ⟨component, hends⟩ := exists_endsIn hne
    cases component with
    | root => exact .inr (.inl hends)
    | current => exact .inr (.inr hends)
    | parent => exact .inl hends
    | name name =>
        rw [fileName?_of_endsIn hends] at hempty
        exact absurd hempty hends.1.ne_nil
  · rintro (hends | hends | hends)
    · rw [fileName?_of_endsIn hends]
      rfl
    · rw [fileName?_of_endsIn hends]
      rfl
    · rw [fileName?_of_endsIn hends]
      rfl

/-! ## The end of a stack -/

theorem foldl_enter_of_idle {segments : List (List UInt8)}
    (hidle : ∀ segment ∈ segments, Idle segment)
    (names : List (List UInt8)) : segments.foldl enter names = names := by
  induction segments with
  | nil => rfl
  | cons segment rest ih =>
      rw [List.forall_mem_cons] at hidle
      have henter : enter names segment = names := if_pos hidle.1
      rw [List.foldl_cons, henter]
      exact ih hidle.2

/-- The last segment that means anything comes to lie on top. -/
theorem LastSegment.exists_stack {path : Path} {name : List UInt8}
    (hlast : path.LastSegment name) (hname : Plain name)
    (names : List (List UInt8)) :
    ∃ below, path.segments.foldl enter names = below ++ [name] := by
  obtain ⟨front, back, hsegments, hback⟩ := hlast
  refine ⟨front.foldl enter names, ?_⟩
  rw [hsegments, List.foldl_append, List.foldl_cons, enter_of_plain hname,
    foldl_enter_of_idle hback]

end Path

namespace Identity

/-- What stands behind the last slash of a URL. -/
def lastSegment (url : String) : List Char :=
  ((url.toList.splitOn '/').getLast?).getD []

theorem slashed_append_singleton (front : List (List Char))
    (segment : List Char) :
    slashed (front ++ [segment]) =
      front.flatMap ('/' :: ·) ++ '/' :: segment := by
  cases front with
  | nil => simp [slashed]
  | cons first rest => simp [slashed]

theorem lastSegment_urlOf (names : List (List UInt8)) {name : List UInt8}
    (hname : Path.slash ∉ name) :
    lastSegment (urlOf (names ++ [name])) =
      Percent.encode Percent.isEscaped name := by
  have hsegment : '/' ∉ Percent.encode Percent.isEscaped name := by
    rw [slash_mem_encode_iff]
    exact hname
  rw [lastSegment, toList_urlOf, List.map_append, List.map_singleton,
    slashed_append_singleton, ← List.append_assoc,
    List.splitOn_append_cons_self, List.splitOn_eq_singleton hsegment,
    List.getLast?_concat, Option.getD_some]

/-- The segments of a filename are the last that are replayed. -/
theorem exists_resolve_of_locate {path place : Path} {cwd : Option Path}
    (hplace : locate path cwd = some place) :
    ∃ names, Path.resolve place.segments =
      path.segments.foldl Path.enter names := by
  unfold locate at hplace
  cases hpath : path.isAbsolute with
  | true =>
      rw [if_pos hpath] at hplace
      cases hplace
      exact ⟨[], rfl⟩
  | false =>
      rw [hpath, if_neg Bool.false_ne_true] at hplace
      obtain ⟨base, -, rfl⟩ := Option.map_eq_some_iff.mp hplace
      exact ⟨_, Path.resolve_join hpath base⟩

/-- An identity reads back to the name that the filename ends in. -/
theorem decode_lastSegment {path : Path} {cwd : Option Path} {url : String}
    {name : List UInt8} (hurl : ofPath path cwd = .ok url)
    (hends : path.EndsIn (.name name)) :
    Percent.decode (lastSegment url) = name := by
  obtain ⟨place, hplace, -, rfl⟩ := (ofPath_eq_ok_iff path cwd url).mp hurl
  obtain ⟨names, hresolve⟩ := exists_resolve_of_locate hplace
  obtain ⟨hplain, hlast⟩ := hends
  obtain ⟨below, hstack⟩ := hlast.exists_stack hplain names
  have hname : Path.slash ∉ name := by
    obtain ⟨front, back, hsegments, -⟩ := hlast
    have hmem : name ∈ Path.split path.bytes := by
      rw [← Path.segments, hsegments]
      exact List.mem_append_right front List.mem_cons_self
    exact Path.slash_notMem_of_mem_split hmem
  rw [hresolve, hstack, lastSegment_urlOf below hname, Percent.decode_encode]

end Identity

namespace Workspace

variable {file : Workspace} {build : Build} {reference : String}

theorem ne_nil_of_usableFilename {path : Path}
    (husable : file.usableFilename = .ok path) : path.bytes ≠ [] := by
  unfold usableFilename at husable
  split at husable
  next other _ =>
    split at husable
    next => cases husable
    next hne =>
      cases husable
      exact hne
  next => cases husable

theorem exists_route_of_rewritten (hdevelopment : build.production = false)
    (hresult : (file.rewrite build).1 = .ok (.rewritten reference)) :
    ∃ path, file.filename = some path ∧ path.bytes ≠ [] ∧
      Identity.ofPath path build.cwd = .ok reference ∧
      (file.rewrite build).2.program.body =
        (Page.devServer (Utf8.lossy (path.fileName?.getD []))
          reference).proxyBody := by
  obtain ⟨plan, hplan, rfl, hafter⟩ := exists_plan_of_rewritten hresult
  obtain ⟨path, hpath, -, hidentity, hpage, -⟩ :=
    (plan_eq_ok_iff file build plan).mp hplan
  have hroute : Page.devServer (Utf8.lossy (path.fileName?.getD []))
      plan.reference = plan.page := by
    rw [Build.page, hdevelopment, if_neg Bool.false_ne_true] at hpage
    exact Except.ok.inj hpage
  refine ⟨path, Requirement.filename_of_usableFilename hpath,
    ne_nil_of_usableFilename hpath, hidentity, ?_⟩
  rw [hafter, hroute]
  rfl

/-- The base name in the proxy and the identity name the same file: where the
filename ends in a name, both end in it, and the base name is empty just where
the filename ends in a parent directory, in the root or in a lone dot. -/
theorem basename_agrees_with_identity
    (hdevelopment : build.production = false)
    (hresult : (file.rewrite build).1 = .ok (.rewritten reference)) :
    ∃ path address basename, file.filename = some path ∧
      Tree.address? (file.rewrite build).2.program.body = some address ∧
      address.urlArgument?.bind Tree.literals? =
        some ["/_expo/@dom/" ++ basename ++ "?file=", reference] ∧
      (∀ name, path.EndsIn (.name name) → basename ≠ "" ∧
        basename =
          Utf8.lossy (Percent.decode (Identity.lastSegment reference))) ∧
      (basename = "" ↔
        path.EndsIn .parent ∨ path.EndsIn .root ∨ path.EndsIn .current) := by
  obtain ⟨path, hfilename, hne, hidentity, hbody⟩ :=
    exists_route_of_rewritten hdevelopment hresult
  refine ⟨path, _, Utf8.lossy (path.fileName?.getD []), hfilename, ?_,
    Page.literals?_devServer _ reference, ?_,
    Path.lossy_fileName?_eq_empty_iff hne⟩
  · rw [hbody, Page.address?_proxyBody]
  · intro name hends
    rw [Identity.decode_lastSegment hidentity hends,
      Path.fileName?_of_endsIn hends]
    refine ⟨?_, rfl⟩
    rw [Option.getD_some, Ne, Utf8.lossy_eq_empty_iff]
    exact hends.1.ne_nil

/-- A name that is no text, with a dot behind it, and a path that leads up. -/
theorem basename_agrees_with_identity_odd_paths :
    let file := Program.twoDefaults.located
    let build : Build := ⟨false, none, some ⟨[0x2F, 0x61]⟩⟩
    let named : Workspace :=
      { file with filename := some ⟨[0x62, 0x2F, 0x2E, 0x2E, 0x2F, 0x63, 0xFF,
          0x2F, 0x2E]⟩ }
    let above : Workspace :=
      { file with filename := some ⟨[0x62, 0x2F, 0x2E, 0x2E, 0x2F]⟩ }
    ((named.rewrite build).1 = .ok (.rewritten "file:///a/c%FF") ∧
      ∃ address basename,
        Tree.address? (named.rewrite build).2.program.body = some address ∧
        address.urlArgument?.bind Tree.literals? =
          some ["/_expo/@dom/" ++ basename ++ "?file=", "file:///a/c%FF"] ∧
        basename ≠ "" ∧ basename = Utf8.lossy [0x63, 0xFF]) ∧
    (above.rewrite build).1 = .ok (.rewritten "file:///a") ∧
      ∃ address,
        Tree.address? (above.rewrite build).2.program.body = some address ∧
        address.urlArgument?.bind Tree.literals? =
          some ["/_expo/@dom/?file=", "file:///a"] := by
  intro file build named above
  have hnamed : (named.rewrite build).1 =
      .ok (.rewritten "file:///a/c%FF") := rfl
  have habove : (above.rewrite build).1 = .ok (.rewritten "file:///a") := rfl
  refine ⟨⟨hnamed, ?_⟩, habove, ?_⟩
  · obtain ⟨path, address, basename, hpath, haddress, hliterals, hname, -⟩ :=
      basename_agrees_with_identity rfl hnamed
    cases hpath
    exact ⟨address, basename, haddress, hliterals, hname [0x63, 0xFF]
      ⟨⟨by decide, by decide, by decide⟩, [[0x62], Path.dotDot], [Path.dot],
        rfl, by simp [Path.Idle]⟩⟩
  · obtain ⟨path, address, basename, hpath, haddress, hliterals, -, hempty⟩ :=
      basename_agrees_with_identity rfl habove
    cases hpath
    cases hempty.mpr (.inl ⟨[[0x62]], [[]], rfl, by simp [Path.Idle]⟩)
    exact ⟨address, haddress, hliterals⟩

end Workspace

end WebviewProxy
