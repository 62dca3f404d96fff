import WebviewProxy.Proofs.Placement
import WebviewProxy.Proofs.Plan
import WebviewProxy.Proofs.Surface

/-!
# What a marked file has to meet

A plan succeeds when seven requirements are met, and otherwise fails with the
refusal of the first unmet one.  The requirements are stated about the file and
the build alone, without the checks.  Each check decides a stretch of the
requirements, and checks made in a row decide the stretches put together.
-/

namespace WebviewProxy

inductive Requirement where
  | filename
  | module
  | noNamedExport
  | defaultExport
  | place
  | platform
  | metadata
  deriving DecidableEq, Repr

namespace Requirement

/-- The requirements in the order in which they are checked. -/
def order : List Requirement :=
  [.filename, .module, .noNamedExport, .defaultExport, .place, .platform,
    .metadata]

theorem mem_order (requirement : Requirement) : requirement ∈ order := by
  cases requirement <;> simp [order]

def Met (file : Workspace) (build : Build) : Requirement → Prop
  | .filename => ∃ path, file.filename = some path ∧ path.bytes ≠ []
  | .module => file.program.sourceType = .module
  | .noNamedExport => ∀ declaration ∈ file.program.declarations,
      declaration.isNamedExport = false
  | .defaultExport => ∃ declaration ∈ file.program.declarations,
      declaration.isDefaultExport = true
  | .place => ∃ path, file.filename = some path ∧
      (path.isAbsolute = true ∨
        ∃ base, build.cwd = some base ∧ base.isAbsolute = true)
  | .platform => build.production = false ∨ build.platform = some .ios ∨
      build.platform = some .android
  | .metadata => ∃ members, file.metadata = .object members

/-- The refusal of a file that does not meet the requirement. -/
def Refuses (file : Workspace) (build : Build) :
    Requirement → Refusal → Prop
  | .filename, refusal => refusal = .filenameMissing
  | .module, refusal => refusal = .noDefaultExport file.program.span
  | .noNamedExport, refusal => ∃ declaration,
      file.program.declarations.find? Declaration.isNamedExport =
        some declaration ∧
      refusal = .namedExport declaration.span
  | .defaultExport, refusal => refusal = .noDefaultExport file.program.span
  | .place, refusal => ∃ path, file.filename = some path ∧
      match build.cwd with
      | none => refusal = .noWorkingDirectory path
      | some base => refusal = .notAbsolute (base.join path).normalize
  | .platform, refusal => refusal = .unsupportedPlatform build.platform ∧
      refusal.message =
        "production \"use dom\" directive is not supported yet for platform: "
          ++ match build.platform with
            | some target => target.name
            | none => "undefined"
  | .metadata, refusal => refusal = .metadataNotObject

/-- Some requirement of the list is unmet, and the first such one gives the
refusal. -/
def FirstUnmet (file : Workspace) (build : Build) (refusal : Refusal) :
    List Requirement → Prop
  | [] => False
  | requirement :: rest =>
      ¬ requirement.Met file build ∧ requirement.Refuses file build refusal ∨
        requirement.Met file build ∧ FirstUnmet file build refusal rest

variable {file : Workspace} {build : Build}

/-- The metadata are refused for their own sake only. -/
theorem eq_metadata_of_refuses {requirement : Requirement}
    (hrefuses : requirement.Refuses file build .metadataNotObject) :
    requirement = .metadata := by
  cases requirement with
  | filename => cases hrefuses
  | module => cases hrefuses
  | noNamedExport =>
      obtain ⟨declaration, -, heq⟩ := hrefuses
      cases heq
  | defaultExport => cases hrefuses
  | place =>
      obtain ⟨path, -, heq⟩ := hrefuses
      cases hcwd : build.cwd with
      | none =>
          rw [hcwd] at heq
          cases heq
      | some base =>
          rw [hcwd] at heq
          cases heq
  | platform => cases hrefuses.1
  | metadata => rfl

theorem firstUnmet_append (refusal : Refusal)
    (front back : List Requirement) :
    FirstUnmet file build refusal (front ++ back) ↔
      FirstUnmet file build refusal front ∨
        (∀ requirement ∈ front, requirement.Met file build) ∧
          FirstUnmet file build refusal back := by
  induction front with
  | nil => simp [FirstUnmet]
  | cons requirement rest ih =>
      rw [List.cons_append, FirstUnmet, FirstUnmet, ih, List.forall_mem_cons]
      by_cases hmet : requirement.Met file build
      · simp [hmet]
      · simp [hmet]

theorem firstUnmet_iff_exists_split (refusal : Refusal)
    (requirements : List Requirement) :
    FirstUnmet file build refusal requirements ↔
      ∃ passed failed rest, requirements = passed ++ failed :: rest ∧
        (∀ requirement ∈ passed, requirement.Met file build) ∧
        ¬ failed.Met file build ∧ failed.Refuses file build refusal := by
  constructor
  · intro hfirst
    induction requirements with
    | nil => exact hfirst.elim
    | cons requirement rest ih =>
        rcases hfirst with ⟨hunmet, hrefuses⟩ | ⟨hmet, hrest⟩
        · exact ⟨[], requirement, rest, rfl, by simp, hunmet, hrefuses⟩
        · obtain ⟨passed, failed, tail, rfl, hpassed, hunmet, hrefuses⟩ :=
            ih hrest
          refine ⟨requirement :: passed, failed, tail, rfl, ?_, hunmet,
            hrefuses⟩
          exact List.forall_mem_cons.mpr ⟨hmet, hpassed⟩
  · rintro ⟨passed, failed, rest, rfl, hpassed, hunmet, hrefuses⟩
    rw [firstUnmet_append]
    exact .inr ⟨hpassed, .inl ⟨hunmet, hrefuses⟩⟩

/-! ## Checks and the requirements they decide -/

/-- The check succeeds when all the requirements are met, and refuses by the
first unmet one. -/
structure Decides {α : Type} (file : Workspace) (build : Build)
    (requirements : List Requirement) (verdict : Except Refusal α) : Prop where
  ok_iff : (∃ value, verdict = .ok value) ↔
    ∀ requirement ∈ requirements, requirement.Met file build
  error_iff : ∀ refusal, verdict = .error refusal ↔
    FirstUnmet file build refusal requirements

theorem Decides.bind {α β : Type} {front back : List Requirement}
    {verdict : Except Refusal α} {rest : α → Except Refusal β}
    (hfront : Decides file build front verdict)
    (hback : ∀ value, verdict = .ok value →
      Decides file build back (rest value)) :
    Decides file build (front ++ back) (verdict >>= rest) := by
  cases hverdict : verdict with
  | error refusal =>
      have hbind : (Except.error refusal >>= rest) = .error refusal := rfl
      have hunmet : ¬ ∀ requirement ∈ front, requirement.Met file build := by
        intro hmet
        obtain ⟨value, hok⟩ := hfront.ok_iff.mpr hmet
        simp [hverdict] at hok
      constructor
      · constructor
        · rintro ⟨value, hok⟩
          simp [hbind] at hok
        · intro hmet
          exact absurd (fun requirement hmem =>
            hmet requirement (List.mem_append_left back hmem)) hunmet
      · intro other
        rw [hbind, firstUnmet_append, ← hfront.error_iff, hverdict]
        constructor
        · intro herror
          cases herror
          exact .inl rfl
        · rintro (herror | ⟨hmet, -⟩)
          · cases herror
            rfl
          · exact absurd hmet hunmet
  | ok value =>
      have hmet : ∀ requirement ∈ front, requirement.Met file build :=
        hfront.ok_iff.mp ⟨value, hverdict⟩
      have hrest := hback value hverdict
      constructor
      · rw [List.forall_mem_append, ← hrest.ok_iff]
        exact (and_iff_right hmet).symm
      · intro refusal
        rw [firstUnmet_append, ← hfront.error_iff, hverdict,
          ← hrest.error_iff]
        constructor
        · intro herror
          exact .inr ⟨hmet, herror⟩
        · rintro (herror | ⟨-, herror⟩)
          · cases herror
          · exact herror

theorem Decides.pure {α : Type} (value : α) :
    Decides file build [] (Except.ok value) where
  ok_iff := by simp
  error_iff := by simp [FirstUnmet]

/-- A check of one requirement. -/
theorem Decides.of_ok_of_error {α : Type} {requirement : Requirement}
    {verdict : Except Refusal α}
    (hmet : requirement.Met file build → ∃ value, verdict = .ok value)
    (hunmet : ¬ requirement.Met file build →
      ∃ refusal, verdict = .error refusal ∧
        ∀ other, requirement.Refuses file build other ↔ other = refusal) :
    Decides file build [requirement] verdict := by
  by_cases hcase : requirement.Met file build
  · obtain ⟨value, hok⟩ := hmet hcase
    constructor
    · simp [hok, hcase]
    · simp [hok, hcase, FirstUnmet]
  · obtain ⟨refusal, herror, hrefuses⟩ := hunmet hcase
    constructor
    · simp [herror, hcase]
    · simp [herror, hcase, FirstUnmet, hrefuses, eq_comm]

/-! ## The checks of a plan -/

theorem usableFilename_decides (file : Workspace) (build : Build) :
    Decides file build [.filename] file.usableFilename := by
  apply Decides.of_ok_of_error
  · rintro ⟨path, hfilename, hbytes⟩
    refine ⟨path, ?_⟩
    rw [Workspace.usableFilename, hfilename]
    exact if_neg hbytes
  · intro hunmet
    refine ⟨.filenameMissing, ?_, fun other => .rfl⟩
    unfold Workspace.usableFilename
    cases hfilename : file.filename with
    | none => rfl
    | some path =>
        by_cases hbytes : path.bytes = []
        · exact if_pos hbytes
        · exact absurd ⟨path, hfilename, hbytes⟩ hunmet

theorem filename_of_usableFilename {file : Workspace} {path : Path}
    (husable : file.usableFilename = .ok path) :
    file.filename = some path := by
  unfold Workspace.usableFilename at husable
  cases hfilename : file.filename with
  | none => simp [hfilename] at husable
  | some other =>
      rw [hfilename] at husable
      by_cases hbytes : other.bytes = []
      · simp [hbytes] at husable
      · simpa [hbytes] using husable

theorem checkExports_decides (file : Workspace) (build : Build) :
    Decides file build [.module, .noNamedExport, .defaultExport]
      file.program.checkExports := by
  unfold Program.checkExports Exports.check
  rw [Program.exports_firstNamed, Program.exports_hasDefault]
  -- A named export is reported before a missing default export.
  cases hsource : file.program.sourceType with
  | script =>
      have hmodule : ¬ module.Met file build := by simp [Met, hsource]
      constructor
      · simp [hmodule]
      · simp [FirstUnmet, hmodule, Refuses, eq_comm]
  | module =>
      have hmodule : module.Met file build := hsource
      cases hfind : file.program.declarations.find?
          Declaration.isNamedExport with
      | some declaration =>
          have hnamed : ¬ noNamedExport.Met file build := by
            intro hnone
            have hfound := List.find?_some hfind
            rw [hnone declaration (List.mem_of_find?_eq_some hfind)] at hfound
            cases hfound
          constructor
          · simp [hnamed]
          · simp [FirstUnmet, hmodule, hnamed, Refuses, hfind, eq_comm]
      | none =>
          have hnamed : noNamedExport.Met file build := by
            simpa [Met] using hfind
          have hdefault : defaultExport.Met file build ↔
              file.program.declarations.any Declaration.isDefaultExport =
                true := by
            simp [Met]
          cases hany : file.program.declarations.any
              Declaration.isDefaultExport with
          | true =>
              have hmet : defaultExport.Met file build := hdefault.mpr hany
              constructor
              · simp [hmodule, hnamed, hmet]
              · simp [FirstUnmet, hmodule, hnamed, hmet]
          | false =>
              have hunmet : ¬ defaultExport.Met file build := by
                simp [hdefault, hany]
              constructor
              · simp [hunmet]
              · simp [FirstUnmet, hmodule, hnamed, hunmet, Refuses, eq_comm]

theorem ofPath_decides {file : Workspace} {path : Path}
    (hfilename : file.filename = some path) (build : Build) :
    Decides file build [.place] (Identity.ofPath path build.cwd) := by
  have hplace : place.Met file build ↔
      ∃ url, Identity.ofPath path build.cwd = .ok url := by
    rw [Identity.exists_ofPath_iff]
    simp [Met, hfilename]
  apply Decides.of_ok_of_error
  · exact hplace.mp
  · intro hunmet
    rcases Identity.exists_ofPath_or_lacks path build.cwd with
      hok | ⟨refusal, hlacks⟩
    · exact absurd (hplace.mpr hok) hunmet
    · refine ⟨refusal, hlacks.ofPath_eq, fun other => ?_⟩
      cases hcwd : build.cwd with
      | none =>
          rw [hcwd] at hlacks
          cases hlacks
          simp [Refuses, hfilename, hcwd]
      | some base =>
          rw [hcwd] at hlacks
          cases hlacks
          simp [Refuses, hfilename, hcwd]

theorem page_decides (file : Workspace) (build : Build) (filename : Path)
    (reference : String) :
    Decides file build [.platform] (build.page filename reference) := by
  unfold Build.page
  apply Decides.of_ok_of_error
  · rintro (hdevelopment | hios | handroid)
    · simp [hdevelopment]
    · cases hproduction : build.production <;> simp [hios]
    · cases hproduction : build.production <;> simp [handroid]
  · intro hunmet
    simp only [Met, not_or, Bool.not_eq_false] at hunmet
    obtain ⟨hproduction, hios, handroid⟩ := hunmet
    refine ⟨.unsupportedPlatform build.platform, ?_, fun other => ?_⟩
    · rw [if_pos hproduction]
      split
      · contradiction
      · contradiction
      · rfl
    · constructor
      · exact And.left
      · rintro rfl
        refine ⟨rfl, ?_⟩
        cases build.platform <;> rfl

theorem members_decides (file : Workspace) (build : Build) :
    Decides file build [.metadata] file.members := by
  unfold Workspace.members
  apply Decides.of_ok_of_error
  · rintro ⟨members, hmetadata⟩
    exact ⟨members, by rw [hmetadata]⟩
  · intro hunmet
    refine ⟨.metadataNotObject, ?_, fun other => .rfl⟩
    split
    · rename_i members hmetadata
      exact absurd ⟨members, hmetadata⟩ hunmet
    · rfl

theorem plan_decides (file : Workspace) (build : Build) :
    Decides file build order (file.plan build) := by
  unfold Workspace.plan
  apply Decides.bind (usableFilename_decides file build)
  intro filename husable
  have hfilename := filename_of_usableFilename husable
  apply Decides.bind (checkExports_decides file build)
  intro _ _
  apply Decides.bind (ofPath_decides hfilename build)
  intro reference _
  apply Decides.bind (page_decides file build filename reference)
  intro page _
  apply Decides.bind (members_decides file build)
  intro members _
  exact Decides.pure _

end Requirement

/-! ## The result of a rewrite -/

/-- The exact result of a rewrite: a build for the web and a program without
the directive are left alone, and otherwise the first unmet requirement refuses
the file; when there is none, it is rewritten. -/
theorem Workspace.rewrite_result_iff (file : Workspace) (build : Build) :
    ((∃ reference, (file.rewrite build).1 = .ok (.rewritten reference)) ↔
      build.platform ≠ some .web ∧
        Directive.useDom ∈ file.program.prologue ∧
        ∀ requirement : Requirement, requirement.Met file build) ∧
    ((file.rewrite build).1 = .ok .untouched ↔
      build.platform = some .web ∨
        Directive.useDom ∉ file.program.prologue) ∧
    (∀ refusal, (file.rewrite build).1 = .error refusal ↔
      build.platform ≠ some .web ∧
        Directive.useDom ∈ file.program.prologue ∧
        ∃ passed failed rest,
          Requirement.order = passed ++ failed :: rest ∧
          (∀ requirement ∈ passed, requirement.Met file build) ∧
          ¬ failed.Met file build ∧
          failed.Refuses file build refusal) := by
  have hweb : build.isWeb = true ↔ build.platform = some .web := by
    simp [Build.isWeb]
  have hplan := Requirement.plan_decides file build
  rw [← Program.hasDirective_iff]
  refine ⟨?_, ?_, fun refusal => ?_⟩
  · simp only [rewrite_eq_rewritten_iff, ← Bool.not_eq_true, hweb]
    constructor
    · rintro ⟨reference, hnative, hdirective, plan, hok, -⟩
      have hmet := hplan.ok_iff.mp ⟨plan, hok⟩
      exact ⟨hnative, hdirective,
        fun requirement => hmet requirement requirement.mem_order⟩
    · rintro ⟨hnative, hdirective, hmet⟩
      obtain ⟨plan, hok⟩ :=
        hplan.ok_iff.mpr fun requirement _ => hmet requirement
      exact ⟨plan.reference, hnative, hdirective, plan, hok, rfl⟩
  · rw [rewrite_eq_untouched_iff, hweb, Bool.not_eq_true]
  · rw [rewrite_eq_error_iff, hplan.error_iff,
      Requirement.firstUnmet_iff_exists_split, ← Bool.not_eq_true, hweb]

end WebviewProxy
