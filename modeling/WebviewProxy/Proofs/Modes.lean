import WebviewProxy.Proofs.Address
import WebviewProxy.Proofs.OwnExports
import WebviewProxy.Proofs.Requirements

/-!
# Development and production

The mode of a build and its platform decide where the page of a file lies and
nothing else.  So a plan is made in two stages: the file is identified, which
depends on neither of them, and then its page is placed.  Both modes share the
first stage with all its refusals.  In the second stage production may refuse
the platform, and only after that the metadata are looked at.
-/

namespace WebviewProxy

namespace Build

def inMode (build : Build) (production : Bool) : Build :=
  { build with production := production }

/-- Whether exported pages have a place on the platform. -/
def HasAssets (build : Build) : Prop :=
  build.platform = some .ios ∨ build.platform = some .android

theorem exists_page_development (build : Build) (filename : Path)
    (reference : String) :
    ∃ page, (build.inMode false).page filename reference = .ok page :=
  ⟨_, rfl⟩

theorem exists_page_production {build : Build} (hassets : build.HasAssets)
    (filename : Path) (reference : String) :
    ∃ page, (build.inMode true).page filename reference = .ok page := by
  rcases hassets with hplatform | hplatform
  · simp [page, inMode, hplatform]
  · simp [page, inMode, hplatform]

theorem page_unsupported {build : Build} (hassets : ¬ build.HasAssets)
    (filename : Path) (reference : String) :
    (build.inMode true).page filename reference =
      .error (.unsupportedPlatform build.platform) := by
  unfold HasAssets at hassets
  rw [not_or] at hassets
  unfold page inMode
  rw [if_pos rfl]
  split
  next hplatform => exact absurd hplatform hassets.1
  next hplatform => exact absurd hplatform hassets.2
  next => rfl

end Build

namespace Workspace

/-! ## The two stages of a plan -/

def identify (file : Workspace) (cwd : Option Path) :
    Except Refusal (Path × String) := do
  let filename ← file.usableFilename
  file.program.checkExports
  let reference ← Identity.ofPath filename cwd
  return (filename, reference)

/-- The plan for a file that has been identified, once its page has a place. -/
def place (file : Workspace) (reference : String)
    (page : Except Refusal Page) : Except Refusal Plan := do
  let page ← page
  let members ← file.members
  return { reference, page, members }

theorem plan_eq_identify (file : Workspace) (build : Build) :
    file.plan build =
      file.identify build.cwd >>= fun (filename, reference) =>
        file.place reference (build.page filename reference) := by
  simp only [plan, identify, place, bind_assoc, pure_bind]

theorem identify_decides (file : Workspace) (build : Build) :
    Requirement.Decides file build
      [.filename, .module, .noNamedExport, .defaultExport, .place]
      (file.identify build.cwd) := by
  unfold identify
  apply Requirement.Decides.bind
    (Requirement.usableFilename_decides file build)
  intro filename husable
  have hfilename := Requirement.filename_of_usableFilename husable
  apply Requirement.Decides.bind (Requirement.checkExports_decides file build)
  intro _ _
  apply Requirement.Decides.bind (Requirement.ofPath_decides hfilename build)
  intro reference _
  exact Requirement.Decides.pure _

theorem identify_ne_metadataNotObject (file : Workspace) (build : Build) :
    file.identify build.cwd ≠ .error .metadataNotObject := by
  intro herror
  rw [(identify_decides file build).error_iff,
    Requirement.firstUnmet_iff_exists_split] at herror
  obtain ⟨passed, failed, rest, hsplit, -, -, hrefuses⟩ := herror
  have hmem : failed ∈ passed ++ failed :: rest := by simp
  rw [← hsplit, Requirement.eq_metadata_of_refuses hrefuses] at hmem
  simp at hmem

theorem members_cases (file : Workspace) :
    (∃ members, file.members = .ok members) ∨
      file.members = .error .metadataNotObject := by
  unfold members
  split
  next members _ => exact .inl ⟨members, rfl⟩
  next => exact .inr rfl

/-! ## Runs in both modes -/

/-- Either both modes come to the same end before a page is placed, or the file
is identified and the place of the page decides. -/
theorem rewrite_inMode_cases (file : Workspace) (build : Build) :
    (∃ result after,
      (∀ production,
        file.rewrite (build.inMode production) = (result, after)) ∧
      (∀ reference, result ≠ .ok (.rewritten reference)) ∧
      result ≠ .error .metadataNotObject) ∨
    ∃ filename reference, ∀ production,
      file.rewrite (build.inMode production) =
        file.settle (build.inMode production)
          (file.place reference
            ((build.inMode production).page filename reference)) := by
  have hweb : ∀ production,
      (build.inMode production).isWeb = build.isWeb := fun _ => rfl
  have hcwd : ∀ production,
      (build.inMode production).cwd = build.cwd := fun _ => rfl
  simp only [rewrite_eq, plan_eq_identify, hweb, hcwd]
  cases build.isWeb with
  | true =>
      left
      exact ⟨_, _, fun _ => rfl, by simp, by simp⟩
  | false =>
      cases file.program.hasDirective with
      | false =>
          left
          exact ⟨_, _, fun _ => rfl, by simp, by simp⟩
      | true =>
          have hne := file.identify_ne_metadataNotObject build
          cases hidentify : file.identify build.cwd with
          | ok identified =>
              right
              exact ⟨identified.1, identified.2, fun _ => rfl⟩
          | error refusal =>
              left
              rw [hidentify] at hne
              refine ⟨.error refusal, file, fun _ => rfl, by simp, ?_⟩
              intro heq
              cases heq
              exact hne rfl

variable {file : Workspace} {build : Build} {reference : String}

theorem settle_place_ok {members : List (String × Json)}
    (hmembers : file.members = .ok members) (page : Page) :
    file.settle build (file.place reference (.ok page)) =
      (.ok (.rewritten reference),
        (file.replaced ⟨reference, page, members⟩).logged
          (.rewrote build.production reference)) := by
  unfold place
  rw [hmembers]
  rfl

theorem settle_place_error {refusal : Refusal}
    (hmembers : file.members = .error refusal) (page : Page) :
    file.settle build (file.place reference (.ok page)) =
      (.error refusal, file) := by
  unfold place
  rw [hmembers]
  rfl

/-- How a run in production ends, as far as the run in development tells. -/
def Follows (file : Workspace) (build : Build)
    (production : Except Refusal Outcome × Workspace) :
    Except Refusal Outcome × Workspace → Prop
  | (.ok (.rewritten reference), after) =>
      (build.HasAssets → production.1 = .ok (.rewritten reference) ∧
        production.2.metadata = after.metadata ∧
        production.2.program.mask "uri" = after.program.mask "uri") ∧
      (¬ build.HasAssets →
        production = (.error (.unsupportedPlatform build.platform), file))
  | (.error .metadataNotObject, after) =>
      (build.HasAssets →
        production = (.error .metadataNotObject, after)) ∧
      (¬ build.HasAssets →
        production = (.error (.unsupportedPlatform build.platform), file))
  | development => production = development

theorem follows_self {result : Except Refusal Outcome}
    (hresult : ∀ reference, result ≠ .ok (.rewritten reference))
    (hmetadata : result ≠ .error .metadataNotObject)
    (file after : Workspace) (build : Build) :
    file.Follows build (result, after) (result, after) := by
  match result with
  | .ok .untouched => rfl
  | .ok (.rewritten reference) => exact absurd rfl (hresult reference)
  | .error refusal =>
      cases refusal with
      | metadataNotObject => exact absurd rfl hmetadata
      | _ => rfl

theorem follows_place (file : Workspace) (build : Build) (filename : Path)
    (reference : String) :
    file.Follows build
      (file.settle (build.inMode true) (file.place reference
        ((build.inMode true).page filename reference)))
      (file.settle (build.inMode false) (file.place reference
        ((build.inMode false).page filename reference))) := by
  obtain ⟨route, hroute⟩ := build.exists_page_development filename reference
  rw [hroute]
  by_cases hassets : build.HasAssets
  · obtain ⟨asset, hasset⟩ :=
      Build.exists_page_production hassets filename reference
    rw [hasset]
    rcases file.members_cases with ⟨members, hmembers⟩ | hmembers
    · rw [settle_place_ok hmembers, settle_place_ok hmembers]
      have htrees := Page.mask_proxyBody file.program asset route
      exact ⟨fun _ => ⟨rfl, rfl, htrees⟩, fun hnone => absurd hassets hnone⟩
    · rw [settle_place_error hmembers, settle_place_error hmembers]
      exact ⟨fun _ => rfl, fun hnone => absurd hassets hnone⟩
  · have hproduction : file.settle (build.inMode true) (file.place reference
        (.error (.unsupportedPlatform build.platform))) =
          (.error (.unsupportedPlatform build.platform), file) := rfl
    rw [Build.page_unsupported hassets, hproduction]
    rcases file.members_cases with ⟨members, hmembers⟩ | hmembers
    · rw [settle_place_ok hmembers]
      exact ⟨fun hsome => absurd hsome hassets, fun _ => rfl⟩
    · rw [settle_place_error hmembers]
      exact ⟨fun hsome => absurd hsome hassets, fun _ => rfl⟩

theorem rewrite_follows (file : Workspace) (build : Build) :
    file.Follows build (file.rewrite (build.inMode true))
      (file.rewrite (build.inMode false)) := by
  rcases file.rewrite_inMode_cases build with
    ⟨result, after, hrun, hresult, hmetadata⟩ | ⟨filename, reference, hrun⟩
  · rw [hrun, hrun]
    exact follows_self hresult hmetadata file after build
  · rw [hrun, hrun]
    exact follows_place file build filename reference

theorem rewrite_development {build other : Build}
    (hbuild : build.isWeb = false) (hother : other.isWeb = false)
    (hcwd : other.cwd = build.cwd) (file : Workspace) :
    file.rewrite (other.inMode false) = file.rewrite (build.inMode false) := by
  have hplan : file.plan (other.inMode false) =
      file.plan (build.inMode false) := by
    rw [plan_eq_identify, plan_eq_identify,
      show (other.inMode false).cwd = (build.inMode false).cwd from hcwd]
    rfl
  rw [rewrite_eq, rewrite_eq, hplan,
    show (build.inMode false).isWeb = false from hbuild,
    show (other.inMode false).isWeb = false from hother]
  rfl

/-- Production follows development in the fate of every file, up to platforms
without a place for its page, and in development all platforms agree. -/
theorem rewrite_modes_agree (file : Workspace) (build : Build) :
    file.Follows build (file.rewrite (build.inMode true))
      (file.rewrite (build.inMode false)) ∧
    ∀ platform, build.platform ≠ some .web → platform ≠ some .web →
      file.rewrite ({ build with platform := platform }.inMode false) =
        file.rewrite (build.inMode false) := by
  refine ⟨file.rewrite_follows build, ?_⟩
  intro platform hbuild hplatform
  apply rewrite_development
  · simpa [Build.isWeb] using hbuild
  · simpa [Build.isWeb] using hplatform
  · rfl

/-- A file for a platform with a place for its page and for one without, and in
development for both. -/
theorem rewrite_modes_agree_located :
    let file := Program.twoDefaults.located
    let ios : Build := ⟨false, some .ios, none⟩
    let bare : Build := ⟨false, none, none⟩
    (file.rewrite (ios.inMode false)).1 = .ok (.rewritten "file:///a") ∧
      (file.rewrite (ios.inMode true)).1 = .ok (.rewritten "file:///a") ∧
      (file.rewrite (ios.inMode true)).2.program.mask "uri" =
        (file.rewrite (ios.inMode false)).2.program.mask "uri" ∧
    file.rewrite (bare.inMode true) =
        (.error (.unsupportedPlatform none), file) ∧
      file.rewrite (bare.inMode false) = file.rewrite (ios.inMode false) := by
  intro file ios bare
  have hios : ios.HasAssets := .inl rfl
  have hbare : ¬ bare.HasAssets := by
    simp [bare, Build.HasAssets]
  obtain ⟨hfollows, hplatforms⟩ := rewrite_modes_agree file ios
  obtain ⟨hresult, -, htrees⟩ := hfollows.1 hios
  have hunsupported := (rewrite_modes_agree file bare).1.2 hbare
  exact ⟨rfl, hresult, htrees, hunsupported,
    hplatforms none (by decide) (by decide)⟩

end Workspace

end WebviewProxy
