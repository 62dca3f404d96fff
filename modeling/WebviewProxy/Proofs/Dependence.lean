import WebviewProxy.Proofs.OwnExports

/-!
# What a rewrite depends on

Of a program a rewrite reads whether it is a module, where it stands, whether it
carries the directive and what the check of the exports has noted.  The result
depends on nothing else of the program.  A file that is rewritten gives even
less away: the new body is determined by the name of the file and the build, so
nothing of the old body is left in it.
-/

namespace WebviewProxy

/-- The two programs are the same to a rewrite.  The exports of a script are
never looked at. -/
structure Program.LooksLike (first second : Program) : Prop where
  sourceType : first.sourceType = second.sourceType
  span : first.span = second.span
  directive : first.hasDirective = second.hasDirective
  exports : first.sourceType = .module → first.exports = second.exports

theorem Program.LooksLike.refl (program : Program) :
    program.LooksLike program :=
  ⟨rfl, rfl, rfl, fun _ => rfl⟩

theorem Program.LooksLike.checkExports {first second : Program}
    (hlike : first.LooksLike second) :
    first.checkExports = second.checkExports := by
  unfold Program.checkExports
  rw [← hlike.sourceType, ← hlike.span]
  cases hsource : first.sourceType with
  | script => rfl
  | module => rw [hlike.exports hsource]

namespace Workspace

variable {first second : Workspace}

theorem plan_congr (hfilename : first.filename = second.filename)
    (hmetadata : first.metadata = second.metadata)
    (hexports : first.program.checkExports = second.program.checkExports)
    (build : Build) : first.plan build = second.plan build := by
  have husable : first.usableFilename = second.usableFilename := by
    unfold usableFilename
    rw [hfilename]
  have hmembers : first.members = second.members := by
    unfold members
    rw [hmetadata]
  unfold plan
  rw [husable, hmembers, hexports]

/-- How a rewrite ends, said without the file that it leaves. -/
theorem result_rewrite (file : Workspace) (build : Build) :
    (file.rewrite build).1 =
      if build.isWeb = false ∧ file.program.hasDirective = true then
        (file.plan build).map fun plan => .rewritten plan.reference
      else .ok .untouched := by
  rw [rewrite_eq]
  cases build.isWeb with
  | true => rfl
  | false =>
      cases file.program.hasDirective with
      | false => rfl
      | true => cases file.plan build <;> rfl

theorem result_congr (hfilename : first.filename = second.filename)
    (hmetadata : first.metadata = second.metadata)
    (hlike : first.program.LooksLike second.program) (build : Build) :
    (first.rewrite build).1 = (second.rewrite build).1 := by
  rw [result_rewrite, result_rewrite, hlike.directive,
    plan_congr hfilename hmetadata hlike.checkExports]

theorem sourceType_of_plan {file : Workspace} {build : Build} {plan : Plan}
    (hplan : file.plan build = .ok plan) :
    file.program.sourceType = .module := by
  rw [plan_eq_ok_iff] at hplan
  obtain ⟨_, -, hexports, -⟩ := hplan
  exact Program.sourceType_of_checkExports hexports

theorem page_eq_of_plans {build : Build} {plan other : Plan}
    (hfilename : first.filename = second.filename)
    (hfirst : first.plan build = .ok plan)
    (hsecond : second.plan build = .ok other) :
    plan.reference = other.reference ∧ plan.page = other.page := by
  rw [plan_eq_ok_iff] at hfirst hsecond
  obtain ⟨path, hpath, -, hreference, hpage, -⟩ := hfirst
  obtain ⟨path', hpath', -, hreference', hpage', -⟩ := hsecond
  have hsame : path = path' := by
    unfold usableFilename at hpath hpath'
    rw [hfilename, hpath'] at hpath
    cases hpath
    rfl
  subst hsame
  rw [hreference, Except.ok.injEq] at hreference'
  rw [← hreference', hpage, Except.ok.injEq] at hpage'
  exact ⟨hreference', hpage'⟩

theorem replaced_of_same_filename {build : Build} {reference other : String}
    (hfilename : first.filename = second.filename)
    (hfirst : (first.rewrite build).1 = .ok (.rewritten reference))
    (hsecond : (second.rewrite build).1 = .ok (.rewritten other)) :
    reference = other ∧
      (first.rewrite build).2.program.body =
        (second.rewrite build).2.program.body ∧
      (second.rewrite build).2.program =
        { (first.rewrite build).2.program with
          span := second.program.span
          interpreter := second.program.interpreter } := by
  obtain ⟨plan, hplan, hreference, hafter⟩ := exists_plan_of_rewritten hfirst
  obtain ⟨plan', hplan', hreference', hafter'⟩ :=
    exists_plan_of_rewritten hsecond
  obtain ⟨hsame, hpage⟩ := page_eq_of_plans hfilename hplan hplan'
  have hsource : first.program.sourceType = second.program.sourceType :=
    (sourceType_of_plan hplan).trans (sourceType_of_plan hplan').symm
  rw [hafter, hafter']
  refine ⟨?_, ?_, ?_⟩
  · rw [← hreference, ← hreference', hsame]
  · simp only [logged, replaced, hpage]
  · simp only [logged, replaced, hpage, hsource]

/-- Nothing of the old body is left in a rewritten file, and the result of a
rewrite depends on four facts about the program. -/
theorem rewrite_forgets_program (first second : Workspace) (build : Build)
    (hfilename : first.filename = second.filename) :
    (∀ reference other,
      (first.rewrite build).1 = .ok (.rewritten reference) →
      (second.rewrite build).1 = .ok (.rewritten other) →
        reference = other ∧
        (first.rewrite build).2.program.body =
          (second.rewrite build).2.program.body ∧
        (second.rewrite build).2.program =
          { (first.rewrite build).2.program with
            span := second.program.span
            interpreter := second.program.interpreter }) ∧
    (first.metadata = second.metadata →
      first.program.LooksLike second.program →
        (first.rewrite build).1 = (second.rewrite build).1) := by
  constructor
  · intro reference other hfirst hsecond
    exact replaced_of_same_filename hfilename hfirst hsecond
  · intro hmetadata hlike
    exact result_congr hfilename hmetadata hlike build

open Tree.Generated in
def otherApp : Program :=
  { Program.marked [exportDefault (identifier "Other")] with
    span := ⟨7, 9⟩
    interpreter := some "/usr/bin/env node" }

open Tree.Generated in
/-- Two rewritten programs differ in their spans and their interpreter lines
alone, and two that look alike have the same result. -/
theorem rewrite_forgets_program_apps :
    let first := Program.twoDefaults.located
    let second := otherApp.located
    let alike := (Program.marked [exportDefault (identifier "Other")]).located
    let build : Build := ⟨false, none, none⟩
    first.filename = second.filename ∧
      (first.rewrite build).1 = .ok (.rewritten "file:///a") ∧
      (second.rewrite build).1 = .ok (.rewritten "file:///a") ∧
      (second.rewrite build).2.program =
        { (first.rewrite build).2.program with
          span := ⟨7, 9⟩
          interpreter := some "/usr/bin/env node" } ∧
    first.metadata = alike.metadata ∧
      first.program.LooksLike alike.program ∧
      (first.rewrite build).1 = (alike.rewrite build).1 := by
  intro first second alike build
  have hfirst : (first.rewrite build).1 =
      .ok (.rewritten "file:///a") := rfl
  have hsecond : (second.rewrite build).1 =
      .ok (.rewritten "file:///a") := rfl
  have hlike : first.program.LooksLike alike.program :=
    ⟨rfl, rfl, rfl, fun _ => rfl⟩
  obtain ⟨hboth, -⟩ := rewrite_forgets_program first second build rfl
  obtain ⟨-, hresult⟩ := rewrite_forgets_program first alike build rfl
  obtain ⟨-, -, hprogram⟩ := hboth _ _ hfirst hsecond
  exact ⟨rfl, hfirst, hsecond, hprogram, rfl, hlike, hresult rfl hlike⟩

end Workspace

end WebviewProxy
