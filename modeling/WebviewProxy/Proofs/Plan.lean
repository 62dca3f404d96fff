import WebviewProxy.Rewrite

/-!
# The plan of a rewrite

A rewrite is written as steps that may read, write and refuse in any order.
Here it is brought into two halves: a plan, which is computed from the file
without touching it and may refuse, and the writes that carry a plan out, which
cannot fail.  Every statement about whole rewrites starts from this form.
-/

namespace WebviewProxy

/-! ## Running single steps -/

namespace RewriteM

variable {α β : Type}

theorem run_get (file : Workspace) :
    (get : RewriteM Workspace).run.run file = (.ok file, file) :=
  rfl

theorem run_liftM (verdict : Except Refusal α) (file : Workspace) :
    (liftM verdict : RewriteM α).run.run file = (verdict, file) := by
  cases verdict with
  | ok value => rfl
  | error refusal => rfl

/-- A refusal ends a run and keeps what was written before it. -/
theorem run_bind (step : RewriteM α) (next : α → RewriteM β)
    (file : Workspace) :
    (step >>= next).run.run file =
      match step.run.run file with
      | (.ok value, after) => (next value).run.run after
      | (.error refusal, after) => (.error refusal, after) := by
  have hstep : (step >>= next).run.run file =
      (ExceptT.bindCont next (step.run.run file).1).run
        (step.run.run file).2 := rfl
  rw [hstep]
  rcases step.run.run file with ⟨result, after⟩
  cases result with
  | ok value => rfl
  | error refusal => rfl

theorem run_get_bind (next : Workspace → RewriteM β) (file : Workspace) :
    (get >>= next).run.run file = (next file).run.run file := by
  rw [run_bind, run_get]

end RewriteM

/-! ## Checks in a row -/

theorem bind_eq_ok {α β : Type} {verdict : Except Refusal α}
    {rest : α → Except Refusal β} {result : β} :
    (verdict >>= rest) = .ok result ↔
      ∃ value, verdict = .ok value ∧ rest value = .ok result := by
  cases verdict <;> simp [bind, Except.bind]

/-! ## Planning and writing -/

/-- What a rewrite is going to write. -/
structure Plan where
  reference : String
  page : Page
  members : List (String × Json)
  deriving Repr

namespace Workspace

/-- The plan for a marked file in a build that is not for the web. -/
def plan (file : Workspace) (build : Build) : Except Refusal Plan := do
  let filename ← file.usableFilename
  file.program.checkExports
  let reference ← Identity.ofPath filename build.cwd
  let page ← build.page filename reference
  let members ← file.members
  return { reference, page, members }

def logged (file : Workspace) (entry : Record) : Workspace :=
  { file with log := file.log ++ [entry] }

/-- The file with the plan carried out. -/
def replaced (file : Workspace) (plan : Plan) : Workspace :=
  { file with
    program := { file.program with body := plan.page.proxyBody }
    metadata := .object
      (Json.setMember referenceKey (.string plan.reference) plan.members) }

/-- How a rewrite of a marked file ends once its plan is known. -/
def settle (file : Workspace) (build : Build) :
    Except Refusal Plan → Except Refusal Outcome × Workspace
  | .ok plan =>
      (.ok (.rewritten plan.reference),
        (file.replaced plan).logged
          (.rewrote build.production plan.reference))
  | .error refusal => (.error refusal, file)

/-- A check may move out of the run into the plan: a refusal leaves the file as
it is, and without one the rest of the run decides. -/
theorem run_check {α : Type} {file : Workspace} {build : Build}
    (verdict : Except Refusal α) {next : α → RewriteM Outcome}
    {rest : α → Except Refusal Plan}
    (hnext : ∀ value,
      (next value).run.run file = file.settle build (rest value)) :
    (liftM verdict >>= next).run.run file =
      file.settle build (verdict >>= rest) := by
  rw [RewriteM.run_bind, RewriteM.run_liftM]
  cases verdict with
  | ok value => exact hnext value
  | error refusal => rfl

/-- A rewrite settles everything that can be refused before its first write. -/
theorem rewrite_eq (file : Workspace) (build : Build) :
    file.rewrite build =
      if build.isWeb then (.ok .untouched, file.logged .skippedOnWeb)
      else if file.program.hasDirective then
        file.settle build (file.plan build)
      else (.ok .untouched, file) := by
  unfold Workspace.rewrite WebviewProxy.rewrite
  cases hweb : build.isWeb with
  | true => rfl
  | false =>
      rw [if_neg (by decide), if_neg (by decide), RewriteM.run_get_bind]
      cases hdirective : file.program.hasDirective with
      | false => rfl
      | true =>
          rw [if_pos rfl, if_pos rfl]
          unfold plan
          -- No check writes, so each one finds the file as it came.
          rw [RewriteM.run_get_bind]
          apply run_check
          intro filename
          rw [RewriteM.run_get_bind]
          apply run_check
          intro _
          apply run_check
          intro reference
          apply run_check
          intro page
          rw [RewriteM.run_get_bind]
          apply run_check
          intro members
          rfl

/-- A rewrite either carries out a plan or writes nothing but the log. -/
theorem rewrite_cases (file : Workspace) (build : Build) :
    (∃ plan, file.program.hasDirective = true ∧
      file.plan build = .ok plan ∧
      file.rewrite build =
        (.ok (.rewritten plan.reference),
          (file.replaced plan).logged
            (.rewrote build.production plan.reference))) ∨
    (∀ reference, (file.rewrite build).1 ≠ .ok (.rewritten reference)) ∧
      ∃ log, (file.rewrite build).2 = { file with log := log } := by
  rw [rewrite_eq]
  cases build.isWeb with
  | true =>
      right
      refine ⟨fun reference heq => ?_, _, rfl⟩
      cases heq
  | false =>
      cases file.program.hasDirective with
      | false =>
          right
          refine ⟨fun reference heq => ?_, file.log, rfl⟩
          cases heq
      | true =>
          cases hplan : file.plan build with
          | ok plan =>
              left
              exact ⟨plan, rfl, rfl, rfl⟩
          | error refusal =>
              right
              refine ⟨fun reference heq => ?_, file.log, rfl⟩
              cases heq

theorem exists_plan_of_rewritten {file : Workspace} {build : Build}
    {reference : String}
    (hresult : (file.rewrite build).1 = .ok (.rewritten reference)) :
    ∃ plan, file.plan build = .ok plan ∧ plan.reference = reference ∧
      (file.rewrite build).2 = (file.replaced plan).logged
        (.rewrote build.production plan.reference) := by
  rcases file.rewrite_cases build with
    ⟨plan, -, hplan, hrun⟩ | ⟨hnone, -⟩
  · rw [hrun] at hresult
    cases hresult
    exact ⟨plan, hplan, rfl, congrArg Prod.snd hrun⟩
  · exact absurd hresult (hnone reference)

/-! ## Results of plans and of rewrites -/

theorem plan_eq_ok_iff (file : Workspace) (build : Build) (plan : Plan) :
    file.plan build = .ok plan ↔
      ∃ filename, file.usableFilename = .ok filename ∧
        file.program.checkExports = .ok () ∧
        Identity.ofPath filename build.cwd = .ok plan.reference ∧
        build.page filename plan.reference = .ok plan.page ∧
        file.members = .ok plan.members := by
  obtain ⟨reference, page, members⟩ := plan
  simp only [Workspace.plan, bind_eq_ok]
  constructor
  · rintro ⟨filename, hfilename, ⟨⟩, hexports, url, hurl, shown, hshown,
      kept, hkept, hplan⟩
    cases hplan
    exact ⟨filename, hfilename, hexports, hurl, hshown, hkept⟩
  · rintro ⟨filename, hfilename, hexports, hurl, hshown, hkept⟩
    exact ⟨filename, hfilename, ⟨⟩, hexports, reference, hurl, page, hshown,
      members, hkept, rfl⟩

theorem rewrite_eq_rewritten_iff (file : Workspace) (build : Build)
    (reference : String) :
    (file.rewrite build).1 = .ok (.rewritten reference) ↔
      build.isWeb = false ∧ file.program.hasDirective = true ∧
        ∃ plan, file.plan build = .ok plan ∧ plan.reference = reference := by
  rw [rewrite_eq]
  cases build.isWeb with
  | true => simp
  | false =>
      cases file.program.hasDirective with
      | false => simp
      | true => cases file.plan build <;> simp [settle]

theorem rewrite_eq_untouched_iff (file : Workspace) (build : Build) :
    (file.rewrite build).1 = .ok .untouched ↔
      build.isWeb = true ∨ file.program.hasDirective = false := by
  rw [rewrite_eq]
  cases build.isWeb with
  | true => simp
  | false =>
      cases file.program.hasDirective with
      | false => simp
      | true => cases file.plan build <;> simp [settle]

theorem rewrite_eq_error_iff (file : Workspace) (build : Build)
    (refusal : Refusal) :
    (file.rewrite build).1 = .error refusal ↔
      build.isWeb = false ∧ file.program.hasDirective = true ∧
        file.plan build = .error refusal := by
  rw [rewrite_eq]
  cases build.isWeb with
  | true => simp
  | false =>
      cases file.program.hasDirective with
      | false => simp
      | true => cases file.plan build <;> simp [settle]

end Workspace

end WebviewProxy
