import WebviewProxy.Proofs.Plan
import WebviewProxy.Proofs.Surface

/-!
# All or nothing

Either a rewrite replaces the body and publishes the reference, or it leaves
the program, the name and the metadata of the file as they were.  The two ends
can be told apart by the program alone: a program is rewritten only when it
carries the directive, and the body of a proxy has an empty prologue.
-/

namespace WebviewProxy

/-! ## The published member -/

namespace Json

theorem keys_setMember (key : String) (value : Json)
    (members : List (String × Json)) :
    (setMember key value members).map Prod.fst =
      if key ∈ members.map Prod.fst then members.map Prod.fst
      else members.map Prod.fst ++ [key] := by
  induction members with
  | nil => rfl
  | cons member rest ih =>
      obtain ⟨name, old⟩ := member
      unfold setMember
      by_cases hname : name = key
      · subst hname
        simp
      · rw [if_neg hname, List.map_cons, ih]
        by_cases hmem : key ∈ rest.map Prod.fst
        · rw [if_pos hmem, List.map_cons, if_pos (List.mem_cons_of_mem _ hmem)]
        · have hnotMem : key ∉ name :: rest.map Prod.fst := by
            rw [List.mem_cons, not_or]
            exact ⟨Ne.symm hname, hmem⟩
          rw [if_neg hmem, List.map_cons, if_neg hnotMem, List.cons_append]

/-- `after` is the object `before` with `key` set to `value`; no other member
has moved or changed. -/
def Sets (key : String) (value before after : Json) : Prop :=
  ∃ old new, before = .object old ∧ after = .object new ∧
    new.lookup key = some value ∧
    (∀ other, other ≠ key → new.lookup other = old.lookup other) ∧
    new.map Prod.fst =
      if key ∈ old.map Prod.fst then old.map Prod.fst
      else old.map Prod.fst ++ [key]

theorem sets_setMember (key : String) (value : Json)
    (members : List (String × Json)) :
    Sets key value (.object members)
      (.object (setMember key value members)) := by
  refine ⟨members, _, rfl, rfl, ?_, ?_, ?_⟩
  · exact lookup_setMember_self key value members
  · intro other hne
    exact lookup_setMember_of_ne hne value members
  · exact keys_setMember key value members

end Json

/-! ## The two ends of a rewrite -/

theorem Page.prologue_proxyBody (page : Page) :
    Directive.prologue page.proxyBody = [] :=
  rfl

theorem Program.sourceType_of_checkExports {program : Program}
    (hcheck : program.checkExports = .ok ()) :
    program.sourceType = .module := by
  unfold Program.checkExports at hcheck
  cases hsource : program.sourceType with
  | module => rfl
  | script =>
      rw [hsource] at hcheck
      cases hcheck

namespace Workspace

/-- What a rewrite may change in a file, and what it has to. -/
structure Rewritten (before after : Workspace) (reference : String) :
    Prop where
  isModule : before.program.sourceType = .module
  program : ∃ page : Page,
    after.program = { before.program with body := page.proxyBody }
  filename : after.filename = before.filename
  metadata : Json.Sets referenceKey (.string reference) before.metadata
    after.metadata

/-- The parts of a file that a rewrite may write are the same. -/
structure Unchanged (before after : Workspace) : Prop where
  program : after.program = before.program
  filename : after.filename = before.filename
  metadata : after.metadata = before.metadata

theorem metadata_of_members {file : Workspace}
    {members : List (String × Json)} (hmembers : file.members = .ok members) :
    file.metadata = .object members := by
  unfold Workspace.members at hmembers
  split at hmembers
  · cases hmembers
    assumption
  · cases hmembers

theorem rewritten_replaced {file : Workspace} {build : Build} {plan : Plan}
    (hplan : file.plan build = .ok plan) (entry : Record) :
    file.Rewritten ((file.replaced plan).logged entry) plan.reference := by
  obtain ⟨filename, -, hexports, -, -, hmembers⟩ :=
    (plan_eq_ok_iff file build plan).mp hplan
  refine ⟨Program.sourceType_of_checkExports hexports, ⟨plan.page, rfl⟩, rfl,
    ?_⟩
  rw [metadata_of_members hmembers]
  exact Json.sets_setMember referenceKey (.string plan.reference) plan.members

/-- A program with the directive is not the proxy of anything. -/
theorem Rewritten.program_ne {before after : Workspace} {reference : String}
    (hrewritten : before.Rewritten after reference)
    (hdirective : before.program.hasDirective = true) :
    after.program ≠ before.program := by
  -- The prologues tell the two programs apart.
  intro heq
  obtain ⟨page, hprogram⟩ := hrewritten.program
  have hbody : before.program.body = page.proxyBody := by
    rw [← heq, hprogram]
  rw [Program.hasDirective_iff, Program.prologue, hbody,
    Page.prologue_proxyBody] at hdirective
  cases hdirective

/-- Whatever the program, the name and the metadata of a file are, a rewrite
changes all that it has to or nothing, and the program tells which. -/
theorem rewrite_all_or_nothing (before : Workspace) (build : Build) :
    (match before.rewrite build with
      | (.ok (.rewritten reference), after) =>
          before.Rewritten after reference
      | (.ok .untouched, after) => before.Unchanged after
      | (.error _, after) => before.Unchanged after) ∧
    ((before.rewrite build).2.program ≠ before.program ↔
      ∃ reference, (before.rewrite build).1 = .ok (.rewritten reference)) := by
  rcases before.rewrite_cases build with
    ⟨plan, hdirective, hplan, hrun⟩ | ⟨hresult, log, hafter⟩
  · have hrewritten := rewritten_replaced hplan
      (.rewrote build.production plan.reference)
    rw [hrun]
    refine ⟨hrewritten, ?_⟩
    constructor
    · intro _
      exact ⟨plan.reference, rfl⟩
    · intro _
      exact hrewritten.program_ne hdirective
  · rcases hrun : before.rewrite build with ⟨result, after⟩
    rw [hrun] at hresult hafter
    dsimp only at hresult hafter
    subst hafter
    constructor
    · cases result with
      | error refusal => exact ⟨rfl, rfl, rfl⟩
      | ok outcome =>
          cases outcome with
          | untouched => exact ⟨rfl, rfl, rfl⟩
          | rewritten reference => exact absurd rfl (hresult reference)
    · constructor
      · intro hne
        exact absurd rfl hne
      · rintro ⟨reference, heq⟩
        exact absurd heq (hresult reference)

end Workspace

end WebviewProxy
