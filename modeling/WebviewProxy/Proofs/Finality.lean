import Mathlib.Data.List.Basic
import WebviewProxy.Proofs.Dependence
import WebviewProxy.Proofs.Effects

/-!
# A rewritten module is final

The body of a proxy starts with an import, so its directive prologue is empty
and every later rewrite leaves it alone, whatever the build and the file are.
It would pass the check of the exports as well.  A refused file is left as it
was, so it is refused again for the same reason.  In both cases a second run
finds nothing left to do.
-/

namespace WebviewProxy

/-! ## Declarations at any depth -/

namespace Tree

mutual

/-- All declarations of a tree, those inside other declarations included. -/
def allDeclarations : Tree → List Declaration
  | .atom _ => []
  | .list items => allDeclarationsOfItems items
  | .string .. => []
  | .statement _ expression => allDeclarations expression
  | .declaration form span parts =>
      ⟨form, span⟩ :: allDeclarationsOfParts parts
  | .node _ parts => allDeclarationsOfParts parts

def allDeclarationsOfItems : List Tree → List Declaration
  | [] => []
  | item :: rest => allDeclarations item ++ allDeclarationsOfItems rest

def allDeclarationsOfParts : List (String × Tree) → List Declaration
  | [] => []
  | (_, part) :: rest => allDeclarations part ++ allDeclarationsOfParts rest

end

mutual

theorem declarations_sublist_all :
    (tree : Tree) → tree.declarations.Sublist tree.allDeclarations
  | .atom _ => .refl []
  | .list items => declarationsOfItems_sublist_all items
  | .string .. => .refl []
  | .statement _ expression => declarations_sublist_all expression
  | .declaration form span parts => by
      unfold declarations allDeclarations
      exact (List.nil_sublist (allDeclarationsOfParts parts)).cons_cons _
  | .node _ parts => declarationsOfParts_sublist_all parts

theorem declarationsOfItems_sublist_all :
    (items : List Tree) →
      (declarationsOfItems items).Sublist (allDeclarationsOfItems items)
  | [] => .refl []
  | item :: rest =>
      (declarations_sublist_all item).append
        (declarationsOfItems_sublist_all rest)

theorem declarationsOfParts_sublist_all :
    (parts : List (String × Tree)) →
      (declarationsOfParts parts).Sublist (allDeclarationsOfParts parts)
  | [] => .refl []
  | (_, part) :: rest =>
      (declarations_sublist_all part).append
        (declarationsOfParts_sublist_all rest)

end

theorem own_sublist_declarations (items : List Tree) :
    (items.filterMap declaration?).Sublist (declarationsOfItems items) := by
  induction items with
  | nil => exact .refl []
  | cons item rest ih =>
      unfold declarationsOfItems
      cases item with
      | declaration form span parts => exact ih.cons_cons ⟨form, span⟩
      | _ => exact List.sublist_append_of_sublist_right ih

end Tree

namespace Program

def allDeclarations (program : Program) : List Declaration :=
  Tree.allDeclarationsOfItems program.body

/-- Where every declaration is an item of the body, the check sees just these
items. -/
theorem declarations_eq_own {program : Program}
    (hall : program.allDeclarations = program.ownDeclarations) :
    program.declarations = program.ownDeclarations := by
  have hdown : program.declarations.Sublist program.ownDeclarations := by
    rw [← hall]
    exact Tree.declarationsOfItems_sublist_all program.body
  exact hdown.antisymm (Tree.own_sublist_declarations program.body)

end Program

namespace Page

open Tree.Generated

theorem allDeclarations_uri (page : Page) : page.uri.allDeclarations = [] := by
  cases page <;>
    simp [uri, call, Tree.Generated.new, member, add, identifier,
      propertyName, stringLiteral, argument, Tree.allDeclarations,
      Tree.allDeclarationsOfItems, Tree.allDeclarationsOfParts, zero, null,
      flag, text, context]

theorem declaration?_proxyBody (page : Page) :
    page.proxyBody.filterMap Tree.declaration? =
      [⟨.importFrom, .zero⟩, ⟨.importFrom, .zero⟩,
        ⟨.exportDefaultExpression, .zero⟩] :=
  rfl

theorem allDeclarations_proxyBody (page : Page) :
    Tree.allDeclarationsOfItems page.proxyBody =
      page.proxyBody.filterMap Tree.declaration? := by
  rw [declaration?_proxyBody]
  simp [proxyBody, importDefault, importNamed, importing, constant, object,
    property, exportDefault, call, member, arrow, returnStatement, spread,
    binding, identifier, propertyName, stringLiteral, argument,
    Tree.allDeclarations, Tree.allDeclarationsOfItems,
    Tree.allDeclarationsOfParts, allDeclarations_uri, zero, null, flag, text,
    context]

end Page

/-! ## Files without the directive -/

namespace Workspace

theorem Unchanged.trans {first second third : Workspace}
    (hsecond : first.Unchanged second) (hthird : second.Unchanged third) :
    first.Unchanged third where
  program := hthird.program.trans hsecond.program
  filename := hthird.filename.trans hsecond.filename
  metadata := hthird.metadata.trans hsecond.metadata

theorem rewrite_of_noDirective {file : Workspace}
    (hdirective : file.program.hasDirective = false) (build : Build) :
    (file.rewrite build).1 = .ok .untouched ∧
      file.Unchanged (file.rewrite build).2 := by
  rw [rewrite_eq, hdirective]
  cases build.isWeb with
  | true => exact ⟨rfl, rfl, rfl, rfl⟩
  | false => exact ⟨rfl, rfl, rfl, rfl⟩

def rewriteAll (file : Workspace) (builds : List Build) : Workspace :=
  builds.foldl (fun file build => (file.rewrite build).2) file

theorem unchanged_rewriteAll {file : Workspace}
    (hdirective : file.program.hasDirective = false)
    (builds : List Build) : file.Unchanged (file.rewriteAll builds) := by
  -- One rewrite keeps the program, and with it the want of a directive.
  induction builds generalizing file with
  | nil => exact ⟨rfl, rfl, rfl⟩
  | cons build rest ih =>
      have hstep := (rewrite_of_noDirective hdirective build).2
      have hnext : (file.rewrite build).2.program.hasDirective = false := by
        rw [hstep.program]
        exact hdirective
      exact hstep.trans (ih hnext)

end Workspace

namespace Host

theorem transform_of_noDirective {program : Program}
    (hdirective : program.hasDirective = false) (host : Host) :
    (host.transform program).program = program ∧
      (host.transform program).diagnostics = [] ∧
      (host.transform program).comments = [] := by
  have hresult : (host.run program).1 = .ok .untouched :=
    (Workspace.rewrite_of_noDirective hdirective host.build).1
  have hshows : (host.transform program).Shows program .nothing := by
    rw [shows_iff, hresult]
    rfl
  exact hshows

end Host

/-! ## Final programs -/

/-- A program that would be accepted as a component but is no marked file, so
that nothing that comes later changes it or has anything to say about it. -/
structure Program.Final (program : Program) : Prop where
  noDirective : Directive.useDom ∉ program.prologue
  accepted : program.checkExports = .ok ()
  noneNested : program.allDeclarations = program.ownDeclarations
  oneDefault : program.ownDeclarations.countP Declaration.isDefaultExport = 1
  noNamed : program.ownDeclarations.countP Declaration.isNamedExport = 0
  rewrite : ∀ (file : Workspace) (build : Build), file.program = program →
    (file.rewrite build).1 = .ok .untouched ∧
      file.Unchanged (file.rewrite build).2
  rewriteAll : ∀ (file : Workspace) (builds : List Build),
    file.program = program → file.Unchanged (file.rewriteAll builds)
  transform : ∀ host : Host, (host.transform program).program = program ∧
    (host.transform program).diagnostics = [] ∧
    (host.transform program).comments = []

theorem Program.final_of_proxyBody {program : Program} {page : Page}
    (hmodule : program.sourceType = .module)
    (hbody : program.body = page.proxyBody) : program.Final := by
  have hown : program.ownDeclarations =
      [⟨.importFrom, .zero⟩, ⟨.importFrom, .zero⟩,
        ⟨.exportDefaultExpression, .zero⟩] := by
    unfold ownDeclarations
    rw [hbody, page.declaration?_proxyBody]
  have hall : program.allDeclarations = program.ownDeclarations := by
    unfold allDeclarations ownDeclarations
    rw [hbody, page.allDeclarations_proxyBody]
  have hprologue : program.prologue = [] := by
    unfold prologue
    rw [hbody, page.prologue_proxyBody]
  have hdirective : program.hasDirective = false := by
    rw [← Bool.not_eq_true, hasDirective_iff, hprologue]
    exact List.not_mem_nil
  constructor
  · rw [hprologue]
    exact List.not_mem_nil
  · rw [checkExports_eq_ok_iff hmodule, declarations_eq_own hall, hown]
    exact ⟨rfl, rfl⟩
  · exact hall
  · rw [hown]
    rfl
  · rw [hown]
    rfl
  · intro file build hprogram
    rw [← hprogram] at hdirective
    exact Workspace.rewrite_of_noDirective hdirective build
  · intro file builds hprogram
    rw [← hprogram] at hdirective
    exact Workspace.unchanged_rewriteAll hdirective builds
  · exact Host.transform_of_noDirective hdirective

theorem Workspace.Rewritten.final {before after : Workspace}
    {reference : String} (hrewritten : before.Rewritten after reference) :
    after.program.Final := by
  obtain ⟨page, hprogram⟩ := hrewritten.program
  rw [hprogram]
  exact Program.final_of_proxyBody hrewritten.isModule rfl

/-! ## Second runs -/

namespace Workspace

variable {file : Workspace} {build : Build}

theorem final_of_rewritten {reference : String}
    (hresult : (file.rewrite build).1 = .ok (.rewritten reference)) :
    (file.rewrite build).2.program.Final := by
  obtain ⟨plan, hplan, -, hafter⟩ := exists_plan_of_rewritten hresult
  rw [hafter]
  exact (rewritten_replaced hplan _).final

theorem unchanged_of_not_rewritten
    (hnone : ∀ reference,
      (file.rewrite build).1 ≠ .ok (.rewritten reference)) :
    file.Unchanged (file.rewrite build).2 := by
  rcases file.rewrite_cases build with
    ⟨plan, -, -, hrun⟩ | ⟨-, log, hafter⟩
  · rw [hrun] at hnone
    exact absurd rfl (hnone plan.reference)
  · rw [hafter]
    exact ⟨rfl, rfl, rfl⟩

theorem Unchanged.result_eq {before after : Workspace}
    (hunchanged : before.Unchanged after) (build : Build) :
    (after.rewrite build).1 = (before.rewrite build).1 := by
  apply result_congr hunchanged.filename hunchanged.metadata
  rw [hunchanged.program]
  exact .refl before.program

/-- A run that rewrites nothing ends in the same way when it is repeated. -/
theorem rewrite_twice_of_not_rewritten
    (hnone : ∀ reference,
      (file.rewrite build).1 ≠ .ok (.rewritten reference)) :
    ((file.rewrite build).2.rewrite build).1 = (file.rewrite build).1 ∧
      (file.rewrite build).2.Unchanged
        ((file.rewrite build).2.rewrite build).2 := by
  have hresult := (unchanged_of_not_rewritten hnone).result_eq build
  refine ⟨hresult, ?_⟩
  apply unchanged_of_not_rewritten
  rw [hresult]
  exact hnone

theorem unchanged_rewrite_twice (file : Workspace) (build : Build) :
    (file.rewrite build).2.Unchanged
      ((file.rewrite build).2.rewrite build).2 := by
  by_cases hrewritten : ∃ reference,
      (file.rewrite build).1 = .ok (.rewritten reference)
  · obtain ⟨reference, hresult⟩ := hrewritten
    exact ((final_of_rewritten hresult).rewrite _ build rfl).2
  · rw [not_exists] at hrewritten
    exact (rewrite_twice_of_not_rewritten hrewritten).2

end Workspace

namespace Host

theorem program_transform_twice (host : Host) (program : Program) :
    (host.transform (host.transform program).program).program =
      (host.transform program).program := by
  by_cases hrewritten : ∃ reference,
      (host.run program).1 = .ok (.rewritten reference)
  · obtain ⟨reference, hresult⟩ := hrewritten
    rw [host.program_transform program]
    exact ((Workspace.final_of_rewritten hresult).transform host).1
  · rw [not_exists] at hrewritten
    have hsame : (host.transform program).program = program :=
      (host.program_transform program).trans
        (Workspace.unchanged_of_not_rewritten hrewritten).program
    rw [hsame, hsame]

theorem transform_twice_of_error {host : Host} {program : Program}
    {refusal : Refusal} (hresult : (host.run program).1 = .error refusal) :
    host.transform (host.transform program).program =
      host.transform program := by
  have hshows := host.shows_ofResult program
  rw [hresult] at hshows
  have hsame : (host.transform program).program = program := hshows.1
  rw [hsame]

end Host

/-- A rewritten module is final.  A refused file stays as it was and is refused
again for the same reason.  So a second run leaves everything as the first one
has left it, whether it is a rewrite or a transform for a host. -/
theorem Workspace.rewritten_module_is_final (file : Workspace)
    (build : Build) :
    (∀ reference, (file.rewrite build).1 = .ok (.rewritten reference) →
      (file.rewrite build).2.program.Final) ∧
    (∀ refusal, (file.rewrite build).1 = .error refusal →
      file.Unchanged (file.rewrite build).2 ∧
      ((file.rewrite build).2.rewrite build).1 = .error refusal ∧
      file.Unchanged ((file.rewrite build).2.rewrite build).2) ∧
    (file.rewrite build).2.Unchanged
      ((file.rewrite build).2.rewrite build).2 ∧
    ∀ (host : Host) (program : Program),
      (host.transform (host.transform program).program).program =
        (host.transform program).program ∧
      ∀ refusal, (host.run program).1 = .error refusal →
        host.transform (host.transform program).program =
          host.transform program := by
  refine ⟨fun reference hresult => final_of_rewritten hresult, ?_,
    file.unchanged_rewrite_twice build, fun host program => ?_⟩
  · intro refusal hresult
    have hnone : ∀ reference,
        (file.rewrite build).1 ≠ .ok (.rewritten reference) := by
      intro reference hrewritten
      rw [hresult] at hrewritten
      cases hrewritten
    have hfirst := unchanged_of_not_rewritten hnone
    obtain ⟨hagain, hsecond⟩ := rewrite_twice_of_not_rewritten hnone
    exact ⟨hfirst, hagain.trans hresult, hfirst.trans hsecond⟩
  · refine ⟨host.program_transform_twice program, ?_⟩
    intro refusal hresult
    exact Host.transform_twice_of_error hresult

theorem Workspace.rewritten_module_is_final_located :
    let build : Build := ⟨false, none, none⟩
    let refused := Program.ambientNamed.located
    (Program.twoDefaults.located.rewrite build).1 =
        .ok (.rewritten "file:///a") ∧
      (Program.twoDefaults.located.rewrite build).2.program.Final ∧
    (refused.rewrite build).1 = .error (.namedExport ⟨24, 25⟩) ∧
      ((refused.rewrite build).2.rewrite build).1 =
        .error (.namedExport ⟨24, 25⟩) := by
  intro build refused
  obtain ⟨hfinal, -⟩ :=
    rewritten_module_is_final Program.twoDefaults.located build
  obtain ⟨-, herror, -⟩ := rewritten_module_is_final refused build
  have hrewritten : (Program.twoDefaults.located.rewrite build).1 =
      .ok (.rewritten "file:///a") := rfl
  have hrefused : (refused.rewrite build).1 =
      .error (.namedExport ⟨24, 25⟩) := rfl
  exact ⟨hrewritten, hfinal _ hrewritten, hrefused, (herror _ hrefused).2.1⟩

end WebviewProxy
