import Mathlib.Logic.ExistsUnique
import WebviewProxy.Host
import WebviewProxy.Proofs.AllOrNothing
import WebviewProxy.Proofs.Requirements

/-!
# What a host sees of a transform

A host hands over a program and sees one of three effects: nothing at all, one
diagnostic about a program that stays as it was, or a new program.  Which of
them it is follows the result of the rewrite in the build that the options and
the environment of the host give.  The metadata of a file that a host hands over
is a fresh object, so it is never a reason to refuse the file.
-/

namespace WebviewProxy

/-! ## Refusals as they are reported -/

namespace Refusal

theorem span?_eq_some_iff (refusal : Refusal) (span : Span) :
    refusal.span? = some span ↔
      span.isDummy = false ∧
        (refusal = .namedExport span ∨ refusal = .noDefaultExport span) := by
  cases refusal with
  | namedExport other =>
      simp only [span?, Span.located?_eq_some_iff, namedExport.injEq,
        reduceCtorEq, or_false]
      constructor
      · rintro ⟨hother, rfl⟩
        exact ⟨hother, rfl⟩
      · rintro ⟨hspan, rfl⟩
        exact ⟨hspan, rfl⟩
  | noDefaultExport other =>
      simp only [span?, Span.located?_eq_some_iff, noDefaultExport.injEq,
        reduceCtorEq, false_or]
      constructor
      · rintro ⟨hother, rfl⟩
        exact ⟨hother, rfl⟩
      · rintro ⟨hspan, rfl⟩
        exact ⟨hspan, rfl⟩
  | _ => simp [span?]

theorem head?_append {text : String} {c : Char}
    (htext : text.toList.head? = some c) (rest : String) :
    (text ++ rest).toList.head? = some c := by
  rw [String.toList_append, List.head?_append, htext]
  rfl

/-- The message about metadata is that of no other refusal: its first character
tells it apart. -/
theorem message_ne_of_ne {refusal : Refusal}
    (hne : refusal ≠ .metadataNotObject) :
    refusal.message ≠ metadataNotObject.message := by
  have hinitial : ∃ c, refusal.message.toList.head? = some c ∧ c ≠ 'e' := by
    cases refusal with
    | filenameMissing => exact ⟨'[', rfl, by decide⟩
    | noWorkingDirectory path =>
        exact ⟨'[', head?_append (head?_append rfl _) _, by decide⟩
    | notAbsolute path =>
        exact ⟨'[', head?_append (head?_append rfl _) _, by decide⟩
    | namedExport span => exact ⟨'M', head?_append rfl _, by decide⟩
    | noDefaultExport span => exact ⟨'T', head?_append rfl _, by decide⟩
    | unsupportedPlatform platform =>
        exact ⟨'p', head?_append rfl _, by decide⟩
    | metadataNotObject => exact absurd rfl hne
  obtain ⟨c, hhead, hc⟩ := hinitial
  intro heq
  have hexpected : metadataNotObject.message.toList.head? = some 'e' := rfl
  rw [← heq, hhead, Option.some.injEq] at hexpected
  exact hc hexpected

end Refusal

/-! ## Builds as hosts describe them -/

theorem Platform.ofName_eq_web_iff (name : String) :
    Platform.ofName name = .web ↔ name = "web" := by
  unfold ofName
  split
  · simp_all
  · split
    · simp_all
    · split <;> simp_all

namespace Host

theorem isWeb_build_iff (host : Host) :
    host.build.isWeb = true ↔
      (Options.ofHost host.options).platform = some "web" := by
  simp [build, Build.isWeb, Build.ofOptions, Platform.ofName_eq_web_iff]

theorem build_empty_cwd (host : Host) :
    { host with cwd := some "" }.build = { host with cwd := none }.build := by
  simp [build, Build.ofOptions]

/-! ## The run behind a transform -/

def run (host : Host) (program : Program) :
    Except Refusal Outcome × Workspace :=
  (host.workspace program).rewrite host.build

theorem transform_eq (host : Host) (program : Program) :
    host.transform program =
      match host.run program with
      | (.ok .untouched, after) =>
          { program := after.program, log := after.log }
      | (.error refusal, after) =>
          { program := after.program, diagnostics := [refusal.diagnostic]
            log := after.log }
      | (.ok (.rewritten reference), after) =>
          { program := after.program
            comments :=
              if host.comments then after.program.announce reference else []
            log := after.log } := by
  unfold transform run
  rcases (host.workspace program).rewrite host.build with ⟨result, after⟩
  cases result with
  | error refusal => rfl
  | ok outcome =>
      cases outcome with
      | untouched => rfl
      | rewritten reference => cases host.comments <;> rfl

theorem program_transform (host : Host) (program : Program) :
    (host.transform program).program = (host.run program).2.program := by
  rw [transform_eq]
  rcases host.run program with ⟨_ | _ | _, after⟩ <;> rfl

/-- Fresh metadata are an object, so they refuse nothing. -/
theorem plan_ne_metadataNotObject (host : Host) (program : Program) :
    (host.workspace program).plan host.build ≠ .error .metadataNotObject := by
  intro hplan
  have hfirst := (Requirement.plan_decides _ _).error_iff _ |>.mp hplan
  obtain ⟨passed, failed, rest, -, -, hunmet, hrefuses⟩ :=
    (Requirement.firstUnmet_iff_exists_split _ _).mp hfirst
  rw [Requirement.eq_metadata_of_refuses hrefuses] at hunmet
  exact hunmet ⟨[], rfl⟩

/-- The three ends of a run, and what becomes of the program in each. -/
theorem run_cases (host : Host) (program : Program) :
    (∃ after, host.run program = (.ok .untouched, after) ∧
      after.program = program) ∨
    (∃ refusal after, host.run program = (.error refusal, after) ∧
      refusal ≠ .metadataNotObject ∧ after.program = program) ∨
    ∃ reference after, host.run program = (.ok (.rewritten reference), after) ∧
      (host.workspace program).Rewritten after reference ∧
      after.program ≠ program := by
  unfold run
  rcases (host.workspace program).rewrite_cases host.build with
    ⟨plan, hdirective, hplan, hrun⟩ | ⟨hresult, log, hafter⟩
  · right
    right
    have hrewritten := Workspace.rewritten_replaced hplan
      (.rewrote host.build.production plan.reference)
    exact ⟨plan.reference, _, hrun, hrewritten,
      hrewritten.program_ne hdirective⟩
  · rcases hrun : (host.workspace program).rewrite host.build with
      ⟨result, after⟩
    rw [hrun] at hresult hafter
    have hprogram : after.program = program :=
      congrArg Workspace.program hafter
    cases result with
    | error refusal =>
        right
        left
        refine ⟨refusal, after, rfl, ?_, hprogram⟩
        rintro rfl
        have herror := congrArg Prod.fst hrun
        rw [Workspace.rewrite_eq_error_iff] at herror
        exact plan_ne_metadataNotObject host program herror.2.2
    | ok outcome =>
        cases outcome with
        | untouched => exact .inl ⟨after, rfl, hprogram⟩
        | rewritten reference => exact absurd rfl (hresult reference)

end Host

/-! ## The three effects -/

inductive Effect where
  | nothing
  | report
  | replacement
  deriving DecidableEq, Repr

namespace Effect

def ofResult : Except Refusal Outcome → Effect
  | .ok .untouched => .nothing
  | .error _ => .report
  | .ok (.rewritten _) => .replacement

theorem nothing_eq_ofResult_iff (result : Except Refusal Outcome) :
    nothing = ofResult result ↔ result = .ok .untouched := by
  rcases result with _ | _ | _ <;> simp [ofResult]

theorem report_eq_ofResult_iff (result : Except Refusal Outcome) :
    report = ofResult result ↔ ∃ refusal, result = .error refusal := by
  rcases result with _ | _ | _ <;> simp [ofResult]

theorem replacement_eq_ofResult_iff (result : Except Refusal Outcome) :
    replacement = ofResult result ↔
      ∃ reference, result = .ok (.rewritten reference) := by
  rcases result with _ | _ | _ <;> simp [ofResult]

end Effect

namespace Emission

/-- Whether the emission for a program shows the effect. -/
def Shows (emission : Emission) (program : Program) : Effect → Prop
  | .nothing => emission.program = program ∧ emission.diagnostics = [] ∧
      emission.comments = []
  | .report => emission.program = program ∧
      emission.diagnostics.length = 1 ∧ emission.comments = []
  | .replacement => emission.program ≠ program ∧ emission.diagnostics = []

theorem Shows.unique {emission : Emission} {program : Program}
    {effect other : Effect} (heffect : emission.Shows program effect)
    (hother : emission.Shows program other) : effect = other := by
  cases effect <;> cases other <;> simp_all [Shows]

end Emission

/-- The diagnostic tells why the file was refused, and where in the source if
there is such a place. -/
structure Diagnostic.Explains (diagnostic : Diagnostic) (refusal : Refusal) :
    Prop where
  message : diagnostic.message = refusal.message
  span : ∀ span, diagnostic.span = some span ↔
    span.isDummy = false ∧
      (refusal = .namedExport span ∨ refusal = .noDefaultExport span)

theorem Refusal.diagnostic_explains (refusal : Refusal) :
    refusal.diagnostic.Explains refusal :=
  ⟨rfl, refusal.span?_eq_some_iff⟩

theorem Program.announce_eq (program : Program) (reference : String) :
    program.announce reference =
      if program.span.isDummy then []
      else [⟨program.span.start,
        " " ++ referenceKey ++ ": " ++ reference ++ " "⟩] := by
  unfold Program.announce Span.located?
  cases program.span.isDummy <;> rfl

namespace Host

theorem shows_ofResult (host : Host) (program : Program) :
    (host.transform program).Shows program
      (.ofResult (host.run program).1) := by
  rw [transform_eq]
  rcases host.run_cases program with
    ⟨after, hrun, hprogram⟩ | ⟨refusal, after, hrun, -, hprogram⟩ |
    ⟨reference, after, hrun, -, hne⟩
  · rw [hrun]
    exact ⟨hprogram, rfl, rfl⟩
  · rw [hrun]
    exact ⟨hprogram, rfl, rfl⟩
  · rw [hrun]
    exact ⟨hne, rfl⟩

theorem shows_iff (host : Host) (program : Program) (effect : Effect) :
    (host.transform program).Shows program effect ↔
      effect = .ofResult (host.run program).1 := by
  constructor
  · intro hshows
    exact hshows.unique (host.shows_ofResult program)
  · rintro rfl
    exact host.shows_ofResult program

theorem run_ne_metadataNotObject (host : Host) (program : Program) :
    (host.run program).1 ≠ .error .metadataNotObject := by
  intro herror
  rcases host.run_cases program with
    ⟨after, hrun, -⟩ | ⟨refusal, after, hrun, hne, -⟩ |
    ⟨reference, after, hrun, -, -⟩
  · rw [hrun] at herror
    cases herror
  · rw [hrun] at herror
    cases herror
    exact hne rfl
  · rw [hrun] at herror
    cases herror

theorem diagnostics_of_error {host : Host} {program : Program}
    {refusal : Refusal} (herror : (host.run program).1 = .error refusal) :
    (host.transform program).diagnostics = [refusal.diagnostic] := by
  rw [transform_eq]
  rcases hrun : host.run program with ⟨result, after⟩
  rw [hrun] at herror
  cases herror
  rfl

theorem exists_error_of_mem_diagnostics {host : Host} {program : Program}
    {diagnostic : Diagnostic}
    (hmem : diagnostic ∈ (host.transform program).diagnostics) :
    ∃ refusal, (host.run program).1 = .error refusal ∧
      diagnostic = refusal.diagnostic := by
  rw [transform_eq] at hmem
  rcases hrun : host.run program with ⟨_ | _ | _, after⟩
  · rw [hrun] at hmem
    exact ⟨_, rfl, List.mem_singleton.mp hmem⟩
  · rw [hrun] at hmem
    cases hmem
  · rw [hrun] at hmem
    cases hmem

theorem exists_rewritten_of_mem_comments {host : Host} {program : Program}
    {comment : Comment}
    (hmem : comment ∈ (host.transform program).comments) :
    ∃ reference, (host.run program).1 = .ok (.rewritten reference) ∧
      comment ∈ (host.run program).2.program.announce reference := by
  rw [transform_eq] at hmem
  rcases hrun : host.run program with ⟨_ | _ | reference, after⟩
  · rw [hrun] at hmem
    cases hmem
  · rw [hrun] at hmem
    cases hmem
  · rw [hrun] at hmem
    dsimp only at hmem
    split at hmem
    · exact ⟨reference, rfl, hmem⟩
    · cases hmem

theorem transform_of_rewritten {host : Host} {program : Program}
    {reference : String}
    (hresult : (host.run program).1 = .ok (.rewritten reference)) :
    program.sourceType = .module ∧
      (∃ page : Page, (host.transform program).program =
        { program with body := page.proxyBody }) ∧
      (host.transform program).program = (host.run program).2.program ∧
      (host.transform program).comments =
        if host.comments = true ∧ program.span.isDummy = false then
          [⟨program.span.start,
            " " ++ referenceKey ++ ": " ++ reference ++ " "⟩]
        else [] := by
  rw [transform_eq]
  rcases host.run_cases program with
    ⟨after, hrun, -⟩ | ⟨refusal, after, hrun, -, -⟩ |
    ⟨reference, after, hrun, hrewritten, -⟩
  · rw [hrun] at hresult
    cases hresult
  · rw [hrun] at hresult
    cases hresult
  · rw [hrun] at hresult ⊢
    cases hresult
    obtain ⟨page, hprogram⟩ := hrewritten.program
    refine ⟨hrewritten.isModule, ⟨page, hprogram⟩, rfl, ?_⟩
    -- The new program stands where the old one stood.
    have hspan : after.program.span = program.span := by
      rw [hprogram]
      rfl
    dsimp only
    rw [Program.announce_eq, hspan]
    cases host.comments <;> cases program.span.isDummy <;> rfl

/-- Every transform has exactly one of the three effects, and the result of the
rewrite in the build of the host tells which. -/
theorem transform_effects (host : Host) (program : Program) :
    (∃! effect, (host.transform program).Shows program effect) ∧
    ((host.transform program).Shows program .nothing ↔
      (Options.ofHost host.options).platform = some "web" ∨
        Directive.useDom ∉ program.prologue) ∧
    ((host.transform program).Shows program .report ↔
      ∃ refusal, (host.run program).1 = .error refusal) ∧
    (∀ refusal, (host.run program).1 = .error refusal →
      ∃ diagnostic, (host.transform program).diagnostics = [diagnostic] ∧
        diagnostic.Explains refusal) ∧
    ((host.transform program).Shows program .replacement ↔
      ∃ reference, (host.run program).1 = .ok (.rewritten reference)) ∧
    (∀ reference, (host.run program).1 = .ok (.rewritten reference) →
      program.sourceType = .module ∧
      (∃ page : Page, (host.transform program).program =
        { program with body := page.proxyBody }) ∧
      (host.transform program).program = (host.run program).2.program ∧
      (host.transform program).comments =
        if host.comments = true ∧ program.span.isDummy = false then
          [⟨program.span.start,
            " " ++ referenceKey ++ ": " ++ reference ++ " "⟩]
        else []) ∧
    (host.run program).1 ≠ .error .metadataNotObject ∧
    (∀ diagnostic ∈ (host.transform program).diagnostics,
      diagnostic.message ≠ Refusal.metadataNotObject.message) ∧
    { host with cwd := some "" }.transform program =
      { host with cwd := none }.transform program := by
  refine ⟨?_, ?_, ?_, ?_, ?_, ?_, run_ne_metadataNotObject host program, ?_,
    ?_⟩
  · refine ⟨_, host.shows_ofResult program, fun effect heffect => ?_⟩
    exact heffect.unique (host.shows_ofResult program)
  · rw [shows_iff, ← isWeb_build_iff, ← Program.hasDirective_iff,
      Bool.not_eq_true]
    rw [Effect.nothing_eq_ofResult_iff]
    exact Workspace.rewrite_eq_untouched_iff (host.workspace program)
      host.build
  · rw [shows_iff, Effect.report_eq_ofResult_iff]
  · intro refusal herror
    exact ⟨_, diagnostics_of_error herror, refusal.diagnostic_explains⟩
  · rw [shows_iff, Effect.replacement_eq_ofResult_iff]
  · intro reference hresult
    exact transform_of_rewritten hresult
  · intro diagnostic hmem
    obtain ⟨refusal, herror, rfl⟩ := exists_error_of_mem_diagnostics hmem
    apply Refusal.message_ne_of_ne
    rintro rfl
    exact run_ne_metadataNotObject host program herror
  · unfold transform
    rw [build_empty_cwd]
    rfl

/-- A host of a development build that hands over one file. -/
def ofFilename (filename : String) : Host where
  options := none
  environment := none
  cwd := none
  filename := some filename
  comments := true

def exportedApp : Program :=
  .marked [Tree.Generated.exportDefault (Tree.Generated.identifier "App")]

/-- Without a default export the file is refused, with one it is rewritten. -/
theorem transform_effects_marked :
    (((ofFilename "/a").run (.marked [])).1 =
        .error (.noDefaultExport ⟨1, 100⟩) ∧
      ∃ diagnostic,
        ((ofFilename "/a").transform (.marked [])).diagnostics =
          [diagnostic] ∧
        diagnostic.Explains (.noDefaultExport ⟨1, 100⟩)) ∧
    ((ofFilename "/a").run exportedApp).1 = .ok (.rewritten "file:///a") ∧
      ((ofFilename "/a").transform exportedApp).comments =
        [⟨1, " expoDomComponentReference: file:///a "⟩] := by
  obtain ⟨-, -, -, hreport, -⟩ :=
    transform_effects (ofFilename "/a") (.marked [])
  obtain ⟨-, -, -, -, -, hreplacement, -⟩ :=
    transform_effects (ofFilename "/a") exportedApp
  obtain ⟨-, -, -, hcomments⟩ := hreplacement "file:///a" rfl
  exact ⟨⟨rfl, hreport _ rfl⟩, rfl, hcomments⟩

end Host

end WebviewProxy
