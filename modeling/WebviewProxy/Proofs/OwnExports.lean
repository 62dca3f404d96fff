import WebviewProxy.Proofs.AllOrNothing

/-!
# Exports of the module itself

An item of the body that is a declaration belongs to the module itself.  The
other outermost declarations stand in module blocks somewhere below an item and
export nothing from the module, but the check counts them all the same.  So the
check judges the exports of the module exactly when the nested declarations do
not tip the balance: no named export among them, unless the module has one
itself, and no default export that the module would be refused without.
-/

namespace WebviewProxy

namespace Tree

def declaration? : Tree → Option Declaration
  | .declaration form span _ => some ⟨form, span⟩
  | _ => none

/-- The outermost declarations below an item that is none itself. -/
def nestedDeclarations : Tree → List Declaration
  | .declaration .. => []
  | tree => tree.declarations

theorem any_declarations (tree : Tree) (test : Declaration → Bool) :
    tree.declarations.any test =
      (tree.declaration?.any test || tree.nestedDeclarations.any test) := by
  cases tree with
  | declaration form span parts =>
      simp [declarations, declaration?, nestedDeclarations]
  | _ => simp [declaration?, nestedDeclarations]

theorem any_declarationsOfItems (items : List Tree)
    (test : Declaration → Bool) :
    (declarationsOfItems items).any test =
      ((items.filterMap declaration?).any test ||
        (items.flatMap nestedDeclarations).any test) := by
  induction items with
  | nil => rfl
  | cons item rest ih =>
      rw [declarationsOfItems, List.any_append, any_declarations, ih,
        List.flatMap_cons, List.any_append, List.filterMap_cons]
      cases item.declaration? with
      | none => simp [Bool.or_left_comm]
      | some declaration =>
          simp [Bool.or_assoc, Bool.or_left_comm]

end Tree

namespace Program

open Tree.Generated

def ownDeclarations (program : Program) : List Declaration :=
  program.body.filterMap Tree.declaration?

def nestedDeclarations (program : Program) : List Declaration :=
  program.body.flatMap Tree.nestedDeclarations

theorem any_declarations (program : Program) (test : Declaration → Bool) :
    program.declarations.any test =
      (program.ownDeclarations.any test ||
        program.nestedDeclarations.any test) :=
  Tree.any_declarationsOfItems program.body test

/-- The verdict of the check is the one that the declarations of the module
itself deserve. -/
structure JudgedByOwnExports (program : Program) : Prop where
  named : (∃ span, program.checkExports = .error (.namedExport span)) ↔
    program.ownDeclarations.any Declaration.isNamedExport = true
  missing : program.ownDeclarations.any Declaration.isNamedExport = false →
    (program.checkExports = .error (.noDefaultExport program.span) ↔
      program.ownDeclarations.any Declaration.isDefaultExport = false)

variable {program : Program}

theorem checkExports_of_module (hmodule : program.sourceType = .module) :
    program.checkExports =
      match program.declarations.find? Declaration.isNamedExport with
      | some declaration => .error (.namedExport declaration.span)
      | none =>
          if program.declarations.any Declaration.isDefaultExport then .ok ()
          else .error (.noDefaultExport program.span) := by
  unfold checkExports Exports.check
  rw [hmodule, exports_firstNamed, exports_hasDefault]
  cases program.declarations.find? Declaration.isNamedExport <;> rfl

theorem any_isNamedExport (declarations : List Declaration) :
    declarations.any Declaration.isNamedExport =
      (declarations.find? Declaration.isNamedExport).isSome :=
  List.isSome_find?.symm

theorem checkExports_eq_namedExport_iff
    (hmodule : program.sourceType = .module) :
    (∃ span, program.checkExports = .error (.namedExport span)) ↔
      program.declarations.any Declaration.isNamedExport = true := by
  rw [checkExports_of_module hmodule, any_isNamedExport]
  cases program.declarations.find? Declaration.isNamedExport with
  | some declaration => simp
  | none =>
      cases program.declarations.any Declaration.isDefaultExport <;> simp

theorem checkExports_eq_noDefaultExport_iff
    (hmodule : program.sourceType = .module) :
    program.checkExports = .error (.noDefaultExport program.span) ↔
      program.declarations.any Declaration.isNamedExport = false ∧
        program.declarations.any Declaration.isDefaultExport = false := by
  rw [checkExports_of_module hmodule, any_isNamedExport]
  cases program.declarations.find? Declaration.isNamedExport with
  | some declaration => simp
  | none =>
      cases program.declarations.any Declaration.isDefaultExport <;> simp

theorem checkExports_eq_ok_iff (hmodule : program.sourceType = .module) :
    program.checkExports = .ok () ↔
      program.declarations.any Declaration.isNamedExport = false ∧
        program.declarations.any Declaration.isDefaultExport = true := by
  rw [checkExports_of_module hmodule, any_isNamedExport]
  cases program.declarations.find? Declaration.isNamedExport with
  | some declaration => simp
  | none =>
      cases program.declarations.any Declaration.isDefaultExport <;> simp

theorem judgedByOwnExports_iff (hmodule : program.sourceType = .module) :
    program.JudgedByOwnExports ↔
      (program.nestedDeclarations.any Declaration.isNamedExport = true →
        program.ownDeclarations.any Declaration.isNamedExport = true) ∧
      (program.nestedDeclarations.any Declaration.isDefaultExport = true →
        program.ownDeclarations.any Declaration.isNamedExport = true ∨
          program.ownDeclarations.any Declaration.isDefaultExport = true) := by
  have hjudged : program.JudgedByOwnExports ↔ _ ∧ _ :=
    ⟨fun h => ⟨h.named, h.missing⟩, fun h => ⟨h.1, h.2⟩⟩
  rw [hjudged, checkExports_eq_namedExport_iff hmodule,
    checkExports_eq_noDefaultExport_iff hmodule]
  simp only [any_declarations]
  generalize program.ownDeclarations.any Declaration.isNamedExport = named
  generalize program.ownDeclarations.any Declaration.isDefaultExport = found
  generalize program.nestedDeclarations.any Declaration.isNamedExport =
    nestedNamed
  generalize program.nestedDeclarations.any Declaration.isDefaultExport =
    nestedFound
  revert named found nestedNamed nestedFound
  decide

/-- What the check says of a module, for all declarations nested in it.  Its
verdict is that of the module's own exports exactly when the nested ones do not
tip the balance, and a module that is replaced had a default export of its own
unless a nested one took the place of it. -/
theorem exports_judged_with_nested (program : Program)
    (hmodule : program.sourceType = .module) :
    ((∃ span, program.checkExports = .error (.namedExport span)) ↔
      program.ownDeclarations.any Declaration.isNamedExport = true ∨
        program.nestedDeclarations.any Declaration.isNamedExport = true) ∧
    (program.checkExports = .error (.noDefaultExport program.span) ↔
      (program.ownDeclarations.any Declaration.isNamedExport = false ∧
        program.nestedDeclarations.any Declaration.isNamedExport = false) ∧
      program.ownDeclarations.any Declaration.isDefaultExport = false ∧
        program.nestedDeclarations.any Declaration.isDefaultExport = false) ∧
    (program.JudgedByOwnExports ↔
      (program.nestedDeclarations.any Declaration.isNamedExport = true →
        program.ownDeclarations.any Declaration.isNamedExport = true) ∧
      (program.nestedDeclarations.any Declaration.isDefaultExport = true →
        program.ownDeclarations.any Declaration.isNamedExport = true ∨
          program.ownDeclarations.any Declaration.isDefaultExport = true)) ∧
    ∀ (file : Workspace) (build : Build) (reference : String),
      file.program = program →
      (file.rewrite build).1 = .ok (.rewritten reference) →
        program.ownDeclarations.any Declaration.isDefaultExport = true ∨
          program.nestedDeclarations.any Declaration.isDefaultExport =
            true := by
  refine ⟨?_, ?_, judgedByOwnExports_iff hmodule, ?_⟩
  · rw [checkExports_eq_namedExport_iff hmodule, any_declarations,
      Bool.or_eq_true]
  · rw [checkExports_eq_noDefaultExport_iff hmodule, any_declarations,
      any_declarations, Bool.or_eq_false_iff, Bool.or_eq_false_iff]
  · intro file build reference hprogram hrewrite
    obtain ⟨-, -, plan, hplan, -⟩ :=
      (Workspace.rewrite_eq_rewritten_iff file build reference).mp hrewrite
    obtain ⟨-, -, hcheck, -⟩ :=
      (Workspace.plan_eq_ok_iff file build plan).mp hplan
    rw [hprogram] at hcheck
    have hdefault := ((checkExports_eq_ok_iff hmodule).mp hcheck).2
    rwa [any_declarations, Bool.or_eq_true] at hdefault

/-- The declaration of an ambient module that holds the items. -/
def ambient (items : List Tree) : Tree :=
  .node (some "TsModuleDeclaration")
    [("id", stringLiteral "m"),
      ("body", .node (some "TsModuleBlock")
        [("body", .list items), ("span", zero)]),
      ("declare", flag true), ("global", flag false),
      ("namespace", flag false), ("span", zero)]

/-- A file with the program, at `/a`. -/
def located (program : Program) : Workspace where
  program := program
  filename := some ⟨[0x2F, 0x61]⟩
  metadata := .object []

/-- A module with a default export of its own, next to an ambient module with
another one. -/
def twoDefaults : Program :=
  marked [ambient [exportDefault (identifier "App")],
    exportDefault (identifier "App")]

theorem twoDefaults_judgedByOwnExports :
    twoDefaults.sourceType = .module ∧ twoDefaults.JudgedByOwnExports ∧
    (twoDefaults.located.rewrite ⟨false, none, none⟩).1 =
      .ok (.rewritten "file:///a") ∧
    (twoDefaults.ownDeclarations.any Declaration.isDefaultExport = true ∨
      twoDefaults.nestedDeclarations.any Declaration.isDefaultExport =
        true) := by
  obtain ⟨-, -, hjudged, hreplaced⟩ :=
    exports_judged_with_nested twoDefaults rfl
  refine ⟨rfl, hjudged.mpr ⟨by decide, by decide⟩, rfl, ?_⟩
  exact hreplaced twoDefaults.located ⟨false, none, none⟩ "file:///a" rfl rfl

/-- A module whose only default export is that of an ambient module in it. -/
def ambientDefault : Program :=
  marked [ambient [exportDefault (identifier "App")]]

/-- A module with a single default export, next to an ambient module that holds
an `export` of no names. -/
def ambientNamed : Program :=
  let empty := .declaration .exportNamed ⟨24, 25⟩
    [("source", null), ("specifiers", .list []), ("typeOnly", flag false),
      ("with", null)]
  marked [ambient [empty], exportDefault (identifier "App")]

/-- The first of the two is replaced and the second is refused, though it is the
second alone that has a default export and no other. -/
theorem not_judgedByOwnExports_ambient :
    (ambientDefault.ownDeclarations = [] ∧
      ambientDefault.checkExports = .ok () ∧
      ¬ ambientDefault.JudgedByOwnExports ∧
      (ambientDefault.located.rewrite ⟨false, none, none⟩).1 =
        .ok (.rewritten "file:///a")) ∧
    ambientNamed.ownDeclarations = [⟨.exportDefaultExpression, .zero⟩] ∧
      ambientNamed.checkExports = .error (.namedExport ⟨24, 25⟩) ∧
      ¬ ambientNamed.JudgedByOwnExports := by
  refine ⟨⟨rfl, rfl, ?_, rfl⟩, rfl, rfl, ?_⟩
  · rw [judgedByOwnExports_iff rfl]
    decide
  · rw [judgedByOwnExports_iff rfl]
    decide

end Program

end WebviewProxy
