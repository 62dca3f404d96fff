import Mathlib.Logic.Relation
import WebviewProxy.Proofs.IdentityUrl

/-!
# Spellings of one place

A list of segments can be shortened without leaving its place: empty segments
and single dots go, a name goes together with the parent directory behind it,
and a parent directory at the root goes alone.  Replaying the segments on a
stack of names does not see any of these steps, and the stack is itself what
shortening ends with.  So two lists spell the same place exactly when their
stacks agree, and then, and only then, the identities agree.
-/

namespace WebviewProxy.Path

/-- One step of shortening a list of segments below the root. -/
inductive Shortens : List (List UInt8) → List (List UInt8) → Prop
  | empty (before after : List (List UInt8)) :
      Shortens (before ++ [] :: after) (before ++ after)
  | dot (before after : List (List UInt8)) :
      Shortens (before ++ dot :: after) (before ++ after)
  | parent (before after : List (List UInt8)) {name : List UInt8}
      (hname : Plain name) :
      Shortens (before ++ name :: dotDot :: after) (before ++ after)
  | root (after : List (List UInt8)) : Shortens (dotDot :: after) after

/-- Two lists of segments that lead to the same place below the root. -/
def SamePlace : List (List UInt8) → List (List UInt8) → Prop :=
  Relation.EqvGen Shortens

theorem Shortens.resolve_eq {long short : List (List UInt8)}
    (hstep : Shortens long short) : resolve long = resolve short := by
  cases hstep with
  | empty before after => simp [resolve]
  | dot before after => simp [resolve]
  | parent before after hname => simp [resolve, enter_of_plain hname]
  | root after => simp [resolve]

theorem SamePlace.resolve_eq {first second : List (List UInt8)}
    (hsame : SamePlace first second) : resolve first = resolve second := by
  induction hsame with
  | rel _ _ hstep => exact hstep.resolve_eq
  | refl => rfl
  | symm _ _ _ ih => exact ih.symm
  | trans _ _ _ _ _ hfirst hsecond => exact hfirst.trans hsecond

/-- Replaying one more segment is at most one step of shortening. -/
theorem shortens_enter {names : List (List UInt8)}
    (hnames : ∀ name ∈ names, Plain name) (segment : List UInt8)
    (rest : List (List UInt8)) :
    Relation.ReflTransGen Shortens (names ++ segment :: rest)
      (enter names segment ++ rest) := by
  rcases segment_cases segment with rfl | rfl | rfl | hplain
  · rw [enter_nil]
    exact .single (.empty names rest)
  · rw [enter_dot]
    exact .single (.dot names rest)
  · rw [enter_dotDot]
    rcases List.eq_nil_or_concat names with rfl | ⟨front, name, rfl⟩
    · exact .single (.root rest)
    · have hname : Plain name := hnames name (by simp)
      rw [List.concat_eq_append, List.dropLast_concat, List.append_assoc]
      exact .single (.parent front rest hname)
  · rw [enter_of_plain hplain, List.append_assoc]
    exact .refl

theorem shortens_foldl_enter {segments names : List (List UInt8)}
    (hnames : ∀ name ∈ names, Plain name) :
    Relation.ReflTransGen Shortens (names ++ segments)
      (segments.foldl enter names) := by
  induction segments generalizing names with
  | nil => rw [List.append_nil]; exact .refl
  | cons segment rest ih =>
      have hnext : ∀ name ∈ enter names segment, Plain name := by
        intro name hname
        rcases mem_enter hname with hold | ⟨rfl, hplain⟩
        · exact hnames name hold
        · exact hplain
      exact (shortens_enter hnames segment rest).trans (ih hnext)

theorem shortens_resolve (segments : List (List UInt8)) :
    Relation.ReflTransGen Shortens segments (resolve segments) := by
  have hnone : ∀ name ∈ ([] : List (List UInt8)), Plain name := by simp
  exact shortens_foldl_enter hnone

theorem samePlace_resolve (segments : List (List UInt8)) :
    SamePlace segments (resolve segments) :=
  Relation.EqvGen.reflTransGen_le_eqvGen Shortens _ _
    (shortens_resolve segments)

theorem samePlace_iff_resolve_eq (first second : List (List UInt8)) :
    SamePlace first second ↔ resolve first = resolve second := by
  constructor
  · exact SamePlace.resolve_eq
  · intro heq
    have hsecond := samePlace_resolve second
    rw [← heq] at hsecond
    exact .trans _ _ _ (samePlace_resolve first) (.symm _ _ hsecond)

end WebviewProxy.Path

namespace WebviewProxy.Identity

theorem locate_some (path base : Path) :
    locate path (some base) = some (base.join path) := by
  unfold locate
  cases hpath : path.isAbsolute with
  | true => rw [if_pos rfl, Path.join_of_isAbsolute hpath]
  | false => rfl

/-- The identity depends on nothing but the normal form of the place. -/
theorem ofPath_eq_of_normalize_eq {first second base other : Path}
    (hnormal : (base.join first).normalize = (other.join second).normalize) :
    ofPath first (some base) = ofPath second (some other) := by
  have habsolute : (base.join first).isAbsolute =
      (other.join second).isAbsolute := by
    rw [← Path.isAbsolute_normalize, hnormal, Path.isAbsolute_normalize]
  have hresolve : Path.resolve (base.join first).segments =
      Path.resolve (other.join second).segments := by
    rw [← Path.resolve_normalize, hnormal, Path.resolve_normalize]
  simp only [ofPath_eq, locate_some, habsolute, hresolve, hnormal]

theorem ofPath_place {path place : Path} {cwd : Option Path}
    (hplace : locate path cwd = some place)
    (habsolute : place.isAbsolute = true) :
    ofPath path cwd = .ok (urlOf (Path.resolve place.segments)) :=
  (ofPath_eq_ok_iff path cwd _).mpr ⟨place, hplace, habsolute, rfl⟩

/-- The identity is a complete invariant of the place of a file.  Two files
with absolute places have identities, and these agree exactly when the segments
of the places are spellings of one another.  It does not matter where a path is
cut into working directory and filename, nor whether the working directory was
brought to its normal form. -/
theorem ofPath_eq_iff_samePlace :
    (∀ (first second firstPlace secondPlace : Path)
      (firstCwd secondCwd : Option Path),
      locate first firstCwd = some firstPlace →
      locate second secondCwd = some secondPlace →
      firstPlace.isAbsolute = true → secondPlace.isAbsolute = true →
        ∃ firstUrl secondUrl, ofPath first firstCwd = .ok firstUrl ∧
          ofPath second secondCwd = .ok secondUrl ∧
          (firstUrl = secondUrl ↔
            Path.SamePlace firstPlace.segments secondPlace.segments)) ∧
    (∀ base middle rest : Path,
      ofPath (middle.join rest) (some base) =
        ofPath rest (some (base.join middle))) ∧
    ∀ base path : Path,
      ofPath path (some base.normalize) = ofPath path (some base) := by
  refine ⟨?_, ?_, ?_⟩
  · intro first second firstPlace secondPlace firstCwd secondCwd
      hfirst hsecond hfirstAbsolute hsecondAbsolute
    refine ⟨_, _, ofPath_place hfirst hfirstAbsolute,
      ofPath_place hsecond hsecondAbsolute, ?_⟩
    rw [Path.samePlace_iff_resolve_eq]
    constructor
    · exact urlOf_inj (fun _ => Path.isName_of_mem_resolve)
        fun _ => Path.isName_of_mem_resolve
    · exact congrArg urlOf
  · intro base middle rest
    apply ofPath_eq_of_normalize_eq
    rw [Path.join_assoc]
  · intro base path
    exact ofPath_eq_of_normalize_eq (Path.normalize_join_normalize base path)

/-- `/b/` below no working directory, and `../../b/.` below `/a`. -/
theorem ofPath_two_spellings :
    ∃ firstUrl secondUrl,
      ofPath ⟨[0x2F, 0x62, 0x2F]⟩ none = .ok firstUrl ∧
      ofPath ⟨[0x2E, 0x2E, 0x2F, 0x2E, 0x2E, 0x2F, 0x62, 0x2F, 0x2E]⟩
        (some ⟨[0x2F, 0x61]⟩) = .ok secondUrl ∧
      (firstUrl = secondUrl ↔
        Path.SamePlace [[], [0x62], []]
          [[], [0x61], [0x2E, 0x2E], [0x2E, 0x2E], [0x62], [0x2E]]) :=
  ofPath_eq_iff_samePlace.1 _ _ ⟨[0x2F, 0x62, 0x2F]⟩
    ⟨[0x2F, 0x61, 0x2F, 0x2E, 0x2E, 0x2F, 0x2E, 0x2E, 0x2F, 0x62, 0x2F, 0x2E]⟩
    none (some ⟨[0x2F, 0x61]⟩) (by decide) (by decide) (by decide) (by decide)

end WebviewProxy.Identity
