import WebviewProxy.Proofs.IdentityUrl
import WebviewProxy.Proofs.Lossy

/-!
# Files without a place

A file has an identity exactly when it has a place below the root: its path is
absolute, or the working directory is.  Joining and normalising keep this apart
from everything else in the two paths; no number of parent directories climbs
above the root, and none reaches it from a relative base.  A file without a
place is refused for the configuration of the build.  The refusal names the
path as it was given when there is no working directory, and otherwise the
relative normal form that was reached instead of a place.  A path is named by
its lossy reading, which is the text of every path that has one.
-/

namespace WebviewProxy

namespace Path

/-- Names with single slashes between them, or no bytes at all. -/
structure Trimmed (path : Path) : Prop where
  isName : path.bytes = [] ∨ ∀ segment ∈ path.segments, IsName segment
  noLeadingSlash : path.bytes.head? ≠ some slash
  noTrailingSlash : path.bytes.getLast? ≠ some slash

theorem trimmed_ofNames {names : List (List UInt8)}
    (hnames : ∀ name ∈ names, IsName name) : (ofNames false names).Trimmed := by
  have hrelative := isAbsolute_ofNames false hnames
  have hhead : (ofNames false names).bytes.head? ≠ some slash := by
    simpa [isAbsolute] using hrelative
  by_cases hnil : names = []
  · subst hnil
    exact ⟨.inl rfl, hhead, by simp [ofNames]⟩
  · have hsegments := segments_ofNames false hnames
    have hseparator := separator_ofNames false hnames
    rw [if_neg hnil] at hsegments hseparator
    refine ⟨.inr ?_, hhead, ((separator_eq_slash_iff _).mp hseparator).2⟩
    rw [hsegments]
    exact hnames

theorem trimmed_normalize {path : Path} (hpath : path.isAbsolute = false) :
    path.normalize.Trimmed := by
  rw [normalize_eq_ofNames, hpath]
  exact trimmed_ofNames fun _ => isName_of_mem_resolve

end Path

namespace Refusal

/-- The refusals that blame how the build was set up, and neither the source of
the file nor its metadata. -/
def isConfiguration : Refusal → Bool
  | .filenameMissing | .noWorkingDirectory _ | .notAbsolute _ => true
  | _ => false

end Refusal

namespace Identity

/-- What a file without a place lacks, and the refusal that tells about it. -/
inductive Lacks (path : Path) : Option Path → Refusal → Prop
  | workingDirectory (hpath : path.isAbsolute = false) :
      Lacks path none (.noWorkingDirectory path)
  | absoluteBase {base : Path} (hpath : path.isAbsolute = false)
      (hbase : base.isAbsolute = false) :
      Lacks path (some base) (.notAbsolute (base.join path).normalize)

theorem exists_ofPath_iff (path : Path) (cwd : Option Path) :
    (∃ url, ofPath path cwd = .ok url) ↔
      path.isAbsolute = true ∨
        ∃ base, cwd = some base ∧ base.isAbsolute = true := by
  simp only [ofPath_eq_ok_iff, locate]
  cases hpath : path.isAbsolute with
  | true => simp [hpath]
  | false =>
      cases cwd with
      | none => simp
      | some base => simp [Path.isAbsolute_join, hpath]

theorem Lacks.ofPath_eq {path : Path} {cwd : Option Path} {refusal : Refusal}
    (hlacks : Lacks path cwd refusal) : ofPath path cwd = .error refusal := by
  rw [Identity.ofPath_eq, locate]
  cases hlacks with
  | workingDirectory hpath => simp [hpath]
  | absoluteBase hpath hbase => simp [hpath, Path.isAbsolute_join, hbase]

theorem exists_ofPath_or_lacks (path : Path) (cwd : Option Path) :
    (∃ url, ofPath path cwd = .ok url) ∨ ∃ refusal, Lacks path cwd refusal := by
  rw [exists_ofPath_iff]
  cases hpath : path.isAbsolute with
  | true => exact .inl (.inl rfl)
  | false =>
      cases cwd with
      | none => exact .inr ⟨_, .workingDirectory hpath⟩
      | some base =>
          cases hbase : base.isAbsolute with
          | true => exact .inl (.inr ⟨base, rfl, hbase⟩)
          | false => exact .inr ⟨_, .absoluteBase hpath hbase⟩

theorem ofPath_eq_error_iff (path : Path) (cwd : Option Path)
    (refusal : Refusal) :
    ofPath path cwd = .error refusal ↔ Lacks path cwd refusal := by
  constructor
  · intro herror
    rcases exists_ofPath_or_lacks path cwd with ⟨url, hok⟩ | ⟨other, hlacks⟩
    · rw [hok] at herror
      cases herror
    · have hother := hlacks.ofPath_eq
      rw [herror] at hother
      cases hother
      exact hlacks
  · exact Lacks.ofPath_eq

theorem url?_normalize_eq_none_iff (place : Path) :
    url? place.normalize = none ↔ place.isAbsolute = false := by
  rw [url?_eq, Path.isAbsolute_normalize]
  cases place.isAbsolute <;> simp

/-- What the refusal of a file without a place says. -/
structure Explains (path : Path) (cwd : Option Path) (refusal : Refusal) :
    Prop where
  isConfiguration : refusal.isConfiguration = true
  span : refusal.span? = none
  given : cwd = none → refusal.message =
    "[use dom] cannot resolve relative filename " ++ Utf8.lossy path.bytes ++
      " without a working directory"
  reached : ∀ base, cwd = some base →
    (base.join path).normalize.Trimmed ∧ refusal.message =
      "[use dom] cannot convert " ++
        Utf8.lossy (base.join path).normalize.bytes ++ " to a file URL"

theorem Lacks.explains {path : Path} {cwd : Option Path} {refusal : Refusal}
    (hlacks : Lacks path cwd refusal) : Explains path cwd refusal := by
  cases hlacks with
  | workingDirectory hpath => exact ⟨rfl, rfl, fun _ => rfl, nofun⟩
  | @absoluteBase base hpath hbase =>
      have hrelative : (base.join path).isAbsolute = false := by
        rw [Path.isAbsolute_join, hpath, hbase]
        rfl
      refine ⟨rfl, rfl, nofun, ?_⟩
      rintro _ ⟨⟩
      exact ⟨Path.trimmed_normalize hrelative, rfl⟩

/-- A file has an identity exactly when its path or the working directory is
absolute.  Otherwise it lacks the one or the other base, and the refusal names
the path as it was given or the normal form that was reached; a path that was
made from a text is named by that text.  The conversion to a URL fails for
nothing but relative paths. -/
theorem ofPath_needs_absolute_base (path : Path) (cwd : Option Path) :
    ((∃ url, ofPath path cwd = .ok url) ↔
      path.isAbsolute = true ∨
        ∃ base, cwd = some base ∧ base.isAbsolute = true) ∧
    (∀ refusal, ofPath path cwd = .error refusal ↔ Lacks path cwd refusal) ∧
    (∀ refusal, ofPath path cwd = .error refusal →
      Explains path cwd refusal) ∧
    (∀ place : Path,
      url? place.normalize = none ↔ place.isAbsolute = false) ∧
    ∀ text : String, Utf8.lossy (Path.ofString text).bytes = text := by
  refine ⟨exists_ofPath_iff path cwd, ofPath_eq_error_iff path cwd, ?_,
    url?_normalize_eq_none_iff, Utf8.lossy_bytes⟩
  intro refusal herror
  exact ((ofPath_eq_error_iff path cwd refusal).mp herror).explains

/-- `../../b/` below the empty working directory. -/
theorem ofPath_needs_absolute_base_empty :
    let path : Path := ⟨[0x2E, 0x2E, 0x2F, 0x2E, 0x2E, 0x2F, 0x62, 0x2F]⟩
    ofPath path (some ⟨[]⟩) = .error (.notAbsolute ⟨[0x62]⟩) ∧
      Explains path (some ⟨[]⟩) (.notAbsolute ⟨[0x62]⟩) := by
  intro path
  obtain ⟨-, -, hexplains, -⟩ := ofPath_needs_absolute_base path (some ⟨[]⟩)
  have herror : ofPath path (some ⟨[]⟩) = .error (.notAbsolute ⟨[0x62]⟩) :=
    rfl
  exact ⟨herror, hexplains _ herror⟩

end Identity

end WebviewProxy
