import WebviewProxy.Proofs.NameStack

/-!
# The buffer refines a stack of components

The loop that brings a path to its normal form sees components, one after the
other, and keeps no stack: it appends to a string of bytes and cuts the string
back.  Beside it we run a stack of names on the same components.  The anchor of
a path leaves the stack empty, and the components behind it are its segments
without the empty ones and the dots; so the stack is the one that the segments
leave, and after every turn of the loop the buffer is its written form.
-/

namespace WebviewProxy.Path

/-- What one component does to a stack of names; the last name is on top. -/
def Component.move (names : List (List UInt8)) :
    Component → List (List UInt8)
  | .root => []
  | .current => names
  | .parent => names.dropLast
  | .name bytes => names ++ [bytes]

/-- The stack of names that is left of a list of components. -/
def Component.stack (components : List Component) : List (List UInt8) :=
  components.foldl Component.move []

/-- The bytes of a buffer are the written form of a stack of names. -/
structure Shows (buffer : Path) (absolute : Bool)
    (names : List (List UInt8)) : Prop where
  isName : ∀ name ∈ names, IsName name
  eq_ofNames : buffer = ofNames absolute names

theorem stack_anchor (path : Path) : Component.stack path.anchor = [] := by
  unfold anchor
  split
  · rfl
  · split <;> rfl

theorem length_anchor_le (path : Path) : path.anchor.length ≤ 1 := by
  unfold anchor
  split
  · exact Nat.le_refl 1
  · split
    · exact Nat.le_refl 1
    · exact Nat.zero_le 1

theorem foldl_move_ofSegment? (names : List (List UInt8))
    (segment : List UInt8) :
    (Component.ofSegment? segment).toList.foldl Component.move names =
      enter names segment := by
  rcases segment_cases segment with rfl | rfl | rfl | hplain
  · rw [enter_nil]; rfl
  · rw [enter_dot]; rfl
  · rw [enter_dotDot]; rfl
  · rw [enter_of_plain hplain, ofSegment?_of_plain hplain]; rfl

theorem foldl_move_filterMap (names segments : List (List UInt8)) :
    (segments.filterMap Component.ofSegment?).foldl Component.move names =
      segments.foldl enter names := by
  rw [foldl_filterMap_ofSegment?]
  congr
  funext names segment
  exact foldl_move_ofSegment? names segment

theorem stack_append_filterMap (path : Path) (front : List (List UInt8)) :
    Component.stack (path.anchor ++ front.filterMap Component.ofSegment?) =
      resolve front := by
  have hanchor : path.anchor.foldl Component.move [] = [] := stack_anchor path
  rw [Component.stack, List.foldl_append, hanchor, foldl_move_filterMap]
  rfl

/-- After its first turn the loop has seen the anchor, and then segments. -/
theorem exists_front_of_taken {path : Path} {taken : List Component}
    (htaken : taken <+: path.components) (hne : taken ≠ []) :
    ∃ front, front <+: path.segments ∧
      taken = path.anchor ++ front.filterMap Component.ofSegment? := by
  obtain ⟨rest, hcomponents⟩ := htaken
  rcases List.append_eq_append_iff.mp hcomponents with
    ⟨missing, hanchor, -⟩ | ⟨seen, htaken, hseen⟩
  · -- The anchor is one component at most, and the loop has taken one.
    have hlength : taken.length + missing.length ≤ 1 := by
      rw [← List.length_append, ← hanchor]
      exact length_anchor_le path
    have hpos : 0 < taken.length := List.length_pos_iff.mpr hne
    have hmissing : missing = [] :=
      List.eq_nil_of_length_eq_zero (by omega)
    refine ⟨[], List.nil_prefix, ?_⟩
    rw [hanchor, hmissing]
    simp
  · obtain ⟨front, back, hsegments, hfront, -⟩ :=
      List.filterMap_eq_append_iff.mp hseen
    exact ⟨front, ⟨back, hsegments.symm⟩, by rw [htaken, hfront]⟩

theorem shows_foldl_replay_segments {path : Path}
    {front : List (List UInt8)} (hfront : front <+: path.segments) :
    ((path.anchor ++ front.filterMap Component.ofSegment?).foldl replay
      ⟨[]⟩).Shows path.isAbsolute (resolve front) :=
  ⟨isName_of_mem_resolve_front hfront, foldl_replay_front hfront⟩

theorem shows_foldl_replay {path : Path} {taken : List Component}
    (htaken : taken <+: path.components) (hne : taken ≠ []) :
    (taken.foldl replay ⟨[]⟩).Shows path.isAbsolute
      (Component.stack taken) := by
  obtain ⟨front, hfront, rfl⟩ := exists_front_of_taken htaken hne
  rw [stack_append_filterMap]
  exact shows_foldl_replay_segments hfront

/-- The buffer refines a stack of names.  After every turn of the loop it is
the written form of the stack that the components so far have moved; counted in
segments, so that the empty ones and the dots take their turns too, it is the
written form of what the segments so far have left.  The normal form is where
this ends, so taking it twice changes nothing, and neither does taking it of
the base that a path is joined to. -/
theorem normalize_refines_stack :
    (∀ (path : Path) (taken : List Component),
      taken <+: path.components → taken ≠ [] →
        (taken.foldl replay ⟨[]⟩).Shows path.isAbsolute
          (Component.stack taken)) ∧
    (∀ (path : Path) (front : List (List UInt8)),
      front <+: path.segments →
        ((path.anchor ++ front.filterMap Component.ofSegment?).foldl replay
          ⟨[]⟩).Shows path.isAbsolute (resolve front)) ∧
    (∀ path : Path,
      path.normalize.Shows path.isAbsolute (Component.stack path.components)) ∧
    (∀ path : Path, path.normalize.normalize = path.normalize) ∧
    ∀ base other : Path,
      (base.join other).normalize = (base.normalize.join other).normalize := by
  refine ⟨fun _ _ => shows_foldl_replay,
    fun _ _ => shows_foldl_replay_segments, ?_, normalize_normalize, ?_⟩
  · intro path
    rw [components, stack_append_filterMap]
    exact shows_foldl_replay_segments (List.prefix_refl path.segments)
  · intro base other
    exact (normalize_join_normalize base other).symm

/-- Inside `/../a//b/..` the buffer is `/a/b` before the last parent directory
cuts it back, and it is `/a` on both sides of the doubled slash. -/
theorem normalize_refines_stack_doubled_slash :
    let path : Path :=
      ⟨[0x2F, 0x2E, 0x2E, 0x2F, 0x61, 0x2F, 0x2F, 0x62, 0x2F, 0x2E, 0x2E]⟩
    (⟨[0x2F, 0x61, 0x2F, 0x62]⟩ : Path).Shows true [[0x61], [0x62]] ∧
      (⟨[0x2F, 0x61]⟩ : Path).Shows true (resolve [[], dotDot, [0x61], []]) ∧
      path.normalize.Shows true [[0x61]] := by
  intro path
  exact ⟨normalize_refines_stack.1 path
      [.root, .parent, .name [0x61], .name [0x62]] ⟨[.parent], rfl⟩ (by simp),
    normalize_refines_stack.2.1 path [[], dotDot, [0x61], []]
      ⟨[[0x62], dotDot], rfl⟩,
    normalize_refines_stack.2.2.1 path⟩

end WebviewProxy.Path
