import WebviewProxy.Proofs.Segments

/-!
# Normalisation as a stack of names

The normal form of a path is built on a buffer of bytes that is appended to and
cut back.  Seen from outside, the buffer is at every moment the written form of
a stack of names, with the root in front when the path is absolute: a name is
pushed, a parent directory pops, and everything else is ignored.  `ofNames` is
this written form and the invariant of the replay; from it the normal form is
read off the segments of the path alone.
-/

namespace WebviewProxy.Path

/-- A segment with no meaning beside its bytes. -/
structure Plain (segment : List UInt8) : Prop where
  ne_nil : segment ≠ []
  ne_dot : segment ≠ dot
  ne_dotDot : segment ≠ dotDot

structure IsName (segment : List UInt8) : Prop extends Plain segment where
  noSlash : slash ∉ segment

/-- The stack of names after one more segment; the last name is on top. -/
def enter (names : List (List UInt8)) (segment : List UInt8) :
    List (List UInt8) :=
  if segment = [] ∨ segment = dot then names
  else if segment = dotDot then names.dropLast
  else names ++ [segment]

/-- The stack of names that is left of a list of segments. -/
def resolve (segments : List (List UInt8)) : List (List UInt8) :=
  segments.foldl enter []

/-- The written form of a stack: single slashes between the names, and one in
front below the root. -/
def ofNames (absolute : Bool) (names : List (List UInt8)) : Path :=
  ⟨(if absolute then [slash] else []) ++ [slash].intercalate names⟩

@[simp]
theorem enter_nil (names : List (List UInt8)) : enter names [] = names := by
  simp [enter]

@[simp]
theorem enter_dot (names : List (List UInt8)) : enter names dot = names := by
  simp [enter]

@[simp]
theorem enter_dotDot (names : List (List UInt8)) :
    enter names dotDot = names.dropLast := by
  simp [enter, dotDot, dot]

theorem enter_of_plain {segment : List UInt8} (hsegment : Plain segment)
    (names : List (List UInt8)) :
    enter names segment = names ++ [segment] := by
  simp [enter, hsegment.ne_nil, hsegment.ne_dot, hsegment.ne_dotDot]

theorem foldl_enter_of_plain {segments : List (List UInt8)}
    (hsegments : ∀ segment ∈ segments, Plain segment)
    (names : List (List UInt8)) :
    segments.foldl enter names = names ++ segments := by
  induction segments generalizing names with
  | nil => simp
  | cons segment segments ih =>
      have hsegment : Plain segment := hsegments segment List.mem_cons_self
      rw [List.foldl_cons, enter_of_plain hsegment,
        ih fun other hother => hsegments other (List.mem_cons_of_mem _ hother)]
      simp

theorem segment_cases (segment : List UInt8) :
    segment = [] ∨ segment = dot ∨ segment = dotDot ∨ Plain segment := by
  by_cases hnil : segment = []
  · exact Or.inl hnil
  · by_cases hdot : segment = dot
    · exact Or.inr (Or.inl hdot)
    · by_cases hdotDot : segment = dotDot
      · exact Or.inr (Or.inr (Or.inl hdotDot))
      · exact Or.inr (Or.inr (Or.inr ⟨hnil, hdot, hdotDot⟩))

theorem mem_enter {names : List (List UInt8)} {segment name : List UInt8}
    (hname : name ∈ enter names segment) :
    name ∈ names ∨ (name = segment ∧ Plain segment) := by
  rcases segment_cases segment with rfl | rfl | rfl | hplain
  · exact Or.inl (by simpa using hname)
  · exact Or.inl (by simpa using hname)
  · have hrest : name ∈ names.dropLast := by simpa using hname
    exact Or.inl ((List.dropLast_sublist names).subset hrest)
  · rw [enter_of_plain hplain, List.mem_append, List.mem_singleton] at hname
    exact hname.imp_right fun heq => ⟨heq, hplain⟩

theorem isName_of_mem_enter {names : List (List UInt8)}
    {segment name : List UInt8} (hnames : ∀ other ∈ names, IsName other)
    (hsegment : slash ∉ segment) (hname : name ∈ enter names segment) :
    IsName name := by
  rcases mem_enter hname with hold | ⟨rfl, hplain⟩
  · exact hnames name hold
  · exact ⟨hplain, hsegment⟩

theorem isName_of_mem_foldl_enter {segments names : List (List UInt8)}
    {name : List UInt8} (hsegments : ∀ segment ∈ segments, slash ∉ segment)
    (hnames : ∀ other ∈ names, IsName other)
    (hname : name ∈ segments.foldl enter names) : IsName name := by
  induction segments generalizing names with
  | nil => exact hnames name hname
  | cons segment segments ih =>
      have hsegment : slash ∉ segment :=
        hsegments segment List.mem_cons_self
      exact ih
        (fun other hother => hsegments other (List.mem_cons_of_mem _ hother))
        (fun _ hother => isName_of_mem_enter hnames hsegment hother) hname

theorem slash_notMem_of_front {path : Path} {front : List (List UInt8)}
    (hfront : front <+: path.segments) :
    ∀ segment ∈ front, slash ∉ segment := fun _ hsegment =>
  slash_notMem_of_mem_split (hfront.subset hsegment)

theorem isName_of_mem_resolve_front {path : Path}
    {front : List (List UInt8)} (hfront : front <+: path.segments) :
    ∀ name ∈ resolve front, IsName name := fun _ =>
  isName_of_mem_foldl_enter (slash_notMem_of_front hfront) (by simp)

theorem isName_of_mem_resolve {path : Path} {name : List UInt8}
    (hname : name ∈ resolve path.segments) : IsName name :=
  isName_of_mem_resolve_front (List.prefix_refl _) name hname

/-! ## The written form -/

theorem intercalate_append_singleton (names : List (List UInt8))
    (name : List UInt8) :
    [slash].intercalate (names ++ [name]) =
      [slash].intercalate names ++
        (if names = [] then [] else [slash]) ++ name := by
  induction names with
  | nil => simp
  | cons first names ih =>
      rw [List.cons_append, List.intercalate_cons_of_ne_nil (by simp), ih]
      cases names with
      | nil => simp
      | cons second names => simp

theorem slash_cons_intercalate (name : List UInt8)
    (names : List (List UInt8)) :
    slash :: [slash].intercalate (name :: names) =
      (name :: names).flatMap (slash :: ·) := by
  induction names generalizing name with
  | nil => simp
  | cons second names ih =>
      rw [List.flatMap_cons, ← ih second, List.intercalate_cons_cons]
      simp

theorem ofNames_append_singleton (absolute : Bool)
    (names : List (List UInt8)) (name : List UInt8) :
    ofNames absolute (names ++ [name]) =
      ⟨(ofNames absolute names).bytes ++
        (if names = [] then [] else [slash]) ++ name⟩ := by
  simp [ofNames, intercalate_append_singleton]

theorem separator_of_isName {name : List UInt8} (hname : IsName name) :
    separator ⟨name⟩ = [slash] := by
  have hlast : name.getLast? ≠ some slash := by
    intro hlast
    exact hname.noSlash (List.mem_of_getLast? hlast)
  simp [separator, hname.ne_nil, hlast]

theorem separator_ofNames (absolute : Bool) {names : List (List UInt8)}
    (hnames : ∀ name ∈ names, IsName name) :
    (ofNames absolute names).separator =
      if names = [] then [] else [slash] := by
  rcases List.eq_nil_or_concat names with rfl | ⟨rest, name, rfl⟩
  · cases absolute <;> simp [ofNames, separator]
  · have hname : IsName name := hnames name (by simp)
    rw [List.concat_eq_append, ofNames_append_singleton,
      separator_append_of_ne_nil _ hname.ne_nil, separator_of_isName hname]
    simp

theorem isAbsolute_of_slash_notMem {name : List UInt8}
    (hname : slash ∉ name) : isAbsolute ⟨name⟩ = false := by
  cases name with
  | nil => rfl
  | cons byte rest =>
      have hbyte : byte ≠ slash := by
        rintro rfl
        exact hname List.mem_cons_self
      simp [isAbsolute, hbyte]

theorem isAbsolute_ofNames (absolute : Bool) {names : List (List UInt8)}
    (hnames : ∀ name ∈ names, IsName name) :
    (ofNames absolute names).isAbsolute = absolute := by
  cases absolute with
  | true => simp [ofNames, isAbsolute]
  | false =>
      cases names with
      | nil => rfl
      | cons name names =>
          have hname : IsName name := hnames name List.mem_cons_self
          have hhead := isAbsolute_of_slash_notMem hname.noSlash
          obtain ⟨byte, rest, rfl⟩ := List.exists_cons_of_ne_nil hname.ne_nil
          simpa [ofNames, isAbsolute] using hhead

theorem segments_ofNames (absolute : Bool) {names : List (List UInt8)}
    (hnames : ∀ name ∈ names, IsName name) :
    (ofNames absolute names).segments =
      (if absolute then [[]] else []) ++
        if names = [] then [[]] else names := by
  have hsplit : split ([slash].intercalate names) =
      if names = [] then [[]] else names := by
    by_cases hnil : names = []
    · simp [hnil, split]
    · rw [if_neg hnil]
      exact split_intercalate (fun name hname => (hnames name hname).noSlash)
        hnil
  cases absolute with
  | true => simp [segments, ofNames, split, hsplit]
  | false => simpa [segments, ofNames] using hsplit

theorem resolve_ofNames (absolute : Bool) {names : List (List UInt8)}
    (hnames : ∀ name ∈ names, IsName name) :
    resolve (ofNames absolute names).segments = names := by
  have hplain : names.foldl enter [] = names := by
    simpa using foldl_enter_of_plain (fun name hname =>
      (hnames name hname).toPlain) []
  rw [segments_ofNames absolute hnames, resolve, List.foldl_append]
  by_cases hnil : names = []
  · cases absolute <;> simp [hnil]
  · cases absolute <;> simp [hnil, hplain]

/-! ## The replay -/

theorem join_ofNames (absolute : Bool) {names : List (List UInt8)}
    {name : List UInt8} (hnames : ∀ other ∈ names, IsName other)
    (hname : IsName name) :
    (ofNames absolute names).join ⟨name⟩ =
      ofNames absolute (names ++ [name]) := by
  rw [join_of_not_isAbsolute (isAbsolute_of_slash_notMem hname.noSlash),
    separator_ofNames absolute hnames, ofNames_append_singleton]

theorem dropWhile_reverse_append {name : List UInt8} (hname : slash ∉ name)
    (front : List UInt8) :
    (front ++ name).reverse.dropWhile (· != slash) =
      front.reverse.dropWhile (· != slash) := by
  have hskip : ∀ byte ∈ name.reverse, (byte != slash) = true := by
    intro byte hbyte
    have hmem : byte ∈ name := List.mem_reverse.mp hbyte
    simpa using fun heq : byte = slash => hname (heq ▸ hmem)
  rw [List.reverse_append, List.dropWhile_append_of_pos hskip]

/-- Behind a base that wants a slash, the last name goes with its slash. -/
theorem dropLast_append_slash {base : Path} {name : List UInt8}
    (hname : slash ∉ name) (hbase : base.separator = [slash]) :
    dropLast ⟨base.bytes ++ [slash] ++ name⟩ = base := by
  have hends := (separator_eq_slash_iff base).mp hbase
  have hstop : base.bytes.reverse.dropWhile (· == slash) =
      base.bytes.reverse := by
    have hhead : base.bytes.reverse.head? ≠ some slash := by
      rw [List.head?_reverse]
      exact hends.2
    cases hreverse : base.bytes.reverse with
    | nil => rfl
    | cons byte rest =>
        rw [hreverse] at hhead
        simp_all
  unfold dropLast
  rw [dropWhile_reverse_append hname]
  simp [hstop, hends.1]

theorem dropLast_of_slash_notMem {name : List UInt8} (hname : slash ∉ name)
    (absolute : Bool) :
    dropLast ⟨(if absolute then [slash] else []) ++ name⟩ =
      ⟨if absolute then [slash] else []⟩ := by
  unfold dropLast
  rw [dropWhile_reverse_append hname]
  cases absolute with
  | true => simp [isAbsolute]
  | false => simp [isAbsolute_of_slash_notMem hname]

theorem dropLast_ofNames (absolute : Bool) {names : List (List UInt8)}
    (hnames : ∀ name ∈ names, IsName name) :
    (ofNames absolute names).dropLast = ofNames absolute names.dropLast := by
  rcases List.eq_nil_or_concat names with rfl | ⟨rest, name, rfl⟩
  · cases absolute <;> decide
  · have hname : slash ∉ name := (hnames name (by simp)).noSlash
    have hrest : ∀ other ∈ rest, IsName other := fun other hother =>
      hnames other (by simp [hother])
    rw [List.concat_eq_append, List.dropLast_concat]
    by_cases hnil : rest = []
    · simpa [ofNames, hnil] using dropLast_of_slash_notMem hname absolute
    · have hseparator : (ofNames absolute rest).separator = [slash] := by
        rw [separator_ofNames absolute hrest, if_neg hnil]
      rw [ofNames_append_singleton, if_neg hnil]
      exact dropLast_append_slash hname hseparator

theorem ofSegment?_of_plain {segment : List UInt8} (hplain : Plain segment) :
    Component.ofSegment? segment = some (.name segment) := by
  simp [Component.ofSegment?, hplain.ne_nil, hplain.ne_dot, hplain.ne_dotDot]

def replaySegment (path : Path) (segment : List UInt8) : Path :=
  (Component.ofSegment? segment).toList.foldl replay path

/-- One step of the replay is one step of the stack. -/
theorem replaySegment_ofNames (absolute : Bool) {names : List (List UInt8)}
    {segment : List UInt8} (hnames : ∀ name ∈ names, IsName name)
    (hsegment : slash ∉ segment) :
    (ofNames absolute names).replaySegment segment =
      ofNames absolute (enter names segment) := by
  rcases segment_cases segment with rfl | rfl | rfl | hplain
  · simp [replaySegment, Component.ofSegment?]
  · simp [replaySegment, Component.ofSegment?]
  · rw [enter_dotDot, ← dropLast_ofNames absolute hnames]
    rfl
  · rw [enter_of_plain hplain, ← join_ofNames absolute hnames
      ⟨hplain, hsegment⟩]
    simp [replaySegment, ofSegment?_of_plain hplain, replay]

theorem foldl_replaySegment_ofNames (absolute : Bool)
    {segments names : List (List UInt8)}
    (hsegments : ∀ segment ∈ segments, slash ∉ segment)
    (hnames : ∀ name ∈ names, IsName name) :
    segments.foldl replaySegment (ofNames absolute names) =
      ofNames absolute (segments.foldl enter names) := by
  -- The invariant is that the buffer is the written form of a stack of names.
  induction segments generalizing names with
  | nil => rfl
  | cons segment segments ih =>
      have hsegment : slash ∉ segment :=
        hsegments segment List.mem_cons_self
      rw [List.foldl_cons, List.foldl_cons,
        replaySegment_ofNames absolute hnames hsegment]
      exact ih
        (fun other hother => hsegments other (List.mem_cons_of_mem _ hother))
        fun _ hother => isName_of_mem_enter hnames hsegment hother

/-- What is done for each component is done for each segment that means one. -/
theorem foldl_filterMap_ofSegment? {σ : Type} (step : σ → Component → σ)
    (state : σ) (segments : List (List UInt8)) :
    (segments.filterMap Component.ofSegment?).foldl step state =
      segments.foldl (fun state segment =>
        (Component.ofSegment? segment).toList.foldl step state) state := by
  rw [List.foldl_filterMap]
  congr
  funext state segment
  cases Component.ofSegment? segment <;> rfl

theorem foldl_replay_filterMap (path : Path)
    (segments : List (List UInt8)) :
    (segments.filterMap Component.ofSegment?).foldl replay path =
      segments.foldl replaySegment path :=
  foldl_filterMap_ofSegment? replay path segments

theorem foldl_replay_anchor (path : Path) :
    path.anchor.foldl replay ⟨[]⟩ = ofNames path.isAbsolute [] := by
  unfold anchor
  cases path.isAbsolute with
  | true => rfl
  | false => by_cases hhead : path.segments.head? = some dot <;>
      simp [hhead, replay, ofNames]

/-- Wherever the replay is stopped, the buffer is the written form of the
stack of the segments behind it. -/
theorem foldl_replay_front {path : Path} {front : List (List UInt8)}
    (hfront : front <+: path.segments) :
    (path.anchor ++ front.filterMap Component.ofSegment?).foldl replay ⟨[]⟩ =
      ofNames path.isAbsolute (resolve front) := by
  rw [List.foldl_append, foldl_replay_anchor, foldl_replay_filterMap]
  exact foldl_replaySegment_ofNames path.isAbsolute
    (slash_notMem_of_front hfront) (by simp)

/-- The normal form of a path is the written form of its stack of names. -/
theorem normalize_eq_ofNames (path : Path) :
    path.normalize = ofNames path.isAbsolute (resolve path.segments) :=
  foldl_replay_front (List.prefix_refl path.segments)

theorem isAbsolute_normalize (path : Path) :
    path.normalize.isAbsolute = path.isAbsolute := by
  rw [normalize_eq_ofNames]
  exact isAbsolute_ofNames _ fun _ => isName_of_mem_resolve

theorem resolve_normalize (path : Path) :
    resolve path.normalize.segments = resolve path.segments := by
  rw [normalize_eq_ofNames]
  exact resolve_ofNames _ fun _ => isName_of_mem_resolve

theorem normalize_normalize (path : Path) :
    path.normalize.normalize = path.normalize := by
  rw [normalize_eq_ofNames path.normalize, isAbsolute_normalize,
    resolve_normalize, ← normalize_eq_ofNames]

/-- A relative path goes on where its base has ended. -/
theorem resolve_join {other : Path} (hother : other.isAbsolute = false)
    (base : Path) :
    resolve (base.join other).segments =
      other.segments.foldl enter (resolve base.segments) := by
  rw [join_of_not_isAbsolute hother]
  by_cases hseparator : base.separator = [slash]
  · have hsegments := split_append_slash base.bytes other.bytes
    simp [segments, hseparator, hsegments, resolve]
  · have hnone : base.separator = [] := by
      unfold separator at hseparator ⊢
      split <;> simp_all
    rcases List.eq_nil_or_concat base.bytes with hbytes | ⟨front, last, hbytes⟩
    · simp [segments, hnone, hbytes, resolve, split]
    · have hlast : last = slash := by
        simp_all [separator]
      have hbase := split_append_slash front []
      have hsegments := split_append_slash front other.bytes
      simp [segments, hnone, hbytes, hlast, hbase, hsegments, resolve, split]

theorem normalize_join_normalize (base other : Path) :
    (base.normalize.join other).normalize = (base.join other).normalize := by
  cases hother : other.isAbsolute with
  | true => simp only [join_of_isAbsolute hother]
  | false =>
      simp only [normalize_eq_ofNames (_ : Path), isAbsolute_join,
        resolve_join hother]
      rw [← normalize_eq_ofNames, isAbsolute_normalize, resolve_normalize]

end WebviewProxy.Path
