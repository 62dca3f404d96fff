import WebviewProxy.Identity
import WebviewProxy.Proofs.Encoding
import WebviewProxy.Proofs.NameStack

/-!
# The identity of a file as a text

An identity is written in two layers: the names below the root are escaped one
by one, and backslashes are escaped afterwards in the finished URL.  Both
layers together are one encoding with the larger encode set, whether or not the
first layer already takes the backslash.  So the text can be read back to the
bytes of the normal form, and every text of the right shape is the identity of
the path that it decodes to.
-/

namespace WebviewProxy.Identity

/-- The path of a URL whose encoded names are `segments`. -/
def slashed : List (List Char) → List Char
  | [] => ['/']
  | segments => segments.flatMap ('/' :: ·)

/-- The URL of the file with the given names below the root. -/
def urlOf (names : List (List UInt8)) : String :=
  String.ofList ("file://".toList ++
    slashed (names.map (Percent.encode Percent.isEscaped)))

/-- The place of `path` as seen from `cwd`. -/
def locate (path : Path) (cwd : Option Path) : Option Path :=
  if path.isAbsolute then some path else cwd.map (·.join path)

/-! ## The two layers of escapes -/

theorem escapeBackslashes_append (front rest : List Char) :
    escapeBackslashes (front ++ rest) =
      escapeBackslashes front ++ escapeBackslashes rest :=
  List.flatMap_append

theorem escapeBackslashes_of_notMem {text : List Char} (htext : '\\' ∉ text) :
    escapeBackslashes text = text := by
  induction text with
  | nil => rfl
  | cons c rest ih =>
      simp only [List.mem_cons, not_or] at htext
      rw [escapeBackslashes, List.flatMap_cons, if_neg (Ne.symm htext.1)]
      exact congrArg (c :: ·) (ih htext.2)

theorem backslash_notMem_of_canonical {text : List Char}
    (htext : Percent.Canonical text) : '\\' ∉ text := by
  intro hmem
  exact (htext.isPrintable hmem).2.2 (by decide)

theorem escapeBackslashes_encodeByte {escaped : UInt8 → Bool}
    (hset : ∀ byte, byte ≠ 0x5C → escaped byte = Percent.isEscaped byte)
    (byte : UInt8) :
    escapeBackslashes (Percent.encodeByte escaped byte) =
      Percent.encodeByte Percent.isEscaped byte := by
  by_cases hbyte : byte = 0x5C
  · subst hbyte
    unfold Percent.encodeByte
    cases escaped 0x5C <;> decide
  · have hsame : Percent.encodeByte escaped byte =
        Percent.encodeByte Percent.isEscaped byte := by
      simp [Percent.encodeByte, hset byte hbyte]
    have hcanonical := Percent.canonical_encode [byte]
    rw [hsame]
    apply escapeBackslashes_of_notMem
    simpa using backslash_notMem_of_canonical hcanonical

/-- Escaping the backslashes afterwards is as good as escaping them with the
other bytes. -/
theorem escapeBackslashes_encode {escaped : UInt8 → Bool}
    (hset : ∀ byte, byte ≠ 0x5C → escaped byte = Percent.isEscaped byte)
    (bytes : List UInt8) :
    escapeBackslashes (Percent.encode escaped bytes) =
      Percent.encode Percent.isEscaped bytes := by
  induction bytes with
  | nil => rfl
  | cons byte bytes ih =>
      rw [Percent.encode_cons, escapeBackslashes_append,
        escapeBackslashes_encodeByte hset, ih, ← Percent.encode_cons]

theorem escapeBackslashes_flatMap (names : List (List UInt8)) :
    escapeBackslashes (names.flatMap fun name =>
        '/' :: Percent.encode Percent.isReserved name) =
      (names.map (Percent.encode Percent.isEscaped)).flatMap ('/' :: ·) := by
  induction names with
  | nil => rfl
  | cons name names ih =>
      have hname := escapeBackslashes_encode
        (fun _ hne => Percent.isReserved_eq_isEscaped hne) name
      rw [List.flatMap_cons, escapeBackslashes_append, ih, List.map_cons,
        List.flatMap_cons, ← hname]
      rfl

theorem escapeBackslashes_urlPath (names : List (List UInt8)) :
    escapeBackslashes (urlPath names) =
      slashed (names.map (Percent.encode Percent.isEscaped)) := by
  cases names with
  | nil => rfl
  | cons name names => exact escapeBackslashes_flatMap (name :: names)

theorem url?_eq (path : Path) :
    url? path = if path.isAbsolute then some (urlOf (names path)) else none := by
  have hscheme : escapeBackslashes "file://".toList = "file://".toList := by
    decide
  unfold url? urlOf
  simp only [escapeBackslashes_append, escapeBackslashes_urlPath, hscheme]

/-! ## The names of a normal form -/

theorem filterMap_ofSegment?_of_plain {segments : List (List UInt8)}
    (hsegments : ∀ segment ∈ segments, Path.Plain segment) :
    segments.filterMap Path.Component.ofSegment? =
      segments.map Path.Component.name := by
  induction segments with
  | nil => rfl
  | cons segment segments ih =>
      have hplain := hsegments segment List.mem_cons_self
      rw [List.filterMap_cons_some (Path.ofSegment?_of_plain hplain),
        List.map_cons,
        ih fun other hother => hsegments other (List.mem_cons_of_mem _ hother)]

theorem names_ofNames {names : List (List UInt8)}
    (hnames : ∀ name ∈ names, Path.IsName name) :
    Identity.names (Path.ofNames true names) = names := by
  have hplain : ∀ name ∈ names, Path.Plain name := fun name hname =>
    (hnames name hname).toPlain
  have hcomponents : (Path.ofNames true names).components =
      .root :: names.map Path.Component.name := by
    rw [Path.components, Path.anchor, Path.isAbsolute_ofNames true hnames,
      Path.segments_ofNames true hnames, List.filterMap_append]
    by_cases hnil : names = []
    · simp [hnil, Path.Component.ofSegment?]
    · simp [hnil, Path.Component.ofSegment?,
        filterMap_ofSegment?_of_plain hplain]
  rw [Identity.names, hcomponents, List.filterMap_cons_none rfl,
    List.filterMap_map]
  exact List.filterMap_some

/-- The identity of a path, or what it lacks, said with the names that the
segments of its place resolve to. -/
theorem ofPath_eq (path : Path) (cwd : Option Path) :
    ofPath path cwd =
      match locate path cwd with
      | none => .error (.noWorkingDirectory path)
      | some located =>
          if located.isAbsolute then
            .ok (urlOf (Path.resolve located.segments))
          else .error (.notAbsolute located.normalize) := by
  have hurl : ∀ located : Path, url? located.normalize =
      if located.isAbsolute then
        some (urlOf (Path.resolve located.segments))
      else none := by
    intro located
    rw [url?_eq, Path.isAbsolute_normalize]
    cases habsolute : located.isAbsolute with
    | false => rfl
    | true =>
        rw [Path.normalize_eq_ofNames, habsolute,
          names_ofNames fun _ => Path.isName_of_mem_resolve]
  unfold ofPath locate
  cases hpath : path.isAbsolute with
  | true =>
      simp only [if_true, pure_bind]
      rw [hurl, hpath]
      rfl
  | false =>
      cases cwd with
      | none => rfl
      | some base =>
          simp only [Bool.false_eq_true, if_false, pure_bind, Option.map_some]
          rw [hurl]
          cases (base.join path).isAbsolute <;> rfl

theorem ofPath_eq_ok_iff (path : Path) (cwd : Option Path) (url : String) :
    ofPath path cwd = .ok url ↔
      ∃ located, locate path cwd = some located ∧
        located.isAbsolute = true ∧
        url = urlOf (Path.resolve located.segments) := by
  rw [ofPath_eq]
  cases locate path cwd with
  | none => simp
  | some located =>
      cases habsolute : located.isAbsolute with
      | false => simp [habsolute]
      | true => simp [habsolute, eq_comm (a := url)]

/-! ## Reading an identity back -/

theorem slash_plain (rest : List Char) :
    Percent.decode ('/' :: rest) = Path.slash :: Percent.decode rest :=
  Percent.decode_cons_of_ne (by decide) rest

theorem decode_flatMap {segments : List (List Char)}
    (hsegments : ∀ segment ∈ segments, Percent.Canonical segment) :
    Percent.decode (segments.flatMap ('/' :: ·)) =
      (segments.map Percent.decode).flatMap (Path.slash :: ·) := by
  induction segments with
  | nil => rfl
  | cons segment segments ih =>
      have hsegment : Percent.Canonical segment :=
        hsegments segment List.mem_cons_self
      rw [List.flatMap_cons, List.cons_append, slash_plain,
        hsegment.decode_append,
        ih fun other hother => hsegments other (List.mem_cons_of_mem _ hother)]
      rfl

theorem decode_slashed {segments : List (List Char)}
    (hsegments : ∀ segment ∈ segments, Percent.Canonical segment) :
    Percent.decode (slashed segments) =
      (Path.ofNames true (segments.map Percent.decode)).bytes := by
  cases segments with
  | nil => decide
  | cons segment segments =>
      have hflat := decode_flatMap hsegments
      rw [List.map_cons, ← Path.slash_cons_intercalate] at hflat
      exact hflat

theorem toList_urlOf (names : List (List UInt8)) :
    (urlOf names).toList = "file://".toList ++
      slashed (names.map (Percent.encode Percent.isEscaped)) := by
  unfold urlOf
  exact String.toList_ofList

theorem drop_scheme (rest : List Char) :
    ("file://".toList ++ rest).drop 7 = rest := by
  have hscheme : "file://".toList.length = 7 := rfl
  exact List.drop_left' hscheme

theorem map_decode_encode (names : List (List UInt8)) :
    (names.map (Percent.encode Percent.isEscaped)).map Percent.decode =
      names := by
  rw [List.map_map]
  exact List.map_id'' Percent.decode_encode names

theorem canonical_of_mem_map_encode {names : List (List UInt8)}
    {segment : List Char}
    (hsegment : segment ∈ names.map (Percent.encode Percent.isEscaped)) :
    Percent.Canonical segment := by
  obtain ⟨name, -, rfl⟩ := List.mem_map.mp hsegment
  exact Percent.canonical_encode name

theorem decode_urlOf (names : List (List UInt8)) :
    Percent.decode ((urlOf names).toList.drop 7) =
      (Path.ofNames true names).bytes := by
  rw [toList_urlOf, drop_scheme,
    decode_slashed fun _ => canonical_of_mem_map_encode, map_decode_encode]

theorem urlOf_inj {first second : List (List UInt8)}
    (hfirst : ∀ name ∈ first, Path.IsName name)
    (hsecond : ∀ name ∈ second, Path.IsName name)
    (heq : urlOf first = urlOf second) : first = second := by
  have hbytes : Path.ofNames true first = Path.ofNames true second := by
    have hdecode := decode_urlOf first
    rw [heq, decode_urlOf second] at hdecode
    exact congrArg Path.mk hdecode.symm
  rw [← names_ofNames hfirst, hbytes, names_ofNames hsecond]

/-! ## The shape of an identity -/

/-- A segment that is neither empty nor a dot segment. -/
structure IsSegment (segment : List Char) : Prop where
  ne_nil : segment ≠ []
  ne_dot : segment ≠ ['.']
  ne_dotDot : segment ≠ ['.', '.']
  noSlash : '/' ∉ segment

/-- The URL is `file://` with a slash behind it, or with a slash and a segment
for each of `segments`. -/
structure Spells (url : String) (segments : List (List Char)) : Prop where
  text : url.toList = "file://".toList ++ slashed segments
  isSegment : ∀ segment ∈ segments, IsSegment segment

theorem slash_mem_encode_iff (bytes : List UInt8) :
    '/' ∈ Percent.encode Percent.isEscaped bytes ↔ Path.slash ∈ bytes :=
  Percent.mem_encode_iff (Percent.forall_byte (by decide +kernel)) bytes

theorem isSegment_encode {name : List UInt8} (hname : Path.IsName name) :
    IsSegment (Percent.encode Percent.isEscaped name) := by
  have hdecode : ∀ segment,
      Percent.encode Percent.isEscaped name = segment →
        name = Percent.decode segment := by
    rintro segment rfl
    exact (Percent.decode_encode name).symm
  refine ⟨?_, ?_, ?_, ?_⟩
  · intro heq
    exact hname.ne_nil (hdecode _ heq)
  · intro heq
    exact hname.ne_dot ((hdecode _ heq).trans (by decide))
  · intro heq
    exact hname.ne_dotDot ((hdecode _ heq).trans (by decide))
  · rw [slash_mem_encode_iff]
    exact hname.noSlash

theorem isName_decode {segment : List Char} (hsegment : IsSegment segment)
    (hcanonical : Percent.Canonical segment) :
    Path.IsName (Percent.decode segment) := by
  have hencode : ∀ name, Percent.decode segment = name →
      segment = Percent.encode Percent.isEscaped name := by
    rintro name rfl
    exact hcanonical.encode_decode.symm
  refine ⟨⟨?_, ?_, ?_⟩, ?_⟩
  · intro heq
    exact hsegment.ne_nil (hencode _ heq)
  · intro heq
    exact hsegment.ne_dot ((hencode _ heq).trans (by decide))
  · intro heq
    exact hsegment.ne_dotDot ((hencode _ heq).trans (by decide))
  · rw [← slash_mem_encode_iff, hcanonical.encode_decode]
    exact hsegment.noSlash

theorem spells_urlOf {names : List (List UInt8)}
    (hnames : ∀ name ∈ names, Path.IsName name) :
    Spells (urlOf names) (names.map (Percent.encode Percent.isEscaped)) := by
  refine ⟨toList_urlOf names, fun segment hsegment => ?_⟩
  obtain ⟨name, hname, rfl⟩ := List.mem_map.mp hsegment
  exact isSegment_encode (hnames name hname)

theorem canonical_slashed {segments : List (List Char)}
    (hsegments : ∀ segment ∈ segments, Percent.Canonical segment) :
    Percent.Canonical (slashed segments) := by
  have hflat : Percent.Canonical (segments.flatMap ('/' :: ·)) := by
    induction segments with
    | nil => exact .nil
    | cons segment segments ih =>
        have hsegment := hsegments segment List.mem_cons_self
        have hrest := ih fun other hother =>
          hsegments other (List.mem_cons_of_mem _ hother)
        exact .plain (by decide) (by decide) (hsegment.append hrest)
  cases segments with
  | nil => exact .plain (by decide) (by decide) .nil
  | cons segment segments => exact hflat

theorem Spells.canonical {url : String} {segments : List (List Char)}
    (hurl : Spells url segments)
    (hsegments : ∀ segment ∈ segments, Percent.Canonical segment) :
    Percent.Canonical url.toList := by
  have hscheme : Percent.Canonical "file://".toList :=
    Percent.canonical_encode [0x66, 0x69, 0x6C, 0x65, 0x3A, 0x2F, 0x2F]
  rw [hurl.text]
  exact hscheme.append (canonical_slashed hsegments)

theorem Spells.ofPath_decode {url : String} {segments : List (List Char)}
    (hurl : Spells url segments)
    (hsegments : ∀ segment ∈ segments, Percent.Canonical segment)
    (cwd : Option Path) :
    ofPath ⟨Percent.decode (url.toList.drop 7)⟩ cwd = .ok url := by
  have hnames : ∀ name ∈ segments.map Percent.decode, Path.IsName name := by
    intro name hname
    obtain ⟨segment, hsegment, rfl⟩ := List.mem_map.mp hname
    exact isName_decode (hurl.isSegment segment hsegment)
      (hsegments segment hsegment)
  have hencode : (segments.map Percent.decode).map
      (Percent.encode Percent.isEscaped) = segments := by
    rw [List.map_map]
    exact (List.map_congr_left fun segment hsegment =>
      (hsegments segment hsegment).encode_decode).trans (List.map_id segments)
  have hbytes : (⟨Percent.decode (url.toList.drop 7)⟩ : Path) =
      Path.ofNames true (segments.map Percent.decode) := by
    rw [hurl.text, drop_scheme, decode_slashed hsegments]
  have habsolute := Path.isAbsolute_ofNames true hnames
  rw [hbytes, ofPath_eq_ok_iff]
  refine ⟨_, if_pos habsolute, habsolute, ?_⟩
  rw [Path.resolve_ofNames true hnames]
  apply String.toList_inj.mp
  rw [toList_urlOf, hencode, hurl.text]

/-- Identities and canonical URLs are the same.  Every identity spells segments
in which exactly the encode set is escaped, shows nothing outside the printable
characters, and reads back to the bytes of the normal form; and every URL of
this shape is the identity of the path that it reads back to.  No segment can
hide a slash, as a slash is not in the encode set. -/
theorem ofPath_canonical_and_reversible :
    (∀ (path : Path) (cwd : Option Path) (url : String),
      ofPath path cwd = .ok url →
        ∃ located segments, locate path cwd = some located ∧
          Spells url segments ∧
          (∀ segment ∈ segments, Percent.Canonical segment) ∧
          (∀ c ∈ url.toList,
            0x20 < c.toNat ∧ c.toNat < 0x7F ∧ c ∉ Percent.excluded) ∧
          (∀ before after, url.toList = before ++ '%' :: after →
            ∃ high ∈ Percent.capitalDigits, ∃ low ∈ Percent.capitalDigits,
              ∃ rest, after = high :: low :: rest) ∧
          Percent.decode (url.toList.drop 7) = located.normalize.bytes) ∧
    ∀ (url : String) (segments : List (List Char)) (cwd : Option Path),
      Spells url segments →
        (∀ segment ∈ segments, Percent.Canonical segment) →
          ofPath ⟨Percent.decode (url.toList.drop 7)⟩ cwd = .ok url := by
  constructor
  · intro path cwd url hpath
    obtain ⟨located, hlocated, habsolute, rfl⟩ :=
      (ofPath_eq_ok_iff path cwd url).mp hpath
    have hspells : Spells (urlOf (Path.resolve located.segments)) _ :=
      spells_urlOf fun _ => Path.isName_of_mem_resolve
    have hcanonical := hspells.canonical fun _ => canonical_of_mem_map_encode
    refine ⟨located, _, hlocated, hspells,
      fun _ => canonical_of_mem_map_encode, fun c hc =>
        hcanonical.isPrintable hc, fun before after hsplit =>
          hcanonical.digits_follow hsplit, ?_⟩
    rw [decode_urlOf, Path.normalize_eq_ofNames, habsolute]
  · intro url segments cwd hspells hsegments
    exact hspells.ofPath_decode hsegments cwd

/-- A name with a backslash, a byte that is not UTF-8 and a percent sign, below
a working directory that is not in normal form. -/
theorem ofPath_reads_back_odd_name :
    ofPath ⟨[0x62, 0x5C, 0xFF, 0x25]⟩
        (some ⟨[0x2F, 0x61, 0x2F, 0x2E, 0x2E]⟩) =
      .ok "file:///b%5C%FF%25" ∧
    (∃ located segments,
      locate ⟨[0x62, 0x5C, 0xFF, 0x25]⟩
        (some ⟨[0x2F, 0x61, 0x2F, 0x2E, 0x2E]⟩) = some located ∧
      Spells "file:///b%5C%FF%25" segments ∧
      Percent.decode ("file:///b%5C%FF%25".toList.drop 7) =
        located.normalize.bytes) ∧
    ofPath ⟨Percent.decode ("file:///b%5C%FF%25".toList.drop 7)⟩ none =
      .ok "file:///b%5C%FF%25" := by
  have hpath : ofPath ⟨[0x62, 0x5C, 0xFF, 0x25]⟩
      (some ⟨[0x2F, 0x61, 0x2F, 0x2E, 0x2E]⟩) =
        .ok "file:///b%5C%FF%25" := by
    rfl
  obtain ⟨hforward, hbackward⟩ := ofPath_canonical_and_reversible
  obtain ⟨located, segments, hlocated, hspells, hsegments, -, -, hdecode⟩ :=
    hforward _ _ _ hpath
  exact ⟨hpath, ⟨located, segments, hlocated, hspells, hdecode⟩,
    hbackward _ segments none hspells hsegments⟩

end WebviewProxy.Identity
