import WebviewProxy.Options
import WebviewProxy.Proofs.JsonText
import WebviewProxy.Proofs.Utf16

/-!
# The language of options

The texts that spell options are written down here apart from any reader: the
lexemes of a value with blanks around them, where the value is an object or an
array of the right kind.  What the host's text stands for is exactly what it
spells, and a text that spells nothing is told about once and counts as no
options at all.
-/

namespace WebviewProxy

namespace Options

open Quoted (Denotes)

/-- The value under the name, when no two of the members have that name. -/
inductive Given (name : String) (members : List (Key × RawJson)) :
    Option RawJson → Prop
  | absent (hothers : ∀ member ∈ members, ¬ Denotes member.1 name) :
      Given name members none
  | once {before after : List (Key × RawJson)} {member : Key × RawJson}
      (hsplit : members = before ++ member :: after)
      (hname : Denotes member.1 name)
      (hbefore : ∀ other ∈ before, ¬ Denotes other.1 name)
      (hafter : ∀ other ∈ after, ¬ Denotes other.1 name) :
      Given name members (some member.2)

inductive IsPlatform : Option RawJson → Option String → Prop
  | absent : IsPlatform none none
  | null : IsPlatform (some .null) none
  | text {pieces : List Quoted.Piece} {name : String}
      (hname : Denotes pieces name) :
      IsPlatform (some (.string pieces)) (some name)

inductive IsFlag : Option RawJson → Option Bool → Prop
  | absent : IsFlag none none
  | null : IsFlag (some .null) none
  | bool (value : Bool) : IsFlag (some (.bool value)) (some value)

/-- The value is an object or an array with just these options. -/
inductive Describes : RawJson → Options → Prop
  | object {members : List (Key × RawJson)} {platform isDev : Option RawJson}
      {options : Options}
      (hkeys : ∀ member ∈ members, ∃ name, Denotes member.1 name)
      (hplatform : Given "platform" members platform)
      (hname : IsPlatform platform options.platform)
      (hisDev : Given "isDev" members isDev)
      (hflag : IsFlag isDev options.isDev) :
      Describes (.object members) options
  | array {items : List RawJson} {options : Options}
      (hlength : items.length ≤ 2)
      (hname : IsPlatform items[0]? options.platform)
      (hflag : IsFlag items[1]? options.isDev) :
      Describes (.array items) options

/-- The text spells the options. -/
def Spells (text : String) (options : Options) : Prop :=
  ∃ value : RawJson, Lexeme.Spaced value.lexemes text.toList ∧
    Describes value options

/-! ## One value -/

def ofGiven? {α : Type} (read : RawJson → Option (Option α)) :
    Option RawJson → Option (Option α)
  | none => some none
  | some value => read value

theorem isPlatform_iff (given : Option RawJson) (platform : Option String) :
    IsPlatform given platform ↔ ofGiven? platform? given = some platform := by
  constructor
  · intro hplatform
    cases hplatform with
    | absent => rfl
    | null => rfl
    | text hname =>
        rw [← Quoted.text?_eq_some_iff] at hname
        simp [ofGiven?, platform?, hname]
  · intro hread
    match given with
    | none =>
        cases hread
        exact .absent
    | some .null =>
        cases hread
        exact .null
    | some (.string pieces) =>
        obtain ⟨name, hname, rfl⟩ := Option.map_eq_some_iff.mp hread
        exact .text ((Quoted.text?_eq_some_iff _ _).mp hname)

theorem isFlag_iff (given : Option RawJson) (isDev : Option Bool) :
    IsFlag given isDev ↔ ofGiven? isDev? given = some isDev := by
  constructor
  · intro hflag
    cases hflag <;> rfl
  · intro hread
    match given with
    | none =>
        cases hread
        exact .absent
    | some .null =>
        cases hread
        exact .null
    | some (.bool value) =>
        cases hread
        exact .bool value

/-! ## Members under one name -/

def valuesOf (name : String) (members : List (Key × RawJson)) : List RawJson :=
  members.filterMap fun member =>
    if Quoted.text? member.1 = some name then some member.2 else none

theorem valuesOf_eq_nil_iff (name : String) (members : List (Key × RawJson)) :
    valuesOf name members = [] ↔
      ∀ member ∈ members, ¬ Denotes member.1 name := by
  simp [valuesOf, List.filterMap_eq_nil_iff, Quoted.text?_eq_some_iff]

theorem valuesOf_append (name : String) (front back : List (Key × RawJson)) :
    valuesOf name (front ++ back) =
      valuesOf name front ++ valuesOf name back :=
  List.filterMap_append

theorem valuesOf_cons {key : String} {member : Key × RawJson}
    (hkey : Quoted.text? member.1 = some key) (name : String)
    (rest : List (Key × RawJson)) :
    valuesOf name (member :: rest) =
      if key = name then member.2 :: valuesOf name rest
      else valuesOf name rest := by
  by_cases hname : key = name <;> simp [valuesOf, hkey, hname]

theorem given_iff (name : String) (members : List (Key × RawJson))
    (given : Option RawJson) :
    Given name members given ↔ valuesOf name members = given.toList := by
  constructor
  · intro hgiven
    cases hgiven with
    | absent hothers => exact (valuesOf_eq_nil_iff _ _).mpr hothers
    | once hsplit hname hbefore hafter =>
        rw [← Quoted.text?_eq_some_iff] at hname
        rw [hsplit, valuesOf_append, valuesOf_cons hname, if_pos rfl,
          (valuesOf_eq_nil_iff _ _).mpr hbefore,
          (valuesOf_eq_nil_iff _ _).mpr hafter]
        rfl
  · intro hvalues
    cases given with
    | none => exact .absent ((valuesOf_eq_nil_iff _ _).mp hvalues)
    | some value =>
        rw [Option.toList_some, valuesOf, List.filterMap_eq_cons_iff] at hvalues
        obtain ⟨before, member, after, hsplit, hbefore, hmember, hafter⟩ :=
          hvalues
        have hname : Quoted.text? member.1 = some name ∧ member.2 = value := by
          simpa using hmember
        obtain ⟨hname, rfl⟩ := hname
        refine .once hsplit ((Quoted.text?_eq_some_iff _ _).mp hname) ?_
          ((valuesOf_eq_nil_iff _ _).mp hafter)
        rw [← valuesOf_eq_nil_iff]
        exact List.filterMap_eq_nil_iff.mpr hbefore

theorem mapM_cons_eq_some_iff {α β : Type} (f : α → Option β) (a : α)
    (rest : List α) (found : List β) :
    (a :: rest).mapM f = some found ↔
      ∃ b, f a = some b ∧ ∃ others, rest.mapM f = some others ∧
        b :: others = found := by
  simp [List.mapM_cons, Option.bind_eq_some_iff]

theorem exists_once?_iff {α : Type} (read : RawJson → Option (Option α))
    (values : List RawJson) (value : Option α) :
    (∃ found, values.mapM read = some found ∧ once? found = some value) ↔
      ∃ given : Option RawJson, values = given.toList ∧
        ofGiven? read given = some value := by
  match values with
  | [] =>
      constructor
      · rintro ⟨found, hfound, hvalue⟩
        cases hfound
        exact ⟨none, rfl, hvalue⟩
      · rintro ⟨given, hgiven, hvalue⟩
        rw [Option.toList_eq_nil_iff.mp hgiven.symm] at hvalue
        exact ⟨[], rfl, hvalue⟩
  | [single] =>
      constructor
      · rintro ⟨found, hfound, hvalue⟩
        obtain ⟨result, hresult, _, ⟨⟩, rfl⟩ :=
          (mapM_cons_eq_some_iff _ _ _ _).mp hfound
        cases hvalue
        exact ⟨some single, rfl, hresult⟩
      · rintro ⟨given, hgiven, hvalue⟩
        rw [Option.toList_eq_singleton_iff.mp hgiven.symm] at hvalue
        refine ⟨[value], ?_, rfl⟩
        rw [mapM_cons_eq_some_iff]
        exact ⟨value, hvalue, [], rfl, rfl⟩
  | first :: second :: rest =>
      constructor
      · rintro ⟨found, hfound, hvalue⟩
        obtain ⟨_, -, others, hothers, rfl⟩ :=
          (mapM_cons_eq_some_iff _ _ _ _).mp hfound
        obtain ⟨_, -, _, -, rfl⟩ := (mapM_cons_eq_some_iff _ _ _ _).mp hothers
        cases hvalue
      · rintro ⟨given, hgiven, -⟩
        cases given <;> cases hgiven

theorem of_mapM_ofMember? {members : List (Key × RawJson)}
    {settings : List Setting}
    (hsettings : members.mapM Setting.ofMember? = some settings) :
    (∀ member ∈ members, ∃ name, Denotes member.1 name) ∧
      (valuesOf "platform" members).mapM platform? =
        some (settings.filterMap Setting.platform?) ∧
      (valuesOf "isDev" members).mapM isDev? =
        some (settings.filterMap Setting.isDev?) := by
  induction members generalizing settings with
  | nil =>
      cases hsettings
      exact ⟨nofun, rfl, rfl⟩
  | cons member rest ih =>
      obtain ⟨setting, hsetting, others, hothers, rfl⟩ :=
        (mapM_cons_eq_some_iff _ _ _ _).mp hsettings
      obtain ⟨hkeys, hplatforms, hflags⟩ := ih hothers
      obtain ⟨name, hname, hsetting⟩ := Option.bind_eq_some_iff.mp hsetting
      have hdenotes := (Quoted.text?_eq_some_iff _ _).mp hname
      rw [valuesOf_cons hname, valuesOf_cons hname, List.forall_mem_cons]
      refine ⟨⟨⟨name, hdenotes⟩, hkeys⟩, ?_⟩
      split at hsetting
      · rename_i hplatform
        obtain ⟨platform, hvalue, rfl⟩ := Option.map_eq_some_iff.mp hsetting
        subst hplatform
        simp [hvalue, hplatforms, hflags, List.filterMap_cons,
          Setting.platform?, Setting.isDev?]
      · rename_i hplatform
        split at hsetting
        · rename_i hisDev
          obtain ⟨isDev, hvalue, rfl⟩ := Option.map_eq_some_iff.mp hsetting
          subst hisDev
          simp [hvalue, hplatforms, hflags, List.filterMap_cons,
            Setting.platform?, Setting.isDev?]
        · rename_i hisDev
          cases hsetting
          simp [hplatform, hisDev, hplatforms, hflags, List.filterMap_cons,
            Setting.platform?, Setting.isDev?]

theorem exists_mapM_iff {α β : Type} (f : α → Option β) (items : List α) :
    (∃ found, items.mapM f = some found) ↔ ∀ a ∈ items, ∃ b, f a = some b := by
  induction items with
  | nil => exact ⟨fun _ => nofun, fun _ => ⟨[], rfl⟩⟩
  | cons a rest ih =>
      rw [List.forall_mem_cons, ← ih]
      constructor
      · rintro ⟨found, hfound⟩
        obtain ⟨b, hb, others, hothers, -⟩ :=
          (mapM_cons_eq_some_iff _ _ _ _).mp hfound
        exact ⟨⟨b, hb⟩, others, hothers⟩
      · rintro ⟨⟨b, hb⟩, others, hothers⟩
        refine ⟨b :: others, ?_⟩
        rw [mapM_cons_eq_some_iff]
        exact ⟨b, hb, others, hothers, rfl⟩

theorem mem_valuesOf {name : String} {member : Key × RawJson}
    {members : List (Key × RawJson)} (hmember : member ∈ members)
    (hname : Quoted.text? member.1 = some name) :
    member.2 ∈ valuesOf name members :=
  List.mem_filterMap.mpr ⟨member, hmember, if_pos hname⟩

theorem exists_mapM_ofMember? {members : List (Key × RawJson)}
    {platforms : List (Option String)} {flags : List (Option Bool)}
    (hkeys : ∀ member ∈ members, ∃ name, Denotes member.1 name)
    (hplatforms : (valuesOf "platform" members).mapM platform? =
      some platforms)
    (hflags : (valuesOf "isDev" members).mapM isDev? = some flags) :
    ∃ settings, members.mapM Setting.ofMember? = some settings := by
  have hplatform := (exists_mapM_iff _ _).mp ⟨platforms, hplatforms⟩
  have hisDev := (exists_mapM_iff _ _).mp ⟨flags, hflags⟩
  rw [exists_mapM_iff]
  intro member hmember
  obtain ⟨name, hdenotes⟩ := hkeys member hmember
  have hname := (Quoted.text?_eq_some_iff _ _).mpr hdenotes
  simp only [Setting.ofMember?, hname, Option.bind_eq_bind, Option.bind_some]
  split
  · rename_i hkey
    rw [hkey] at hname
    obtain ⟨platform, hvalue⟩ := hplatform _ (mem_valuesOf hmember hname)
    exact ⟨.platform platform, by rw [hvalue]; rfl⟩
  · split
    · rename_i hkey
      rw [hkey] at hname
      obtain ⟨isDev, hvalue⟩ := hisDev _ (mem_valuesOf hmember hname)
      exact ⟨.isDev isDev, by rw [hvalue]; rfl⟩
    · exact ⟨.unknown, rfl⟩

/-! ## Objects, arrays and texts -/

theorem ofSettings?_eq_some_iff (settings : List Setting) (options : Options) :
    ofSettings? settings = some options ↔
      once? (settings.filterMap Setting.platform?) = some options.platform ∧
        once? (settings.filterMap Setting.isDev?) = some options.isDev := by
  simp only [ofSettings?, Option.bind_eq_bind, Option.bind_eq_some_iff]
  constructor
  · rintro ⟨platform, hplatform, isDev, hisDev, ⟨⟩⟩
    exact ⟨hplatform, hisDev⟩
  · rintro ⟨hplatform, hisDev⟩
    exact ⟨_, hplatform, _, hisDev, rfl⟩

theorem ofRaw?_object_iff (members : List (Key × RawJson))
    (options : Options) :
    ofRaw? (.object members) = some options ↔
      Describes (.object members) options := by
  rw [ofRaw?, Option.bind_eq_some_iff]
  constructor
  · rintro ⟨settings, hsettings, hoptions⟩
    obtain ⟨hkeys, hplatforms, hflags⟩ := of_mapM_ofMember? hsettings
    obtain ⟨hplatform, hisDev⟩ := (ofSettings?_eq_some_iff _ _).mp hoptions
    obtain ⟨platform, hgiven, hname⟩ :=
      (exists_once?_iff _ _ _).mp ⟨_, hplatforms, hplatform⟩
    obtain ⟨isDev, hgiven', hflag⟩ :=
      (exists_once?_iff _ _ _).mp ⟨_, hflags, hisDev⟩
    exact .object hkeys ((given_iff _ _ _).mpr hgiven)
      ((isPlatform_iff _ _).mpr hname) ((given_iff _ _ _).mpr hgiven')
      ((isFlag_iff _ _).mpr hflag)
  · intro hdescribes
    cases hdescribes with
    | object hkeys hplatform hname hisDev hflag =>
        rw [given_iff] at hplatform hisDev
        rw [isPlatform_iff] at hname
        rw [isFlag_iff] at hflag
        obtain ⟨platforms, hplatforms, honce⟩ :=
          (exists_once?_iff _ _ _).mpr ⟨_, hplatform, hname⟩
        obtain ⟨flags, hflags, honce'⟩ :=
          (exists_once?_iff _ _ _).mpr ⟨_, hisDev, hflag⟩
        obtain ⟨settings, hsettings⟩ :=
          exists_mapM_ofMember? hkeys hplatforms hflags
        obtain ⟨-, hfound, hfound'⟩ := of_mapM_ofMember? hsettings
        rw [hplatforms, Option.some.injEq] at hfound
        rw [hflags, Option.some.injEq] at hfound'
        refine ⟨settings, hsettings, ?_⟩
        rw [ofSettings?_eq_some_iff, ← hfound, ← hfound']
        exact ⟨honce, honce'⟩

theorem ofRaw?_array_iff (items : List RawJson) (options : Options) :
    ofRaw? (.array items) = some options ↔
      Describes (.array items) options := by
  have hdescribes : Describes (.array items) options ↔ items.length ≤ 2 ∧
      ofGiven? platform? items[0]? = some options.platform ∧
        ofGiven? isDev? items[1]? = some options.isDev := by
    rw [← isPlatform_iff, ← isFlag_iff]
    constructor
    · rintro (_ | ⟨hlength, hname, hflag⟩)
      exact ⟨hlength, hname, hflag⟩
    · rintro ⟨hlength, hname, hflag⟩
      exact .array hlength hname hflag
  rw [hdescribes]
  match items with
  | [] =>
      obtain ⟨platform, isDev⟩ := options
      simp [ofRaw?, ofGiven?, eq_comm]
  | [first] =>
      obtain ⟨platform, isDev⟩ := options
      simp [ofRaw?, ofGiven?, Option.bind_eq_some_iff, and_comm]
  | [first, second] =>
      obtain ⟨platform, isDev⟩ := options
      simp [ofRaw?, ofGiven?, Option.bind_eq_some_iff]
  | first :: second :: third :: rest => simp [ofRaw?]

theorem ofRaw?_eq_some_iff (value : RawJson) (options : Options) :
    ofRaw? value = some options ↔ Describes value options := by
  cases value with
  | object members => exact ofRaw?_object_iff members options
  | array items => exact ofRaw?_array_iff items options
  | _ => exact ⟨nofun, nofun⟩

theorem ofText?_eq_some_iff (text : String) (options : Options) :
    ofText? text = some options ↔ Spells text options := by
  rw [ofText?, Option.bind_eq_some_iff]
  apply exists_congr
  intro value
  rw [RawJson.ofText?_eq_some_iff, ofRaw?_eq_some_iff]

example : ofText? "\x7b\"isDev\": true, \"isD\\u0065v\": null\x7d" = none := by
  cbv

/-- The options of a host are those that its text spells, without a warning.  A
text that spells none gives no options and one warning, and no text gives
neither. -/
theorem host_options_spelled (text : String) :
    (warnings (some text) = [] ↔ ∃ options, Spells text options) ∧
    (∀ options, ofHost (some text) = options ∧ warnings (some text) = [] ↔
      Spells text options) ∧
    (ofHost (some text) = {} ∧ warnings (some text) = [.malformedOptions] ↔
      ¬ ∃ options, Spells text options) ∧
    ofHost none = {} ∧ warnings none = [] := by
  simp only [← ofText?_eq_some_iff, ofHost, warnings, Option.bind_some]
  cases ofText? text with
  | none => simp
  | some options => simp

end Options

end WebviewProxy
