import WebviewProxy.Json.Raw
import WebviewProxy.Record

/-!
# Options

The host hands over its options as a JSON text: an object with the keys
`platform` and `isDev`, each at most once, or an array of at most these two
values.  Other keys of the object are free, and so is what stands under them.
A text of any other kind counts as no options at all.
-/

namespace WebviewProxy

structure Options where
  platform : Option String := none
  isDev : Option Bool := none
  deriving DecidableEq, Repr

namespace Options

def platform? : RawJson → Option (Option String)
  | .null => some none
  | .string pieces => (Quoted.text? pieces).map some
  | _ => none

def isDev? : RawJson → Option (Option Bool)
  | .null => some none
  | .bool value => some (some value)
  | _ => none

inductive Setting where
  | platform (name : Option String)
  | isDev (value : Option Bool)
  | unknown
  deriving DecidableEq, Repr

def Setting.ofMember? (member : Key × RawJson) : Option Setting := do
  let key ← Quoted.text? member.1
  if key = "platform" then (platform? member.2).map .platform
  else if key = "isDev" then (isDev? member.2).map .isDev
  else some .unknown

def Setting.platform? : Setting → Option (Option String)
  | .platform name => some name
  | _ => none

def Setting.isDev? : Setting → Option (Option Bool)
  | .isDev value => some value
  | _ => none

/-- The value of a key that may be given once. -/
def once? {α : Type} : List (Option α) → Option (Option α)
  | [] => some none
  | [value] => some value
  | _ => none

def ofSettings? (settings : List Setting) : Option Options := do
  let platform ← once? (settings.filterMap Setting.platform?)
  let isDev ← once? (settings.filterMap Setting.isDev?)
  some { platform, isDev }

def ofRaw? : RawJson → Option Options
  | .object members => (members.mapM Setting.ofMember?).bind ofSettings?
  | .array [] => some {}
  | .array [platform] => do
      some { platform := ← platform? platform }
  | .array [platform, isDev] => do
      some { platform := ← platform? platform, isDev := ← isDev? isDev }
  | _ => none

def ofText? (text : String) : Option Options :=
  (RawJson.ofText? text).bind ofRaw?

/-- What the host is told about a text that spells no options. -/
def warnings (text : Option String) : List Record :=
  match text with
  | none => []
  | some text => if (ofText? text).isNone then [.malformedOptions] else []

/-- The options of the host; a malformed text counts as none. -/
def ofHost (text : Option String) : Options :=
  (text.bind ofText?).getD {}

end Options

end WebviewProxy
