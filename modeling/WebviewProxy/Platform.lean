/-!
# Platforms

A build is aimed at one platform.  Web, iOS and Android are known; any other
name is kept as it was given.
-/

namespace WebviewProxy

inductive Platform where
  | web
  | ios
  | android
  | other (name : String)
  deriving DecidableEq, Repr

namespace Platform

def ofName (name : String) : Platform :=
  if name = "web" then .web
  else if name = "ios" then .ios
  else if name = "android" then .android
  else .other name

def name : Platform → String
  | .web => "web"
  | .ios => "ios"
  | .android => "android"
  | .other name => name

@[simp]
theorem name_ofName (text : String) : (ofName text).name = text := by
  unfold ofName
  split
  · simp_all [name]
  · split
    · simp_all [name]
    · split <;> simp_all [name]

end Platform

end WebviewProxy
