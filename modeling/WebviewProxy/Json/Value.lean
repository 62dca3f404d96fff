/-!
# JSON values

The metadata of a file is an arbitrary JSON value.  An object keeps its members
in order; setting a key replaces its first member and appends a new one only
when the key is absent, so every other key keeps its value.
-/

namespace WebviewProxy

/-- A number in decimal notation, `mantissa / 10 ^ places`. -/
structure Decimal where
  mantissa : Int
  places : Nat
  deriving DecidableEq, Repr

inductive Json where
  | null
  | bool (value : Bool)
  | number (value : Decimal)
  | string (value : String)
  | array (items : List Json)
  | object (members : List (String × Json))
  deriving Repr, Inhabited

namespace Json

def setMember (key : String) (value : Json) :
    List (String × Json) → List (String × Json)
  | [] => [(key, value)]
  | (other, old) :: rest =>
      if other = key then (key, value) :: rest
      else (other, old) :: setMember key value rest

@[simp]
theorem lookup_setMember_self (key : String) (value : Json)
    (members : List (String × Json)) :
    (setMember key value members).lookup key = some value := by
  induction members with
  | nil => simp [setMember]
  | cons member rest ih =>
      obtain ⟨name, old⟩ := member
      unfold setMember
      split
      · simp
      · rename_i hne
        have hkey : (key == name) = false := by
          simpa using Ne.symm hne
        simp [List.lookup_cons, hkey, ih]

theorem lookup_setMember_of_ne {key other : String} (hne : other ≠ key)
    (value : Json) (members : List (String × Json)) :
    (setMember key value members).lookup other = members.lookup other := by
  have hkey : (other == key) = false := by simpa using hne
  induction members with
  | nil => simp [setMember, List.lookup_cons, hkey]
  | cons member rest ih =>
      obtain ⟨name, old⟩ := member
      unfold setMember
      split
      · rename_i heq
        subst heq
        simp [List.lookup_cons, hkey]
      · simp [List.lookup_cons, ih]

/-- The value under `key`, when the receiver is an object that has one. -/
def get? (json : Json) (key : String) : Option Json :=
  match json with
  | .object members => members.lookup key
  | _ => none

def text? : Json → Option String
  | .string value => some value
  | _ => none

end Json

end WebviewProxy
