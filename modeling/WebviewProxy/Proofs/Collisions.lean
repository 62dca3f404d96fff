import Mathlib.Data.List.TFAE
import Mathlib.Tactic.TFAE
import WebviewProxy.Proofs.Address

/-!
# When two proxies are the same

A proxy is a fixed text around the address of its page, so two proxies are the
same exactly when their addresses are.  An address in production says no more
about the identity of a file than the digest of it, and an address in
development spells the identity out.  Everything that is written into an address
can be read off it again: the kind of the page from the form of the expression,
the base name from between fixed texts, and the digest from its digits.  So two
components load one page only when their digests collide.
-/

namespace WebviewProxy

/-! ## Digits of a digest -/

namespace Hex

def smallDigits : List Char := "0123456789abcdef".toList

theorem digit_inj {letters : Letters} {first second : Nat}
    (hfirst : first < 16) (hsecond : second < 16)
    (heq : digit letters first = digit letters second) : first = second := by
  have hvalue := value?_digit letters hfirst
  rw [heq, value?_digit letters hsecond, Option.some.injEq] at hvalue
  exact hvalue.symm

theorem ofByte_inj {letters : Letters} {first second : UInt8}
    (heq : ofByte letters first = ofByte letters second) : first = second := by
  have hbound (byte : UInt8) : byte.toNat / 16 < 16 := by
    have := byte.toNat_lt
    omega
  simp only [ofByte, List.cons.injEq, and_true] at heq
  have hhigh := digit_inj (hbound first) (hbound second) heq.1
  have hlow := digit_inj (Nat.mod_lt _ (by decide)) (Nat.mod_lt _ (by decide))
    heq.2
  apply UInt8.toNat_inj.mp
  omega

theorem ofBytes_cons (letters : Letters) (byte : UInt8) (rest : List UInt8) :
    ofBytes letters (byte :: rest) =
      ofByte letters byte ++ ofBytes letters rest :=
  rfl

theorem ofBytes_inj {letters : Letters} {first second : List UInt8}
    (heq : ofBytes letters first = ofBytes letters second) :
    first = second := by
  induction first generalizing second with
  | nil =>
      cases second with
      | nil => rfl
      | cons byte rest => cases heq
  | cons byte rest ih =>
      cases second with
      | nil => cases heq
      | cons other others =>
          rw [ofBytes_cons, ofBytes_cons] at heq
          obtain ⟨hbyte, hrest⟩ := List.append_inj heq rfl
          rw [ofByte_inj hbyte, ih hrest]

theorem digit_mem_smallDigits {value : Nat} (hvalue : value < 16) :
    digit .small value ∈ smallDigits := by
  have hall : ∀ v < 16, digit .small v ∈ smallDigits := by
    decide
  exact hall value hvalue

theorem ofBytes_subset_smallDigits (bytes : List UInt8) :
    ofBytes .small bytes ⊆ smallDigits := by
  induction bytes with
  | nil => exact List.nil_subset _
  | cons byte rest ih =>
      have hbyte : byte.toNat / 16 < 16 := by
        have := byte.toNat_lt
        omega
      have hdigits : ofByte .small byte ⊆ smallDigits := by
        simp [ofByte, digit_mem_smallDigits hbyte,
          digit_mem_smallDigits (Nat.mod_lt byte.toNat (by decide : 0 < 16))]
      rw [ofBytes_cons]
      exact List.append_subset.mpr ⟨hdigits, ih⟩

end Hex

theorem length_sha1 (message : List UInt8) : (sha1 message).length = 20 :=
  Sha1.bytes_length _

/-! ## Names of exported pages -/

namespace Asset

theorem fileName_spelled (identity : String) :
    ∃ digits : List Char, digits.length = 40 ∧ digits ⊆ Hex.smallDigits ∧
      (fileName identity).toList = digits ++ ".html".toList := by
  refine ⟨_, ?_, Hex.ofBytes_subset_smallDigits (sha1 (Utf8.bytes identity)),
    ?_⟩
  · rw [Hex.ofBytes_length, length_sha1]
  · rw [fileName, String.toList_append, hash, String.toList_ofList]

variable (first second : String)

theorem fileName_eq_iff : fileName first = fileName second ↔
    sha1 (Utf8.bytes first) = sha1 (Utf8.bytes second) := by
  unfold fileName
  rw [String.append_left_inj, hash, hash, String.ofList_inj]
  constructor
  · exact Hex.ofBytes_inj
  · exact congrArg _

theorem iosUri_eq_iff : iosUri first = iosUri second ↔
    fileName first = fileName second := by
  unfold iosUri
  exact String.append_right_inj _

theorem androidPath_eq_iff : androidPath first = androidPath second ↔
    fileName first = fileName second := by
  unfold androidPath
  exact String.append_right_inj _

theorem androidUri_eq_iff : androidUri first = androidUri second ↔
    fileName first = fileName second := by
  unfold androidUri
  rw [String.append_right_inj, androidPath_eq_iff]

end Asset

/-! ## Addresses -/

namespace Page

/-- Two pages that have the same address: they lie in the same place, and their
identities have the same digest or, in development, are the same. -/
inductive Collides : Page → Page → Prop
  | iosBundle {first second : String}
      (hdigest : sha1 (Utf8.bytes first) = sha1 (Utf8.bytes second)) :
      Collides (.iosBundle first) (.iosBundle second)
  | androidAsset {first second : String}
      (hdigest : sha1 (Utf8.bytes first) = sha1 (Utf8.bytes second)) :
      Collides (.androidAsset first) (.androidAsset second)
  | devServer (basename identity : String) :
      Collides (.devServer basename identity) (.devServer basename identity)

theorem route_inj {first second : String} (heq : route first = route second) :
    first = second := by
  unfold route at heq
  rwa [String.append_left_inj, String.append_right_inj] at heq

theorem Collides.uri_eq {page other : Page} (hcollides : page.Collides other) :
    page.uri = other.uri := by
  cases hcollides with
  | @iosBundle first second hdigest =>
      rw [← Asset.fileName_eq_iff, ← Asset.iosUri_eq_iff] at hdigest
      rw [uri, hdigest, uri]
  | @androidAsset first second hdigest =>
      rw [← Asset.fileName_eq_iff, ← Asset.androidPath_eq_iff] at hdigest
      rw [uri, hdigest, uri]
  | devServer basename identity => rfl

/-- The literals of an address that is settled before the proxy runs. -/
theorem literals?_uri (page : Page) :
    page.uri.literals? =
      match page with
      | .iosBundle identity => some [Asset.iosUri identity]
      | .androidAsset identity =>
          some [Asset.androidRoot, Asset.androidPath identity]
      | .devServer _ _ => none := by
  cases page <;> rfl

theorem collides_of_uri_eq {page other : Page} (heq : page.uri = other.uri) :
    page.Collides other := by
  have hliterals := congrArg Tree.literals? heq
  rw [literals?_uri, literals?_uri] at hliterals
  -- Pages of different kinds differ in the number of their literals.
  cases page with
  | iosBundle first =>
      cases other with
      | iosBundle second =>
          simp only [Option.some.injEq, List.cons.injEq, and_true,
            Asset.iosUri_eq_iff, Asset.fileName_eq_iff] at hliterals
          exact .iosBundle hliterals
      | androidAsset second => simp at hliterals
      | devServer basename second => cases hliterals
  | androidAsset first =>
      cases other with
      | iosBundle second => simp at hliterals
      | androidAsset second =>
          simp only [Option.some.injEq, List.cons.injEq, and_true, true_and,
            Asset.androidPath_eq_iff, Asset.fileName_eq_iff] at hliterals
          exact .androidAsset hliterals
      | devServer basename second => cases hliterals
  | devServer basename first =>
      cases other with
      | iosBundle second => cases hliterals
      | androidAsset second => cases hliterals
      | devServer otherBasename second =>
          have hargument := congrArg
            (fun address => address.urlArgument?.bind Tree.literals?) heq
          simp only [literals?_devServer, Option.some.injEq, List.cons.injEq,
            and_true] at hargument
          rw [route_inj hargument.1, hargument.2]
          exact .devServer _ _

/-- What a proxy shares with every other one: it is a fixed text, which has no
property `uri`, around the one that holds the address of the page. -/
def Surround (front back : List Tree) : Prop :=
  Tree.maskItems "uri" (front ++ back) = front ++ back ∧
    ∀ page : Page, page.proxyBody =
      front ++ Tree.Generated.constant "source"
        (Tree.Generated.object
          [Tree.Generated.property "uri" page.uri]) :: back

theorem exists_surround : ∃ front back, Surround front back :=
  ⟨[_, _], [_], rfl, fun _ => rfl⟩

theorem proxyBody_eq_iff (page other : Page) :
    page.proxyBody = other.proxyBody ↔ page.Collides other := by
  constructor
  · intro heq
    have haddress := congrArg Tree.address? heq
    rw [address?_proxyBody, address?_proxyBody, Option.some.injEq] at haddress
    exact collides_of_uri_eq haddress
  · intro hcollides
    obtain ⟨front, back, -, hbody⟩ := exists_surround
    rw [hbody, hbody, hcollides.uri_eq]

/-- Two proxies are the same exactly when their pages collide, and they never
differ but in the address.  An exported page is named by forty small digits, and
its name, its addresses and the digest of its identity tell equally much about
the identity. -/
theorem proxies_collide_with_digests :
    (∀ page other : Page,
      page.proxyBody = other.proxyBody ↔ page.Collides other) ∧
    (∃ front back, Surround front back) ∧
    (∀ identity, ∃ digits : List Char,
      digits.length = 40 ∧ digits ⊆ Hex.smallDigits ∧
        (Asset.fileName identity).toList = digits ++ ".html".toList) ∧
    ∀ first second : String,
      List.TFAE [
        Asset.fileName first = Asset.fileName second,
        Asset.iosUri first = Asset.iosUri second,
        Asset.androidUri first = Asset.androidUri second,
        sha1 (Utf8.bytes first) = sha1 (Utf8.bytes second)] := by
  refine ⟨proxyBody_eq_iff, exists_surround, Asset.fileName_spelled, ?_⟩
  intro first second
  tfae_have 1 ↔ 2 := (Asset.iosUri_eq_iff first second).symm
  tfae_have 1 ↔ 3 := (Asset.androidUri_eq_iff first second).symm
  tfae_have 1 ↔ 4 := Asset.fileName_eq_iff first second
  tfae_finish

end Page

end WebviewProxy
