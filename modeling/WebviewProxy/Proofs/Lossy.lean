import Mathlib.Data.List.Basic
import WebviewProxy.Proofs.Utf16
import WebviewProxy.Text.Utf8

/-!
# What a lossy reading keeps

Bytes that are not UTF-8 are read as replacement marks, so a reading may say
less than the bytes do.  But it is empty for no bytes alone, and it shows an
ASCII character exactly where its byte stands: a byte below 128 always begins
and ends a character, and no longer character that was read from several bytes
is one of ASCII.  The bytes of a text lose nothing: each character is read back
from the one to four bytes that it was written with.
-/

namespace WebviewProxy.Utf8

/-- A state in which a character of several bytes can only end beyond ASCII. -/
def State.Wide : State → Prop
  | .between => True
  | .inside owed low _ code =>
      0 < owed ∧ 0x80 ≤ low ∧ (owed = 1 → 2 ≤ code) ∧
        (1 < owed → 2 ≤ code * 64 + (low - 0x80))

/-- What reading one byte does: it shows the ASCII character of the byte and no
other one, and it either shows something or is inside a character. -/
structure Reads (byte : Nat) (result : List Char × State) : Prop where
  wide : result.2.Wide
  shows : ∀ c : Char, 0 < c.toNat → c.toNat < 0x80 →
    (c ∈ result.1 ↔ c.toNat = byte)
  progress : result.1 = [] → result.2 ≠ .between

theorem replacement_ne {c : Char} (hascii : c.toNat < 0x80) :
    c ≠ replacement := by
  rintro rfl
  exact absurd hascii (by decide)

theorem ne_ofNat_of_le {c : Char} {code : Nat} (hpos : 0 < c.toNat)
    (hascii : c.toNat < 0x80) (hcode : 0x80 ≤ code) : c ≠ Char.ofNat code := by
  rintro rfl
  by_cases hvalid : code.isValidChar
  · rw [Utf16.toNat_ofNat hvalid] at hascii
    omega
  · have hzero : (Char.ofNat code).toNat = 0 := by
      rw [Char.ofNat, dif_neg hvalid]
      rfl
    omega

theorem Reads.of_ite {byte : Nat} {P : Prop} [Decidable P]
    {first second : List Char × State} (hfirst : P → Reads byte first)
    (hsecond : ¬ P → Reads byte second) :
    Reads byte (if P then first else second) := by
  by_cases hP : P
  · rw [if_pos hP]
    exact hfirst hP
  · rw [if_neg hP]
    exact hsecond hP

theorem reads_ascii {byte : Nat} (hbyte : byte < 0x80) :
    Reads byte ([Char.ofNat byte], .between) := by
  refine ⟨trivial, fun c hpos hascii => ?_, by simp⟩
  rw [List.mem_singleton, ← Char.toNat_inj, Utf16.toNat_ofNat (by omega)]

theorem reads_mark {byte : Nat} (hbyte : 0x80 ≤ byte) :
    Reads byte ([replacement], .between) := by
  refine ⟨trivial, fun c hpos hascii => ?_, by simp⟩
  simp only [List.mem_singleton, replacement_ne hascii, false_iff]
  omega

theorem reads_inside {byte owed low high code : Nat} (hbyte : 0x80 ≤ byte)
    (hwide : State.Wide (.inside owed low high code)) :
    Reads byte ([], .inside owed low high code) := by
  refine ⟨hwide, fun c hpos hascii => ?_, by simp⟩
  simp only [List.not_mem_nil, false_iff]
  omega

theorem lead_reads (byte : Nat) : Reads byte (lead byte) := by
  unfold lead
  refine .of_ite reads_ascii fun hlong => ?_
  have hbyte : 0x80 ≤ byte := Nat.le_of_not_lt hlong
  refine .of_ite (fun _ => reads_mark hbyte) fun htwo => ?_
  refine .of_ite (fun _ => reads_inside hbyte ?_) fun hthree => ?_
  · unfold State.Wide
    omega
  refine .of_ite (fun _ => reads_inside hbyte ?_) fun hfirst => ?_
  · simp [State.Wide]
  refine .of_ite (fun _ => reads_inside hbyte ?_) fun _ => ?_
  · simp [State.Wide]
  refine .of_ite (fun _ => reads_inside hbyte ?_) fun hfour => ?_
  · unfold State.Wide
    omega
  refine .of_ite (fun _ => reads_inside hbyte ?_) fun hfirst => ?_
  · simp [State.Wide]
  refine .of_ite (fun _ => reads_inside hbyte ?_) fun _ => ?_
  · unfold State.Wide
    omega
  refine .of_ite (fun _ => reads_inside hbyte ?_) fun _ => ?_
  · simp [State.Wide]
  exact reads_mark hbyte

theorem feed_reads {state : State} (hstate : state.Wide) (byte : Nat) :
    Reads byte (state.feed byte) := by
  cases state with
  | between => exact lead_reads byte
  | inside owed low high code =>
      obtain ⟨howed, hlow, hlast, hmore⟩ := hstate
      simp only [State.feed]
      split_ifs with hbyte hone
      · -- The last byte of the character.
        refine ⟨trivial, fun c hpos hascii => ?_, by simp⟩
        have hcode := hlast hone
        have hwide : 0x80 ≤ code * 64 + (byte - 0x80) := by omega
        have hne := ne_ofNat_of_le hpos hascii hwide
        simp only [List.mem_singleton, hne, false_iff]
        omega
      · refine ⟨?_, fun c hpos hascii => ?_, by simp⟩
        · have hcode := hmore (by omega)
          simp only [State.Wide]
          omega
        · simp only [List.not_mem_nil, false_iff]
          omega
      · obtain ⟨hwide, hshows, -⟩ := lead_reads byte
        refine ⟨hwide, fun c hpos hascii => ?_, by simp⟩
        rw [List.mem_cons, hshows c hpos hascii]
        simp only [replacement_ne hascii, false_or]

theorem read_cons (state : State) (byte : UInt8) (rest : List UInt8) :
    state.read (byte :: rest) =
      (state.feed byte.toNat).1 ++ (state.feed byte.toNat).2.read rest := by
  cases state <;> rfl

theorem read_ne_nil {state : State} {bytes : List UInt8}
    (hstate : state.Wide) (hread : state ≠ .between ∨ bytes ≠ []) :
    state.read bytes ≠ [] := by
  induction bytes generalizing state with
  | nil =>
      cases state with
      | between => simp at hread
      | inside owed low high code => simp [State.read]
  | cons byte rest ih =>
      obtain ⟨hwide, -, hprogress⟩ := feed_reads hstate byte.toNat
      rw [read_cons]
      intro hnone
      obtain ⟨hshown, hrest⟩ := List.append_eq_nil_iff.mp hnone
      exact ih hwide (.inl (hprogress hshown)) hrest

theorem mem_read_iff {state : State} (hstate : state.Wide) {c : Char}
    (hpos : 0 < c.toNat) (hascii : c.toNat < 0x80) (bytes : List UInt8) :
    c ∈ state.read bytes ↔ UInt8.ofNat c.toNat ∈ bytes := by
  -- The invariant is that no open character can end in an ASCII one.
  induction bytes generalizing state with
  | nil =>
      cases state with
      | between => simp [State.read]
      | inside owed low high code => simp [State.read, replacement_ne hascii]
  | cons byte rest ih =>
      obtain ⟨hwide, hshows, -⟩ := feed_reads hstate byte.toNat
      have hbyte : c.toNat = byte.toNat ↔ UInt8.ofNat c.toNat = byte := by
        rw [← UInt8.toNat_inj, UInt8.toNat_ofNat_of_lt' (show _ < 256 by omega)]
      rw [read_cons, List.mem_append, hshows c hpos hascii, ih hwide, hbyte,
        List.mem_cons]

theorem lossy_eq_empty_iff (bytes : List UInt8) :
    lossy bytes = "" ↔ bytes = [] := by
  constructor
  · intro hempty
    by_contra hne
    have hread : State.read .between bytes ≠ [] :=
      read_ne_nil trivial (.inr hne)
    rw [lossy, String.ofList_eq_empty_iff] at hempty
    exact hread hempty
  · rintro rfl
    rfl

/-- An ASCII character is shown exactly where its byte stands. -/
theorem mem_lossy_iff {c : Char} (hpos : 0 < c.toNat)
    (hascii : c.toNat < 0x80) (bytes : List UInt8) :
    c ∈ (lossy bytes).toList ↔ UInt8.ofNat c.toNat ∈ bytes := by
  have hstart : State.Wide .between := trivial
  rw [lossy, String.toList_ofList]
  exact mem_read_iff hstart hpos hascii bytes

/-! ## The bytes of a text -/

theorem bytes_eq_flatMap (text : String) :
    bytes text = text.toList.flatMap String.utf8EncodeChar := by
  have hencoded : text.toUTF8 = text.toList.utf8Encode :=
    String.utf8Encode_toList.symm
  rw [bytes, hencoded, List.utf8Encode, List.toList_data_toByteArray]

theorem read_ofNat_cons (state : State) {byte : Nat} (hbyte : byte < 0x100)
    (rest : List UInt8) :
    state.read (UInt8.ofNat byte :: rest) =
      (state.feed byte).1 ++ (state.feed byte).2.read rest := by
  rw [read_cons, UInt8.toNat_ofNat_of_lt' hbyte]

/-- A byte in the range that the open character asks for. -/
theorem read_inside {owed low high code byte : Nat} (hlow : low ≤ byte)
    (hhigh : byte ≤ high) (hbyte : byte < 0x100) (rest : List UInt8) :
    State.read (.inside owed low high code) (UInt8.ofNat byte :: rest) =
      if owed = 1 then
        Char.ofNat (code * 64 + (byte - 0x80)) :: State.read .between rest
      else State.read (.inside (owed - 1) 0x80 0xBF
        (code * 64 + (byte - 0x80))) rest := by
  rw [read_ofNat_cons _ hbyte, State.feed, if_pos ⟨hlow, hhigh⟩]
  split <;> rfl

theorem read_lead {byte owed low high code : Nat}
    (hlead : lead byte = ([], .inside owed low high code))
    (hbyte : byte < 0x100) (rest : List UInt8) :
    State.read .between (UInt8.ofNat byte :: rest) =
      State.read (.inside owed low high code) rest := by
  rw [read_ofNat_cons _ hbyte, State.feed, hlead, List.nil_append]

theorem lead_two {byte : Nat} (hlow : 0xC2 ≤ byte) (hhigh : byte < 0xE0) :
    lead byte = ([], .inside 1 0x80 0xBF (byte - 0xC0)) := by
  rw [lead, if_neg (by omega), if_neg (by omega), if_pos hhigh]

/-- The first byte of three.  It bounds the second one where the character would
have a shorter form or be a surrogate. -/
theorem lead_three {byte : Nat} (hlow : 0xE0 ≤ byte) (hhigh : byte < 0xF0) :
    lead byte = ([], .inside 2 (if byte = 0xE0 then 0xA0 else 0x80)
      (if byte = 0xED then 0x9F else 0xBF) (byte - 0xE0)) := by
  rw [lead, if_neg (by omega), if_neg (by omega), if_neg (by omega)]
  by_cases hfirst : byte = 0xE0
  · simp [hfirst]
  · by_cases hsurrogate : byte = 0xED
    · simp [hsurrogate]
    · simp [hfirst, hsurrogate, hhigh]

/-- The first byte of four.  It bounds the second one where the character would
have a shorter form or none. -/
theorem lead_four {byte : Nat} (hlow : 0xF0 ≤ byte) (hhigh : byte < 0xF5) :
    lead byte = ([], .inside 3 (if byte = 0xF0 then 0x90 else 0x80)
      (if byte = 0xF4 then 0x8F else 0xBF) (byte - 0xF0)) := by
  rw [lead, if_neg (by omega), if_neg (by omega), if_neg (by omega),
    if_neg (by omega), if_neg (by omega), if_neg (by omega)]
  by_cases hfirst : byte = 0xF0
  · simp [hfirst]
  · by_cases hlast : byte = 0xF4
    · simp [hlast]
    · rw [if_neg hfirst, if_neg hfirst, if_pos (by omega), if_neg hlast]

theorem read_two (code : Nat) (hlow : 0x7F < code) (hhigh : code ≤ 0x7FF)
    (rest : List UInt8) :
    State.read .between (UInt8.ofNat (code / 64 % 32 + 192) ::
        UInt8.ofNat (code % 64 + 128) :: rest) =
      Char.ofNat code :: State.read .between rest := by
  have hcode : (code / 64 % 32 + 192 - 0xC0) * 64 +
      (code % 64 + 128 - 0x80) = code := by omega
  rw [read_lead (lead_two (by omega) (by omega)) (by omega),
    read_inside (by omega) (by omega) (by omega), if_pos rfl, hcode]

theorem read_three (code : Nat) (hlow : 0x7FF < code) (hhigh : code ≤ 0xFFFF)
    (hvalid : code < 0xD800 ∨ 0xDFFF < code) (rest : List UInt8) :
    State.read .between (UInt8.ofNat (code / 4096 % 16 + 224) ::
        UInt8.ofNat (code / 64 % 64 + 128) ::
        UInt8.ofNat (code % 64 + 128) :: rest) =
      Char.ofNat code :: State.read .between rest := by
  have hcode : ((code / 4096 % 16 + 224 - 0xE0) * 64 +
      (code / 64 % 64 + 128 - 0x80)) * 64 + (code % 64 + 128 - 0x80) =
        code := by omega
  rw [read_lead (lead_three (by omega) (by omega)) (by omega),
    read_inside (by split <;> omega) (by split <;> omega) (by omega),
    if_neg (by decide), read_inside (by omega) (by omega) (by omega),
    if_pos rfl, hcode]

theorem read_four (code : Nat) (hlow : 0xFFFF < code) (hhigh : code < 0x110000)
    (rest : List UInt8) :
    State.read .between (UInt8.ofNat (code / 262144 % 8 + 240) ::
        UInt8.ofNat (code / 4096 % 64 + 128) ::
        UInt8.ofNat (code / 64 % 64 + 128) ::
        UInt8.ofNat (code % 64 + 128) :: rest) =
      Char.ofNat code :: State.read .between rest := by
  have hcode : (((code / 262144 % 8 + 240 - 0xF0) * 64 +
      (code / 4096 % 64 + 128 - 0x80)) * 64 +
        (code / 64 % 64 + 128 - 0x80)) * 64 + (code % 64 + 128 - 0x80) =
          code := by omega
  rw [read_lead (lead_four (by omega) (by omega)) (by omega),
    read_inside (by split <;> omega) (by split <;> omega) (by omega),
    if_neg (by decide), read_inside (by omega) (by omega) (by omega),
    if_neg (by decide), read_inside (by omega) (by omega) (by omega),
    if_pos rfl, hcode]

/-- A character comes back from its bytes, whatever follows them. -/
theorem read_utf8EncodeChar_append (c : Char) (rest : List UInt8) :
    State.read .between (String.utf8EncodeChar c ++ rest) =
      c :: State.read .between rest := by
  have hbounds := Utf16.toNat_bounds c
  have hchar : Char.ofNat c.toNat = c := Char.ofNat_toNat c
  have hval : c.val.toNat = c.toNat := rfl
  unfold String.utf8EncodeChar
  simp only [hval]
  split_ifs with hone htwo hthree
  · rw [List.singleton_append, read_ofNat_cons _ (by omega), State.feed, lead,
      if_pos (by omega), hchar]
    rfl
  · have hread := read_two c.toNat (by omega) htwo rest
    rwa [hchar] at hread
  · have hread := read_three c.toNat (by omega) hthree (by omega) rest
    rwa [hchar] at hread
  · have hread := read_four c.toNat (by omega) (by omega) rest
    rwa [hchar] at hread

/-- A text is read back from its bytes. -/
theorem lossy_bytes (text : String) : lossy (bytes text) = text := by
  have hread (chars : List Char) :
      State.read .between (chars.flatMap String.utf8EncodeChar) = chars := by
    induction chars with
    | nil => rfl
    | cons c rest ih =>
        rw [List.flatMap_cons, read_utf8EncodeChar_append, ih]
  rw [lossy, bytes_eq_flatMap, hread, String.ofList_toList]

end WebviewProxy.Utf8
