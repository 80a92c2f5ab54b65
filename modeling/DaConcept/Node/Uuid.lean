import DaConcept.Lib.Hex

set_option autoImplicit false

/-! # UUIDs and their text

A `Uuid` is 16 bytes. `to_string` writes the hyphenated form in lower case; `parse` also reads the
form without hyphens, the braced form and the URN, in any letter case, as the `uuid` crate
documents. One UUID so has many texts, and only its bytes tell whether two texts mean the same. -/

namespace DaConcept.Node

/-- A UUID: its 16 bytes. -/
structure Uuid where
  bytes : Bytes
  length_eq : bytes.length = 16
deriving DecidableEq

/-- A part of the hyphenated form: the digits of the bytes from `a` up to `b`. -/
def Uuid.part (u : Uuid) (a b : Nat) : List Char := hexEncode ((u.bytes.drop a).take (b - a))

/-- `Uuid::to_string`. -/
def Uuid.toString (u : Uuid) : String :=
  String.ofList (u.part 0 4 ++ '-' :: (u.part 4 6 ++ '-' :: (u.part 6 8 ++ '-' ::
    (u.part 8 10 ++ '-' :: u.part 10 16))))

/-- 32 digits as a UUID. -/
def Uuid.parseSimple (cs : List Char) : Option Uuid :=
  match hexDecode cs with
  | some bs => if h : bs.length = 16 then some ⟨bs, h⟩ else none
  | none => none

/-- 32 digits with hyphens after the 8th, 12th, 16th and 20th. -/
def Uuid.parseHyphenated (cs : List Char) : Option Uuid :=
  if cs[8]? = some '-' ∧ cs[13]? = some '-' ∧ cs[18]? = some '-' ∧ cs[23]? = some '-' then
    Uuid.parseSimple (cs.take 8 ++ (cs.drop 9).take 4 ++ (cs.drop 14).take 4
      ++ (cs.drop 19).take 4 ++ cs.drop 24)
  else none

/-- `str::parse::<Uuid>`; the form is told from the length. -/
def Uuid.parse (s : String) : Option Uuid :=
  let cs := s.toList
  if cs.length = 32 then Uuid.parseSimple cs
  else if cs.length = 36 then Uuid.parseHyphenated cs
  else if cs.length = 38 ∧ cs.head? = some '\x7b' ∧ cs.getLast? = some '\x7d' then
    Uuid.parseHyphenated (cs.drop 1).dropLast
  else if cs.length = 45 ∧ cs.take 9 = "urn:uuid:".toList then Uuid.parseHyphenated (cs.drop 9)
  else none

/-! ## Reading back what was written -/

theorem Uuid.part_length (u : Uuid) {a b : Nat} (hb : b ≤ 16) :
    (u.part a b).length = 2 * (b - a) := by
  have hlen := u.length_eq
  simp [Uuid.part]
  omega

@[simp] theorem Uuid.toString_length (u : Uuid) : u.toString.toList.length = 36 := by
  simp [Uuid.toString, Uuid.part_length]

theorem Uuid.parts_eq (u : Uuid) :
    u.part 0 4 ++ u.part 4 6 ++ u.part 6 8 ++ u.part 8 10 ++ u.part 10 16 = hexEncode u.bytes := by
  have hsplit (a b c : Nat) (hab : a ≤ b) (hbc : b ≤ c) :
      u.part a b ++ u.part b c = u.part a c := by
    have hdrop : u.bytes.drop b = (u.bytes.drop a).drop (b - a) := by
      rw [List.drop_drop]
      congr 1
      omega
    have htake : c - a = (b - a) + (c - b) := by omega
    rw [Uuid.part, Uuid.part, Uuid.part, ← hexEncode_append, hdrop, htake, List.take_add]
  rw [hsplit 0 4 6, hsplit 0 6 8, hsplit 0 8 10, hsplit 0 10 16, Uuid.part, List.drop_zero,
    List.take_of_length_le (by rw [u.length_eq])] <;> omega

theorem Uuid.parseSimple_hexEncode (u : Uuid) :
    Uuid.parseSimple (hexEncode u.bytes) = some u := by
  rw [Uuid.parseSimple, hexDecode_hexEncode]
  exact dif_pos u.length_eq

/-- **A UUID is recovered from its text.** -/
theorem Uuid.parse_toString (u : Uuid) : Uuid.parse u.toString = some u := by
  have h1 := u.part_length (a := 0) (b := 4) (by omega)
  have h2 := u.part_length (a := 4) (b := 6) (by omega)
  have h3 := u.part_length (a := 6) (b := 8) (by omega)
  have h4 := u.part_length (a := 8) (b := 10) (by omega)
  have hchars : u.toString.toList = u.part 0 4 ++ '-' :: (u.part 4 6 ++ '-' :: (u.part 6 8 ++
      '-' :: (u.part 8 10 ++ '-' :: u.part 10 16))) := by
    simp [Uuid.toString]
  have hhyphens : u.toString.toList[8]? = some '-' ∧ u.toString.toList[13]? = some '-' ∧
      u.toString.toList[18]? = some '-' ∧ u.toString.toList[23]? = some '-' := by
    simp [hchars, List.getElem?_append, h1, h2, h3, h4]
  have hdigits : u.toString.toList.take 8 ++ (u.toString.toList.drop 9).take 4
      ++ (u.toString.toList.drop 14).take 4 ++ (u.toString.toList.drop 19).take 4
      ++ u.toString.toList.drop 24 = hexEncode u.bytes := by
    rw [← u.parts_eq]
    simp [hchars, List.drop_append, List.drop_eq_nil_of_le, h1, h2, h3, h4]
  rw [Uuid.parse, if_neg (by simp), if_pos (by simp), Uuid.parseHyphenated, if_pos hhyphens,
    hdigits]
  exact u.parseSimple_hexEncode

end DaConcept.Node
