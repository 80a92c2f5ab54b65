import DaConcept.Lib.Utf8

set_option autoImplicit false

/-! # The length of a protobuf message

How many bytes the fields of a proto3 message take; the bytes themselves are not needed. A field is
its key and its value. One without presence is left out if it has the default value, one with
presence (`optional`, `oneof` and messages) is there even if it is empty. -/

namespace DaConcept.Protobuf

/-- A varint has seven bits of the number in each byte. -/
def varintLen (n : Nat) : Nat := n.log2 / 7 + 1

theorem varintLen_pos (n : Nat) : 0 < varintLen n := Nat.succ_pos _

/-- The key of a field is its number, and the wire type in the lowest three bits. -/
def keyLen (tag : Nat) : Nat := varintLen (8 * tag)

/-- A string, bytes or a message of `len` bytes, in a field with presence. -/
def delimitedLen (tag len : Nat) : Nat := keyLen tag + varintLen len + len

theorem lt_delimitedLen (tag len : Nat) : len < delimitedLen tag len :=
  Nat.lt_add_of_pos_left (Nat.add_pos_right _ (varintLen_pos len))

/-- `bytes`. -/
def bytesLen (tag len : Nat) : Nat := if len = 0 then 0 else delimitedLen tag len

/-- `string`. -/
def stringLen (tag : Nat) (s : String) : Nat := bytesLen tag (utf8 s).length

/-- `optional string`. -/
def optionalStringLen (tag : Nat) (s : Option String) : Nat :=
  s.elim 0 (fun s => delimitedLen tag (utf8 s).length)

/-- `bool`, `int32`, `int64` and enumerations. A negative number is sign-extended to 64 bits. -/
def scalarLen (tag : Nat) (i : Int) : Nat :=
  if i = 0 then 0 else keyLen tag + varintLen (i % 2 ^ 64).toNat

example : scalarLen 4 0 = 0 ∧ scalarLen 4 300 = 3 ∧ scalarLen 4 (-1) = 11 := by decide

end DaConcept.Protobuf
