import DaConcept.Lib.LittleEndian

set_option autoImplicit false

/-! # Hexadecimal text

Two lower-case digits for each byte, and back in either letter case. -/

namespace DaConcept

/-- The digit of a number below 16, in lower case. -/
def hexDigit (n : Nat) : Char :=
  if n < 10 then Char.ofNat (48 + n) else Char.ofNat (87 + n)

/-- The value of a digit, in either letter case. -/
def hexValue (c : Char) : Option Nat :=
  if 48 ≤ c.toNat ∧ c.toNat ≤ 57 then some (c.toNat - 48)
  else if 97 ≤ c.toNat ∧ c.toNat ≤ 102 then some (c.toNat - 87)
  else if 65 ≤ c.toNat ∧ c.toNat ≤ 70 then some (c.toNat - 55)
  else none

/-- The digits of a byte string, two for each byte, high one first. -/
def hexEncode : Bytes → List Char
  | [] => []
  | b :: bs => hexDigit (b.toNat / 16) :: hexDigit (b.toNat % 16) :: hexEncode bs

/-- The byte string a list of digits stands for. -/
def hexDecode : List Char → Option Bytes
  | [] => some []
  | [_] => none
  | hi :: lo :: rest => do
      let h ← hexValue hi
      let l ← hexValue lo
      let bs ← hexDecode rest
      pure (UInt8.ofNat (16 * h + l) :: bs)

/-- `format!("{:x}", _)` of a byte string. -/
def hexLower (bs : Bytes) : String := String.ofList (hexEncode bs)

@[simp] theorem hexEncode_length (bs : Bytes) : (hexEncode bs).length = 2 * bs.length := by
  induction bs with
  | nil => rfl
  | cons b bs ih => simp [hexEncode, ih]; omega

theorem hexEncode_append (xs ys : Bytes) : hexEncode (xs ++ ys) = hexEncode xs ++ hexEncode ys := by
  induction xs with
  | nil => rfl
  | cons b xs ih => simp [hexEncode, ih]

theorem hexValue_hexDigit {n : Nat} (h : n < 16) : hexValue (hexDigit n) = some n := by
  have hall : ∀ n : Fin 16, hexValue (hexDigit n) = some n.val := by decide
  exact hall ⟨n, h⟩

/-- **Decoding undoes encoding.** -/
theorem hexDecode_hexEncode (bs : Bytes) : hexDecode (hexEncode bs) = some bs := by
  induction bs with
  | nil => rfl
  | cons b bs ih =>
      have hb := b.toNat_lt
      have hbyte : UInt8.ofNat (16 * (b.toNat / 16) + b.toNat % 16) = b := by
        rw [Nat.div_add_mod]
        exact UInt8.ofNat_toNat
      rw [hexEncode, hexDecode, hexValue_hexDigit (by omega), hexValue_hexDigit (by omega), ih]
      exact congrArg (fun b' => some (b' :: bs)) hbyte

end DaConcept
