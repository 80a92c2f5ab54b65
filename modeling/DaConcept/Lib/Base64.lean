import DaConcept.Lib.LittleEndian

set_option autoImplicit false

/-! # Base64 text

The standard alphabet with padding: four symbols for three bytes, the last group filled up with
`=`. Decoding wants the padding and zeros in the bits that no byte uses. -/

namespace DaConcept

/-- The symbol of a number below 64. -/
def base64Symbol (n : Nat) : Char :=
  if n < 26 then Char.ofNat (65 + n)
  else if n < 52 then Char.ofNat (71 + n)
  else if n < 62 then Char.ofNat (n - 4)
  else if n = 62 then '+' else '/'

/-- The value of a symbol. -/
def base64Value (c : Char) : Option Nat :=
  if 65 ≤ c.toNat ∧ c.toNat ≤ 90 then some (c.toNat - 65)
  else if 97 ≤ c.toNat ∧ c.toNat ≤ 122 then some (c.toNat - 71)
  else if 48 ≤ c.toNat ∧ c.toNat ≤ 57 then some (c.toNat + 4)
  else if c = '+' then some 62
  else if c = '/' then some 63
  else none

/-- The symbols of a byte string, with padding. -/
def base64Encode : Bytes → List Char
  | [] => []
  | [a] => [base64Symbol (a.toNat / 4), base64Symbol (a.toNat % 4 * 16), '=', '=']
  | [a, b] =>
      [base64Symbol (a.toNat / 4), base64Symbol (a.toNat % 4 * 16 + b.toNat / 16),
        base64Symbol (b.toNat % 16 * 4), '=']
  | a :: b :: c :: rest =>
      base64Symbol (a.toNat / 4) :: base64Symbol (a.toNat % 4 * 16 + b.toNat / 16) ::
        base64Symbol (b.toNat % 16 * 4 + c.toNat / 64) :: base64Symbol (c.toNat % 64) ::
        base64Encode rest

/-- The byte of a group with two padding symbols. -/
def base64Decode1 (w x : Char) : Option Bytes := do
  let w ← base64Value w
  let x ← base64Value x
  if x % 16 = 0 then some [UInt8.ofNat (4 * w + x / 16)] else none

/-- The bytes of a group with one padding symbol. -/
def base64Decode2 (w x y : Char) : Option Bytes := do
  let w ← base64Value w
  let x ← base64Value x
  let y ← base64Value y
  if y % 4 = 0 then
    some [UInt8.ofNat (4 * w + x / 16), UInt8.ofNat (x % 16 * 16 + y / 4)]
  else none

/-- The bytes of a group without padding. -/
def base64Decode3 (w x y z : Char) : Option Bytes := do
  let w ← base64Value w
  let x ← base64Value x
  let y ← base64Value y
  let z ← base64Value z
  some [UInt8.ofNat (4 * w + x / 16), UInt8.ofNat (x % 16 * 16 + y / 4),
    UInt8.ofNat (y % 4 * 64 + z)]

/-- The byte string a list of symbols stands for. Only the last group may have padding. -/
def base64Decode : List Char → Option Bytes
  | [] => some []
  | w :: x :: y :: z :: rest =>
      if z = '=' ∧ rest = [] then
        if y = '=' then base64Decode1 w x else base64Decode2 w x y
      else do
        let group ← base64Decode3 w x y z
        let bytes ← base64Decode rest
        some (group ++ bytes)
  | _ => none

theorem base64Value_base64Symbol {n : Nat} (h : n < 64) :
    base64Value (base64Symbol n) = some n := by
  have hall : ∀ n : Fin 64, base64Value (base64Symbol n) = some n.val := by decide
  exact hall ⟨n, h⟩

theorem base64Symbol_ne_padding {n : Nat} (h : n < 64) : base64Symbol n ≠ '=' := by
  have hall : ∀ n : Fin 64, base64Symbol n ≠ '=' := by decide
  exact hall ⟨n, h⟩

theorem ofNat_eq_of_eq_toNat {n : Nat} {b : UInt8} (h : n = b.toNat) : UInt8.ofNat n = b := by
  rw [h, UInt8.ofNat_toNat]

/-- **Decoding undoes encoding.** -/
theorem base64Decode_base64Encode (bs : Bytes) : base64Decode (base64Encode bs) = some bs := by
  induction bs using base64Encode.induct with
  | case1 => rfl
  | case2 a =>
      have ha := a.toNat_lt
      have ha' : UInt8.ofNat (4 * (a.toNat / 4) + a.toNat % 4 * 16 / 16) = a :=
        ofNat_eq_of_eq_toNat (by omega)
      rw [base64Encode, base64Decode, if_pos ⟨rfl, rfl⟩, if_pos rfl, base64Decode1,
        base64Value_base64Symbol (by omega), base64Value_base64Symbol (by omega)]
      simp only [Option.bind_eq_bind, Option.bind_some]
      rw [if_pos (by omega), ha']
  | case3 a b =>
      have ha := a.toNat_lt
      have hb := b.toNat_lt
      have ha' : UInt8.ofNat (4 * (a.toNat / 4) + (a.toNat % 4 * 16 + b.toNat / 16) / 16) = a :=
        ofNat_eq_of_eq_toNat (by omega)
      have hb' : UInt8.ofNat
          ((a.toNat % 4 * 16 + b.toNat / 16) % 16 * 16 + b.toNat % 16 * 4 / 4) = b :=
        ofNat_eq_of_eq_toNat (by omega)
      rw [base64Encode, base64Decode, if_pos ⟨rfl, rfl⟩,
        if_neg (base64Symbol_ne_padding (by omega)), base64Decode2,
        base64Value_base64Symbol (by omega), base64Value_base64Symbol (by omega),
        base64Value_base64Symbol (by omega)]
      simp only [Option.bind_eq_bind, Option.bind_some]
      rw [if_pos (by omega), ha', hb']
  | case4 a b c rest ih =>
      have ha := a.toNat_lt
      have hb := b.toNat_lt
      have hc := c.toNat_lt
      have ha' : UInt8.ofNat (4 * (a.toNat / 4) + (a.toNat % 4 * 16 + b.toNat / 16) / 16) = a :=
        ofNat_eq_of_eq_toNat (by omega)
      have hb' : UInt8.ofNat ((a.toNat % 4 * 16 + b.toNat / 16) % 16 * 16
          + (b.toNat % 16 * 4 + c.toNat / 64) / 4) = b :=
        ofNat_eq_of_eq_toNat (by omega)
      have hc' : UInt8.ofNat ((b.toNat % 16 * 4 + c.toNat / 64) % 4 * 64 + c.toNat % 64) = c :=
        ofNat_eq_of_eq_toNat (by omega)
      -- the last symbol of a full group is no padding, so the decoder goes on
      have hz : ¬ (base64Symbol (c.toNat % 64) = '=' ∧ base64Encode rest = []) :=
        fun h => base64Symbol_ne_padding (by omega) h.1
      rw [base64Encode, base64Decode, if_neg hz, base64Decode3,
        base64Value_base64Symbol (by omega), base64Value_base64Symbol (by omega),
        base64Value_base64Symbol (by omega), base64Value_base64Symbol (by omega), ih]
      simp only [Option.bind_eq_bind, Option.bind_some, ha', hb', hc', List.cons_append,
        List.nil_append]

/-- Different byte strings have different texts. -/
theorem base64Encode_injective : Function.Injective base64Encode := by
  intro xs ys h
  have hdecode := congrArg base64Decode h
  rwa [base64Decode_base64Encode, base64Decode_base64Encode, Option.some.injEq] at hdecode

end DaConcept
