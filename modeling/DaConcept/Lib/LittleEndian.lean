import Mathlib

set_option autoImplicit false

/-! # Little-endian byte strings

Byte strings as numbers, least significant byte first: the value of a byte string, the shortest
byte string of a number, the four bytes of a 32-bit word, and a byte string cut into groups of
four. The value is Mathlib's `Nat.ofDigits 256`, so its arithmetic is used from there. -/

namespace DaConcept

/-- A byte string. -/
abbrev Bytes := List UInt8

/-! ## The value of a byte string -/

/-- The number a byte string stands for, least significant byte first. -/
def leValue (bs : Bytes) : Nat := Nat.ofDigits 256 (bs.map UInt8.toNat)

@[simp] theorem leValue_nil : leValue [] = 0 := rfl

@[simp] theorem leValue_cons (b : UInt8) (bs : Bytes) :
    leValue (b :: bs) = b.toNat + 256 * leValue bs := by
  simp [leValue, Nat.ofDigits_cons]

theorem leValue_append (xs ys : Bytes) :
    leValue (xs ++ ys) = leValue xs + 256 ^ xs.length * leValue ys := by
  simp [leValue, Nat.ofDigits_append]

theorem leValue_replicate_zero (n : Nat) : leValue (List.replicate n 0) = 0 := by
  induction n with
  | zero => rfl
  | succ n ih => simp [List.replicate_succ, ih]

theorem mem_map_toNat_lt (bs : Bytes) : ∀ d ∈ bs.map UInt8.toNat, d < 256 := by
  intro d hd
  obtain ⟨b, -, rfl⟩ := List.mem_map.1 hd
  exact b.toNat_lt

/-- Byte strings of one length are determined by their values. -/
theorem eq_of_leValue_eq {xs ys : Bytes} (hlen : xs.length = ys.length)
    (h : leValue xs = leValue ys) : xs = ys := by
  have hmap : xs.map UInt8.toNat = ys.map UInt8.toNat :=
    Nat.ofDigits_inj_of_len_eq (by omega : 1 < 256) (by simpa using hlen)
      (mem_map_toNat_lt xs) (mem_map_toNat_lt ys) h
  exact List.map_injective_iff.2 (fun a b hab => UInt8.toNat_inj.1 hab) hmap

theorem leValue_eq_zero_iff (bs : Bytes) : leValue bs = 0 ↔ ∀ b ∈ bs, b = 0 := by
  induction bs with
  | nil => simp
  | cons b bs ih =>
      have hb : b.toNat = 0 ↔ b = 0 := by rw [← UInt8.toNat_inj]; simp
      simp [ih, hb]

/-! ## The shortest byte string of a number -/

/-- The bytes of `n` without leading zeros; zero takes one byte. -/
def toBytesLe (n : Nat) : Bytes :=
  if n = 0 then [0] else (Nat.digits 256 n).map UInt8.ofNat

theorem leValue_toBytesLe (n : Nat) : leValue (toBytesLe n) = n := by
  by_cases hn : n = 0
  · simp [toBytesLe, hn]
  · have hdig : ((Nat.digits 256 n).map UInt8.ofNat).map UInt8.toNat = Nat.digits 256 n := by
      rw [List.map_map]
      refine (List.map_congr_left fun d hd => ?_).trans (List.map_id _)
      have hlt : d < 256 := Nat.digits_lt_base (by omega) hd
      simp [Nat.mod_eq_of_lt hlt]
    rw [toBytesLe, if_neg hn, leValue, hdig, Nat.ofDigits_digits]

theorem toBytesLe_length_pos (n : Nat) : 0 < (toBytesLe n).length := by
  by_cases hn : n = 0
  · simp [toBytesLe, hn]
  · have hne : Nat.digits 256 n ≠ [] := Nat.digits_ne_nil_iff_ne_zero.2 hn
    simpa [toBytesLe, hn] using List.length_pos_iff.2 hne

theorem toBytesLe_length_le {n k : Nat} (hk : 0 < k) (hn : n < 256 ^ k) :
    (toBytesLe n).length ≤ k := by
  by_cases h0 : n = 0
  · simp [toBytesLe, h0]
    omega
  · simpa [toBytesLe, h0] using (Nat.digits_length_le_iff (by omega : 1 < 256) n).2 hn

/-! ## 32-bit words -/

/-- `u32::to_le_bytes`. -/
def u32ToLeBytes (x : UInt32) : Bytes :=
  [x.toUInt8, (x >>> 8).toUInt8, (x >>> 16).toUInt8, (x >>> 24).toUInt8]

/-- `u32::from_le_bytes([a, b, c, d])`. -/
def u32FromLeBytes (a b c d : UInt8) : UInt32 :=
  a.toUInt32 ||| b.toUInt32 <<< 8 ||| c.toUInt32 <<< 16 ||| d.toUInt32 <<< 24

@[simp] theorem u32ToLeBytes_length (x : UInt32) : (u32ToLeBytes x).length = 4 := rfl

theorem leValue_u32ToLeBytes (x : UInt32) : leValue (u32ToLeBytes x) = x.toNat := by
  have hx := x.toNat_lt
  simp [u32ToLeBytes, Nat.shiftRight_eq_div_pow]
  omega

/-- Setting the byte above the low `i` bytes adds it at its weight. -/
theorem toNat_or_shiftLeft (v : UInt32) (b : UInt8) (i : Nat) (hv : v.toNat < 256 ^ i)
    (hi : i < 4) :
    (v ||| b.toUInt32 <<< UInt32.ofNat (i * 8)).toNat = v.toNat + 256 ^ i * b.toNat := by
  have hb := b.toNat_lt
  have hpow : 256 ^ i = 2 ^ (i * 8) := by rw [Nat.mul_comm, Nat.pow_mul]
  have hshift : i * 8 % 4294967296 % 32 = i * 8 := by omega
  have hfit : b.toNat * 2 ^ (i * 8) < 4294967296 := by
    calc b.toNat * 2 ^ (i * 8) < 2 ^ 8 * 2 ^ (i * 8) := by
          exact Nat.mul_lt_mul_of_pos_right hb (by positivity)
      _ = 2 ^ (8 + i * 8) := (Nat.pow_add 2 8 (i * 8)).symm
      _ ≤ 2 ^ 32 := Nat.pow_le_pow_right (by omega) (by omega)
  rw [hpow] at hv ⊢
  simp only [UInt32.toNat_or, UInt32.toNat_shiftLeft, UInt32.toNat_ofNat', UInt8.toNat_toUInt32,
    Nat.reducePow, hshift]
  rw [Nat.shiftLeft_eq, Nat.mod_eq_of_lt hfit, ← Nat.shiftLeft_eq, Nat.or_comm,
    ← Nat.shiftLeft_add_eq_or_of_lt hv, Nat.shiftLeft_eq]
  ring

theorem toNat_u32FromLeBytes (a b c d : UInt8) :
    (u32FromLeBytes a b c d).toNat = leValue [a, b, c, d] := by
  have ha := a.toNat_lt
  have hb := b.toNat_lt
  have hc := c.toNat_lt
  have h1 := toNat_or_shiftLeft a.toUInt32 b 1 (by simpa using ha) (by omega)
  have h2 := toNat_or_shiftLeft (a.toUInt32 ||| b.toUInt32 <<< 8) c 2
    (by rw [show (8 : UInt32) = UInt32.ofNat (1 * 8) from rfl, h1]; simp; omega) (by omega)
  have h3 := toNat_or_shiftLeft (a.toUInt32 ||| b.toUInt32 <<< 8 ||| c.toUInt32 <<< 16) d 3
    (by
      rw [show (16 : UInt32) = UInt32.ofNat (2 * 8) from rfl, h2,
        show (8 : UInt32) = UInt32.ofNat (1 * 8) from rfl, h1]
      simp
      omega) (by omega)
  rw [u32FromLeBytes, show (24 : UInt32) = UInt32.ofNat (3 * 8) from rfl, h3,
    show (16 : UInt32) = UInt32.ofNat (2 * 8) from rfl, h2,
    show (8 : UInt32) = UInt32.ofNat (1 * 8) from rfl, h1]
  simp
  ring

/-- Reading a word back from its four bytes. -/
theorem u32FromLeBytes_u32ToLeBytes (x : UInt32) :
    u32FromLeBytes x.toUInt8 (x >>> 8).toUInt8 (x >>> 16).toUInt8 (x >>> 24).toUInt8 = x :=
  UInt32.toNat_inj.1 ((toNat_u32FromLeBytes _ _ _ _).trans (leValue_u32ToLeBytes x))

/-! ## Groups of four bytes -/

/-- `bytes.chunks(4)`: groups of four, the last one as long as what is left. -/
def chunks4 : Bytes → List Bytes
  | [] => []
  | [a] => [[a]]
  | [a, b] => [[a, b]]
  | [a, b, c] => [[a, b, c]]
  | a :: b :: c :: d :: rest => [a, b, c, d] :: chunks4 rest

/-- A group filled up with zeros to four bytes. -/
def padTo4 (group : Bytes) : Bytes := group ++ List.replicate (4 - group.length) 0

theorem chunks4_length_le (bs : Bytes) : ∀ group ∈ chunks4 bs, group.length ≤ 4 := by
  induction bs using chunks4.induct with
  | case1 => simp [chunks4]
  | case2 a => simp [chunks4]
  | case3 a b => simp [chunks4]
  | case4 a b c => simp [chunks4]
  | case5 a b c d rest ih => simpa [chunks4] using ih

theorem chunks4_length (bs : Bytes) : (chunks4 bs).length = (bs.length + 3) / 4 := by
  induction bs using chunks4.induct with
  | case1 => simp [chunks4]
  | case2 a => simp [chunks4]
  | case3 a b => simp [chunks4]
  | case4 a b c => simp [chunks4]
  | case5 a b c d rest ih =>
      simp only [chunks4, List.length_cons, ih]
      omega

/-- A byte string of one to four bytes is one group. -/
theorem chunks4_eq_singleton {bs : Bytes} (hpos : bs ≠ []) (hlen : bs.length ≤ 4) :
    chunks4 bs = [bs] := by
  rcases bs with _ | ⟨a, _ | ⟨b, _ | ⟨c, _ | ⟨d, _ | ⟨e, rest⟩⟩⟩⟩⟩
  · exact absurd rfl hpos
  · rw [chunks4]
  · rw [chunks4]
  · rw [chunks4]
  · rw [chunks4, chunks4]
  · rw [List.length_cons, List.length_cons, List.length_cons, List.length_cons,
      List.length_cons] at hlen
    omega

@[simp] theorem padTo4_length {group : Bytes} (h : group.length ≤ 4) :
    (padTo4 group).length = 4 := by
  simp [padTo4]
  omega

theorem leValue_padTo4 (group : Bytes) : leValue (padTo4 group) = leValue group := by
  rw [padTo4, leValue_append, leValue_replicate_zero, Nat.mul_zero, Nat.add_zero]

/-- The padded groups of a byte string are the string and at most three zeros. -/
theorem flatMap_padTo4_chunks4 (bs : Bytes) :
    ∃ k, (chunks4 bs).flatMap padTo4 = bs ++ List.replicate k 0 := by
  induction bs using chunks4.induct with
  | case1 => exact ⟨0, rfl⟩
  | case2 a => exact ⟨3, rfl⟩
  | case3 a b => exact ⟨2, rfl⟩
  | case4 a b c => exact ⟨1, rfl⟩
  | case5 a b c d rest ih =>
      obtain ⟨k, hk⟩ := ih
      exact ⟨k, by simp [chunks4, padTo4, hk]⟩

/-! ## Trailing zeros -/

/-- A byte string without its trailing zeros. -/
def trimZeros (bs : Bytes) : Bytes := bs.rdropWhile (· == 0)

theorem trimZeros_append_replicate (bs : Bytes) (k : Nat) :
    trimZeros (bs ++ List.replicate k 0) = trimZeros bs := by
  induction k with
  | zero => simp
  | succ k ih =>
      rw [List.replicate_succ', ← List.append_assoc, trimZeros, List.rdropWhile_concat,
        if_pos (by decide)]
      exact ih

theorem trimZeros_eq_nil_iff (bs : Bytes) : trimZeros bs = [] ↔ leValue bs = 0 := by
  rw [trimZeros, List.rdropWhile_eq_nil_iff, leValue_eq_zero_iff]
  simp

/-- Zeros at the end of a byte string add nothing to its value. -/
theorem leValue_trimZeros (bs : Bytes) : leValue (trimZeros bs) = leValue bs := by
  induction bs using List.reverseRecOn with
  | nil => rfl
  | append_singleton bs byte ih =>
      rw [trimZeros, List.rdropWhile_concat]
      by_cases hzero : byte = 0
      · rw [if_pos (by simp [hzero]), leValue_append, hzero]
        simpa [trimZeros] using ih
      · rw [if_neg (by simp [hzero])]

/-- What follows a byte string is trimmed by itself, as long as something of it is left. -/
theorem trimZeros_append {xs ys : Bytes} (h : leValue ys ≠ 0) :
    trimZeros (xs ++ ys) = xs ++ trimZeros ys := by
  induction ys using List.reverseRecOn with
  | nil => exact absurd rfl h
  | append_singleton ys byte ih =>
      rw [← List.append_assoc, trimZeros, trimZeros, List.rdropWhile_concat, List.rdropWhile_concat]
      by_cases hzero : byte = 0
      · have hne : leValue ys ≠ 0 := by
          intro h0
          exact h (by rw [leValue_append, h0, hzero]; simp)
        rw [if_pos (by simp [hzero]), if_pos (by simp [hzero])]
        exact ih hne
      · rw [if_neg (by simp [hzero]), if_neg (by simp [hzero]), List.append_assoc]

theorem trimZeros_eq_self_iff (bs : Bytes) : trimZeros bs = bs ↔ bs.getLast? ≠ some 0 := by
  rw [trimZeros, List.rdropWhile_eq_self_iff]
  cases hlast : bs.getLast? with
  | none => simp [List.getLast?_eq_none_iff.1 hlast]
  | some b =>
      have hne : bs ≠ [] := fun h => by simp [h] at hlast
      have hb : bs.getLast hne = b := by
        simpa [List.getLast?_eq_some_getLast hne] using hlast
      simp [hne, hb]

end DaConcept
