import Mathlib

set_option autoImplicit false

/-! # Modular powers and inverses

`modpow` and `modinv` compute what a big-number library documents under these names: the power
modulo `m` by repeated squaring, and the inverse modulo `m` where there is one. What a proof needs
of them is `modpow_eq`, `modinv_isSome_iff` and `modinv_mul_modEq`. -/

namespace DaConcept

/-! ## Powers -/

/-- Square and multiply: `acc * base ^ exp` modulo `m`, one bit of `exp` for each unit of fuel. -/
def modpowLoop (m : Nat) : Nat → Nat → Nat → Nat → Nat
  | 0, _, _, acc => acc
  | fuel + 1, base, exp, acc =>
      modpowLoop m fuel (base * base % m) (exp / 2)
        (if exp % 2 = 1 then acc * base % m else acc)

/-- `base.modpow(exp, m)`. -/
def modpow (base exp m : Nat) : Nat := modpowLoop m exp.size base exp (1 % m)

theorem modpowLoop_modEq (m fuel : Nat) : ∀ base exp acc, exp < 2 ^ fuel →
    modpowLoop m fuel base exp acc ≡ acc * base ^ exp [MOD m] := by
  induction fuel with
  | zero =>
      intro base exp acc hexp
      have h0 : exp = 0 := by simpa using hexp
      simp [modpowLoop, h0, Nat.ModEq.refl]
  | succ fuel ih =>
      intro base exp acc hexp
      have hhalf : exp / 2 < 2 ^ fuel := by
        rw [Nat.pow_succ] at hexp
        omega
      have hsq : (base * base % m) ^ (exp / 2) ≡ base ^ (2 * (exp / 2)) [MOD m] := by
        rw [Nat.pow_mul, Nat.pow_two]
        exact (Nat.mod_modEq _ _).pow _
      rw [modpowLoop]
      refine (ih _ _ _ hhalf).trans ?_
      by_cases hodd : exp % 2 = 1
      · have hsplit : base ^ exp = base * base ^ (2 * (exp / 2)) := by
          rw [← Nat.pow_succ']
          congr 1
          omega
        rw [if_pos hodd, hsplit, ← Nat.mul_assoc]
        exact (Nat.mod_modEq _ _).mul hsq
      · have hsplit : 2 * (exp / 2) = exp := by omega
        rw [hsplit] at hsq
        rw [if_neg hodd]
        exact (Nat.ModEq.refl acc).mul hsq

theorem modpowLoop_lt {m : Nat} (hm : 0 < m) (fuel : Nat) : ∀ base exp acc, acc < m →
    modpowLoop m fuel base exp acc < m := by
  induction fuel with
  | zero => intro base exp acc hacc; exact hacc
  | succ fuel ih =>
      intro base exp acc hacc
      refine ih _ _ _ ?_
      split
      · exact Nat.mod_lt _ hm
      · exact hacc

/-- **`modpow` is the power modulo `m`.** -/
theorem modpow_eq {m : Nat} (hm : 0 < m) (base exp : Nat) :
    modpow base exp m = base ^ exp % m := by
  have hcongr : modpow base exp m ≡ base ^ exp [MOD m] := by
    refine (modpowLoop_modEq m exp.size base exp (1 % m) (Nat.lt_size_self exp)).trans ?_
    simpa using (Nat.mod_modEq 1 m).mul_right (base ^ exp)
  have hlt : modpow base exp m < m := modpowLoop_lt hm _ _ _ _ (Nat.mod_lt _ hm)
  exact (Nat.mod_eq_of_lt hlt).symm.trans hcongr

theorem modpow_lt {m : Nat} (hm : 0 < m) (base exp : Nat) : modpow base exp m < m := by
  rw [modpow_eq hm]
  exact Nat.mod_lt _ hm

/-! ## Inverses -/

/-- `a.modinv(m)`: the inverse of `a` modulo `m`, if `a` is a unit. -/
def modinv (a m : Nat) : Option Nat :=
  if Nat.gcd a m = 1 then some (Nat.gcdA a m % m).toNat else none

theorem modinv_isSome_iff (a m : Nat) : (modinv a m).isSome ↔ Nat.Coprime a m := by
  by_cases h : Nat.gcd a m = 1
  · simp [modinv, h, Nat.Coprime]
  · simp [modinv, h, Nat.Coprime]

/-- An inverse is one: its product with `a` is one modulo `m`. -/
theorem modinv_mul_modEq {a m i : Nat} (hm : 0 < m) (h : modinv a m = some i) :
    a * i ≡ 1 [MOD m] := by
  by_cases hgcd : Nat.gcd a m = 1
  · have hi : (i : ℤ) = Nat.gcdA a m % m := by
      rw [modinv, if_pos hgcd, Option.some.injEq] at h
      rw [← h, Int.toNat_of_nonneg (Int.emod_nonneg _ (by omega))]
    have hbezout := Nat.gcd_eq_gcd_ab a m
    rw [hgcd] at hbezout
    rw [← Int.natCast_modEq_iff]
    calc ((a * i : ℕ) : ℤ) = a * (Nat.gcdA a m % m) := by rw [Nat.cast_mul, hi]
      _ ≡ a * Nat.gcdA a m [ZMOD m] := (Int.mod_modEq _ _).mul_left _
      _ ≡ a * Nat.gcdA a m + m * Nat.gcdB a m [ZMOD m] :=
          (Int.modEq_iff_dvd.2 ⟨Nat.gcdB a m, by ring⟩)
      _ = ((1 : ℕ) : ℤ) := hbezout.symm
  · simp [modinv, hgcd] at h

end DaConcept
