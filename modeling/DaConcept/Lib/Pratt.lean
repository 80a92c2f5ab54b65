import DaConcept.Lib.ModArith

set_option autoImplicit false

/-! # Orders and primality by certificate

The order of `a` modulo `p` is certified by the prime factors of the order: `a` to the order is one,
and to the order without one of its factors it is not. A number below which some `a` has the order
`p - 1` is prime (Lucas), and the factors of `p - 1` are certified in the same way (Pratt). The
powers are `modpow`'s, so the kernel evaluates a certificate by repeated squaring. -/

namespace DaConcept

/-- `qs`, whose product is `n`, shows that `a` has the order `n` modulo `p`. -/
def CertifiesOrder (p a n : Nat) (qs : List Nat) : Prop :=
  qs.prod = n ∧ modpow a n p = 1 ∧ ∀ q ∈ qs, modpow a (n / q) p ≠ 1

instance (p a n : Nat) (qs : List Nat) : Decidable (CertifiesOrder p a n qs) :=
  inferInstanceAs (Decidable (_ ∧ _ ∧ _))

variable {p a n : Nat} {qs : List Nat}

/-- A power is one in `ZMod p` where its `modpow` is. -/
theorem natCast_pow_eq_one_iff (hp : 1 < p) (k : Nat) :
    (a : ZMod p) ^ k = 1 ↔ modpow a k p = 1 := by
  rw [modpow_eq (by omega), ← Nat.cast_pow, ← Nat.cast_one, ZMod.natCast_eq_natCast_iff',
    Nat.mod_eq_of_lt hp]

/-- Every prime factor of the order is in the certificate. -/
theorem mem_of_prime_dvd (hqs : ∀ q ∈ qs, q.Prime) {q : Nat} (hq : q.Prime) (hdvd : q ∣ qs.prod) :
    q ∈ qs := by
  obtain ⟨r, hr, hqr⟩ := (Prime.dvd_prod_iff hq.prime).1 hdvd
  have heq : q = r := (Nat.prime_dvd_prime_iff_eq hq (hqs r hr)).1 hqr
  exact heq ▸ hr

theorem CertifiesOrder.orderOf_eq (hp : 1 < p) (hn : 0 < n) (hqs : ∀ q ∈ qs, q.Prime)
    (h : CertifiesOrder p a n qs) : orderOf (a : ZMod p) = n := by
  obtain ⟨hprod, hfull, hpart⟩ := h
  refine orderOf_eq_of_pow_and_pow_div_prime hn ((natCast_pow_eq_one_iff hp n).2 hfull) ?_
  intro q hq hdvd hone
  have hmem : q ∈ qs := mem_of_prime_dvd hqs hq (hprod ▸ hdvd)
  exact hpart q hmem ((natCast_pow_eq_one_iff hp _).1 hone)

/-- **The powers that are one** are those whose exponent the order divides. -/
theorem CertifiesOrder.pow_mod_eq_one_iff (hp : 1 < p) (hn : 0 < n) (hqs : ∀ q ∈ qs, q.Prime)
    (h : CertifiesOrder p a n qs) (k : Nat) : a ^ k % p = 1 ↔ n ∣ k := by
  rw [← modpow_eq (by omega), ← natCast_pow_eq_one_iff hp, ← orderOf_dvd_iff_pow_eq_one,
    h.orderOf_eq hp hn hqs]

/-- **A number below which some number has the largest order is prime.** -/
theorem CertifiesOrder.prime (hp : 1 < p) (hqs : ∀ q ∈ qs, q.Prime)
    (h : CertifiesOrder p a (p - 1) qs) : p.Prime := by
  obtain ⟨hprod, hfull, hpart⟩ := h
  refine lucas_primality p (a : ZMod p) ((natCast_pow_eq_one_iff hp _).2 hfull) ?_
  intro q hq hdvd hone
  have hmem : q ∈ qs := mem_of_prime_dvd hqs hq (hprod ▸ hdvd)
  exact hpart q hmem ((natCast_pow_eq_one_iff hp _).1 hone)

/-- **The powers of a number of order `n`** modulo a prime are the residues whose `n`-th power is
    one. -/
theorem CertifiesOrder.exists_pow_eq [Fact p.Prime] (hn : 0 < n) (hqs : ∀ q ∈ qs, q.Prime)
    (h : CertifiesOrder p a n qs) {b : ZMod p} (hb : b ^ n = 1) :
    ∃ i < n, (a : ZMod p) ^ i = b := by
  have : NeZero n := ⟨hn.ne'⟩
  have hroot := IsPrimitiveRoot.orderOf (a : ZMod p)
  rw [h.orderOf_eq (Fact.out : p.Prime).one_lt hn hqs] at hroot
  exact hroot.eq_pow_of_pow_eq_one hb

end DaConcept
