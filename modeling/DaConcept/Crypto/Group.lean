import DaConcept.Lib.Pratt
import DaConcept.Crypto.Keypair

set_option autoImplicit false

/-! # The group behind the keys

`PRIME` is a prime, by certificate, and the generator 2 has the order `(PRIME - 1) / 18` modulo it.
The first decides which ciphertexts decryption refuses, whatever their numbers
(`PrivateKey.decrypt_cases`). The second decides which exponents make encryption the identity:
`PrivateKey::from` and `PublicKey::encrypt` reduce modulo `PRIME` and `PRIME - 1` and leave the
multiples of that order in (`exponents_iff`). -/

namespace DaConcept.Crypto

/-! ## Certificates -/

/-- The prime factors of the largest prime factor of `PRIME - 1`, less one. -/
def largestFactorFactors : List Nat :=
  [2, 2, 2, 2, 3, 7, 11, 1853641, 4562087, 173171039, 2480874801745591]

/-- The certificates of the prime factors of `PRIME - 1` and of theirs, in one evaluation. -/
theorem certifiesOrder_factors :
    CertifiesOrder 1263766531 10 1263766530 [2, 3, 5, 13, 911, 3557] ∧
    CertifiesOrder 35385462869 2 35385462868 [2, 2, 7, 1263766531] ∧
    CertifiesOrder 2480874801745591 6 2480874801745590 [2, 3, 3, 5, 19, 41, 35385462869] ∧
    CertifiesOrder 173171039 13 173171038 [2, 73, 89, 13327] ∧
    CertifiesOrder 405928799 22 405928798 [2, 11, 3691, 4999] ∧
    CertifiesOrder 11465965001 3 11465965000 [2, 2, 2, 5, 5, 5, 5, 7, 327599] ∧
    CertifiesOrder 13427688667394608761327070753331941386769 17
      13427688667394608761327070753331941386768 largestFactorFactors := by
  decide +kernel

theorem prime_1263766531 : Nat.Prime 1263766531 := by
  have hqs : ∀ q ∈ [2, 3, 5, 13, 911, 3557], Nat.Prime q := by
    simp only [List.forall_mem_cons]
    norm_num
  exact CertifiesOrder.prime (by norm_num) hqs certifiesOrder_factors.1

theorem prime_35385462869 : Nat.Prime 35385462869 := by
  have hqs : ∀ q ∈ [2, 2, 7, 1263766531], Nat.Prime q := by
    simp only [List.forall_mem_cons, prime_1263766531]
    norm_num
  exact CertifiesOrder.prime (by norm_num) hqs certifiesOrder_factors.2.1

theorem prime_2480874801745591 : Nat.Prime 2480874801745591 := by
  have hqs : ∀ q ∈ [2, 3, 3, 5, 19, 41, 35385462869], Nat.Prime q := by
    simp only [List.forall_mem_cons, prime_35385462869]
    norm_num
  exact CertifiesOrder.prime (by norm_num) hqs certifiesOrder_factors.2.2.1

theorem prime_173171039 : Nat.Prime 173171039 := by
  have hqs : ∀ q ∈ [2, 73, 89, 13327], Nat.Prime q := by
    simp only [List.forall_mem_cons]
    norm_num
  exact CertifiesOrder.prime (by norm_num) hqs certifiesOrder_factors.2.2.2.1

theorem prime_largestFactor : Nat.Prime 13427688667394608761327070753331941386769 := by
  have hqs : ∀ q ∈ largestFactorFactors, Nat.Prime q := by
    simp only [largestFactorFactors, List.forall_mem_cons, prime_173171039, prime_2480874801745591]
    norm_num
  exact CertifiesOrder.prime (by norm_num) hqs certifiesOrder_factors.2.2.2.2.2.2

theorem prime_405928799 : Nat.Prime 405928799 := by
  have hqs : ∀ q ∈ [2, 11, 3691, 4999], Nat.Prime q := by
    simp only [List.forall_mem_cons]
    norm_num
  exact CertifiesOrder.prime (by norm_num) hqs certifiesOrder_factors.2.2.2.2.1

theorem prime_11465965001 : Nat.Prime 11465965001 := by
  have hqs : ∀ q ∈ [2, 2, 2, 5, 5, 5, 5, 7, 327599], Nat.Prime q := by
    simp only [List.forall_mem_cons]
    norm_num
  exact CertifiesOrder.prime (by norm_num) hqs certifiesOrder_factors.2.2.2.2.2.1

/-- The prime factors of the order of 2. -/
def orderFactors : List Nat :=
  [13, 29, 67, 229, 311, 983, 11003, 405928799, 11465965001,
    13427688667394608761327070753331941386769]

theorem prime_of_mem_orderFactors : ∀ q ∈ orderFactors, Nat.Prime q := by
  simp only [orderFactors, List.forall_mem_cons, prime_405928799, prime_11465965001,
    prime_largestFactor]
  norm_num

/-- **`PRIME` is a prime.** -/
theorem prime_PRIME : Nat.Prime PRIME := by
  have hqs : ∀ q ∈ 2 :: 3 :: 3 :: orderFactors, Nat.Prime q := by
    simp only [List.forall_mem_cons]
    exact ⟨Nat.prime_two, Nat.prime_three, Nat.prime_three, prime_of_mem_orderFactors⟩
  exact CertifiesOrder.prime (a := 3) (by decide) hqs (by decide +kernel)

/-- The order of the generator 2 modulo `PRIME`. -/
def generatorOrder : Nat := (PRIME - 1) / 18

theorem certifiesOrder_generator : CertifiesOrder PRIME 2 generatorOrder orderFactors := by
  decide +kernel

theorem two_pow_mod_PRIME_eq_one_iff (k : Nat) : 2 ^ k % PRIME = 1 ↔ generatorOrder ∣ k :=
  certifiesOrder_generator.pow_mod_eq_one_iff (by decide) (by decide) prime_of_mem_orderFactors k

theorem generatorOrder_dvd : generatorOrder ∣ PRIME - 1 := ⟨18, by decide⟩

/-! ## Decryption of arbitrary numbers -/

/-- The shared secret has an inverse unless it is a positive power of a multiple of `PRIME`. -/
theorem coprime_pow_PRIME_iff (c x : Nat) :
    Nat.Coprime (c ^ x % PRIME) PRIME ↔ ¬ (x ≠ 0 ∧ PRIME ∣ c) := by
  have hdvd : PRIME ∣ c ^ x ↔ x ≠ 0 ∧ PRIME ∣ c := by
    constructor
    · intro h
      refine ⟨?_, prime_PRIME.dvd_of_dvd_pow h⟩
      rintro rfl
      rw [Nat.pow_zero] at h
      exact prime_PRIME.one_lt.ne' (Nat.dvd_one.1 h)
    · rintro ⟨hx, hc⟩
      exact dvd_pow hc hx
  have hmod : Nat.Coprime (c ^ x % PRIME) PRIME ↔ Nat.Coprime (c ^ x) PRIME := by
    rw [Nat.Coprime, Nat.Coprime, ← Nat.gcd_rec, Nat.gcd_comm]
  rw [hmod, Nat.coprime_comm, prime_PRIME.coprime_iff_not_dvd, hdvd]

/-- The residues `m` with `m * s ≡ c` are the one that the inverse of `s` gives. -/
theorem mul_modEq_iff_of_inverse {s i c m : Nat} (hinv : s * i ≡ 1 [MOD PRIME]) (hm : m < PRIME) :
    m * s ≡ c [MOD PRIME] ↔ m = c * i % PRIME := by
  constructor
  · intro h
    have hres : m ≡ c * i [MOD PRIME] := by
      calc m = m * 1 := (Nat.mul_one m).symm
        _ ≡ m * (s * i) [MOD PRIME] := (hinv.mul_left m).symm
        _ = m * s * i := (Nat.mul_assoc m s i).symm
        _ ≡ c * i [MOD PRIME] := h.mul_right i
    exact (Nat.mod_eq_of_lt hm).symm.trans hres
  · rintro rfl
    calc c * i % PRIME * s ≡ c * i * s [MOD PRIME] := (Nat.mod_modEq _ _).mul_right s
      _ = c * (s * i) := by ring
      _ ≡ c * 1 [MOD PRIME] := hinv.mul_left c
      _ = c := Nat.mul_one c

/-- Decryption misses its inverse, or divides by the shared secret. -/
theorem PrivateKey.decrypt_cases (n : Nat) (ct : Ciphertext) :
    ((PrivateKey.from n).privateKey ≠ 0 ∧ PRIME ∣ ct.c1 ∧
      (PrivateKey.from n).decrypt ct = .error .invalidCiphertext) ∨
    (¬ ((PrivateKey.from n).privateKey ≠ 0 ∧ PRIME ∣ ct.c1) ∧
      ∃ i, ct.c1 ^ (PrivateKey.from n).privateKey * i ≡ 1 [MOD PRIME] ∧
        (PrivateKey.from n).decrypt ct = .ok (ct.c2 * i % PRIME)) := by
  -- the shared secret, which `decrypt` inverts
  let s := modpow ct.c1 (PrivateKey.from n).privateKey PRIME
  have hs : s = ct.c1 ^ (PrivateKey.from n).privateKey % PRIME := modpow_eq PRIME_pos _ _
  have hunit := coprime_pow_PRIME_iff ct.c1 (PrivateKey.from n).privateKey
  rw [← hs, ← modinv_isSome_iff] at hunit
  cases hinv : modinv s PRIME with
  | none =>
      left
      rw [hinv] at hunit
      obtain ⟨hx, hc1⟩ := not_not.1 (fun h => Bool.noConfusion (hunit.2 h))
      refine ⟨hx, hc1, ?_⟩
      rw [PrivateKey.decrypt, PrivateKey.from_prime, hinv]
  | some i =>
      right
      rw [hinv] at hunit
      have hone := modinv_mul_modEq PRIME_pos hinv
      rw [hs] at hone
      refine ⟨hunit.1 rfl, i, ((Nat.mod_modEq _ _).mul_right i).symm.trans hone, ?_⟩
      rw [PrivateKey.decrypt, PrivateKey.from_prime, hinv]

/-- **Decryption of any two numbers.** It is refused exactly under a nonzero exponent with a
    multiple of `PRIME` as ephemeral key, and otherwise solves `m * c1^x ≡ c2`, which has one
    solution below `PRIME`. -/
theorem PrivateKey.decrypt_arbitrary (n : Nat) (ct : Ciphertext) :
    ((PrivateKey.from n).decrypt ct = .error .invalidCiphertext ↔
      (PrivateKey.from n).privateKey ≠ 0 ∧ PRIME ∣ ct.c1) ∧
    (¬ ((PrivateKey.from n).privateKey ≠ 0 ∧ PRIME ∣ ct.c1) →
      ∃ m, (PrivateKey.from n).decrypt ct = .ok m ∧ m < PRIME ∧
        m * ct.c1 ^ (PrivateKey.from n).privateKey ≡ ct.c2 [MOD PRIME] ∧
        ∀ m' < PRIME, m' * ct.c1 ^ (PrivateKey.from n).privateKey ≡ ct.c2 [MOD PRIME] →
          m' = m) := by
  rcases PrivateKey.decrypt_cases n ct with ⟨hx, hc1, herr⟩ | ⟨hbad, i, hinv, hok⟩
  · exact ⟨iff_of_true herr ⟨hx, hc1⟩, fun h => absurd ⟨hx, hc1⟩ h⟩
  · have hlt : ct.c2 * i % PRIME < PRIME := Nat.mod_lt _ PRIME_pos
    have hne : (PrivateKey.from n).decrypt ct ≠ .error .invalidCiphertext := by
      rw [hok]
      intro h
      cases h
    refine ⟨iff_of_false hne hbad, fun _ => ⟨ct.c2 * i % PRIME, hok, hlt, ?_, ?_⟩⟩
    · exact (mul_modEq_iff_of_inverse hinv hlt).2 rfl
    · intro m' hm' h
      exact (mul_modEq_iff_of_inverse hinv hm').1 h

/-- The key 0 decrypts even the ciphertext of two zeros. The key 5 refuses an ephemeral key that is
    `PRIME` and decrypts under one that is 2 more. -/
theorem PrivateKey.decrypt_arbitrary_zero :
    (∃ m, (PrivateKey.from 0).decrypt ⟨0, 0⟩ = .ok m ∧ m < PRIME) ∧
    (PrivateKey.from 5).decrypt ⟨PRIME, 7⟩ = .error .invalidCiphertext ∧
    ∃ m, (PrivateKey.from 5).decrypt ⟨PRIME + 2, 7⟩ = .ok m ∧
      m * (PRIME + 2) ^ 5 ≡ 7 [MOD PRIME] := by
  have hzero : ¬ ((PrivateKey.from 0).privateKey ≠ 0 ∧ PRIME ∣ 0) := fun h => h.1 rfl
  have hfive : (PrivateKey.from 5).privateKey ≠ 0 := by decide
  have htwo : ¬ PRIME ∣ PRIME + 2 := by decide
  obtain ⟨m, hok, hlt, -⟩ := (PrivateKey.decrypt_arbitrary 0 ⟨0, 0⟩).2 hzero
  obtain ⟨m', hok', -, hmod, -⟩ :=
    (PrivateKey.decrypt_arbitrary 5 ⟨PRIME + 2, 7⟩).2 fun h => htwo h.2
  have hrefused := (PrivateKey.decrypt_arbitrary 5 ⟨PRIME, 7⟩).1.2 ⟨hfive, dvd_rfl⟩
  exact ⟨⟨m, hok, hlt⟩, hrefused, m', hok', hmod⟩

/-! ## Degenerate exponents -/

/-- A key made of the number `n` and an encryption under it that draws `random` have their exponents
    strictly between 0 and `PRIME - 1`, and neither hides nothing: the public key is not one, and no
    message is encrypted as one and itself. -/
structure NonDegenerate (n : Nat) (random : RandomBytes) : Prop where
  privateKey_pos : 0 < (PrivateKey.from n).privateKey
  privateKey_lt : (PrivateKey.from n).privateKey < PRIME - 1
  publicExponent_ne : (PrivateKey.from n).publicKey.publicExponent ≠ 1
  exponent_pos : 0 < ephemeralExponent random
  exponent_lt : ephemeralExponent random < PRIME - 1
  ciphertext_ne (m : Nat) : (PrivateKey.from n).publicKey.encrypt m random ≠ .ok ⟨1, m⟩

theorem generatorOrder_dvd_ephemeralExponent_iff (random : RandomBytes) :
    generatorOrder ∣ ephemeralExponent random ↔ generatorOrder ∣ leValue random.val.reverse :=
  Nat.dvd_mod_iff generatorOrder_dvd

/-- An encryption whose exponent the order of 2 divides is the identity, under every key. -/
theorem PublicKey.encrypt_eq_plain (n : Nat) {m : Nat} (hm : m < PRIME) {random : RandomBytes}
    (h : generatorOrder ∣ ephemeralExponent random) :
    (PrivateKey.from n).publicKey.encrypt m random = .ok ⟨1, m⟩ := by
  have hc1 : 2 ^ ephemeralExponent random % PRIME = 1 := (two_pow_mod_PRIME_eq_one_iff _).2 h
  have hs : (2 ^ (n % PRIME) % PRIME) ^ ephemeralExponent random % PRIME = 1 := by
    rw [← Nat.pow_mod, ← Nat.pow_mul]
    exact (two_pow_mod_PRIME_eq_one_iff _).2 (h.mul_left _)
  rw [PublicKey.encrypt_from n hm random, hc1, hs, Nat.mul_one, Nat.mod_eq_of_lt hm]

/-- No other encryption has one as its ephemeral key. -/
theorem PublicKey.encrypt_ne_plain (n m : Nat) {random : RandomBytes}
    (h : ¬ generatorOrder ∣ ephemeralExponent random) :
    (PrivateKey.from n).publicKey.encrypt m random ≠ .ok ⟨1, m⟩ := by
  intro henc
  by_cases hm : m < PRIME
  · rw [PublicKey.encrypt_from n hm random, Except.ok.injEq, Ciphertext.mk.injEq] at henc
    exact h ((two_pow_mod_PRIME_eq_one_iff _).1 henc.1)
  · rw [PublicKey.encrypt, if_pos (by rw [PrivateKey.from_prime]; omega)] at henc
    cases henc

/-- **Which exponents are sound**: those that the order of 2 does not divide. -/
theorem nonDegenerate_iff (n : Nat) (random : RandomBytes) :
    NonDegenerate n random ↔
      ¬ generatorOrder ∣ n % PRIME ∧ ¬ generatorOrder ∣ leValue random.val.reverse := by
  rw [← generatorOrder_dvd_ephemeralExponent_iff]
  constructor
  · intro h
    constructor
    · intro hdvd
      refine h.publicExponent_ne ?_
      rw [PrivateKey.from_publicExponent]
      exact (two_pow_mod_PRIME_eq_one_iff _).2 hdvd
    · intro hdvd
      exact h.ciphertext_ne 0 (PublicKey.encrypt_eq_plain n PRIME_pos hdvd)
  · rintro ⟨hkey, hexp⟩
    have hlt : n % PRIME < PRIME := Nat.mod_lt n PRIME_pos
    -- the order divides `PRIME - 1`, so this exponent is excluded as well
    have hlast : n % PRIME ≠ PRIME - 1 := fun h => hkey (h ▸ generatorOrder_dvd)
    refine ⟨Nat.pos_of_ne_zero fun h => hkey ?_, ?_, ?_, Nat.pos_of_ne_zero fun h => hexp ?_, ?_,
      fun m => PublicKey.encrypt_ne_plain n m hexp⟩
    · exact (show n % PRIME = 0 from h) ▸ dvd_zero _
    · rw [PrivateKey.from_privateKey]
      omega
    · rw [PrivateKey.from_publicExponent]
      exact fun h => hkey ((two_pow_mod_PRIME_eq_one_iff _).1 h)
    · exact h ▸ dvd_zero _
    · exact Nat.mod_lt _ (by decide)

/-- The key of the number 0, which the import of `AA==` makes, is public, and a draw of 32 zero
    bytes leaves the message as it is. -/
theorem nonDegenerate_zero_false :
    ¬ NonDegenerate 0 ⟨List.replicate 32 7, rfl⟩ ∧
    (PrivateKey.from 0).publicKey.publicExponent = 1 ∧
    ¬ NonDegenerate 5 ⟨List.replicate 32 0, rfl⟩ ∧
    (PrivateKey.from 5).publicKey.encrypt 7 ⟨List.replicate 32 0, rfl⟩ = .ok ⟨1, 7⟩ := by
  refine ⟨?_, by decide, ?_, by decide +kernel⟩
  · intro h
    exact absurd h.privateKey_pos (by decide)
  · intro h
    exact absurd h.exponent_pos (by decide)

end DaConcept.Crypto
