import DaConcept.Crypto.Decoder
import DaConcept.Crypto.Group

set_option autoImplicit false

/-! # What the encryption leaves open

What can be done to ciphertexts, and read off them, without the private key. Their products decrypt
to the products of the messages, so whoever sees an encrypted string can multiply its chunks by any
factors (`decrypt_tamper`). The chunks are not bound to one another, so groups of several strings
can be put together in any order (`decrypt_pieces`). And the generator 2 does not generate the whole
group: a ciphertext shows in which of its cosets the message lies, and nothing else
(`encrypt_leaks_class`). -/

namespace DaConcept.Crypto

/-! ## Products of ciphertexts -/

/-- The product of two ciphertexts. -/
def Ciphertext.mul (ct ct' : Ciphertext) : Ciphertext :=
  ⟨ct.c1 * ct'.c1 % PRIME, ct.c2 * ct'.c2 % PRIME⟩

/-- What a key decrypts to `m` solves `m * c1^x ≡ c2`. -/
theorem PrivateKey.decrypt_eq_ok_iff {n m : Nat} {ct : Ciphertext} :
    (PrivateKey.from n).decrypt ct = .ok m ↔
      m < PRIME ∧ ¬ ((PrivateKey.from n).privateKey ≠ 0 ∧ PRIME ∣ ct.c1) ∧
        m * ct.c1 ^ (PrivateKey.from n).privateKey ≡ ct.c2 [MOD PRIME] := by
  rcases PrivateKey.decrypt_cases n ct with ⟨hx, hc1, herr⟩ | ⟨hbad, i, hinv, hok⟩
  · rw [herr]
    exact iff_of_false nofun fun h => h.2.1 ⟨hx, hc1⟩
  · rw [hok, Except.ok.injEq]
    constructor
    · rintro rfl
      have hlt : ct.c2 * i % PRIME < PRIME := Nat.mod_lt _ PRIME_pos
      exact ⟨hlt, hbad, (mul_modEq_iff_of_inverse hinv hlt).2 rfl⟩
    · rintro ⟨hm, -, hsolves⟩
      exact ((mul_modEq_iff_of_inverse hinv hm).1 hsolves).symm

/-- **A product of ciphertexts decrypts to the product of the messages.** -/
theorem PrivateKey.decrypt_mul {n m m' : Nat} {ct ct' : Ciphertext}
    (h : (PrivateKey.from n).decrypt ct = .ok m) (h' : (PrivateKey.from n).decrypt ct' = .ok m') :
    (PrivateKey.from n).decrypt (ct.mul ct') = .ok (m * m' % PRIME) := by
  obtain ⟨-, hunit, hsolves⟩ := PrivateKey.decrypt_eq_ok_iff.1 h
  obtain ⟨-, hunit', hsolves'⟩ := PrivateKey.decrypt_eq_ok_iff.1 h'
  let x := (PrivateKey.from n).privateKey
  refine PrivateKey.decrypt_eq_ok_iff.2 ⟨Nat.mod_lt _ PRIME_pos, ?_, ?_⟩
  · rintro ⟨hx, hdvd⟩
    -- a prime divides one of the factors
    have hprod : PRIME ∣ ct.c1 * ct'.c1 := (Nat.dvd_mod_iff dvd_rfl).1 hdvd
    rcases prime_PRIME.dvd_mul.1 hprod with hc1 | hc1
    · exact hunit ⟨hx, hc1⟩
    · exact hunit' ⟨hx, hc1⟩
  · calc m * m' % PRIME * (ct.c1 * ct'.c1 % PRIME) ^ x
        ≡ m * m' * (ct.c1 * ct'.c1) ^ x [MOD PRIME] :=
          (Nat.mod_modEq _ _).mul ((Nat.mod_modEq _ _).pow x)
      _ = m * ct.c1 ^ x * (m' * ct'.c1 ^ x) := by ring
      _ ≡ ct.c2 * ct'.c2 [MOD PRIME] := hsolves.mul hsolves'
      _ ≡ ct.c2 * ct'.c2 % PRIME [MOD PRIME] := (Nat.mod_modEq _ _).symm

theorem Ciphertext.fitsLength_mul (ct ct' : Ciphertext) :
    FitsLength (ct.mul ct').c1 ∧ FitsLength (ct.mul ct').c2 :=
  ⟨fitsLength_of_lt_PRIME (Nat.mod_lt _ PRIME_pos), fitsLength_of_lt_PRIME (Nat.mod_lt _ PRIME_pos)⟩

/-- Chunks are the low words of what the ciphertexts decrypt to; a zero has none. -/
theorem decryptChunks_of_forall₂ {n : Nat} {ms : List Nat} {cts : List Ciphertext}
    (h : List.Forall₂ (fun m ct => (PrivateKey.from n).decrypt ct = .ok m) ms cts) :
    decryptChunks (PrivateKey.from n) cts
      = if 0 ∈ ms then .panic else .ok (ms.map UInt32.ofNat) := by
  induction h with
  | nil => rfl
  | @cons m ct ms cts hct _ ih =>
      rw [decryptChunks, PrivateKey.callDecrypt_from, hct, Outcome.ofExcept_ok, Outcome.ok_bind, ih]
      by_cases hm : m = 0
      · simp [hm, toU32Digits_zero, Outcome.index]
      · rw [index_toU32Digits hm, Outcome.ok_bind]
        by_cases hrest : 0 ∈ ms
        · rw [if_pos hrest, if_pos (List.mem_cons_of_mem m hrest), Outcome.panic_bind]
        · rw [if_neg hrest, if_neg (List.not_mem_cons_of_ne_of_not_mem (Ne.symm hm) hrest)]
          rfl

/-- The value of a product of two words fits below `PRIME`. -/
theorem toNat_mul_toNat_lt_PRIME (a b : UInt32) : a.toNat * b.toNat < PRIME := by
  have hle : a.toNat * b.toNat ≤ 2 ^ 32 * 2 ^ 32 :=
    Nat.mul_le_mul a.toNat_lt.le b.toNat_lt.le
  exact hle.trans_lt (by decide)

/-- Multiply the chunks of an encrypted byte string: this takes the public key only. -/
def tamper (pk : PublicKey) (factors : List UInt32) (draw : Nat → RandomBytes) (data : Bytes) :
    Outcome CryptoError Bytes := do
  let ciphertexts ← parse data
  let masks ← encryptChunks pk draw 0 factors
  pure (serialize ((ciphertexts.zip masks).map fun p => p.1.mul p.2))

/-- The products of two lists of ciphertexts decrypt to the products of the chunks. -/
theorem forall₂_decrypt_mul {n : Nat} {chunks factors : List UInt32} {cts masks : List Ciphertext}
    (h : List.Forall₂ (Encrypts (PrivateKey.from n)) chunks cts)
    (h' : List.Forall₂ (Encrypts (PrivateKey.from n)) factors masks) :
    List.Forall₂ (fun m ct => (PrivateKey.from n).decrypt ct = .ok m)
      ((chunks.zip factors).map fun p => p.1.toNat * p.2.toNat)
      ((cts.zip masks).map fun p => p.1.mul p.2) := by
  induction h generalizing factors masks with
  | nil => exact .nil
  | @cons chunk ct chunks cts hct _ ih =>
      cases h' with
      | nil => exact .nil
      | @cons factor mask factors masks hmask hrest =>
          have hprod := PrivateKey.decrypt_mul hct.1 hmask.1
          rw [Nat.mod_eq_of_lt (toNat_mul_toNat_lt_PRIME chunk factor)] at hprod
          exact .cons hprod (ih hrest)

/-- **Encrypted strings are malleable.** With the public key alone, every chunk of an encrypted byte
    string is multiplied by a chosen factor. What decryption then makes of it is what it makes of
    the products, and it panics only on a factor or a chunk that is zero. -/
theorem decrypt_tamper (n : Nat) (bs : Bytes) (factors : List UInt32)
    (draw draw' : Nat → RandomBytes) (hcount : (chunks4 bs).length < 2 ^ 32) :
    (encrypt bs (PrivateKey.from n) draw
        >>= fun data => tamper (PrivateKey.from n).publicKey factors draw' data
        >>= fun data => decrypt data (PrivateKey.from n))
      = if ∃ p ∈ ((chunks4 bs).map packChunk).zip factors, p.1 = 0 ∨ p.2 = 0 then .panic
        else .ofExcept (fromUtf8 (trimZeros
          ((((chunks4 bs).map packChunk).zip factors).flatMap fun p =>
            unpackChunk (p.1 * p.2)))) := by
  obtain ⟨cts, henc, hall, hparse⟩ := encrypt_eq_serialize n bs draw hcount
  obtain ⟨masks, hmasks, hall'⟩ := encryptChunks_ok (ε := CryptoError) n draw' factors 0
  let products := (cts.zip masks).map fun p => p.1.mul p.2
  have hlen : products.length < 2 ^ 32 := by
    have hcts : cts.length = (chunks4 bs).length := by rw [← hall.length_eq, List.length_map]
    have hle : products.length ≤ cts.length := by
      rw [List.length_map, List.length_zip]
      exact Nat.min_le_left _ _
    omega
  have hfit : ∀ ct ∈ products, FitsLength ct.c1 ∧ FitsLength ct.c2 := by
    intro ct hct
    obtain ⟨p, -, rfl⟩ := List.mem_map.1 hct
    exact p.1.fitsLength_mul p.2
  have htamper : tamper (PrivateKey.from n).publicKey factors draw' (serialize cts)
      = .ok (serialize products) := by
    rw [tamper, hparse, Outcome.ok_bind, hmasks]
    rfl
  rw [henc, Outcome.ok_bind, htamper, Outcome.ok_bind, decrypt, parse_serialize products hlen hfit,
    Outcome.ok_bind, decryptChunks_of_forall₂ (forall₂_decrypt_mul hall hall')]
  -- the product of two words is zero only if one of them is
  have hzero : 0 ∈ (((chunks4 bs).map packChunk).zip factors).map
      (fun p => p.1.toNat * p.2.toNat) ↔
      ∃ p ∈ ((chunks4 bs).map packChunk).zip factors, p.1 = 0 ∨ p.2 = 0 := by
    simp only [List.mem_map, Nat.mul_eq_zero, ← UInt32.toNat_inj, UInt32.toNat_zero]
  have hwords : ((((chunks4 bs).map packChunk).zip factors).map
      (fun p => p.1.toNat * p.2.toNat)).map UInt32.ofNat
      = (((chunks4 bs).map packChunk).zip factors).map (fun p => p.1 * p.2) := by
    rw [List.map_map]
    refine List.map_congr_left fun p _ => ?_
    rw [Function.comp_apply, UInt32.ofNat_mul, UInt32.ofNat_toNat, UInt32.ofNat_toNat]
  rw [hwords]
  by_cases hpanic : ∃ p ∈ ((chunks4 bs).map packChunk).zip factors, p.1 = 0 ∨ p.2 = 0
  · rw [if_pos (hzero.2 hpanic), if_pos hpanic, Outcome.panic_bind]
  · rw [if_neg (fun h => hpanic (hzero.1 h)), if_neg hpanic, Outcome.ok_bind, List.flatMap_map]

/-- Doubling the only group of `1234`. -/
theorem decrypt_tamper_double :
    (encrypt (utf8 "1234") (PrivateKey.from 5) (fun _ => sevens)
        >>= fun data => tamper (PrivateKey.from 5).publicKey [2] (fun _ => sevens) data
        >>= fun data => decrypt data (PrivateKey.from 5))
      = .ok "bdfh" := by
  rw [decrypt_tamper 5 (utf8 "1234") [2] (fun _ => sevens) (fun _ => sevens) (by decide)]
  decide +kernel

/-! ## Pieces of several strings -/

/-- The ciphertext stands where the group does, in something that was encrypted under the key. -/
def Piece (k : PrivateKey) (p : Bytes × Ciphertext) : Prop :=
  ∃ (bs : Bytes) (draw : Nat → RandomBytes) (data : Bytes) (cts : List Ciphertext) (i : Nat),
    (encrypt bs k draw : Outcome CryptoError Bytes) = .ok data ∧ parse data = .ok cts ∧
      (chunks4 bs)[i]? = some p.1 ∧ cts[i]? = some p.2

theorem Piece.length_le {k : PrivateKey} {p : Bytes × Ciphertext} (h : Piece k p) :
    p.1.length ≤ 4 := by
  obtain ⟨bs, draw, data, cts, i, -, -, hgroup, -⟩ := h
  exact chunks4_length_le bs p.1 (List.mem_of_getElem? hgroup)

/-- The ciphertext of a piece is one of its group, wherever it comes from. -/
theorem Piece.encrypts {n : Nat} {p : Bytes × Ciphertext} (h : Piece (PrivateKey.from n) p) :
    Encrypts (PrivateKey.from n) (packChunk p.1) p.2 := by
  obtain ⟨bs, draw, data, cts, i, henc, hparse, hgroup, hct⟩ := h
  obtain ⟨cts₀, hcts₀, hall⟩ :=
    encryptChunks_ok (ε := CryptoError) n draw ((chunks4 bs).map packChunk) 0
  rw [encrypt, hcts₀, Outcome.ok_bind, Outcome.pure_eq, Outcome.ok.injEq] at henc
  subst henc
  -- of very many ciphertexts only the first are read back
  obtain ⟨frames, rest, hgrammar, hframes⟩ := grammar_serialize_take (fitsLength_of_encrypts hall)
  rw [hgrammar.parse_eq, hframes, Outcome.ok.injEq] at hparse
  subst hparse
  have hct₀ : cts₀[i]? = some p.2 := by
    rw [List.getElem?_take] at hct
    split at hct
    · exact hct
    · cases hct
  have hchunk : ((chunks4 bs).map packChunk)[i]? = some (packChunk p.1) := by
    rw [List.getElem?_map, hgroup, Option.map_some]
  obtain ⟨hi, hchunk⟩ := List.getElem?_eq_some_iff.1 hchunk
  obtain ⟨hi', hct₀⟩ := List.getElem?_eq_some_iff.1 hct₀
  have hpair := hall.get hi hi'
  simp only [List.get_eq_getElem] at hpair
  rwa [hchunk, hct₀] at hpair

/-- **Encrypted strings can be cut and pasted.** Any ciphertexts of groups of whatever strings were
    encrypted under a key, put together in any order, decrypt like the groups put together. -/
theorem decrypt_pieces (n : Nat) (pieces : List (Bytes × Ciphertext))
    (hcount : pieces.length < 2 ^ 32) (hpieces : ∀ p ∈ pieces, Piece (PrivateKey.from n) p) :
    decrypt (serialize (pieces.map Prod.snd)) (PrivateKey.from n)
      = if ∃ p ∈ pieces, ∀ byte ∈ p.1, byte = 0 then .panic
        else .ofExcept (fromUtf8 (trimZeros (pieces.flatMap fun p => padTo4 p.1))) := by
  have hall : List.Forall₂ (Encrypts (PrivateKey.from n)) (pieces.map fun p => packChunk p.1)
      (pieces.map Prod.snd) := by
    rw [List.forall₂_map_left_iff, List.forall₂_map_right_iff, List.forall₂_same]
    exact fun p hp => (hpieces p hp).encrypts
  have hlen : (pieces.map Prod.snd).length < 2 ^ 32 := by rwa [List.length_map]
  have hzero : 0 ∈ (pieces.map fun p => packChunk p.1) ↔
      ∃ p ∈ pieces, ∀ byte ∈ p.1, byte = 0 := by
    rw [List.mem_map]
    refine exists_congr fun p => and_congr_right fun hp => ?_
    rw [← leValue_eq_zero_iff, ← toNat_packChunk (hpieces p hp).length_le, ← UInt32.toNat_inj,
      UInt32.toNat_zero]
  have hunpack : (pieces.map fun p => packChunk p.1).flatMap unpackChunk
      = pieces.flatMap fun p => padTo4 p.1 := by
    rw [List.flatMap_map]
    exact List.flatMap_congr fun p hp => unpackChunk_packChunk (hpieces p hp).length_le
  rw [decrypt, parse_serialize _ hlen (fitsLength_of_encrypts hall), Outcome.ok_bind,
    decryptChunks_eq n hall]
  by_cases hpanic : ∃ p ∈ pieces, ∀ byte ∈ p.1, byte = 0
  · rw [if_pos (hzero.2 hpanic), if_pos hpanic, Outcome.panic_bind]
  · rw [if_neg (fun h => hpanic (hzero.1 h)), if_neg hpanic, Outcome.ok_bind, hunpack]

/-- The two groups of `wordless` the other way round. -/
theorem decrypt_pieces_swapped :
    ∃ data ct ct',
      (encrypt (utf8 "wordless") (PrivateKey.from 5) (fun _ => sevens) : Outcome CryptoError Bytes)
        = .ok data ∧
      parse data = .ok [ct, ct'] ∧
      decrypt (serialize [ct', ct]) (PrivateKey.from 5) = .ok "lessword" := by
  have hgroups : chunks4 (utf8 "wordless") = [utf8 "word", utf8 "less"] := by decide
  obtain ⟨cts, henc, hall, hparse⟩ :=
    encrypt_eq_serialize 5 (utf8 "wordless") (fun _ => sevens) (by decide)
  rw [hgroups] at hall
  obtain _ | ⟨-, _ | ⟨-, _ | _⟩⟩ := hall
  rename_i ct ct'
  have hpieces : ∀ p ∈ [(utf8 "less", ct'), (utf8 "word", ct)], Piece (PrivateKey.from 5) p := by
    rw [List.forall_mem_cons, List.forall_mem_singleton]
    exact ⟨⟨_, _, _, _, 1, henc, hparse, by rw [hgroups]; rfl, rfl⟩,
      ⟨_, _, _, _, 0, henc, hparse, by rw [hgroups]; rfl, rfl⟩⟩
  refine ⟨_, ct, ct', henc, hparse, ?_⟩
  have h := decrypt_pieces 5 [(utf8 "less", ct'), (utf8 "word", ct)] (by simp) hpieces
  simp only [List.map_cons, List.map_nil, List.flatMap_cons, List.flatMap_nil,
    List.exists_mem_cons_iff, List.not_mem_nil, false_and, exists_false, or_false] at h
  exact h.trans (by decide +kernel)

/-! ## What a ciphertext tells -/

/-- The power of a number that all powers of the generator have in common, modulo `PRIME`. -/
def residueClass (m : Nat) : Nat := modpow m generatorOrder PRIME

theorem residueClass_eq (m : Nat) : residueClass m = m ^ generatorOrder % PRIME :=
  modpow_eq PRIME_pos m generatorOrder

/-- A power of 2 does not change the class. -/
theorem residueClass_mul_two_pow (m k : Nat) :
    residueClass (m * 2 ^ k % PRIME) = residueClass m := by
  have hone : (2 ^ k) ^ generatorOrder ≡ 1 [MOD PRIME] := by
    have hdvd : generatorOrder ∣ k * generatorOrder := dvd_mul_left _ _
    rw [← Nat.pow_mul]
    exact ((two_pow_mod_PRIME_eq_one_iff _).2 hdvd).trans (Nat.mod_eq_of_lt (by decide)).symm
  rw [residueClass_eq, residueClass_eq]
  calc (m * 2 ^ k % PRIME) ^ generatorOrder
      ≡ (m * 2 ^ k) ^ generatorOrder [MOD PRIME] := (Nat.mod_modEq _ _).pow _
    _ = m ^ generatorOrder * (2 ^ k) ^ generatorOrder := Nat.mul_pow _ _ _
    _ ≡ m ^ generatorOrder * 1 [MOD PRIME] := hone.mul_left _
    _ = m ^ generatorOrder := Nat.mul_one _

/-- The second number of a ciphertext: the message times a power of 2. -/
theorem PublicKey.encrypt_c2 {n m : Nat} {r : RandomBytes} {ct : Ciphertext}
    (h : (PrivateKey.from n).publicKey.encrypt m r = .ok ct) :
    m < PRIME ∧ ct.c2 = m * 2 ^ (n % PRIME * ephemeralExponent r) % PRIME := by
  have hm : m < PRIME := by
    by_contra hge
    rw [(elgamal_correct n m r).1 (Nat.le_of_not_lt hge)] at h
    cases h
  refine ⟨hm, ?_⟩
  rw [PublicKey.encrypt_from n hm r, Except.ok.injEq] at h
  rw [← h, ← Nat.pow_mod, ← Nat.pow_mul, Nat.mul_mod_mod]

/-- The draw that encrypts with the exponent 1. -/
def one : RandomBytes := ⟨List.replicate 31 0 ++ [1], rfl⟩

theorem ephemeralExponent_one : ephemeralExponent one = 1 := by decide

theorem PublicKey.encrypt_one (n : Nat) {m : Nat} (hm : m < PRIME) :
    (PrivateKey.from n).publicKey.encrypt m one
      = .ok { c1 := 2, c2 := m * 2 ^ (n % PRIME) % PRIME } := by
  rw [PublicKey.encrypt_from n hm one, ephemeralExponent_one, Nat.pow_one, Nat.pow_one,
    Nat.mod_mod, Nat.mul_mod_mod]
  rfl

/-- Two residues of one class differ by a power of 2. -/
theorem exists_mul_two_pow_of_residueClass_eq {m m' : Nat} (hm : m < PRIME)
    (h : residueClass m = residueClass m') : ∃ i < PRIME, m' * 2 ^ i % PRIME = m := by
  have : Fact PRIME.Prime := ⟨prime_PRIME⟩
  have hcast : (m : ZMod PRIME) ^ generatorOrder = (m' : ZMod PRIME) ^ generatorOrder := by
    rw [residueClass_eq, residueClass_eq] at h
    exact_mod_cast (ZMod.natCast_eq_natCast_iff' _ _ PRIME).2 h
  have hpos : 0 < generatorOrder := by decide
  have hle : generatorOrder ≤ PRIME := by decide
  -- it is enough to find the power in the field
  suffices hpow : ∃ i < generatorOrder, (m' : ZMod PRIME) * 2 ^ i = m by
    obtain ⟨i, hi, heq⟩ := hpow
    refine ⟨i, hi.trans_le hle, ?_⟩
    have hmod := (ZMod.natCast_eq_natCast_iff' (m' * 2 ^ i) m PRIME).1 (by push_cast; exact heq)
    rwa [Nat.mod_eq_of_lt hm] at hmod
  by_cases hzero : (m' : ZMod PRIME) = 0
  · rw [hzero, zero_pow hpos.ne'] at hcast
    exact ⟨0, hpos, by rw [hzero, zero_mul, pow_eq_zero_iff hpos.ne' |>.1 hcast]⟩
  · have hone : ((m : ZMod PRIME) / m') ^ generatorOrder = 1 := by
      rw [div_pow, hcast, div_self (pow_ne_zero _ hzero)]
    obtain ⟨i, hi, heq⟩ :=
      certifiesOrder_generator.exists_pow_eq hpos prime_of_mem_orderFactors hone
    exact ⟨i, hi, by rw [← Nat.cast_ofNat, heq, mul_div_cancel₀ _ hzero]⟩

/-- **What a ciphertext tells.** Under every key and for every draw the second number of a
    ciphertext is of the class of the message, zero being a class of its own. And that is all: two
    messages of one class have a ciphertext in common, each under some key. -/
theorem encrypt_leaks_class :
    (∀ (n m : Nat) (random : RandomBytes) (ct : Ciphertext),
      (PrivateKey.from n).publicKey.encrypt m random = .ok ct →
        residueClass ct.c2 = residueClass m) ∧
    (∀ m m' : Nat, m < PRIME → m' < PRIME →
      ((∃ (n n' : Nat) (random random' : RandomBytes) (ct : Ciphertext),
          (PrivateKey.from n).publicKey.encrypt m random = .ok ct ∧
          (PrivateKey.from n').publicKey.encrypt m' random' = .ok ct) ↔
        residueClass m = residueClass m')) := by
  have hclass : ∀ (n m : Nat) (random : RandomBytes) (ct : Ciphertext),
      (PrivateKey.from n).publicKey.encrypt m random = .ok ct →
        residueClass ct.c2 = residueClass m := by
    intro n m random ct h
    rw [(PublicKey.encrypt_c2 h).2, residueClass_mul_two_pow]
  refine ⟨hclass, fun m m' hm hm' => ⟨?_, ?_⟩⟩
  · rintro ⟨n, n', random, random', ct, henc, henc'⟩
    rw [← hclass n m random ct henc, hclass n' m' random' ct henc']
  · intro h
    obtain ⟨i, hi, heq⟩ := exists_mul_two_pow_of_residueClass_eq hm h
    refine ⟨0, i, one, one, _, PublicKey.encrypt_one 0 hm, ?_⟩
    rw [PublicKey.encrypt_one i hm', Nat.mod_eq_of_lt hi, heq, Nat.zero_mod, Nat.pow_zero,
      Nat.mul_one, Nat.mod_eq_of_lt hm]

/-- 1 and 2 have a ciphertext in common, 1 and 3 have none. -/
theorem encrypt_leaks_class_sample :
    (∃ (n n' : Nat) (random random' : RandomBytes) (ct : Ciphertext),
      (PrivateKey.from n).publicKey.encrypt 1 random = .ok ct ∧
      (PrivateKey.from n').publicKey.encrypt 2 random' = .ok ct) ∧
    ¬ (∃ (n n' : Nat) (random random' : RandomBytes) (ct : Ciphertext),
      (PrivateKey.from n).publicKey.encrypt 1 random = .ok ct ∧
      (PrivateKey.from n').publicKey.encrypt 3 random' = .ok ct) := by
  have h := encrypt_leaks_class.2
  exact ⟨(h 1 2 (by decide) (by decide)).2 (by decide +kernel),
    fun hex => absurd ((h 1 3 (by decide) (by decide)).1 hex) (by decide +kernel)⟩

end DaConcept.Crypto
