import DaConcept.Lib.Base64
import DaConcept.Crypto.Group
import DaConcept.Crypto.RoundTrip

set_option autoImplicit false

/-! # Keys as they are stored

A private key is exported as the bytes of its exponent, and a public key as those of its power of 2.
Import reduces an exponent that is reduced already, so it gives the exported key back
(`PrivateKey.tryFrom_getEncodedPrivateKey`). Two keys with one public key may have different
exponents; they decrypt alike whatever either of them encrypts (`decrypt_of_encoded_eq`), as every
ephemeral key is a power of 2. -/

namespace DaConcept.Crypto

/-- The engine `STANDARD`, except that it always answers the same error. -/
def Base64.standard : Base64 where
  encode bs := String.ofList (base64Encode bs)
  decode text :=
    match base64Decode text.toList with
    | some bs => .ok bs
    | none => .error (.invalidLength text.length)

theorem Base64.standard_decode_encode (bs : Bytes) :
    Base64.standard.decode (Base64.standard.encode bs) = .ok bs := by
  simp [Base64.standard, base64Decode_base64Encode]

theorem Base64.standard_encode_injective : Function.Injective Base64.standard.encode := by
  intro xs ys h
  exact base64Encode_injective (String.ofList_injective h)

/-! ## Export and import of a private key -/

@[simp] theorem PrivateKey.from_mod (n : Nat) :
    PrivateKey.from (n % PRIME) = PrivateKey.from n := by
  simp only [PrivateKey.from, Nat.mod_mod]

/-- What `TryFrom<&str>` accepts is a key that `PrivateKey::from` makes. -/
theorem PrivateKey.exists_from_of_tryFrom {base64 : Base64} {t : String} {k : PrivateKey}
    (h : PrivateKey.tryFrom base64 t = .ok k) : ∃ n, k = PrivateKey.from n := by
  rw [PrivateKey.tryFrom] at h
  cases hdecode : base64.decode t with
  | error e =>
      rw [hdecode] at h
      cases h
  | ok bs =>
      rw [hdecode] at h
      exact ⟨leValue bs, (Except.ok.inj h).symm⟩

section
variable {base64 : Base64} (hbase64 : ∀ bs, base64.decode (base64.encode bs) = .ok bs)
include hbase64

/-- **Import undoes export.** -/
theorem PrivateKey.tryFrom_getEncodedPrivateKey (n : Nat) :
    PrivateKey.tryFrom base64 ((PrivateKey.from n).getEncodedPrivateKey base64)
      = .ok (PrivateKey.from n) := by
  rw [PrivateKey.tryFrom, PrivateKey.getEncodedPrivateKey, hbase64]
  exact congrArg Except.ok (by rw [leValue_toBytesLe, PrivateKey.from_privateKey, from_mod])

/-- An imported key survives its export. -/
theorem PrivateKey.tryFrom_of_tryFrom {t : String} {k : PrivateKey}
    (h : PrivateKey.tryFrom base64 t = .ok k) :
    PrivateKey.tryFrom base64 (k.getEncodedPrivateKey base64) = .ok k := by
  obtain ⟨n, rfl⟩ := PrivateKey.exists_from_of_tryFrom h
  exact PrivateKey.tryFrom_getEncodedPrivateKey hbase64 n

end

/-! ## Keys with one public key -/

theorem publicExponent_eq_of_encoded {base64 : Base64} (hinj : Function.Injective base64.encode)
    {pk pk' : PublicKey}
    (h : pk.getEncodedPublicKey base64 = pk'.getEncodedPublicKey base64) :
    pk.publicExponent = pk'.publicExponent := by
  rw [← leValue_toBytesLe pk.publicExponent, hinj h, leValue_toBytesLe]

/-- The shared secret of a power of 2 is a power of the public key. -/
theorem sharedSecret_eq (n y : Nat) :
    modpow (2 ^ y % PRIME) (PrivateKey.from n).privateKey PRIME
      = (PrivateKey.from n).publicKey.publicExponent ^ y % PRIME := by
  rw [modpow_eq PRIME_pos, PrivateKey.from_publicExponent, PrivateKey.from_privateKey,
    ← Nat.pow_mod, ← Nat.pow_mod, ← Nat.pow_mul, ← Nat.pow_mul, Nat.mul_comm]

theorem PrivateKey.decrypt_eq_of_publicExponent {n n' : Nat}
    (h : (PrivateKey.from n).publicKey.publicExponent
      = (PrivateKey.from n').publicKey.publicExponent) (y c2 : Nat) :
    (PrivateKey.from n).decrypt ⟨2 ^ y % PRIME, c2⟩
      = (PrivateKey.from n').decrypt ⟨2 ^ y % PRIME, c2⟩ := by
  rw [PrivateKey.decrypt, PrivateKey.decrypt]
  simp only [PrivateKey.from_prime, sharedSecret_eq, h]

/-- Keys that decrypt every ciphertext alike decrypt the list alike. -/
theorem decryptChunks_congr {n n' : Nat} {cts : List Ciphertext}
    (h : ∀ ct ∈ cts, (PrivateKey.from n).decrypt ct = (PrivateKey.from n').decrypt ct) :
    decryptChunks (PrivateKey.from n) cts = decryptChunks (PrivateKey.from n') cts := by
  induction cts with
  | nil => rfl
  | cons ct cts ih =>
      rw [List.forall_mem_cons] at h
      simp only [decryptChunks, PrivateKey.callDecrypt_from]
      rw [h.1, ih h.2]

/-- Keys with one public key decrypt alike what is serialized of pairs with a power of 2. -/
theorem decrypt_serialize_congr {n n' : Nat}
    (h : (PrivateKey.from n).publicKey.publicExponent
      = (PrivateKey.from n').publicKey.publicExponent)
    {cts : List Ciphertext} (hcts : ∀ ct ∈ cts, GeneratorPair ct) :
    decrypt (serialize cts) (PrivateKey.from n) = decrypt (serialize cts) (PrivateKey.from n') := by
  obtain ⟨frames, rest, hgrammar, hframes⟩ :=
    grammar_serialize_take fun ct hct => (hcts ct hct).fitsLength
  -- as many pairs as the count field says are read back
  have hsame : ∀ ct ∈ cts.take (cts.length % 2 ^ 32),
      (PrivateKey.from n).decrypt ct = (PrivateKey.from n').decrypt ct := by
    intro ct hct
    obtain ⟨⟨y, hc1⟩, -⟩ := hcts ct (List.mem_of_mem_take hct)
    have hpair := PrivateKey.decrypt_eq_of_publicExponent h y ct.c2
    rwa [← hc1] at hpair
  rw [decrypt, decrypt, hgrammar.parse_eq, hframes, Outcome.ok_bind, Outcome.ok_bind,
    decryptChunks_congr hsame]

/-- **The public key tells which key decrypts.** What a key has encrypted, any key with the same
    encoded public key decrypts with the same outcome. -/
theorem decrypt_of_encoded_eq (base64 : Base64) (hinj : Function.Injective base64.encode)
    (n n' : Nat)
    (h : (PrivateKey.from n).publicKey.getEncodedPublicKey base64
      = (PrivateKey.from n').publicKey.getEncodedPublicKey base64)
    (bs : Bytes) (draw : Nat → RandomBytes) :
    (encrypt bs (PrivateKey.from n) draw >>= fun data => decrypt data (PrivateKey.from n'))
      = (encrypt bs (PrivateKey.from n) draw >>= fun data => decrypt data (PrivateKey.from n)) := by
  obtain ⟨cts, henc, -, hcts⟩ := encrypt_generatorPair (ε := CryptoError) n bs draw
  rw [henc, Outcome.ok_bind, Outcome.ok_bind]
  exact decrypt_serialize_congr (publicExponent_eq_of_encoded hinj h.symm) hcts

/-- The exponents 5 and `5 + (PRIME - 1) / 18` belong to one public key. -/
theorem decrypt_of_encoded_eq_sample :
    (PrivateKey.from 5).privateKey ≠ (PrivateKey.from (5 + generatorOrder)).privateKey ∧
    (encrypt (utf8 "hello") (PrivateKey.from 5) (fun _ => sevens)
        >>= fun data => decrypt data (PrivateKey.from (5 + generatorOrder)))
      = (encrypt (utf8 "hello") (PrivateKey.from 5) (fun _ => sevens)
        >>= fun data => decrypt data (PrivateKey.from 5)) := by
  have hpublic : (PrivateKey.from 5).publicKey
      = (PrivateKey.from (5 + generatorOrder)).publicKey := by decide +kernel
  exact ⟨by decide, decrypt_of_encoded_eq Base64.standard Base64.standard_encode_injective 5 _
    (congrArg _ hpublic) (utf8 "hello") _⟩

end DaConcept.Crypto
