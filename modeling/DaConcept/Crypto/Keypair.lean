import DaConcept.Lib.LittleEndian
import DaConcept.Lib.ModArith

set_option autoImplicit false

/-! # ElGamal keys (`crypto/src/types.rs`, `crypto/src/keypair.rs`)

Keys, ciphertexts and the two ElGamal operations on numbers. A `BigUint` is a natural number. The
32 bytes of `get_secure_random_bytes` are an argument of the operation that draws them, and the
base64 engine `STANDARD` is a parameter, `Base64`.

Every power of the generator 2 is a unit modulo the odd `PRIME`, so decryption of what a key's own
public key encrypted never misses its inverse and gives back the message
(`PrivateKey.decrypt_encrypt`); that `PRIME` is a prime plays no part in it. -/

namespace DaConcept.Crypto

/-! ## Types -/

/-- ElGamal public key. -/
structure PublicKey where
  /-- Large prime number. -/
  prime : Nat
  /-- Generator of the multiplicative group. -/
  generator : Nat
  /-- `g^x mod p`, where `x` is the private key. -/
  publicExponent : Nat
deriving DecidableEq, Repr

/-- ElGamal private key. -/
structure PrivateKey where
  /-- Secret exponent. -/
  privateKey : Nat
  /-- Associated public key. -/
  publicKey : PublicKey
deriving DecidableEq, Repr

/-- ElGamal ciphertext. -/
structure Ciphertext where
  /-- Ephemeral key: `g^y`. -/
  c1 : Nat
  /-- Encrypted message: `h^y * m`. -/
  c2 : Nat
deriving DecidableEq, Repr

/-- `base64::DecodeError`. -/
inductive DecodeError where
  | invalidByte (offset : Nat) (byte : UInt8)
  | invalidLength (length : Nat)
  | invalidLastSymbol (offset : Nat) (byte : UInt8)
  | invalidPadding
deriving DecidableEq, Repr

/-- `CryptoError`. -/
inductive CryptoError where
  | primeSetup
  | invalidPrivateKey
  | invalidCiphertext
  | base64Decoding (e : DecodeError)
  | randomGenerationError
  | decodeDecryptedMessage
deriving DecidableEq, Repr

/-- The base64 engine `general_purpose::STANDARD`. -/
structure Base64 where
  encode : Bytes → String
  decode : String → Except DecodeError Bytes

/-- What `get_secure_random_bytes` returns: 32 bytes. -/
abbrev RandomBytes := { bs : Bytes // bs.length = 32 }

/-- `PRIME`. -/
def PRIME : Nat :=
  21888242871839275222246405745257275088696311157297823662689037894645226208583

theorem PRIME_pos : 0 < PRIME := by decide

/-! ## Keys -/

/-- Create a new ElGamal private key from a given private key. -/
def PrivateKey.from (privateKey : Nat) : PrivateKey :=
  let prime := PRIME
  let privateKey := privateKey % prime
  let generator := 2
  let publicExponent := modpow generator privateKey prime
  { privateKey
    publicKey := { prime, generator, publicExponent } }

/-- `PrivateKey::generate` on the bytes it draws, which it reads big-endian. -/
def PrivateKey.generate (random : RandomBytes) : PrivateKey :=
  PrivateKey.from (leValue random.val.reverse)

/-- Export the private key as a base64-encoded string. -/
def PrivateKey.getEncodedPrivateKey (base64 : Base64) (k : PrivateKey) : String :=
  base64.encode (toBytesLe k.privateKey)

/-- `TryFrom<&str> for PrivateKey`. -/
def PrivateKey.tryFrom (base64 : Base64) (value : String) : Except CryptoError PrivateKey :=
  match base64.decode value with
  | .error e => .error (.base64Decoding e)
  | .ok decodedKey => .ok (PrivateKey.from (leValue decodedKey))

/-- Export the public key as a base64-encoded string. -/
def PublicKey.getEncodedPublicKey (base64 : Base64) (pk : PublicKey) : String :=
  base64.encode (toBytesLe pk.publicExponent)

/-! ## Encryption and decryption of a number -/

/-- Encrypt a message using ElGamal encryption. -/
def PublicKey.encrypt (pk : PublicKey) (message : Nat) (random : RandomBytes) :
    Except CryptoError Ciphertext :=
  if message ≥ pk.prime then
    .error .invalidCiphertext
  else
    let y := leValue random.val.reverse % (pk.prime - 1)
    -- Compute c1 = g^y mod p
    let c1 := modpow pk.generator y pk.prime
    -- Compute s = h^y mod p
    let s := modpow pk.publicExponent y pk.prime
    -- Compute c2 = m * s mod p
    let c2 := message * s % pk.prime
    .ok { c1, c2 }

/-- Decrypt an ElGamal ciphertext. -/
def PrivateKey.decrypt (k : PrivateKey) (ciphertext : Ciphertext) : Except CryptoError Nat :=
  -- Compute s = c1^x mod p
  let s := modpow ciphertext.c1 k.privateKey k.publicKey.prime
  match modinv s k.publicKey.prime with
  | none => .error .invalidCiphertext
  | some sInv => .ok (ciphertext.c2 * sInv % k.publicKey.prime)

@[simp] theorem PrivateKey.from_prime (n : Nat) : (PrivateKey.from n).publicKey.prime = PRIME := rfl

@[simp] theorem PrivateKey.from_generator (n : Nat) :
    (PrivateKey.from n).publicKey.generator = 2 := rfl

@[simp] theorem PrivateKey.from_privateKey (n : Nat) :
    (PrivateKey.from n).privateKey = n % PRIME := rfl

@[simp] theorem PrivateKey.from_publicExponent (n : Nat) :
    (PrivateKey.from n).publicKey.publicExponent = 2 ^ (n % PRIME) % PRIME :=
  modpow_eq PRIME_pos 2 (n % PRIME)

/-- A ciphertext that encryption produced holds two residues. -/
theorem PublicKey.encrypt_lt {pk : PublicKey} (hp : 0 < pk.prime) {m : Nat} {r : RandomBytes}
    {ct : Ciphertext} (h : pk.encrypt m r = .ok ct) : ct.c1 < pk.prime ∧ ct.c2 < pk.prime := by
  unfold PublicKey.encrypt at h
  split at h
  · cases h
  · obtain rfl := Except.ok.inj h
    exact ⟨modpow_lt hp _ _, Nat.mod_lt _ hp⟩

/-! ## Decryption undoes encryption -/

theorem coprime_two_pow_PRIME (k : Nat) : Nat.Coprime (2 ^ k % PRIME) PRIME := by
  have h2 : Nat.Coprime 2 PRIME := by decide
  have hpow : Nat.gcd (2 ^ k) PRIME = 1 := h2.pow_left k
  rw [Nat.Coprime, ← Nat.gcd_rec, Nat.gcd_comm]
  exact hpow

/-- The exponent of an encryption under a key from `PrivateKey::from`: the drawn bytes are read
    big-endian. -/
def ephemeralExponent (random : RandomBytes) : Nat := leValue random.val.reverse % (PRIME - 1)

/-- The ciphertext of a message below `PRIME`. -/
theorem PublicKey.encrypt_from (n : Nat) {m : Nat} (hm : m < PRIME) (r : RandomBytes) :
    (PrivateKey.from n).publicKey.encrypt m r = .ok
      { c1 := 2 ^ ephemeralExponent r % PRIME
        c2 := m * ((2 ^ (n % PRIME) % PRIME) ^ ephemeralExponent r % PRIME) % PRIME } := by
  rw [PublicKey.encrypt, if_neg (by rw [PrivateKey.from_prime]; omega)]
  simp only [PrivateKey.from_prime, PrivateKey.from_generator, PrivateKey.from_publicExponent,
    modpow_eq PRIME_pos]
  rfl

/-- What a key's public key encrypts, the key decrypts. -/
theorem PrivateKey.decrypt_encrypt (n m : Nat) (r : RandomBytes) (hm : m < PRIME) :
    ∃ ct, (PrivateKey.from n).publicKey.encrypt m r = .ok ct ∧
      (PrivateKey.from n).decrypt ct = .ok m := by
  let x := n % PRIME
  let y := ephemeralExponent r
  refine ⟨⟨2 ^ y % PRIME, m * ((2 ^ x % PRIME) ^ y % PRIME) % PRIME⟩,
    PublicKey.encrypt_from n hm r, ?_⟩
  -- the shared secret `s` is a power of two, so it has an inverse
  have hs : modpow (2 ^ y % PRIME) x PRIME = 2 ^ (y * x) % PRIME := by
    rw [modpow_eq PRIME_pos, Nat.pow_mul, ← Nat.pow_mod]
  obtain ⟨i, hi⟩ := Option.isSome_iff_exists.1
    ((modinv_isSome_iff _ _).2 (coprime_two_pow_PRIME (y * x)))
  have hunit := modinv_mul_modEq PRIME_pos hi
  have hmask : (2 ^ x % PRIME) ^ y % PRIME ≡ 2 ^ (y * x) % PRIME [MOD PRIME] := by
    rw [Nat.mul_comm, Nat.pow_mul, ← Nat.pow_mod]
  have hm' : m * ((2 ^ x % PRIME) ^ y % PRIME) % PRIME * i ≡ m [MOD PRIME] := by
    calc m * ((2 ^ x % PRIME) ^ y % PRIME) % PRIME * i
        ≡ m * (2 ^ (y * x) % PRIME) * i [MOD PRIME] :=
          ((Nat.mod_modEq _ _).trans (hmask.mul_left m)).mul_right i
      _ = m * (2 ^ (y * x) % PRIME * i) := Nat.mul_assoc _ _ _
      _ ≡ m * 1 [MOD PRIME] := hunit.mul_left m
      _ = m := Nat.mul_one m
  rw [PrivateKey.decrypt]
  simp only [PrivateKey.from_prime, PrivateKey.from_privateKey]
  rw [show modpow (2 ^ y % PRIME) (n % PRIME) PRIME = 2 ^ (y * x) % PRIME from hs, hi]
  exact congrArg Except.ok (Eq.trans hm' (Nat.mod_eq_of_lt hm))

/-- What a key decrypts at all, it decrypts with an inverse of the shared secret. -/
theorem PrivateKey.modinv_isSome_of_decrypt {k : PrivateKey} {ct : Ciphertext} {m : Nat}
    (h : k.decrypt ct = .ok m) :
    (modinv (modpow ct.c1 k.privateKey k.publicKey.prime) k.publicKey.prime).isSome := by
  rw [PrivateKey.decrypt] at h
  cases hinv : modinv (modpow ct.c1 k.privateKey k.publicKey.prime) k.publicKey.prime with
  | none =>
      rw [hinv] at h
      cases h
  | some sInv => rfl

/-- **ElGamal correctness over the whole message space.** A message from `PRIME` on is refused.
    Any other, zero included, is encrypted, and decryption finds its inverse and the message. -/
theorem elgamal_correct (n m : Nat) (r : RandomBytes) :
    (PRIME ≤ m → (PrivateKey.from n).publicKey.encrypt m r = .error .invalidCiphertext) ∧
    (m < PRIME → ∃ ct, (PrivateKey.from n).publicKey.encrypt m r = .ok ct ∧
      (modinv (modpow ct.c1 (PrivateKey.from n).privateKey PRIME) PRIME).isSome ∧
      (PrivateKey.from n).decrypt ct = .ok m) := by
  constructor
  · intro hm
    rw [PublicKey.encrypt, if_pos (by rw [PrivateKey.from_prime]; exact hm)]
  · intro hm
    obtain ⟨ct, henc, hdec⟩ := PrivateKey.decrypt_encrypt n m r hm
    exact ⟨ct, henc, PrivateKey.modinv_isSome_of_decrypt hdec, hdec⟩

/-- The message zero under the key 5, and the message `PRIME`. -/
theorem elgamal_correct_sample :
    (∃ ct, (PrivateKey.from 5).publicKey.encrypt 0 ⟨List.replicate 32 7, rfl⟩ = .ok ct ∧
      (PrivateKey.from 5).decrypt ct = .ok 0) ∧
    (PrivateKey.from 5).publicKey.encrypt PRIME ⟨List.replicate 32 7, rfl⟩
      = .error .invalidCiphertext := by
  obtain ⟨ct, henc, -, hdec⟩ :=
    (elgamal_correct 5 0 ⟨List.replicate 32 7, rfl⟩).2 PRIME_pos
  exact ⟨⟨ct, henc, hdec⟩, (elgamal_correct 5 PRIME ⟨List.replicate 32 7, rfl⟩).1 le_rfl⟩

end DaConcept.Crypto
