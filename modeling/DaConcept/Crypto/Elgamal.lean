import DaConcept.Lib.Outcome
import DaConcept.Lib.Utf8
import DaConcept.Crypto.Keypair

set_option autoImplicit false

/-! # String encryption (`crypto/src/elgamal.rs`)

`encrypt` packs the input into 32-bit chunks, four bytes each, encrypts every chunk and writes the
ciphertexts out with their lengths; `decrypt` reads them back. Indexing, slicing and `unwrap` are
those of `Outcome`, so a panic of the code is a panic of the model. A `usize` has 64 bits, so no
offset overflows and offsets are natural numbers. `parse` is given all the memory it asks for;
`parseAllocating` says what an allocator that refuses makes of it. -/

namespace DaConcept.Crypto

/-! ## Encryption -/

/-- One chunk of at most four bytes as a 32-bit word. -/
def packChunk (chunk : Bytes) : UInt32 :=
  chunk.zipIdx.foldl (fun value (byte, i) => value ||| byte.toUInt32 <<< UInt32.ofNat (i * 8)) 0

/-- Encrypt the chunks in order; the `i`-th encryption draws the bytes `draw i`. -/
def encryptChunks {ε : Type} (pk : PublicKey) (draw : Nat → RandomBytes) :
    Nat → List UInt32 → Outcome ε (List Ciphertext)
  | _, [] => .ok []
  | i, chunk :: chunks => do
      let ciphertext ← Outcome.unwrap (pk.encrypt chunk.toNat (draw i))
      let rest ← encryptChunks pk draw (i + 1) chunks
      pure (ciphertext :: rest)

/-- A byte string with its length in front. -/
def lengthPrefixed (bs : Bytes) : Bytes := u32ToLeBytes (UInt32.ofNat bs.length) ++ bs

/-- The bytes one ciphertext is stored as. -/
def storeCiphertext (ct : Ciphertext) : Bytes :=
  lengthPrefixed (toBytesLe ct.c1) ++ lengthPrefixed (toBytesLe ct.c2)

/-- The count of the ciphertexts and then each of them. -/
def serialize (cts : List Ciphertext) : Bytes :=
  u32ToLeBytes (UInt32.ofNat cts.length) ++ cts.flatMap storeCiphertext

/-- Encrypt a string using ElGamal encryption. It returns no error. -/
def encrypt {ε : Type} (input : Bytes) (privateKey : PrivateKey) (draw : Nat → RandomBytes) :
    Outcome ε Bytes := do
  let chunks := (chunks4 input).map packChunk
  let ciphertexts ← encryptChunks privateKey.publicKey draw 0 chunks
  pure (serialize ciphertexts)

/-! ## Decryption -/

/-- `u32::from_le_bytes` of the four bytes at an offset. -/
def readU32 {ε : Type} (data : Bytes) (offset : Nat) : Outcome ε Nat := do
  let a ← Outcome.index data offset
  let b ← Outcome.index data (offset + 1)
  let c ← Outcome.index data (offset + 2)
  let d ← Outcome.index data (offset + 3)
  pure (u32FromLeBytes a b c d).toNat

/-- Read `count` ciphertexts from `offset` on, after those in `ciphertexts`. -/
def readCiphertexts (data : Bytes) :
    Nat → Nat → List Ciphertext → Outcome CryptoError (List Ciphertext)
  | 0, _, ciphertexts => .ok ciphertexts
  | count + 1, offset, ciphertexts =>
      if offset + 8 > data.length then .err .invalidCiphertext else do
      let c1Len ← readU32 data offset
      let offset := offset + 4
      if offset + c1Len + 4 > data.length then .err .invalidCiphertext else do
      let c1Bytes ← Outcome.slice data offset (offset + c1Len)
      let c1 := leValue c1Bytes
      let offset := offset + c1Len
      -- Read c2 length and bytes
      let c2Len ← readU32 data offset
      let offset := offset + 4
      if offset + c2Len > data.length then .err .invalidCiphertext else do
      let c2Bytes ← Outcome.slice data offset (offset + c2Len)
      let c2 := leValue c2Bytes
      let offset := offset + c2Len
      readCiphertexts data count offset (ciphertexts ++ [{ c1, c2 }])

/-- The ciphertexts a byte vector holds: the part of `decrypt` before any arithmetic. -/
def parse (data : Bytes) : Outcome CryptoError (List Ciphertext) :=
  if data.length < 4 then .err .invalidCiphertext else do
  let count ← readU32 data 0
  readCiphertexts data count 4 []

/-- For how many ciphertexts the allocator has memory; an empty vector takes none. -/
structure Allocator where
  grants : Nat → Bool
  grants_zero : grants 0 = true

/-- `parse` with the `Vec::with_capacity(count)` that comes before the loop, the one request for
    memory that the length of the data does not bound: where the allocator refuses it the process
    aborts, and there is no outcome. -/
def parseAllocating (allocator : Allocator) (data : Bytes) :
    Option (Outcome CryptoError (List Ciphertext)) :=
  if data.length < 4 then some (.err .invalidCiphertext) else
  match (readU32 data 0 : Outcome CryptoError Nat) with
  | .ok count => if allocator.grants count then some (readCiphertexts data count 4 []) else none
  | .err e => some (.err e)
  | .panic => some .panic

/-- `BigUint::to_u32_digits`: least significant first, none for zero. -/
def toU32Digits (n : Nat) : List UInt32 := (Nat.digits (2 ^ 32) n).map UInt32.ofNat

/-- A call of `PrivateKey::decrypt`. On a zero modulus `modpow` panics. -/
def PrivateKey.callDecrypt (k : PrivateKey) (ciphertext : Ciphertext) : Outcome CryptoError Nat :=
  if k.publicKey.prime = 0 then .panic else .ofExcept (k.decrypt ciphertext)

theorem PrivateKey.callDecrypt_from (n : Nat) (ct : Ciphertext) :
    (PrivateKey.from n).callDecrypt ct = .ofExcept ((PrivateKey.from n).decrypt ct) :=
  if_neg PRIME_pos.ne'

/-- Decrypt the ciphertexts in order, keeping the lowest digit of each number. -/
def decryptChunks (k : PrivateKey) : List Ciphertext → Outcome CryptoError (List UInt32)
  | [] => .ok []
  | ciphertext :: ciphertexts => do
      let m ← k.callDecrypt ciphertext
      let chunk ← Outcome.index (toU32Digits m) 0
      let rest ← decryptChunks k ciphertexts
      pure (chunk :: rest)

/-- The four bytes pushed for one chunk. -/
def unpackChunk (chunk : UInt32) : Bytes :=
  [(chunk &&& 0xFF).toUInt8, (chunk >>> 8 &&& 0xFF).toUInt8,
    (chunk >>> 16 &&& 0xFF).toUInt8, (chunk >>> 24 &&& 0xFF).toUInt8]

/-- `String::from_utf8`. -/
def fromUtf8 (bs : Bytes) : Except CryptoError String :=
  match String.fromUTF8? ⟨bs.toArray⟩ with
  | some s => .ok s
  | none => .error .decodeDecryptedMessage

/-- Decrypt a blob of encrypted data using ElGamal decryption. -/
def decrypt (data : Bytes) (privateKey : PrivateKey) : Outcome CryptoError String := do
  let ciphertexts ← parse data
  let chunks ← decryptChunks privateKey ciphertexts
  let bytes := chunks.flatMap unpackChunk
  -- Remove padding null bytes from the end
  Outcome.ofExcept (fromUtf8 (trimZeros bytes))

/-! ## Packing and unpacking a chunk -/

theorem toNat_foldl_pack (chunk : Bytes) : ∀ (i : Nat) (value : UInt32),
    value.toNat < 256 ^ i → i + chunk.length ≤ 4 →
    ((chunk.zipIdx i).foldl
      (fun value (byte, i) => value ||| byte.toUInt32 <<< UInt32.ofNat (i * 8)) value).toNat
      = value.toNat + 256 ^ i * leValue chunk := by
  induction chunk with
  | nil => intro i value hv hi; simp
  | cons byte rest ih =>
      intro i value hv hi
      rw [List.length_cons] at hi
      have hbyte := byte.toNat_lt
      have hstep := toNat_or_shiftLeft value byte i hv (by omega)
      have hlt : (value ||| byte.toUInt32 <<< UInt32.ofNat (i * 8)).toNat < 256 ^ (i + 1) := by
        have hmul : 256 ^ i * byte.toNat ≤ 256 ^ i * 255 := Nat.mul_le_mul_left _ (by omega)
        rw [hstep, Nat.pow_succ]
        omega
      rw [List.zipIdx_cons, List.foldl_cons, ih (i + 1) _ hlt (by omega), hstep, leValue_cons]
      ring

/-- A packed chunk is the number its bytes stand for. -/
theorem toNat_packChunk {chunk : Bytes} (h : chunk.length ≤ 4) :
    (packChunk chunk).toNat = leValue chunk := by
  have hfold := toNat_foldl_pack chunk 0 0 (by simp) (by omega)
  simpa [packChunk] using hfold

theorem leValue_unpackChunk (chunk : UInt32) : leValue (unpackChunk chunk) = chunk.toNat := by
  have hc := chunk.toNat_lt
  have hand (n : Nat) : n &&& 255 = n % 256 := Nat.and_two_pow_sub_one_eq_mod n 8
  simp [unpackChunk, hand, Nat.shiftRight_eq_div_pow]
  omega

/-- Unpacking gives the bytes of the chunk back, filled up with zeros. -/
theorem unpackChunk_packChunk {chunk : Bytes} (h : chunk.length ≤ 4) :
    unpackChunk (packChunk chunk) = padTo4 chunk := by
  refine eq_of_leValue_eq (by rw [padTo4_length h]; rfl) ?_
  rw [leValue_unpackChunk, toNat_packChunk h, leValue_padTo4]

/-! ## The parser reads what was stored -/

theorem readU32_append {ε : Type} (pre post : Bytes) (x : UInt32) :
    (readU32 (pre ++ (u32ToLeBytes x ++ post)) pre.length : Outcome ε Nat) = .ok x.toNat := by
  have hget (i : Nat) (hi : i < 4) :
      (Outcome.index (pre ++ (u32ToLeBytes x ++ post)) (pre.length + i) : Outcome ε UInt8)
        = Outcome.index (u32ToLeBytes x) i := Outcome.index_append hi
  rw [readU32, show pre.length = pre.length + 0 from rfl, hget 0 (by omega), hget 1 (by omega),
    hget 2 (by omega), hget 3 (by omega)]
  exact congrArg (fun y => Outcome.ok (UInt32.toNat y)) (u32FromLeBytes_u32ToLeBytes x)

theorem toNat_ofNat_length {bs : Bytes} (h : bs.length < 2 ^ 32) :
    (UInt32.ofNat bs.length).toNat = bs.length := by
  rw [UInt32.toNat_ofNat', Nat.mod_eq_of_lt h]

/-- One turn of the parse loop over a ciphertext stored as the byte strings `b1` and `b2`. -/
theorem readCiphertexts_frame (pre b1 b2 tail : Bytes) (h1 : b1.length < 2 ^ 32)
    (h2 : b2.length < 2 ^ 32) (n : Nat) (acc : List Ciphertext) :
    readCiphertexts (pre ++ (lengthPrefixed b1 ++ (lengthPrefixed b2 ++ tail))) (n + 1)
        pre.length acc
      = readCiphertexts (pre ++ (lengthPrefixed b1 ++ (lengthPrefixed b2 ++ tail))) n
        (pre.length + (4 + b1.length + (4 + b2.length)))
        (acc ++ [{ c1 := leValue b1, c2 := leValue b2 }]) := by
  let l1 := u32ToLeBytes (UInt32.ofNat b1.length)
  let l2 := u32ToLeBytes (UInt32.ofNat b2.length)
  have hdata : pre ++ (lengthPrefixed b1 ++ (lengthPrefixed b2 ++ tail))
      = pre ++ (l1 ++ (b1 ++ (l2 ++ (b2 ++ tail)))) := by
    simp [lengthPrefixed, l1, l2]
  have hl1 : (UInt32.ofNat b1.length).toNat = b1.length := toNat_ofNat_length h1
  have hl2 : (UInt32.ofNat b2.length).toNat = b2.length := toNat_ofNat_length h2
  have hlen1 : l1.length = 4 := rfl
  have hlen2 : l2.length = 4 := rfl
  -- what each of the four reads finds, with the data regrouped around it
  have hread1 := readU32_append (ε := CryptoError) pre (b1 ++ (l2 ++ (b2 ++ tail)))
    (UInt32.ofNat b1.length)
  have hslice1 := Outcome.slice_append (ε := CryptoError) (pre ++ l1) b1 (l2 ++ (b2 ++ tail))
  have hread2 := readU32_append (ε := CryptoError) (pre ++ l1 ++ b1) (b2 ++ tail)
    (UInt32.ofNat b2.length)
  have hslice2 := Outcome.slice_append (ε := CryptoError) (pre ++ l1 ++ b1 ++ l2) b2 tail
  simp only [List.append_assoc, List.length_append, hlen1, hlen2, hl1, hl2, Nat.add_assoc]
    at hread1 hslice1 hread2 hslice2
  rw [hdata, readCiphertexts, if_neg (by simp [hlen1, hlen2]; omega)]
  simp only [l1, l2, Nat.add_assoc] at hread1 hslice1 hread2 hslice2 ⊢
  rw [hread1, Outcome.ok_bind, if_neg (by simp), hslice1, Outcome.ok_bind, hread2,
    Outcome.ok_bind, if_neg (by simp), hslice2, Outcome.ok_bind]

end DaConcept.Crypto
