import DaConcept.Crypto.Grammar

set_option autoImplicit false

/-! # What decryption makes of an encrypted byte string

`decrypt_encrypt` gives the outcome of decrypting, with the same key, what `encrypt` wrote for any
byte string. Two steps of the code keep it from being the identity. A chunk of value zero has no
32-bit digits, so the code indexes an empty vector and panics. And the zeros that end the text are
taken for padding and dropped. `decrypt_encrypt_eq_ok_iff` draws the line for strings. -/

namespace DaConcept.Crypto

/-! ## Chunk by chunk -/

theorem uint32_lt_PRIME (chunk : UInt32) : chunk.toNat < PRIME :=
  lt_trans chunk.toNat_lt (by decide)

/-- `ct` is an encryption of `chunk` that `k` can read, with lengths that can be stored. -/
def Encrypts (k : PrivateKey) (chunk : UInt32) (ct : Ciphertext) : Prop :=
  k.decrypt ct = .ok chunk.toNat ∧ FitsLength ct.c1 ∧ FitsLength ct.c2

/-- Encrypting a list of chunks succeeds, and the key decrypts every ciphertext to its chunk. -/
theorem encryptChunks_ok {ε : Type} (n : Nat) (draw : Nat → RandomBytes) (chunks : List UInt32) :
    ∀ i, ∃ cts,
      (encryptChunks (PrivateKey.from n).publicKey draw i chunks : Outcome ε _) = .ok cts ∧
      List.Forall₂ (Encrypts (PrivateKey.from n)) chunks cts := by
  induction chunks with
  | nil => intro i; exact ⟨[], rfl, .nil⟩
  | cons chunk chunks ih =>
      intro i
      obtain ⟨cts, hcts, hall⟩ := ih (i + 1)
      obtain ⟨ct, hct, hdec⟩ :=
        PrivateKey.decrypt_encrypt n chunk.toNat (draw i) (uint32_lt_PRIME chunk)
      have hlt := PublicKey.encrypt_lt PRIME_pos hct
      refine ⟨ct :: cts, ?_, .cons ⟨hdec, ?_, ?_⟩ hall⟩
      · simp only [encryptChunks, hct, hcts, Outcome.unwrap_ok, Outcome.ok_bind, Outcome.pure_eq]
      · exact fitsLength_of_lt_PRIME hlt.1
      · exact fitsLength_of_lt_PRIME hlt.2

/-- A pair of residues, the first of them a power of the generator. -/
def GeneratorPair (ct : Ciphertext) : Prop := (∃ y, ct.c1 = 2 ^ y % PRIME) ∧ ct.c2 < PRIME

theorem PublicKey.exists_generatorPair (n : Nat) {m : Nat} (hm : m < PRIME) (r : RandomBytes) :
    ∃ ct, (PrivateKey.from n).publicKey.encrypt m r = .ok ct ∧ GeneratorPair ct :=
  ⟨_, PublicKey.encrypt_from n hm r, ⟨_, rfl⟩, Nat.mod_lt _ PRIME_pos⟩

/-- A list of chunks is encrypted to as many ciphertexts, whatever is drawn. -/
theorem encryptChunks_generatorPair {ε : Type} (n : Nat) (draw : Nat → RandomBytes)
    (chunks : List UInt32) :
    ∀ i, ∃ cts,
      (encryptChunks (PrivateKey.from n).publicKey draw i chunks : Outcome ε _) = .ok cts ∧
      cts.length = chunks.length ∧ ∀ ct ∈ cts, GeneratorPair ct := by
  induction chunks with
  | nil => intro i; exact ⟨[], rfl, rfl, fun ct hct => absurd hct List.not_mem_nil⟩
  | cons chunk chunks ih =>
      intro i
      obtain ⟨cts, hcts, hlen, hall⟩ := ih (i + 1)
      obtain ⟨ct, henc, hct⟩ :=
        PublicKey.exists_generatorPair n (uint32_lt_PRIME chunk) (draw i)
      refine ⟨ct :: cts, ?_, congrArg (· + 1) hlen, List.forall_mem_cons.2 ⟨hct, hall⟩⟩
      simp only [encryptChunks, henc, hcts, Outcome.unwrap_ok, Outcome.ok_bind, Outcome.pure_eq]

theorem GeneratorPair.fitsLength {ct : Ciphertext} (h : GeneratorPair ct) :
    FitsLength ct.c1 ∧ FitsLength ct.c2 := by
  obtain ⟨⟨y, hc1⟩, hc2⟩ := h
  exact ⟨fitsLength_of_lt_PRIME (hc1 ▸ Nat.mod_lt _ PRIME_pos), fitsLength_of_lt_PRIME hc2⟩

theorem fitsLength_of_encrypts {k : PrivateKey} {chunks : List UInt32} {cts : List Ciphertext}
    (h : List.Forall₂ (Encrypts k) chunks cts) :
    ∀ ct ∈ cts, FitsLength ct.c1 ∧ FitsLength ct.c2 := by
  induction h with
  | nil => simp
  | cons hct _ ih => exact List.forall_mem_cons.2 ⟨hct.2, ih⟩

theorem toU32Digits_zero : toU32Digits 0 = [] := by simp [toU32Digits]

theorem toU32Digits_toNat {chunk : UInt32} (h : chunk ≠ 0) :
    toU32Digits chunk.toNat = [chunk] := by
  have hne : chunk.toNat ≠ 0 := fun h0 => h (UInt32.toNat_inj.1 (by simpa using h0))
  have hlt : chunk.toNat < 2 ^ 32 := chunk.toNat_lt
  rw [toU32Digits, Nat.digits_of_lt _ _ hne hlt]
  simp

/-- Decrypting the chunks gives them back, and panics if one of them is zero. -/
theorem decryptChunks_eq (n : Nat) {chunks : List UInt32} {cts : List Ciphertext}
    (h : List.Forall₂ (Encrypts (PrivateKey.from n)) chunks cts) :
    decryptChunks (PrivateKey.from n) cts = if 0 ∈ chunks then .panic else .ok chunks := by
  induction h with
  | nil => rfl
  | @cons chunk ct chunks cts hct _ ih =>
      rw [decryptChunks, PrivateKey.callDecrypt_from, hct.1, Outcome.ofExcept_ok, Outcome.ok_bind]
      by_cases h0 : chunk = 0
      · simp [h0, toU32Digits_zero, Outcome.index]
      · have hmem : 0 ∈ chunk :: chunks ↔ 0 ∈ chunks := by
          simp [show (0 : UInt32) ≠ chunk from fun h => h0 h.symm]
        rw [toU32Digits_toNat h0, Outcome.index_eq_ok (by simp), Outcome.ok_bind, ih]
        by_cases hrest : 0 ∈ chunks
        · rw [if_pos hrest, if_pos (hmem.2 hrest), Outcome.panic_bind]
        · rw [if_neg hrest, if_neg (fun h => hrest (hmem.1 h))]
          rfl

theorem exists_zero_iff (k : PrivateKey) {chunks : List UInt32} {cts : List Ciphertext}
    (h : List.Forall₂ (Encrypts k) chunks cts) :
    (∃ ct ∈ cts, ∃ m, k.decrypt ct = .ok m ∧ toU32Digits m = []) ↔ 0 ∈ chunks := by
  induction h with
  | nil => simp
  | @cons chunk ct chunks cts hct _ ih =>
      have hhead : (∃ m, k.decrypt ct = .ok m ∧ toU32Digits m = []) ↔ 0 = chunk := by
        by_cases h0 : chunk = 0
        · simp [hct.1, h0, toU32Digits_zero]
        · simp [hct.1, toU32Digits_toNat h0, show (0 : UInt32) ≠ chunk from fun h => h0 h.symm]
      rw [List.exists_mem_cons_iff, hhead, ih, List.mem_cons]

/-! ## The whole byte string -/

/-- Some group of four bytes (the last one filled up with zeros) is all zero. -/
def HasZeroGroup (bs : Bytes) : Prop := ∃ group ∈ chunks4 bs, ∀ byte ∈ group, byte = 0

instance (bs : Bytes) : Decidable (HasZeroGroup bs) :=
  inferInstanceAs (Decidable (∃ group ∈ chunks4 bs, ∀ byte ∈ group, byte = 0))

theorem zero_mem_packChunk_iff (bs : Bytes) :
    0 ∈ (chunks4 bs).map packChunk ↔ HasZeroGroup bs := by
  have hzero (group : Bytes) (hg : group ∈ chunks4 bs) :
      packChunk group = 0 ↔ ∀ byte ∈ group, byte = 0 := by
    rw [← leValue_eq_zero_iff, ← toNat_packChunk (chunks4_length_le bs group hg),
      ← UInt32.toNat_inj]
    simp
  rw [List.mem_map]
  constructor
  · rintro ⟨group, hg, hpack⟩
    exact ⟨group, hg, (hzero group hg).1 hpack⟩
  · rintro ⟨group, hg, hall⟩
    exact ⟨group, hg, (hzero group hg).2 hall⟩

/-- Unpacking the packed chunks gives the string back, up to zeros at its end. -/
theorem trimZeros_flatMap_unpackChunk (bs : Bytes) :
    trimZeros (((chunks4 bs).map packChunk).flatMap unpackChunk) = trimZeros bs := by
  obtain ⟨k, hk⟩ := flatMap_padTo4_chunks4 bs
  have hunpack : ((chunks4 bs).map packChunk).flatMap unpackChunk
      = (chunks4 bs).flatMap padTo4 := by
    rw [List.flatMap_map, List.flatMap_congr]
    intro group hg
    exact unpackChunk_packChunk (chunks4_length_le bs group hg)
  rw [hunpack, hk, trimZeros_append_replicate]

/-- What `encrypt` writes for any byte string: a pair of residues for each chunk. -/
theorem encrypt_generatorPair {ε : Type} (n : Nat) (bs : Bytes) (draw : Nat → RandomBytes) :
    ∃ cts, (encrypt bs (PrivateKey.from n) draw : Outcome ε Bytes) = .ok (serialize cts) ∧
      cts.length = (chunks4 bs).length ∧ ∀ ct ∈ cts, GeneratorPair ct := by
  obtain ⟨cts, hcts, hlen, hall⟩ := encryptChunks_generatorPair (ε := ε) n draw
    ((chunks4 bs).map packChunk) 0
  refine ⟨cts, ?_, by rw [hlen, List.length_map], hall⟩
  rw [encrypt, hcts, Outcome.ok_bind, Outcome.pure_eq]

/-- What `encrypt` writes: ciphertexts of the chunks, which can be parsed again. -/
theorem encrypt_eq_serialize (n : Nat) (bs : Bytes) (draw : Nat → RandomBytes)
    (hcount : (chunks4 bs).length < 2 ^ 32) :
    ∃ cts, (encrypt bs (PrivateKey.from n) draw : Outcome CryptoError Bytes)
        = .ok (serialize cts) ∧
      List.Forall₂ (Encrypts (PrivateKey.from n)) ((chunks4 bs).map packChunk) cts ∧
      parse (serialize cts) = .ok cts := by
  obtain ⟨cts, hcts, hall⟩ := encryptChunks_ok (ε := CryptoError) n draw
    ((chunks4 bs).map packChunk) 0
  have hlen : cts.length = (chunks4 bs).length := by
    rw [← hall.length_eq, List.length_map]
  refine ⟨cts, ?_, hall, parse_serialize cts (by omega) (fitsLength_of_encrypts hall)⟩
  rw [encrypt, hcts, Outcome.ok_bind, Outcome.pure_eq]

/-- **Decryption after encryption.** It panics exactly on the byte strings with a zero group, and
    otherwise decodes the byte string without its trailing zeros. -/
theorem decrypt_encrypt (n : Nat) (bs : Bytes) (draw : Nat → RandomBytes)
    (hcount : (chunks4 bs).length < 2 ^ 32) :
    (encrypt bs (PrivateKey.from n) draw >>= fun data => decrypt data (PrivateKey.from n))
      = if HasZeroGroup bs then .panic else .ofExcept (fromUtf8 (trimZeros bs)) := by
  obtain ⟨cts, henc, hall, hparse⟩ := encrypt_eq_serialize n bs draw hcount
  rw [henc, Outcome.ok_bind, decrypt, hparse, Outcome.ok_bind, decryptChunks_eq _ hall]
  by_cases hzero : HasZeroGroup bs
  · rw [if_pos hzero, if_pos ((zero_mem_packChunk_iff bs).2 hzero), Outcome.panic_bind]
  · rw [if_neg hzero, if_neg (fun h => hzero ((zero_mem_packChunk_iff bs).1 h)),
      Outcome.ok_bind]
    exact congrArg (fun bs => Outcome.ofExcept (fromUtf8 bs)) (trimZeros_flatMap_unpackChunk bs)

/-! ## Strings -/

theorem fromUtf8_eq_ok_iff (bs : Bytes) (s : String) : fromUtf8 bs = .ok s ↔ bs = utf8 s := by
  rw [utf8_eq_iff, fromUtf8, String.fromUTF8?]
  by_cases hvalid : (⟨bs.toArray⟩ : ByteArray).IsValidUTF8
  · rw [dif_pos hvalid]
    constructor
    · intro h
      rw [← Except.ok.inj h]
      rfl
    · intro h
      exact congrArg Except.ok (String.toByteArray_inj.1 h.symm)
  · rw [dif_neg hvalid]
    constructor
    · intro h
      cases h
    · intro h
      exact absurd (h ▸ s.isValidUTF8) hvalid

/-- What a byte string decodes to, string or error. -/
theorem fromUtf8_eq_error_iff (bs : Bytes) :
    fromUtf8 bs = .error .decodeDecryptedMessage ↔ ∀ s, utf8 s ≠ bs := by
  constructor
  · intro h s hs
    rw [(fromUtf8_eq_ok_iff bs s).2 hs.symm] at h
    cases h
  · intro h
    rw [fromUtf8]
    cases hdecode : String.fromUTF8? ⟨bs.toArray⟩ with
    | none => rfl
    | some s =>
        have hok : fromUtf8 bs = .ok s := by rw [fromUtf8, hdecode]
        exact absurd ((fromUtf8_eq_ok_iff bs s).1 hok).symm (h s)

/-- **Which strings survive.** Decryption gives an encrypted string back exactly when no group of
    four of its bytes is all zero and its last byte is not zero. -/
theorem decrypt_encrypt_eq_ok_iff (n : Nat) (s : String) (draw : Nat → RandomBytes)
    (hcount : (chunks4 (utf8 s)).length < 2 ^ 32) :
    (encrypt (utf8 s) (PrivateKey.from n) draw >>= fun data => decrypt data (PrivateKey.from n))
        = .ok s
      ↔ ¬ HasZeroGroup (utf8 s) ∧ (utf8 s).getLast? ≠ some 0 := by
  rw [decrypt_encrypt n _ draw hcount]
  by_cases hzero : HasZeroGroup (utf8 s)
  · simp [hzero]
  · have hdecode : (Outcome.ofExcept (fromUtf8 (trimZeros (utf8 s))) : Outcome CryptoError String)
        = .ok s ↔ fromUtf8 (trimZeros (utf8 s)) = .ok s := by
      cases fromUtf8 (trimZeros (utf8 s)) <;> simp
    rw [if_neg hzero, hdecode, fromUtf8_eq_ok_iff, trimZeros_eq_self_iff]
    simp [hzero]

/-- 32 bytes, all of them seven. -/
def sevens : RandomBytes := ⟨List.replicate 32 7, rfl⟩

theorem decrypt_encrypt_hello :
    (encrypt (utf8 "hello") (PrivateKey.from 5) (fun _ => sevens)
      >>= fun data => decrypt data (PrivateKey.from 5)) = .ok "hello" :=
  (decrypt_encrypt_eq_ok_iff 5 "hello" (fun _ => sevens) (by decide +kernel)).2 (by decide +kernel)

/-- The one-character string NUL is not recovered: its only chunk is zero. -/
theorem decrypt_encrypt_nul_ne :
    (encrypt (utf8 "\x00") (PrivateKey.from 5) (fun _ => sevens)
      >>= fun data => decrypt data (PrivateKey.from 5)) ≠ .ok "\x00" := by
  rw [decrypt_encrypt 5 _ _ (by decide +kernel), if_pos (by decide +kernel)]
  exact fun h => nomatch h

/-- **Every byte string.** Encryption succeeds and what it writes is parsed. Decryption panics,
    at the digits of a zero, exactly on the byte strings with a zero group; otherwise it gives the
    byte string without its trailing zeros as a string, or the error if that is not UTF-8. -/
theorem decrypt_encrypt_outcome (n : Nat) (bs : Bytes) (draw : Nat → RandomBytes)
    (hlen : bs.length ≤ 4 * (2 ^ 32 - 1)) :
    ∃ data cts,
      (encrypt bs (PrivateKey.from n) draw : Outcome CryptoError Bytes) = .ok data ∧
      parse data = .ok cts ∧
      ((∃ ct ∈ cts, ∃ m, (PrivateKey.from n).decrypt ct = .ok m ∧ toU32Digits m = []) ↔
        HasZeroGroup bs) ∧
      (decrypt data (PrivateKey.from n) = .panic ↔ HasZeroGroup bs) ∧
      (¬ HasZeroGroup bs →
        (∀ t, utf8 t = trimZeros bs → decrypt data (PrivateKey.from n) = .ok t) ∧
        ((∀ t, utf8 t ≠ trimZeros bs) →
          decrypt data (PrivateKey.from n) = .err .decodeDecryptedMessage)) := by
  have hchunks := chunks4_length bs
  have hcount : (chunks4 bs).length < 2 ^ 32 := by omega
  obtain ⟨cts, henc, hall, hparse⟩ := encrypt_eq_serialize n bs draw hcount
  have hdec := decrypt_encrypt n bs draw hcount
  rw [henc, Outcome.ok_bind] at hdec
  refine ⟨serialize cts, cts, henc, hparse,
    (exists_zero_iff _ hall).trans (zero_mem_packChunk_iff bs), ?_, ?_⟩
  · rw [hdec]
    by_cases hzero : HasZeroGroup bs
    · simp [hzero]
    · cases fromUtf8 (trimZeros bs) <;> simp [hzero]
  · intro hzero
    rw [hdec, if_neg hzero]
    constructor
    · intro t ht
      rw [(fromUtf8_eq_ok_iff _ t).2 ht.symm, Outcome.ofExcept_ok]
    · intro hnone
      rw [(fromUtf8_eq_error_iff _).2 hnone, Outcome.ofExcept_error]

/-- The byte string 0xFF is no text. -/
theorem decrypt_encrypt_outcome_sample :
    ∃ data, (encrypt [255] (PrivateKey.from 5) (fun _ => sevens) : Outcome CryptoError Bytes)
        = .ok data ∧
      decrypt data (PrivateKey.from 5) ≠ .panic := by
  obtain ⟨data, cts, henc, -, -, hpanic, -⟩ :=
    decrypt_encrypt_outcome 5 [255] (fun _ => sevens) (by decide)
  have hgroup : ¬ HasZeroGroup [255] := by decide +kernel
  exact ⟨data, henc, fun h => hgroup (hpanic.1 h)⟩

end DaConcept.Crypto
