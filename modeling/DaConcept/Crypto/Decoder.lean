import DaConcept.Crypto.RoundTrip

set_option autoImplicit false

/-! # What decryption makes of any bytes

`decrypt` on data that nothing is known about. Its parser reads within bounds, so the only panic
left is the one at the digits of a decrypted zero (`decrypt_eq_panic_iff`). And a string that it
returns need not be one that encryption could have stored: the parser stops after the last frame,
and of a number only the lowest 32-bit digit is kept (`decrypt_sound_iff`). -/

namespace DaConcept.Crypto

/-! ## One ciphertext -/

/-- The shared secret of `ct` under `k` is a unit modulo the key's prime. -/
def Opens (k : PrivateKey) (ct : Ciphertext) : Prop :=
  Nat.Coprime (ct.c1 ^ k.privateKey) k.publicKey.prime

theorem decrypt_of_modinv {k : PrivateKey} {ct : Ciphertext} {i : Nat}
    (h : modinv (modpow ct.c1 k.privateKey k.publicKey.prime) k.publicKey.prime = some i) :
    k.decrypt ct = .ok (ct.c2 * i % k.publicKey.prime) := by
  rw [PrivateKey.decrypt, h]

theorem modinv_modpow_isSome_iff {k : PrivateKey} (hp : 0 < k.publicKey.prime)
    (ct : Ciphertext) :
    (modinv (modpow ct.c1 k.privateKey k.publicKey.prime) k.publicKey.prime).isSome ↔
      Opens k ct := by
  rw [modinv_isSome_iff, modpow_eq hp, Opens, Nat.Coprime, Nat.Coprime, ← Nat.gcd_rec,
    Nat.gcd_comm]

/-- A ciphertext is decrypted when its shared secret has an inverse. -/
theorem decrypt_isOk_iff {k : PrivateKey} (hp : 0 < k.publicKey.prime) (ct : Ciphertext) :
    (∃ m, k.decrypt ct = .ok m) ↔ Opens k ct := by
  rw [← modinv_modpow_isSome_iff hp]
  constructor
  · rintro ⟨m, hm⟩
    exact PrivateKey.modinv_isSome_of_decrypt hm
  · intro hinv
    obtain ⟨i, hi⟩ := Option.isSome_iff_exists.1 hinv
    exact ⟨_, decrypt_of_modinv hi⟩

/-- It is decrypted to zero when, besides, the prime divides its second number. -/
theorem decrypt_eq_zero_iff {k : PrivateKey} (hp : 0 < k.publicKey.prime) (ct : Ciphertext) :
    k.decrypt ct = .ok 0 ↔ Opens k ct ∧ k.publicKey.prime ∣ ct.c2 := by
  by_cases hopen : Opens k ct
  · obtain ⟨i, hi⟩ := Option.isSome_iff_exists.1 ((modinv_modpow_isSome_iff hp ct).2 hopen)
    -- the inverse is a unit as well, so only `c2` can make the product vanish
    have hunit : Nat.Coprime (modpow ct.c1 k.privateKey k.publicKey.prime * i)
        k.publicKey.prime := by
      rw [Nat.Coprime, (modinv_mul_modEq hp hi).gcd_eq, Nat.gcd_one_left]
    have hi_unit : Nat.Coprime k.publicKey.prime i :=
      (Nat.Coprime.coprime_mul_left hunit).symm
    rw [decrypt_of_modinv hi, Except.ok.injEq, ← Nat.dvd_iff_mod_eq_zero]
    constructor
    · intro h
      exact ⟨hopen, hi_unit.dvd_of_dvd_mul_right h⟩
    · intro h
      exact h.2.mul_right i
  · constructor
    · intro h
      exact absurd ((decrypt_isOk_iff hp ct).1 ⟨0, h⟩) hopen
    · intro h
      exact absurd h.1 hopen

theorem callDecrypt_eq_ok_iff {k : PrivateKey} {ct : Ciphertext} {m : Nat} :
    k.callDecrypt ct = .ok m ↔ k.publicKey.prime ≠ 0 ∧ k.decrypt ct = .ok m := by
  rw [PrivateKey.callDecrypt]
  by_cases hp : k.publicKey.prime = 0
  · simp [hp]
  · cases k.decrypt ct <;> simp [hp]

theorem callDecrypt_eq_panic_iff {k : PrivateKey} {ct : Ciphertext} :
    k.callDecrypt ct = .panic ↔ k.publicKey.prime = 0 := by
  rw [PrivateKey.callDecrypt]
  by_cases hp : k.publicKey.prime = 0
  · simp [hp]
  · cases k.decrypt ct <;> simp [hp]

/-! ## The lowest digit -/

theorem index_toU32Digits_zero :
    (Outcome.index (toU32Digits 0) 0 : Outcome CryptoError UInt32) = .panic := by
  rw [toU32Digits_zero]
  rfl

/-- The first digit of a number that is not zero is its low word. -/
theorem index_toU32Digits {m : Nat} (hm : m ≠ 0) :
    (Outcome.index (toU32Digits m) 0 : Outcome CryptoError UInt32) = .ok (UInt32.ofNat m) := by
  have hdigits : Nat.digits (2 ^ 32) m = m % 2 ^ 32 :: Nat.digits (2 ^ 32) (m / 2 ^ 32) :=
    Nat.digits_eq_cons_digits_div (by omega) hm
  have hword : UInt32.ofNat (m % 2 ^ 32) = UInt32.ofNat m :=
    UInt32.toNat_inj.1 (by rw [UInt32.toNat_ofNat', UInt32.toNat_ofNat', Nat.mod_mod])
  rw [toU32Digits, hdigits, List.map_cons, hword]
  rfl

/-! ## All ciphertexts -/

/-- Ciphertexts yield chunks when each decrypts to a number that is not zero; the chunk is its
    low word. -/
theorem decryptChunks_eq_ok_iff (k : PrivateKey) (cts : List Ciphertext) :
    ∀ chunks, decryptChunks k cts = .ok chunks ↔
      ∃ ms, List.Forall₂ (fun ct m => k.callDecrypt ct = .ok m ∧ m ≠ 0) cts ms ∧
        chunks = ms.map UInt32.ofNat := by
  induction cts with
  | nil =>
      intro chunks
      constructor
      · intro h
        exact ⟨[], .nil, (Outcome.ok.inj h).symm⟩
      · rintro ⟨ms, hms, rfl⟩
        cases hms
        rfl
  | cons ct cts ih =>
      intro chunks
      simp only [decryptChunks, Outcome.bind_eq_ok, Outcome.pure_eq]
      constructor
      · rintro ⟨m, hm, chunk, hchunk, rest, hrest, h⟩
        obtain ⟨ms, hms, rfl⟩ := (ih rest).1 hrest
        have hne : m ≠ 0 := by
          intro h0
          rw [h0, index_toU32Digits_zero] at hchunk
          cases hchunk
        rw [index_toU32Digits hne] at hchunk
        refine ⟨m :: ms, .cons ⟨hm, hne⟩ hms, ?_⟩
        rw [List.map_cons, Outcome.ok.inj hchunk]
        exact (Outcome.ok.inj h).symm
      · rintro ⟨ms, hms, rfl⟩
        cases hms with
        | @cons _ m _ ms hm hms =>
            exact ⟨m, hm.1, _, index_toU32Digits hm.2, _, (ih _).2 ⟨ms, hms, rfl⟩, rfl⟩

/-- They make decryption panic when one that is reached has no digits, or the modulus is zero. -/
theorem decryptChunks_eq_panic_iff {k : PrivateKey} (hp : 0 < k.publicKey.prime)
    (cts : List Ciphertext) :
    decryptChunks k cts = .panic ↔ ∃ pre ct post, cts = pre ++ ct :: post ∧
      (∀ c ∈ pre ++ [ct], Opens k c) ∧ k.publicKey.prime ∣ ct.c2 := by
  induction cts with
  | nil => simp [decryptChunks]
  | cons ct cts ih =>
      -- the head decides unless it decrypts to a number that is not zero
      have hsplit : (∃ pre c post, ct :: cts = pre ++ c :: post ∧
          (∀ c' ∈ pre ++ [c], Opens k c') ∧ k.publicKey.prime ∣ c.c2) ↔
          Opens k ct ∧ (k.publicKey.prime ∣ ct.c2 ∨ ∃ pre c post, cts = pre ++ c :: post ∧
            (∀ c' ∈ pre ++ [c], Opens k c') ∧ k.publicKey.prime ∣ c.c2) := by
        constructor
        · rintro ⟨pre, c, post, heq, hall, hdvd⟩
          cases pre with
          | nil =>
              obtain ⟨rfl, -⟩ := List.cons.inj heq
              exact ⟨hall _ (by simp), Or.inl hdvd⟩
          | cons c0 pre =>
              obtain ⟨rfl, rfl⟩ := List.cons.inj heq
              rw [List.cons_append, List.forall_mem_cons] at hall
              exact ⟨hall.1, Or.inr ⟨pre, c, post, rfl, hall.2, hdvd⟩⟩
        · rintro ⟨hopen, hdvd | ⟨pre, c, post, rfl, hall, hdvd⟩⟩
          · exact ⟨[], ct, cts, rfl, by simpa using hopen, hdvd⟩
          · exact ⟨ct :: pre, c, post, rfl, List.forall_mem_cons.2 ⟨hopen, hall⟩, hdvd⟩
      rw [hsplit, ← ih, decryptChunks]
      by_cases hopen : Opens k ct
      · obtain ⟨m, hm⟩ := (decrypt_isOk_iff hp ct).2 hopen
        rw [callDecrypt_eq_ok_iff.2 ⟨hp.ne', hm⟩, Outcome.ok_bind]
        have hzero : m = 0 ↔ k.publicKey.prime ∣ ct.c2 := by
          have h := decrypt_eq_zero_iff hp ct
          rw [hm, Except.ok.injEq] at h
          rw [h]
          exact and_iff_right hopen
        by_cases h0 : m = 0
        · simp [h0, index_toU32Digits_zero, hopen, hzero.1 h0]
        · have hndvd : ¬ k.publicKey.prime ∣ ct.c2 := fun h => h0 (hzero.2 h)
          rw [index_toU32Digits h0, Outcome.ok_bind, Outcome.bind_eq_panic]
          simp [hopen, hndvd]
      · have hne : ∀ m, k.callDecrypt ct ≠ .ok m := fun m hm =>
          hopen ((decrypt_isOk_iff hp ct).1 ⟨m, (callDecrypt_eq_ok_iff.1 hm).2⟩)
        have hnp : k.callDecrypt ct ≠ .panic := fun h =>
          hp.ne' (callDecrypt_eq_panic_iff.1 h)
        simp [Outcome.bind_eq_panic, hne, hnp, hopen]

/-! ## Panics -/

theorem decryptChunks_of_prime_eq_zero {k : PrivateKey} (hp : k.publicKey.prime = 0)
    (cts : List Ciphertext) : decryptChunks k cts = .panic ↔ cts ≠ [] := by
  cases cts with
  | nil => simp [decryptChunks]
  | cons ct cts => simp [decryptChunks, callDecrypt_eq_panic_iff.2 hp]

/-- After parsing, the digits are the only place left to panic. -/
theorem decrypt_eq_panic_iff (data : Bytes) (k : PrivateKey) :
    decrypt data k = .panic ↔
      ∃ frames rest, Grammar data frames rest ∧
        decryptChunks k (frames.map Frame.ciphertext) = .panic := by
  have htail (chunks : List UInt32) :
      (Outcome.ofExcept (fromUtf8 (trimZeros (chunks.flatMap unpackChunk))) :
        Outcome CryptoError String) ≠ .panic := by
    cases fromUtf8 (trimZeros (chunks.flatMap unpackChunk)) <;> simp
  simp only [decrypt, Outcome.bind_eq_panic, parse_ne_panic, htail, false_or, and_false,
    exists_false, or_false]
  constructor
  · rintro ⟨cts, hparse, hpanic⟩
    obtain ⟨frames, rest, hg, rfl⟩ := (parse_eq_ok_iff data cts).1 hparse
    exact ⟨frames, rest, hg, hpanic⟩
  · rintro ⟨frames, rest, hg, hpanic⟩
    exact ⟨_, hg.parse_eq, hpanic⟩

/-- A frame whose number decrypts to zero, with every frame up to it decrypted. -/
theorem map_frame_split_iff {k : PrivateKey} {frames : List Frame} :
    (∃ pre ct post, frames.map Frame.ciphertext = pre ++ ct :: post ∧
      (∀ c ∈ pre ++ [ct], Opens k c) ∧ k.publicKey.prime ∣ ct.c2) ↔
    ∃ pre f post, frames = pre ++ f :: post ∧
      (∀ g ∈ pre ++ [f], Opens k g.ciphertext) ∧ k.publicKey.prime ∣ f.ciphertext.c2 := by
  constructor
  · rintro ⟨pre, ct, post, heq, hopen, hdvd⟩
    obtain ⟨pre', tail, rfl, rfl, htail⟩ := List.map_eq_append_iff.1 heq
    obtain ⟨f, post', rfl, rfl, rfl⟩ := List.map_eq_cons_iff.1 htail
    refine ⟨pre', f, post', rfl, fun g hg => hopen _ ?_, hdvd⟩
    have hmem := List.mem_map_of_mem (f := Frame.ciphertext) hg
    rwa [List.map_append] at hmem
  · rintro ⟨pre, f, post, rfl, hopen, hdvd⟩
    refine ⟨pre.map Frame.ciphertext, f.ciphertext, post.map Frame.ciphertext, by simp, ?_, hdvd⟩
    intro c hc
    have hc' : c ∈ (pre ++ [f]).map Frame.ciphertext := by simpa using hc
    obtain ⟨g, hg, rfl⟩ := List.mem_map.1 hc'
    exact hopen g hg

/-- **When decryption does not panic.** Parsing never does. Decryption does not exactly when the
    modulus is not zero (or there is no frame) and no frame whose second number the prime divides
    is reached, every frame up to it having a shared secret with an inverse. -/
theorem decrypt_ne_panic_iff (data : Bytes) (k : PrivateKey) :
    parse data ≠ .panic ∧
    (decrypt data k ≠ .panic ↔
      ∀ frames rest, Grammar data frames rest →
        (frames = [] ∨ 0 < k.publicKey.prime) ∧
        ∀ pre f post, frames = pre ++ f :: post →
          (∀ g ∈ pre ++ [f], Opens k g.ciphertext) → ¬ k.publicKey.prime ∣ f.ciphertext.c2) := by
  refine ⟨parse_ne_panic data, ?_⟩
  rw [Ne, decrypt_eq_panic_iff]
  push Not
  refine forall_congr' fun frames => forall_congr' fun rest => forall_congr' fun _ => ?_
  by_cases hp : k.publicKey.prime = 0
  · rw [Ne, decryptChunks_of_prime_eq_zero hp, Ne, List.map_eq_nil_iff, not_not]
    constructor
    · rintro rfl
      exact ⟨Or.inl rfl, fun pre f post h => by simp at h⟩
    · intro h
      exact h.1.resolve_right (by omega)
  · rw [Ne, decryptChunks_eq_panic_iff (Nat.pos_of_ne_zero hp), map_frame_split_iff]
    push Not
    constructor
    · intro h
      exact ⟨Or.inr (Nat.pos_of_ne_zero hp), h⟩
    · intro h
      exact h.2

/-- One frame with the numbers 1 and 0. -/
def zeroFrame : Frame := ⟨[1], [0], by decide, by decide⟩

/-- Fourteen bytes on which decryption panics. -/
theorem decrypt_panics :
    decrypt [1, 0, 0, 0, 1, 0, 0, 0, 1, 1, 0, 0, 0, 0] (PrivateKey.from 5) = .panic := by
  have hg : Grammar [1, 0, 0, 0, 1, 0, 0, 0, 1, 1, 0, 0, 0, 0] [zeroFrame] [] :=
    ⟨by decide, by decide⟩
  refine (decrypt_eq_panic_iff _ _).2 ⟨_, _, hg, ?_⟩
  refine (decryptChunks_eq_panic_iff PRIME_pos _).2 ⟨[], _, [], rfl, ?_, ?_⟩
  · intro c hc
    rw [List.nil_append, List.mem_singleton] at hc
    rw [hc, Opens, show zeroFrame.ciphertext.c1 = 1 from rfl, Nat.one_pow]
    exact Nat.coprime_one_left _
  · exact dvd_zero _

/-! ## Soundness -/

/-- `data` is exactly what encryption stores for some ciphertexts that `k` decrypts to the groups
    of four bytes of `s`. -/
def Sound (data : Bytes) (k : PrivateKey) (s : String) : Prop :=
  ∃ frames, Grammar data frames [] ∧ frames.length = ((utf8 s).length + 3) / 4 ∧
    List.Forall₂ (fun f group => k.decrypt f.ciphertext = .ok (packChunk group).toNat)
      frames (chunks4 (utf8 s))

/-- Chunks that are not zero can be told from the unpacked bytes without the trailing zeros. -/
theorem chunks4_trimZeros_flatMap {chunks : List UInt32} (h : ∀ chunk ∈ chunks, chunk ≠ 0) :
    (chunks4 (trimZeros (chunks.flatMap unpackChunk))).map packChunk = chunks := by
  induction chunks with
  | nil => rfl
  | cons chunk rest ih =>
      rw [List.forall_mem_cons] at h
      have hvalue : leValue (unpackChunk chunk) ≠ 0 := by
        rw [leValue_unpackChunk]
        exact fun h0 => h.1 (UInt32.toNat_inj.1 h0)
      cases rest with
      | nil =>
          -- the last chunk loses its own trailing zeros, and with them nothing of its value
          have hlen : (trimZeros (unpackChunk chunk)).length ≤ 4 :=
            (List.rdropWhile_prefix _ _).length_le
          have hpack : packChunk (trimZeros (unpackChunk chunk)) = chunk := by
            refine UInt32.toNat_inj.1 ?_
            rw [toNat_packChunk hlen, leValue_trimZeros, leValue_unpackChunk]
          rw [List.flatMap_cons, List.flatMap_nil, List.append_nil,
            chunks4_eq_singleton (fun h0 => hvalue ((trimZeros_eq_nil_iff _).1 h0)) hlen,
            List.map_cons, hpack, List.map_nil]
      | cons chunk' rest =>
          have hne : leValue ((chunk' :: rest).flatMap unpackChunk) ≠ 0 := by
            have h' : leValue (unpackChunk chunk') ≠ 0 := by
              rw [leValue_unpackChunk]
              exact fun h0 => h.2 chunk' List.mem_cons_self (UInt32.toNat_inj.1 h0)
            rw [List.flatMap_cons, leValue_append]
            omega
          have hfull : packChunk (unpackChunk chunk) = chunk := by
            refine UInt32.toNat_inj.1 ?_
            rw [toNat_packChunk le_rfl, leValue_unpackChunk]
          rw [List.flatMap_cons, trimZeros_append hne]
          show (chunks4 (unpackChunk chunk ++ _)).map packChunk = _
          rw [unpackChunk, List.cons_append, List.cons_append, List.cons_append, List.cons_append,
            List.nil_append, chunks4, List.map_cons, ih h.2]
          exact congrArg (· :: chunk' :: rest) hfull

/-- What a successful decryption is: the frames decrypt to numbers `ms`, none of them zero, and
    the string is made of their low words. -/
theorem decrypt_eq_ok_iff (data : Bytes) (k : PrivateKey) (s : String) :
    decrypt data k = .ok s ↔
      ∃ frames rest ms, Grammar data frames rest ∧
        List.Forall₂ (fun f m => k.callDecrypt f.ciphertext = .ok m ∧ m ≠ 0) frames ms ∧
        utf8 s = trimZeros ((ms.map UInt32.ofNat).flatMap unpackChunk) := by
  have hdecode (bs : Bytes) :
      (Outcome.ofExcept (fromUtf8 bs) : Outcome CryptoError String) = .ok s ↔ utf8 s = bs := by
    rw [eq_comm (a := utf8 s), ← fromUtf8_eq_ok_iff]
    cases fromUtf8 bs <;> simp
  simp only [decrypt, Outcome.bind_eq_ok, hdecode]
  constructor
  · rintro ⟨cts, hparse, chunks, hchunks, hs⟩
    obtain ⟨frames, rest, hg, rfl⟩ := (parse_eq_ok_iff data cts).1 hparse
    obtain ⟨ms, hms, rfl⟩ := (decryptChunks_eq_ok_iff k _ chunks).1 hchunks
    exact ⟨frames, rest, ms, hg, List.forall₂_map_left_iff.1 hms, hs⟩
  · rintro ⟨frames, rest, ms, hg, hms, hs⟩
    refine ⟨_, hg.parse_eq, _, (decryptChunks_eq_ok_iff k _ _).2 ⟨ms, ?_, rfl⟩, hs⟩
    exact List.forall₂_map_left_iff.2 hms

/-- The words of numbers below `2 ^ 32` are the groups of the string they spell. -/
theorem chunks4_utf8_of_lt {ms : List Nat} {s : String} (hne : ∀ m ∈ ms, m ≠ 0)
    (hlt : ∀ m ∈ ms, m < 2 ^ 32)
    (hs : utf8 s = trimZeros ((ms.map UInt32.ofNat).flatMap unpackChunk)) :
    (chunks4 (utf8 s)).map (fun group => (packChunk group).toNat) = ms := by
  have hword (m : Nat) (hm : m ∈ ms) : (UInt32.ofNat m).toNat = m := by
    rw [UInt32.toNat_ofNat', Nat.mod_eq_of_lt (hlt m hm)]
  have hchunks : (chunks4 (utf8 s)).map packChunk = ms.map UInt32.ofNat := by
    rw [hs]
    refine chunks4_trimZeros_flatMap fun chunk hchunk => ?_
    obtain ⟨m, hm, rfl⟩ := List.mem_map.1 hchunk
    intro h0
    have hm0 := hword m hm
    rw [h0] at hm0
    exact hne m hm hm0.symm
  calc (chunks4 (utf8 s)).map (fun group => (packChunk group).toNat)
      = ((chunks4 (utf8 s)).map packChunk).map UInt32.toNat := by rw [List.map_map]; rfl
    _ = (ms.map UInt32.ofNat).map UInt32.toNat := by rw [hchunks]
    _ = ms.map id := by
        rw [List.map_map]
        exact List.map_congr_left hword
    _ = ms := List.map_id ms

theorem forall₂_callDecrypt_iff (k : PrivateKey) (frames : List Frame) (ms : List Nat) :
    List.Forall₂ (fun f m => k.callDecrypt f.ciphertext = .ok m ∧ m ≠ 0) frames ms ↔
      (frames = [] ∨ 0 < k.publicKey.prime) ∧
        List.Forall₂ (fun f m => k.decrypt f.ciphertext = .ok m ∧ m ≠ 0) frames ms := by
  simp only [callDecrypt_eq_ok_iff]
  constructor
  · intro h
    refine ⟨?_, h.imp fun _ _ hm => ⟨hm.1.2, hm.2⟩⟩
    cases h with
    | nil => exact Or.inl rfl
    | cons hm _ => exact Or.inr (Nat.pos_of_ne_zero hm.1.1)
  · rintro ⟨rfl | hp, h⟩
    · cases h
      exact .nil
    · exact h.imp fun _ _ hm => ⟨⟨hp.ne', hm.1⟩, hm.2⟩

/-- A sound string fixes the numbers that the frames decrypt to. -/
theorem Sound.numbers {data : Bytes} {k : PrivateKey} {s : String} (h : Sound data k s)
    {frames : List Frame} {rest : Bytes} {ms : List Nat} (hg : Grammar data frames rest)
    (hms : List.Forall₂ (fun f m => k.decrypt f.ciphertext = .ok m) frames ms) :
    rest = [] ∧ ∀ m ∈ ms, m < 2 ^ 32 := by
  obtain ⟨frames', hg', -, hall⟩ := h
  obtain ⟨rfl, rfl⟩ := hg.unique hg'
  have hgroups : List.Forall₂ (fun f m => k.decrypt f.ciphertext = .ok m) frames
      ((chunks4 (utf8 s)).map fun group => (packChunk group).toNat) :=
    List.forall₂_map_right_iff.2 hall
  have huniq : Relator.RightUnique fun (f : Frame) m => k.decrypt f.ciphertext = .ok m := by
    intro f m m' hm hm'
    exact Except.ok.inj (hm.symm.trans hm')
  refine ⟨rfl, ?_⟩
  rw [huniq.forall₂ hms hgroups]
  intro m hm
  obtain ⟨group, -, rfl⟩ := List.mem_map.1 hm
  exact (packChunk group).toNat_lt

/-- **When the decoder is sound.** A key and data give only sound strings exactly when, if the
    frames all decrypt to numbers other than zero whose low words spell a string, nothing follows
    the frames and every number is below `2 ^ 32`. -/
theorem decrypt_sound_iff (data : Bytes) (k : PrivateKey) :
    (∀ s, decrypt data k = .ok s → Sound data k s) ↔
      ∀ frames rest ms, Grammar data frames rest → (frames = [] ∨ 0 < k.publicKey.prime) →
        List.Forall₂ (fun f m => k.decrypt f.ciphertext = .ok m ∧ m ≠ 0) frames ms →
        (∃ s, utf8 s = trimZeros ((ms.map UInt32.ofNat).flatMap unpackChunk)) →
        rest = [] ∧ ∀ m ∈ ms, m < 2 ^ 32 := by
  constructor
  · rintro hsound frames rest ms hg hpos hms ⟨s, hs⟩
    have hok : decrypt data k = .ok s := (decrypt_eq_ok_iff data k s).2
      ⟨frames, rest, ms, hg, (forall₂_callDecrypt_iff k frames ms).2 ⟨hpos, hms⟩, hs⟩
    exact (hsound s hok).numbers hg (hms.imp fun _ _ hm => hm.1)
  · intro hcond s hok
    obtain ⟨frames, rest, ms, hg, hcall, hs⟩ := (decrypt_eq_ok_iff data k s).1 hok
    obtain ⟨hpos, hms⟩ := (forall₂_callDecrypt_iff k frames ms).1 hcall
    obtain ⟨rfl, hlt⟩ := hcond frames rest ms hg hpos hms ⟨s, hs⟩
    have hne : ∀ m ∈ ms, m ≠ 0 :=
      ((List.forall₂_and_left ms frames).1 (hms.flip.imp fun _ _ hm => hm.symm)).1
    have hwords := chunks4_utf8_of_lt hne hlt hs
    have hlen : frames.length = (chunks4 (utf8 s)).length := by
      rw [hms.length_eq, ← hwords, List.length_map]
    refine ⟨frames, hg, by rw [hlen, chunks4_length], ?_⟩
    rw [← hwords] at hms
    exact (List.forall₂_map_right_iff.1 hms).imp fun _ _ hm => hm.1

/-- One frame with the numbers 1 and `2 ^ 32 + 97`. -/
def wideFrame : Frame := ⟨[1], [97, 0, 0, 0, 1], by decide, by decide⟩

/-- A byte after no frames at all is not noticed, and a number from `2 ^ 32` on is cut down to the
    letter `a`. -/
theorem decrypt_not_sound :
    ¬ (∀ s, decrypt [0, 0, 0, 0, 7] (PrivateKey.from 0) = .ok s →
      Sound [0, 0, 0, 0, 7] (PrivateKey.from 0) s) ∧
    ¬ (∀ s, decrypt [1, 0, 0, 0, 1, 0, 0, 0, 1, 5, 0, 0, 0, 97, 0, 0, 0, 1] (PrivateKey.from 0)
        = .ok s →
      Sound [1, 0, 0, 0, 1, 0, 0, 0, 1, 5, 0, 0, 0, 97, 0, 0, 0, 1] (PrivateKey.from 0) s) := by
  have hempty : Grammar [0, 0, 0, 0, 7] [] [7] := ⟨by decide, by decide⟩
  have hwide : Grammar [1, 0, 0, 0, 1, 0, 0, 0, 1, 5, 0, 0, 0, 97, 0, 0, 0, 1] [wideFrame] [] :=
    ⟨by decide, by decide⟩
  have hdec : (PrivateKey.from 0).decrypt wideFrame.ciphertext = .ok (2 ^ 32 + 97) := by
    decide +kernel
  constructor
  · intro hsound
    have hok := (decrypt_eq_ok_iff _ (PrivateKey.from 0) "").2
      ⟨[], [7], [], hempty, .nil, by decide⟩
    have hrest := (hsound "" hok).numbers hempty .nil
    exact absurd hrest.1 (by decide)
  · intro hsound
    have hms : List.Forall₂ (fun (f : Frame) m => (PrivateKey.from 0).decrypt f.ciphertext = .ok m)
        [wideFrame] [2 ^ 32 + 97] := .cons hdec .nil
    have hcall : List.Forall₂ (fun (f : Frame) m =>
        (PrivateKey.from 0).callDecrypt f.ciphertext = .ok m ∧ m ≠ 0)
        [wideFrame] [2 ^ 32 + 97] :=
      .cons ⟨callDecrypt_eq_ok_iff.2 ⟨PRIME_pos.ne', hdec⟩, by omega⟩ .nil
    have hok := (decrypt_eq_ok_iff _ (PrivateKey.from 0) "a").2
      ⟨[wideFrame], [], [2 ^ 32 + 97], hwide, hcall, by decide⟩
    have hlt := ((hsound "a" hok).numbers hwide hms).2 (2 ^ 32 + 97) (by simp)
    omega

end DaConcept.Crypto
