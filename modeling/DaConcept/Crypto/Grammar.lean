import DaConcept.Crypto.Elgamal

set_option autoImplicit false

/-! # The grammar of encrypted data

What `parse` accepts, said without offsets: a count, that many frames, and anything after them. A
frame is a pair of byte strings, each with its length in front. The loop of `decrypt` is followed
with the data cut at its offset, `pre ++ suffix`: one turn either finds a frame at the head of
`suffix` or one of its three bounds checks fails (`readCiphertexts_turn`). -/

namespace DaConcept.Crypto

/-! ## Frames -/

/-- The bytes of the two numbers of a stored ciphertext. Their lengths fit the length fields. -/
structure Frame where
  c1Bytes : Bytes
  c2Bytes : Bytes
  c1_lt : c1Bytes.length < 2 ^ 32
  c2_lt : c2Bytes.length < 2 ^ 32

/-- A frame as it is stored. -/
def Frame.bytes (f : Frame) : Bytes := lengthPrefixed f.c1Bytes ++ lengthPrefixed f.c2Bytes

/-- The ciphertext a frame stands for. -/
def Frame.ciphertext (f : Frame) : Ciphertext :=
  { c1 := leValue f.c1Bytes, c2 := leValue f.c2Bytes }

/-- `data` is the count of `frames`, the frames one after the other, and `rest`. -/
structure Grammar (data : Bytes) (frames : List Frame) (rest : Bytes) : Prop where
  count_lt : frames.length < 2 ^ 32
  data_eq : data
    = u32ToLeBytes (UInt32.ofNat frames.length) ++ (frames.flatMap Frame.bytes ++ rest)

/-- The lengths that fit the length field of a stored number. -/
def FitsLength (n : Nat) : Prop := (toBytesLe n).length < 2 ^ 32

theorem fitsLength_of_lt_PRIME {n : Nat} (h : n < PRIME) : FitsLength n := by
  have hlen := toBytesLe_length_le (k := 32) (by omega) (lt_trans h (by decide : PRIME < 256 ^ 32))
  rw [FitsLength]
  omega

/-- The frame that the serializer writes for a ciphertext. -/
theorem exists_frame {ct : Ciphertext} (h1 : FitsLength ct.c1) (h2 : FitsLength ct.c2) :
    ∃ f : Frame, f.bytes = storeCiphertext ct ∧ f.ciphertext = ct := by
  refine ⟨⟨toBytesLe ct.c1, toBytesLe ct.c2, h1, h2⟩, rfl, ?_⟩
  rw [Frame.ciphertext, leValue_toBytesLe, leValue_toBytesLe]

theorem exists_frames {cts : List Ciphertext}
    (hfit : ∀ ct ∈ cts, FitsLength ct.c1 ∧ FitsLength ct.c2) :
    ∃ frames : List Frame, frames.flatMap Frame.bytes = cts.flatMap storeCiphertext ∧
      frames.map Frame.ciphertext = cts := by
  induction cts with
  | nil => exact ⟨[], rfl, rfl⟩
  | cons ct cts ih =>
      rw [List.forall_mem_cons] at hfit
      obtain ⟨f, hbytes, hct⟩ := exists_frame hfit.1.1 hfit.1.2
      obtain ⟨frames, hall, hmap⟩ := ih hfit.2
      refine ⟨f :: frames, ?_, ?_⟩
      · rw [List.flatMap_cons, List.flatMap_cons, hbytes, hall]
      · rw [List.map_cons, hct, hmap]

/-- What is serialized follows the grammar, with nothing left over. -/
theorem grammar_serialize {cts : List Ciphertext} (hcount : cts.length < 2 ^ 32)
    (hfit : ∀ ct ∈ cts, FitsLength ct.c1 ∧ FitsLength ct.c2) :
    ∃ frames, Grammar (serialize cts) frames [] ∧ frames.map Frame.ciphertext = cts := by
  obtain ⟨frames, hbytes, hmap⟩ := exists_frames hfit
  have hlen : frames.length = cts.length := by rw [← hmap, List.length_map]
  refine ⟨frames, ⟨by omega, ?_⟩, hmap⟩
  rw [serialize, hbytes, hlen, List.append_nil]

theorem ofNat_mod_two_pow_32 (n : Nat) : UInt32.ofNat (n % 2 ^ 32) = UInt32.ofNat n := by
  rw [← UInt32.toNat_inj, UInt32.toNat_ofNat', UInt32.toNat_ofNat', Nat.mod_mod]

/-- The count wraps around: of more ciphertexts than it can count, the grammar finds the first. -/
theorem grammar_serialize_take {cts : List Ciphertext}
    (hfit : ∀ ct ∈ cts, FitsLength ct.c1 ∧ FitsLength ct.c2) :
    ∃ frames rest, Grammar (serialize cts) frames rest ∧
      frames.map Frame.ciphertext = cts.take (cts.length % 2 ^ 32) := by
  obtain ⟨frames, hbytes, rfl⟩ := exists_frames hfit
  let count := frames.length % 2 ^ 32
  have hlen : (frames.take count).length = count :=
    List.length_take_of_le (Nat.mod_le _ _)
  have hcount : count < 2 ^ 32 := Nat.mod_lt _ (by decide)
  refine ⟨frames.take count, (frames.drop count).flatMap Frame.bytes, ⟨by omega, ?_⟩, ?_⟩
  · rw [hlen, ofNat_mod_two_pow_32, ← List.flatMap_append, List.take_append_drop, hbytes,
      serialize, List.length_map]
  · rw [List.map_take, List.length_map]

/-! ## The parse loop -/

/-- Four bytes are the bytes of a word. -/
theorem exists_u32ToLeBytes_append {bs : Bytes} (h : 4 ≤ bs.length) :
    ∃ x rest, bs = u32ToLeBytes x ++ rest := by
  obtain ⟨a, b, c, d, rest, rfl⟩ : ∃ a b c d rest, bs = [a, b, c, d] ++ rest := by
    rcases bs with _ | ⟨a, _ | ⟨b, _ | ⟨c, _ | ⟨d, rest⟩⟩⟩⟩
    case cons.cons.cons.cons => exact ⟨a, b, c, d, rest, rfl⟩
    all_goals simp at h
  refine ⟨u32FromLeBytes a b c d, rest, ?_⟩
  have hword : u32ToLeBytes (u32FromLeBytes a b c d) = [a, b, c, d] :=
    eq_of_leValue_eq rfl ((leValue_u32ToLeBytes _).trans (toNat_u32FromLeBytes a b c d))
  rw [hword]

theorem lengthPrefixed_eq {x : UInt32} {bs : Bytes} (h : bs.length = x.toNat) :
    u32ToLeBytes x ++ bs = lengthPrefixed bs := by
  rw [lengthPrefixed, h, UInt32.ofNat_toNat]

/-- One turn of the loop finds a frame, or answers the error. -/
theorem readCiphertexts_turn (pre suffix : Bytes) (n : Nat) (acc : List Ciphertext) :
    (∃ f : Frame, ∃ tail, suffix = f.bytes ++ tail) ∨
      readCiphertexts (pre ++ suffix) (n + 1) pre.length acc = .err .invalidCiphertext := by
  by_cases h8 : suffix.length < 8
  · right
    rw [readCiphertexts, if_pos (by rw [List.length_append]; omega)]
  -- the first length is there
  obtain ⟨x1, s1, rfl⟩ := exists_u32ToLeBytes_append (by omega : 4 ≤ suffix.length)
  have hread1 := readU32_append (ε := CryptoError) pre s1 x1
  rw [List.length_append, u32ToLeBytes_length] at h8
  by_cases hlen1 : s1.length < x1.toNat + 4
  · right
    rw [readCiphertexts, if_neg (by simp only [List.length_append, u32ToLeBytes_length]; omega),
      hread1, Outcome.ok_bind,
      if_pos (by simp only [List.length_append, u32ToLeBytes_length]; omega)]
  -- the first number and the second length are there
  obtain ⟨b1, s2, rfl, hb1⟩ : ∃ b1 s2, s1 = b1 ++ s2 ∧ b1.length = x1.toNat :=
    ⟨s1.take x1.toNat, s1.drop x1.toNat, (List.take_append_drop _ _).symm,
      List.length_take_of_le (by omega)⟩
  rw [List.length_append] at h8 hlen1
  obtain ⟨x2, s3, rfl⟩ := exists_u32ToLeBytes_append (by omega : 4 ≤ s2.length)
  by_cases hlen2 : s3.length < x2.toNat
  · right
    have hslice1 := Outcome.slice_append (ε := CryptoError) (pre ++ u32ToLeBytes x1) b1
      (u32ToLeBytes x2 ++ s3)
    have hread2 := readU32_append (ε := CryptoError) (pre ++ u32ToLeBytes x1 ++ b1) s3 x2
    simp only [List.append_assoc, List.length_append, u32ToLeBytes_length, hb1, Nat.add_assoc]
      at hread1 hslice1 hread2
    rw [readCiphertexts, if_neg (by simp only [List.length_append, u32ToLeBytes_length]; omega)]
    simp only [Nat.add_assoc] at hread1 ⊢
    rw [hread1, Outcome.ok_bind,
      if_neg (by simp only [List.length_append, u32ToLeBytes_length, hb1]; omega), hslice1,
      Outcome.ok_bind, hread2, Outcome.ok_bind,
      if_pos (by simp only [List.length_append, u32ToLeBytes_length, hb1]; omega)]
  -- and so is the second number
  · left
    obtain ⟨b2, tail, rfl, hb2⟩ : ∃ b2 tail, s3 = b2 ++ tail ∧ b2.length = x2.toNat :=
      ⟨s3.take x2.toNat, s3.drop x2.toNat, (List.take_append_drop _ _).symm,
        List.length_take_of_le (by omega)⟩
    refine ⟨⟨b1, b2, hb1 ▸ x1.toNat_lt, hb2 ▸ x2.toNat_lt⟩, tail, ?_⟩
    rw [Frame.bytes, ← lengthPrefixed_eq hb1, ← lengthPrefixed_eq hb2]
    simp only [List.append_assoc]

theorem readCiphertexts_cons (pre : Bytes) (f : Frame) (tail : Bytes) (n : Nat)
    (acc : List Ciphertext) :
    readCiphertexts (pre ++ (f.bytes ++ tail)) (n + 1) pre.length acc
      = readCiphertexts (pre ++ f.bytes ++ tail) n (pre ++ f.bytes).length
        (acc ++ [f.ciphertext]) := by
  have hstep := readCiphertexts_frame pre f.c1Bytes f.c2Bytes tail f.c1_lt f.c2_lt n acc
  simp only [Frame.bytes, Frame.ciphertext, lengthPrefixed, List.append_assoc, List.length_append,
    u32ToLeBytes_length, Nat.add_assoc] at hstep ⊢
  exact hstep

/-- The loop reads the frames that are there. -/
theorem readCiphertexts_frames (frames : List Frame) :
    ∀ (pre rest : Bytes) (acc : List Ciphertext),
      readCiphertexts (pre ++ (frames.flatMap Frame.bytes ++ rest)) frames.length pre.length acc
        = .ok (acc ++ frames.map Frame.ciphertext) := by
  induction frames with
  | nil => intro pre rest acc; simp [readCiphertexts]
  | cons f frames ih =>
      intro pre rest acc
      have hrest := ih (pre ++ f.bytes) rest (acc ++ [f.ciphertext])
      rw [List.flatMap_cons, List.append_assoc, List.length_cons, readCiphertexts_cons, hrest,
        List.map_cons, List.append_assoc, List.singleton_append]

/-- The loop fails unless the frames are there. -/
theorem readCiphertexts_cases (n : Nat) :
    ∀ (pre suffix : Bytes) (acc : List Ciphertext),
      (∃ (frames : List Frame) (rest : Bytes), frames.length = n ∧
        suffix = frames.flatMap Frame.bytes ++ rest) ∨
      readCiphertexts (pre ++ suffix) n pre.length acc = .err .invalidCiphertext := by
  induction n with
  | zero => intro pre suffix acc; exact Or.inl ⟨[], suffix, rfl, rfl⟩
  | succ n ih =>
      intro pre suffix acc
      rcases readCiphertexts_turn pre suffix n acc with ⟨f, tail, rfl⟩ | herr
      · rcases ih (pre ++ f.bytes) tail (acc ++ [f.ciphertext]) with ⟨frames, rest, hn, rfl⟩ | herr
        · refine Or.inl ⟨f :: frames, rest, by rw [List.length_cons, hn], ?_⟩
          rw [List.flatMap_cons, List.append_assoc]
        · exact Or.inr ((readCiphertexts_cons pre f tail n acc).trans herr)
      · exact Or.inr herr

/-! ## The parser -/

/-- Data that follows the grammar is parsed into the ciphertexts of its frames. -/
theorem Grammar.parse_eq {data : Bytes} {frames : List Frame} {rest : Bytes}
    (h : Grammar data frames rest) : parse data = .ok (frames.map Frame.ciphertext) := by
  have hread := readU32_append (ε := CryptoError) [] (frames.flatMap Frame.bytes ++ rest)
    (UInt32.ofNat frames.length)
  have hloop := readCiphertexts_frames frames (u32ToLeBytes (UInt32.ofNat frames.length)) rest []
  rw [List.nil_append, List.length_nil, UInt32.toNat_ofNat', Nat.mod_eq_of_lt h.count_lt] at hread
  rw [u32ToLeBytes_length, List.nil_append] at hloop
  rw [h.data_eq, parse, if_neg (by simp), hread, Outcome.ok_bind, hloop]

/-- Data that does not is answered with the error. -/
theorem grammar_or_parse_eq_err (data : Bytes) :
    (∃ frames rest, Grammar data frames rest) ∨ parse data = .err .invalidCiphertext := by
  by_cases h4 : data.length < 4
  · exact Or.inr (by rw [parse, if_pos h4])
  obtain ⟨x, suffix, rfl⟩ := exists_u32ToLeBytes_append (by omega : 4 ≤ data.length)
  have hread := readU32_append (ε := CryptoError) [] suffix x
  rw [List.nil_append, List.length_nil] at hread
  rcases readCiphertexts_cases x.toNat (u32ToLeBytes x) suffix [] with
    ⟨frames, rest, hn, rfl⟩ | herr
  · have hx : UInt32.ofNat frames.length = x := by rw [hn, UInt32.ofNat_toNat]
    exact Or.inl ⟨frames, rest, hn ▸ x.toNat_lt, by rw [hx]⟩
  · rw [u32ToLeBytes_length] at herr
    exact Or.inr (by rw [parse, if_neg h4, hread, Outcome.ok_bind, herr])

theorem parse_eq_ok_iff (data : Bytes) (cts : List Ciphertext) :
    parse data = .ok cts ↔
      ∃ frames rest, Grammar data frames rest ∧ cts = frames.map Frame.ciphertext := by
  constructor
  · intro h
    rcases grammar_or_parse_eq_err data with ⟨frames, rest, hg⟩ | herr
    · rw [hg.parse_eq] at h
      exact ⟨frames, rest, hg, (Outcome.ok.inj h).symm⟩
    · rw [herr] at h
      cases h
  · rintro ⟨frames, rest, hg, rfl⟩
    exact hg.parse_eq

theorem u32ToLeBytes_append_inj {x y : UInt32} {s t : Bytes}
    (h : u32ToLeBytes x ++ s = u32ToLeBytes y ++ t) : x = y ∧ s = t := by
  obtain ⟨hword, hrest⟩ := List.append_inj h rfl
  refine ⟨UInt32.toNat_inj.1 ?_, hrest⟩
  rw [← leValue_u32ToLeBytes x, hword, leValue_u32ToLeBytes]

theorem lengthPrefixed_append_inj {a b s t : Bytes} (ha : a.length < 2 ^ 32)
    (hb : b.length < 2 ^ 32) (h : lengthPrefixed a ++ s = lengthPrefixed b ++ t) :
    a = b ∧ s = t := by
  rw [lengthPrefixed, lengthPrefixed, List.append_assoc, List.append_assoc] at h
  obtain ⟨hlen, hrest⟩ := u32ToLeBytes_append_inj h
  refine List.append_inj hrest ?_
  rw [← toNat_ofNat_length ha, hlen, toNat_ofNat_length hb]

/-- The first frame of a byte string is determined. -/
theorem Frame.bytes_append_inj {f g : Frame} {s t : Bytes}
    (h : f.bytes ++ s = g.bytes ++ t) : f = g ∧ s = t := by
  rw [Frame.bytes, Frame.bytes, List.append_assoc, List.append_assoc] at h
  obtain ⟨h1, hrest⟩ := lengthPrefixed_append_inj f.c1_lt g.c1_lt h
  obtain ⟨h2, htail⟩ := lengthPrefixed_append_inj f.c2_lt g.c2_lt hrest
  cases f
  cases g
  cases h1
  cases h2
  exact ⟨rfl, htail⟩

theorem flatMap_frame_append_inj {frames : List Frame} :
    ∀ {frames' : List Frame} {s t : Bytes}, frames.length = frames'.length →
      frames.flatMap Frame.bytes ++ s = frames'.flatMap Frame.bytes ++ t →
      frames = frames' ∧ s = t := by
  induction frames with
  | nil =>
      intro frames' s t hlen h
      rw [List.length_nil] at hlen
      rw [List.eq_nil_of_length_eq_zero hlen.symm] at h ⊢
      exact ⟨rfl, h⟩
  | cons f frames ih =>
      intro frames' s t hlen h
      cases frames' with
      | nil => cases hlen
      | cons g frames' =>
          rw [List.flatMap_cons, List.flatMap_cons, List.append_assoc, List.append_assoc] at h
          obtain ⟨rfl, hrest⟩ := Frame.bytes_append_inj h
          obtain ⟨rfl, rfl⟩ := ih (Nat.succ.inj hlen) hrest
          exact ⟨rfl, rfl⟩

/-- **The grammar is unambiguous.** -/
theorem Grammar.unique {data : Bytes} {frames frames' : List Frame} {rest rest' : Bytes}
    (h : Grammar data frames rest) (h' : Grammar data frames' rest') :
    frames = frames' ∧ rest = rest' := by
  obtain ⟨hcount, hbody⟩ := u32ToLeBytes_append_inj (h.data_eq.symm.trans h'.data_eq)
  refine flatMap_frame_append_inj ?_ hbody
  have hlen := congrArg UInt32.toNat hcount
  rwa [UInt32.toNat_ofNat', UInt32.toNat_ofNat', Nat.mod_eq_of_lt h.count_lt,
    Nat.mod_eq_of_lt h'.count_lt] at hlen

theorem parse_ne_panic (data : Bytes) : parse data ≠ .panic := by
  intro h
  rcases grammar_or_parse_eq_err data with ⟨frames, rest, hg⟩ | herr
  · rw [hg.parse_eq] at h
    cases h
  · rw [herr] at h
    cases h

/-- **The parser inverts the serializer.** -/
theorem parse_serialize (cts : List Ciphertext) (hcount : cts.length < 2 ^ 32)
    (hfit : ∀ ct ∈ cts, FitsLength ct.c1 ∧ FitsLength ct.c2) :
    parse (serialize cts) = .ok cts := by
  obtain ⟨frames, hg, hmap⟩ := grammar_serialize hcount hfit
  rw [hg.parse_eq, hmap]

/-! ## The parser and its memory -/

/-- The parser asks for memory for the announced count of ciphertexts, and does not check the count
    before. -/
theorem parseAllocating_eq (allocator : Allocator) (data : Bytes) :
    parseAllocating allocator data =
      if data.length < 4 ∨ allocator.grants (leValue (data.take 4)) = true then some (parse data)
      else none := by
  by_cases h4 : data.length < 4
  · rw [parseAllocating, parse, if_pos h4, if_pos (Or.inl h4), if_pos h4]
  obtain ⟨x, suffix, rfl⟩ := exists_u32ToLeBytes_append (by omega : 4 ≤ data.length)
  have hread := readU32_append (ε := CryptoError) [] suffix x
  rw [List.nil_append, List.length_nil] at hread
  have hcount : leValue ((u32ToLeBytes x ++ suffix).take 4) = x.toNat := by
    rw [List.take_left' (u32ToLeBytes_length x), leValue_u32ToLeBytes]
  rw [parseAllocating, parse, if_neg h4, if_neg h4, hread, Outcome.ok_bind, hcount]
  simp only [h4, false_or]

/-- The parser comes to an outcome without a panic, the outcome is the ciphertexts of the frames
    that the data holds, and data that does not follow the grammar is answered with the error. -/
structure ParsesByGrammar (data : Bytes)
    (outcome : Option (Outcome CryptoError (List Ciphertext))) : Prop where
  returns : ∃ o, outcome = some o ∧ o ≠ .panic
  ok_iff : ∀ cts, outcome = some (.ok cts) ↔
    ∃ frames rest, Grammar data frames rest ∧ cts = frames.map Frame.ciphertext
  err : (¬ ∃ frames rest, Grammar data frames rest) → outcome = some (.err .invalidCiphertext)

theorem parsesByGrammar_parse (data : Bytes) : ParsesByGrammar data (some (parse data)) where
  returns := ⟨parse data, rfl, parse_ne_panic data⟩
  ok_iff cts := by rw [Option.some.injEq, parse_eq_ok_iff]
  err h := congrArg some ((grammar_or_parse_eq_err data).resolve_left h)

/-- **When the parser accepts exactly its grammar**: for every byte vector that is too short for a
    count, or for whose count the allocator has the memory. Then it reads nothing out of bounds,
    and gives back any list that was serialized. -/
theorem parse_grammar_iff (allocator : Allocator) :
    (∀ data, ParsesByGrammar data (parseAllocating allocator data) ↔
      data.length < 4 ∨ allocator.grants (leValue (data.take 4)) = true) ∧
    ∀ cts : List Ciphertext, cts.length < 2 ^ 32 →
      (∀ ct ∈ cts, FitsLength ct.c1 ∧ FitsLength ct.c2) →
      ((parseAllocating allocator (serialize cts) = some (.ok cts) ∧
        ∃ frames, Grammar (serialize cts) frames [] ∧ frames.map Frame.ciphertext = cts) ↔
      allocator.grants cts.length = true) := by
  constructor
  · intro data
    rw [parseAllocating_eq]
    split
    · next hgranted => exact iff_of_true (parsesByGrammar_parse data) hgranted
    · next hrefused =>
        refine iff_of_false (fun h => ?_) hrefused
        obtain ⟨o, ho, -⟩ := h.returns
        cases ho
  · intro cts hcount hfit
    have hshort : ¬ (serialize cts).length < 4 := by
      simp [serialize]
    have hannounced : leValue ((serialize cts).take 4) = cts.length := by
      rw [serialize, List.take_left' (u32ToLeBytes_length _), leValue_u32ToLeBytes,
        UInt32.toNat_ofNat', Nat.mod_eq_of_lt hcount]
    rw [parseAllocating_eq, hannounced, parse_serialize cts hcount hfit]
    simp only [hshort, false_or]
    constructor
    · rintro ⟨hsome, -⟩
      by_contra hrefused
      rw [if_neg hrefused] at hsome
      cases hsome
    · intro hgranted
      exact ⟨if_pos hgranted, grammar_serialize hcount hfit⟩

/-- An allocator with so many bytes left; a ciphertext is two `BigUint`s of 24 bytes. -/
def Allocator.upTo (bytes : Nat) : Allocator where
  grants count := 48 * count ≤ bytes
  grants_zero := by simp

/-- Four bytes that announce 4294967295 ciphertexts abort a process with 64 GiB. -/
theorem parse_aborts :
    parseAllocating (.upTo (2 ^ 36)) [255, 255, 255, 255] = none ∧
      ¬ ParsesByGrammar [255, 255, 255, 255]
        (parseAllocating (.upTo (2 ^ 36)) [255, 255, 255, 255]) := by
  have hnone : parseAllocating (.upTo (2 ^ 36)) [255, 255, 255, 255] = none := by decide
  refine ⟨hnone, fun h => ?_⟩
  obtain ⟨o, ho, -⟩ := h.returns
  rw [hnone] at ho
  cases ho

end DaConcept.Crypto
