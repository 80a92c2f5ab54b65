import DaConcept.Crypto.RoundTrip

set_option autoImplicit false

/-! # The size of encrypted data

A residue takes between 1 and 32 bytes, so a stored ciphertext takes between 10 and 72, and no
length or count is cut off by its cast to `u32`. -/

namespace DaConcept.Crypto

/-- The length fields of a stored ciphertext: each is between 1 and 32, and its cast to `u32` keeps
    it. -/
structure Ciphertext.CastsExact (ct : Ciphertext) : Prop where
  length_pos : ∀ n ∈ [ct.c1, ct.c2], 1 ≤ (toBytesLe n).length
  length_le : ∀ n ∈ [ct.c1, ct.c2], (toBytesLe n).length ≤ 32
  cast_eq : ∀ n ∈ [ct.c1, ct.c2],
    (UInt32.ofNat (toBytesLe n).length).toNat = (toBytesLe n).length

theorem GeneratorPair.lt_PRIME {ct : Ciphertext} (h : GeneratorPair ct) :
    ∀ n ∈ [ct.c1, ct.c2], n < PRIME := by
  obtain ⟨⟨y, hc1⟩, hc2⟩ := h
  intro n hn
  rcases List.mem_cons.1 hn with rfl | hn
  · exact hc1 ▸ Nat.mod_lt _ PRIME_pos
  · exact List.mem_singleton.1 hn ▸ hc2

theorem GeneratorPair.castsExact {ct : Ciphertext} (h : GeneratorPair ct) : ct.CastsExact := by
  have hle : ∀ n ∈ [ct.c1, ct.c2], (toBytesLe n).length ≤ 32 := fun n hn =>
    toBytesLe_length_le (by omega) (lt_trans (h.lt_PRIME n hn) (by decide : PRIME < 256 ^ 32))
  refine ⟨fun n _ => toBytesLe_length_pos n, hle, fun n hn => toNat_ofNat_length ?_⟩
  have hn := hle n hn
  omega

theorem storeCiphertext_length (ct : Ciphertext) :
    (storeCiphertext ct).length = 8 + (toBytesLe ct.c1).length + (toBytesLe ct.c2).length := by
  simp only [storeCiphertext, lengthPrefixed, List.length_append, u32ToLeBytes_length]
  omega

theorem Ciphertext.CastsExact.storeCiphertext_length_bounds {ct : Ciphertext}
    (h : ct.CastsExact) :
    10 ≤ (storeCiphertext ct).length ∧ (storeCiphertext ct).length ≤ 72 := by
  have hpos1 := h.length_pos ct.c1 List.mem_cons_self
  have hpos2 := h.length_pos ct.c2 (List.mem_cons_of_mem _ List.mem_cons_self)
  have hle1 := h.length_le ct.c1 List.mem_cons_self
  have hle2 := h.length_le ct.c2 (List.mem_cons_of_mem _ List.mem_cons_self)
  rw [storeCiphertext_length]
  omega

theorem serialize_length_bounds {cts : List Ciphertext} (h : ∀ ct ∈ cts, ct.CastsExact) :
    4 + 10 * cts.length ≤ (serialize cts).length ∧
      (serialize cts).length ≤ 4 + 72 * cts.length := by
  have hbody : 10 * cts.length ≤ (cts.flatMap storeCiphertext).length ∧
      (cts.flatMap storeCiphertext).length ≤ 72 * cts.length := by
    induction cts with
    | nil => exact ⟨Nat.le_refl 0, Nat.le_refl 0⟩
    | cons ct cts ih =>
        rw [List.forall_mem_cons] at h
        have hhead := h.1.storeCiphertext_length_bounds
        have htail := ih h.2
        rw [List.flatMap_cons, List.length_append, List.length_cons]
        omega
  rw [serialize, List.length_append, u32ToLeBytes_length]
  omega

/-- **What `encrypt` writes**: as many ciphertexts as groups of four bytes, with exact lengths and a
    size that the number of groups bounds. -/
theorem encrypt_size {ε : Type} (n : Nat) (bs : Bytes) (draw : Nat → RandomBytes) :
    ∃ cts, (encrypt bs (PrivateKey.from n) draw : Outcome ε Bytes) = .ok (serialize cts) ∧
      cts.length = (bs.length + 3) / 4 ∧ (∀ ct ∈ cts, ct.CastsExact) ∧
      4 + 10 * ((bs.length + 3) / 4) ≤ (serialize cts).length ∧
      (serialize cts).length ≤ 4 + 72 * ((bs.length + 3) / 4) := by
  obtain ⟨cts, henc, hlen, hpairs⟩ := encrypt_generatorPair (ε := ε) n bs draw
  rw [chunks4_length] at hlen
  have hexact : ∀ ct ∈ cts, ct.CastsExact := fun ct hct => (hpairs ct hct).castsExact
  exact ⟨cts, henc, hlen, hexact, hlen ▸ serialize_length_bounds hexact⟩

end DaConcept.Crypto
