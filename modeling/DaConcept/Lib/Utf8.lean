import DaConcept.Lib.LittleEndian

set_option autoImplicit false

/-! # The bytes of a string -/

namespace DaConcept

/-- The UTF-8 bytes of a string. -/
def utf8 (s : String) : Bytes := s.toUTF8.data.toList

/-- A byte string is the bytes of at most one string. -/
theorem utf8_eq_iff (bs : Bytes) (s : String) : bs = utf8 s ↔ s.toUTF8 = ⟨bs.toArray⟩ := by
  rw [ByteArray.ext_iff, ← Array.toList_inj, List.toList_toArray, utf8, eq_comm]

/-- Every character takes at least one byte. -/
theorem length_toList_le_utf8 (s : String) : s.toList.length ≤ (utf8 s).length := by
  have hsize : ∀ cs : List Char, cs.length ≤ (String.ofList cs).utf8ByteSize := by
    intro cs
    induction cs with
    | nil => simp
    | cons c cs ih =>
        have hpos := Char.utf8Size_pos c
        have hsplit : String.ofList (c :: cs) = String.singleton c ++ String.ofList cs := by
          rw [← String.toList_inj]
          simp
        rw [hsplit, String.utf8ByteSize_append, String.utf8ByteSize_singleton, List.length_cons]
        omega
  have hlen : (utf8 s).length = s.utf8ByteSize := rfl
  rw [hlen]
  simpa using hsize s.toList

theorem utf8_ofList (cs : List Char) :
    utf8 (String.ofList cs) = cs.flatMap String.utf8EncodeChar := by
  simp [utf8, List.utf8Encode]

/-- Only NUL has a zero among its bytes. -/
theorem zero_not_mem_utf8EncodeChar {c : Char} (h : c ≠ '\x00') : 0 ∉ String.utf8EncodeChar c := by
  have hpos : 0 < c.val.toNat := by
    refine Nat.pos_of_ne_zero fun h0 => h (Char.ext ?_)
    rw [← UInt32.toNat_inj, h0]
    rfl
  have hne {x : Nat} (h0 : 0 < x) (hx : x < 256) : (0 : UInt8) ≠ UInt8.ofNat x := by
    intro heq
    have hnat := congrArg UInt8.toNat heq
    rw [UInt8.toNat_ofNat', Nat.mod_eq_of_lt hx] at hnat
    exact h0.ne hnat
  unfold String.utf8EncodeChar
  simp only
  split
  · simp only [List.mem_singleton]
    exact hne hpos (by omega)
  · split
    · simp only [List.mem_cons, List.not_mem_nil, or_false, not_or]
      exact ⟨hne (by omega) (by omega), hne (by omega) (by omega)⟩
    · split <;> simp only [List.mem_cons, List.not_mem_nil, or_false, not_or]
      · exact ⟨hne (by omega) (by omega), hne (by omega) (by omega), hne (by omega) (by omega)⟩
      · exact ⟨hne (by omega) (by omega), hne (by omega) (by omega), hne (by omega) (by omega),
          hne (by omega) (by omega)⟩

/-- A string without the NULs it ends with. -/
def trimNuls (s : String) : String := String.ofList (s.toList.rdropWhile (· = '\x00'))

/-- The zero bytes at the end of a string are its NULs. -/
theorem utf8_trimNuls (s : String) : utf8 (trimNuls s) = trimZeros (utf8 s) := by
  rw [trimNuls, ← String.ofList_toList (s := s), String.toList_ofList]
  induction s.toList using List.reverseRecOn with
  | nil => rfl
  | append_singleton cs c ih =>
      by_cases hc : c = '\x00'
      · subst hc
        have hnul : String.utf8EncodeChar '\x00' = List.replicate 1 0 := rfl
        rw [List.rdropWhile_concat_pos _ _ _ (by simp), ih, utf8_ofList, utf8_ofList,
          List.flatMap_append, List.flatMap_singleton, hnul, trimZeros_append_replicate]
      · rw [List.rdropWhile_concat_neg _ _ _ (by simpa using hc), eq_comm, trimZeros_eq_self_iff,
          utf8_ofList, List.flatMap_append, List.flatMap_singleton,
          List.getLast?_append_of_ne_nil _ String.utf8EncodeChar_ne_nil]
        exact fun hlast => zero_not_mem_utf8EncodeChar hc (List.mem_of_getLast? hlast)

end DaConcept
