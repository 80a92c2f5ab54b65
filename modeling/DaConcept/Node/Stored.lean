import DaConcept.Crypto.Keys
import DaConcept.Crypto.Size
import DaConcept.Node.Write

set_option autoImplicit false

/-! # What `add_blob` stores

The row of a new blob holds what `encrypt` wrote under the key of the users table, its size, and the
public key. The size fits the `i32` it is read as while the text is no longer than 119304644
bytes. -/

namespace DaConcept.Node

open Crypto

/-- The row that `register` inserts, with the key it generates from `random`. -/
def registeredRow (platform : Platform) (now : Timestamp) (newV4 : Uuid) (random : RandomBytes)
    (username passwordHash : String) (email : Option String) : UserRow where
  id := newV4.cell
  username := username
  passwordHash := passwordHash
  privateKey := (PrivateKey.generate random).getEncodedPrivateKey platform.base64
  email := email
  createdAt := now

variable {platform : Platform}

/-- The user that a row decodes to has its key. -/
theorem UserRow.decode_privateKey {row : UserRow} {user : User} (h : row.decode = some user) :
    user.privateKey = row.privateKey := by
  rw [UserRow.decode, Option.bind_eq_bind, Option.bind_eq_some_iff] at h
  obtain ⟨id, -, huser⟩ := h
  exact (Option.some.inj huser) ▸ rfl

/-- The row of `add_blob`: what the user's key encrypts, and the public key. -/
theorem addBlobRow_content {inp : MutationInput} {currentUser : Option User}
    {blobInput : BlobInput} {row : BlobRow}
    (h : addBlobRow platform inp currentUser blobInput = some row) :
    ∃ user n, currentUser = some user ∧
      PrivateKey.tryFrom platform.base64 user.privateKey = .ok (PrivateKey.from n) ∧
      (encrypt (utf8 blobInput.content) (PrivateKey.from n) inp.draw : Outcome FieldError Bytes)
        = .ok row.content ∧
      row.size = row.content.length ∧
      row.publicKey = (PrivateKey.from n).publicKey.getEncodedPublicKey platform.base64 := by
  cases currentUser with
  | none => cases h
  | some user =>
      simp only [addBlobRow, addBlobContent] at h
      cases hkey : PrivateKey.tryFrom platform.base64 user.privateKey with
      | error e =>
          simp only [hkey] at h
          cases h
      | ok k =>
          obtain ⟨n, rfl⟩ := PrivateKey.exists_from_of_tryFrom hkey
          obtain ⟨cts, henc, -⟩ :=
            encrypt_size (ε := FieldError) n (utf8 blobInput.content) inp.draw
          simp only [hkey, henc, Outcome.ok_bind, Outcome.pure_eq, Option.some.injEq] at h
          subst h
          exact ⟨user, n, rfl, hkey, henc, rfl, rfl⟩

/-- A row that comes with `add_blob` is its row. -/
theorem addBlobRow_of_mem {inp : MutationInput} {currentUser : Option User}
    {blobInput : BlobInput} {db : Db} {row : BlobRow}
    (hrow : row ∈ (addBlob platform inp currentUser blobInput db).1.blobs.rows)
    (hnew : row ∉ db.blobs.rows) : addBlobRow platform inp currentUser blobInput = some row := by
  rcases addBlob_cases platform inp currentUser blobInput db with
    ⟨result, hadd, -⟩ | ⟨row', blobs, hrow', hinsert, hadd⟩
  · rw [hadd] at hrow
    exact absurd hrow hnew
  · have hblobs : (addBlob platform inp currentUser blobInput db).1.blobs = blobs := by
      rcases hadd with ⟨blob, -, hadd⟩ | ⟨-, result, hadd⟩ <;> rw [hadd]
    rw [hblobs, Table.rows_of_insert hinsert] at hrow
    rcases List.mem_append.1 hrow with hold | hlast
    · exact absurd hold hnew
    · rw [hrow', List.mem_singleton.1 hlast]

/-! ## Sizes -/

theorem exists_decodeI32 {i : Int} (hpos : 0 ≤ i) (hlt : i < 2 ^ 31) :
    ∃ size, decodeI32 i = some size ∧ size.toInt = i := by
  have hexact : (Int32.ofInt i).toInt = i := by
    rw [Int32.toInt_ofInt]
    exact Int.bmod_eq_of_le_mul_two (by simp [Int32.size]; omega) (by simp [Int32.size]; omega)
  exact ⟨Int32.ofInt i, decodeI32_eq_some_iff.2 hexact, hexact⟩

/-- What a text of at most 119304644 bytes is encrypted to has a size that an `i32` holds. -/
theorem exists_size_of_addBlobRow {inp : MutationInput} {currentUser : Option User}
    {blobInput : BlobInput} {row : BlobRow}
    (h : addBlobRow platform inp currentUser blobInput = some row)
    (hlen : (utf8 blobInput.content).length ≤ 119304644) :
    ∃ size, decodeI32 row.size = some size ∧ size.toInt = row.content.length := by
  obtain ⟨user, n, -, -, henc, hsize, -⟩ := addBlobRow_content h
  obtain ⟨cts, henc', -, -, -, hle⟩ :=
    encrypt_size (ε := FieldError) n (utf8 blobInput.content) inp.draw
  have hcontent : row.content = serialize cts := Outcome.ok.inj (henc.symm.trans henc')
  rw [← hcontent] at hle
  rw [hsize]
  exact exists_decodeI32 (Int.natCast_nonneg _) (by omega)

/-- **Ciphertext sizes.** Every length that `encrypt` writes is between 1 and 32, its output is
    bounded by the number of groups, its casts to `u32` lose nothing while the groups can be
    counted, and the size that `add_blob` stores for a text of at most 119304644 bytes, in the row
    that it inserts, is read back as it is. -/
theorem ciphertext_size :
    (∀ (n : Nat) (bs : Bytes) (draw : Nat → RandomBytes), (bs.length + 3) / 4 < 2 ^ 32 →
      ∃ cts data, (encrypt bs (PrivateKey.from n) draw : Outcome CryptoError Bytes) = .ok data ∧
        data = serialize cts ∧ cts.length = (bs.length + 3) / 4 ∧
        (UInt32.ofNat cts.length).toNat = cts.length ∧ (∀ ct ∈ cts, ct.CastsExact) ∧
        4 + 10 * ((bs.length + 3) / 4) ≤ data.length ∧
        data.length ≤ 4 + 72 * ((bs.length + 3) / 4)) ∧
    ∀ (platform : Platform) (inp : MutationInput) (currentUser : Option User)
      (blobInput : BlobInput) (db : Db),
      ∀ row ∈ (addBlob platform inp currentUser blobInput db).1.blobs.rows, row ∉ db.blobs.rows →
      (utf8 blobInput.content).length ≤ 119304644 →
      ∃ size, decodeI32 row.size = some size ∧ size.toInt = row.content.length := by
  constructor
  · intro n bs draw hcount
    obtain ⟨cts, henc, hlen, hexact, hbounds⟩ := encrypt_size (ε := CryptoError) n bs draw
    have hcast : (UInt32.ofNat cts.length).toNat = cts.length := by
      rw [UInt32.toNat_ofNat', Nat.mod_eq_of_lt (hlen ▸ hcount)]
    exact ⟨cts, serialize cts, henc, rfl, hlen, hcast, hexact, hbounds⟩
  · intro platform inp currentUser blobInput db row hrow hnew hlen
    exact exists_size_of_addBlobRow (addBlobRow_of_mem hrow hnew) hlen

/-- The sample node with the base64 engine on all texts. -/
def Platform.standard : Platform := { Platform.sample with base64 := Base64.standard }

/-- The user that registering with the draw `sevens` makes. -/
def User.registered : User :=
  { User.sample with
    privateKey := (PrivateKey.generate sevens).getEncodedPrivateKey Base64.standard }

/-- Seven bytes are encrypted to 24 to 148, and the size of their row is read back. -/
theorem ciphertext_size_seven :
    (∃ data, (encrypt [1, 2, 3, 4, 5, 6, 7] (PrivateKey.from 5) (fun _ => sevens)
        : Outcome CryptoError Bytes) = .ok data ∧ 24 ≤ data.length ∧ data.length ≤ 148) ∧
    ∃ row ∈ (addBlob Platform.standard MutationInput.sample (some User.registered)
        ⟨"1234567", none, none⟩ Db.empty).1.blobs.rows,
      24 ≤ row.content.length ∧
      ∃ size, decodeI32 row.size = some size ∧ size.toInt = row.content.length := by
  constructor
  · obtain ⟨cts, data, henc, -, -, -, -, hbounds⟩ :=
      ciphertext_size.1 5 [1, 2, 3, 4, 5, 6, 7] (fun _ => sevens) (by decide)
    exact ⟨data, henc, hbounds⟩
  · have hadd : (addBlob Platform.standard MutationInput.sample (some User.registered)
        ⟨"1234567", none, none⟩ Db.empty).1.blobs.rows.any (fun row => 24 ≤ row.content.length)
          = true := by decide +kernel
    obtain ⟨row, hrow, hlen⟩ := List.any_eq_true.1 hadd
    exact ⟨row, hrow, of_decide_eq_true hlen,
      ciphertext_size.2 _ _ _ _ _ row hrow List.not_mem_nil (by decide)⟩

end DaConcept.Node
