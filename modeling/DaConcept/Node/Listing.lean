import DaConcept.Lib.Registry
import DaConcept.Node.Accounts
import DaConcept.Node.Loaders
import DaConcept.Node.Reach

set_option autoImplicit false

/-! # What users see of their blobs

What a text that `add_blob` was given comes to when its author lists the blobs again. A registry of
the texts, by the UUIDs that were drawn for them, is kept along every run of a service
(`Recorded`): each row with the bytes of a UUID is what `add_blob` has written of a text for a
registered user, and what `add_blob` returns is on record. As the user's key never changes, the
listing decrypts all of it (`own_blobs_listed`), and the author of a blob is always found
(`owners_found`). -/

namespace DaConcept.Node

open Crypto

/-! ## What `add_blob` writes -/

/-- The user is in the table. -/
def Db.Registered (db : Db) (user : User) : Prop := ∃ row ∈ db.users.rows, row.decode = some user

/-- `add_blob` has written the row for the user, from this text; it may have been deleted since. -/
def BlobRow.WrittenBy (platform : Platform) (row : BlobRow) (user : User) (text : String) : Prop :=
  ∃ inp blobInput, blobInput.content = text ∧
    addBlobRow platform inp (some user) blobInput = some { row with deletedAt := none }

/-- The row is kept with what `add_blob` has returned, but for the text. -/
def Db.Keeps (db : Db) (schema : BlobSchema) : Prop :=
  ∃ row ∈ db.blobs.rows, row.id = schema.id.cell ∧ ∃ blob, row.decode = some blob ∧
    BlobSchema.from blob schema.content = schema

/-- What an `add_blob` that has inserted its row returns, or is going to return. -/
def Mutation.schema? : Mutation → Option BlobSchema
  | .addBlobSync blob content => some (BlobSchema.from blob content)
  | .returned (.ok (.addBlob schema)) => some schema
  | _ => none

section

variable {platform : Platform}

/-- Setting `deleted_at` changes nothing else about what a row decodes to. -/
theorem BlobRow.decode_deleted {row : BlobRow} {blob : Blob} (h : row.decode = some blob)
    (deletedAt : Option Timestamp) :
    { row with deletedAt := deletedAt }.decode = some { blob with deletedAt := deletedAt } := by
  simp only [BlobRow.decode, Option.bind_eq_bind, Option.bind_eq_some_iff, Option.pure_def,
    Option.some.injEq] at h ⊢
  obtain ⟨id, hid, size, hsize, ownerId, howner, rfl⟩ := h
  exact ⟨id, hid, size, hsize, ownerId, howner, rfl⟩

theorem Db.Keeps.write {db : Db} {schema : BlobSchema} (h : db.Keeps schema) (w : Write) :
    (w.onDb db).Keeps schema := by
  obtain ⟨row, hrow, hid, blob, hdecode, hschema⟩ := h
  rcases Write.blobs_onDb_of_mem w hrow with hkept | ⟨now, -, hdeleted⟩
  · exact ⟨row, hkept, hid, blob, hdecode, hschema⟩
  · exact ⟨_, hdeleted, hid, _, BlobRow.decode_deleted hdecode _, hschema⟩

/-- `add_blob` gets beyond its INSERT with the row that it has inserted. -/
theorem addBlob_schema {inp : MutationInput} {currentUser : Option User} {blobInput : BlobInput}
    {db : Db} {schema : BlobSchema}
    (h : (addBlob platform inp currentUser blobInput db).2.schema? = some schema) :
    ∃ user row blobs blob, currentUser = some user ∧
      addBlobRow platform inp (some user) blobInput = some row ∧ db.blobs.insert row = some blobs ∧
      row.decode = some blob ∧ schema = BlobSchema.from blob blobInput.content := by
  cases currentUser with
  | none => cases h
  | some user =>
      unfold addBlob at h
      simp only at h
      split at h
      · cases h
      · cases h
      · next content relatedPubkey hcontent =>
          split at h
          · cases h
          · next blobs hinsert =>
              split at h
              · next blob hdecode =>
                  obtain rfl := Option.some.inj h
                  exact ⟨user, _, blobs, blob, rfl, by simp only [addBlobRow, hcontent], hinsert,
                    hdecode, rfl⟩
              · cases h

/-- A mutation that returns a new blob has inserted it in this step, or already had. -/
theorem Mutation.schema_step {inp : MutationInput} {s s' : Shared} {m m' : Mutation}
    {schema : BlobSchema} (h : m.step platform inp s = some (s', m'))
    (hschema : m'.schema? = some schema) :
    m.schema? = some schema ∨ ∃ user blobInput row blobs blob, m = .addBlob (some user) blobInput ∧
      addBlobRow platform inp (some user) blobInput = some row ∧
      s.db.blobs.insert row = some blobs ∧ row.decode = some blob ∧
      schema = BlobSchema.from blob blobInput.content := by
  cases m with
  | addBlob currentUser blobInput =>
      simp only [Mutation.step, Option.some.injEq, Prod.mk.injEq] at h
      rw [← h.2] at hschema
      obtain ⟨user, row, blobs, blob, rfl, hrow, hinsert, hdecode, hfrom⟩ := addBlob_schema hschema
      exact Or.inr ⟨user, blobInput, row, blobs, blob, rfl, hrow, hinsert, hdecode, hfrom⟩
  | addBlobSync blob content =>
      cases h
      exact Or.inl hschema
  | deleteBlob currentUser blobId =>
      cases h
      cases currentUser with
      | none => cases hschema
      | some user =>
          unfold Node.deleteBlob at hschema
          simp only at hschema
          split at hschema
          · cases hschema
          · cases hschema
          · split at hschema <;> cases hschema
  | deleteBlobPending blobId =>
      simp only [Mutation.step] at h
      split at h <;> cases h <;> cases hschema
  | returned result => cases h
  | _ =>
      cases h
      cases hschema

/-! ## The texts on record -/

/-- A node and the texts of its users: what `add_blob` has written is on record with its author,
    what is on record has a row, and what `add_blob` returns is both. -/
structure Recorded (platform : Platform) (registered : User → Prop)
    (texts : Registry Uuid (User × String)) (n : DaNode) : Prop where
  rows : ∀ row ∈ n.shared.db.blobs.rows, row.Received ∨ ∃ u user text, row.id = u.cell ∧
    texts.Knows u (user, text) ∧ registered user ∧ row.WrittenBy platform user text
  known : ∀ u v, texts.Knows u v → ∃ row ∈ n.shared.db.blobs.rows, row.id = u.cell
  callers : ∀ user blobInput, .addBlob (some user) blobInput ∈ n.mutations → registered user
  returned : ∀ m ∈ n.mutations, ∀ schema, m.schema? = some schema →
    n.shared.db.Keeps schema ∧ ∃ user, texts.Knows schema.id (user, schema.content)

/-- The step is the INSERT of an `add_blob`, of a row for a text of the user. -/
structure DaNode.Adds (platform : Platform) (n : DaNode) (e : Event) (inp : MutationInput)
    (user : User) (blobInput : BlobInput) (row : BlobRow) : Prop where
  event : ∃ i, e = .mutation i inp ∧ n.mutations[i]? = some (.addBlob (some user) blobInput)
  added : addBlobRow platform inp (some user) blobInput = some row
  free : n.shared.db.blobs.lookup row.id = none

section

variable {n n' : DaNode} {e : Event} {inp inp' : MutationInput} {user user' : User}
  {blobInput blobInput' : BlobInput} {row row' : BlobRow}

/-- A step is at most one INSERT. -/
theorem DaNode.Adds.unique (h : n.Adds platform e inp user blobInput row)
    (h' : n.Adds platform e inp' user' blobInput' row') :
    inp' = inp ∧ user' = user ∧ blobInput' = blobInput ∧ row' = row := by
  obtain ⟨i, rfl, hi⟩ := h.event
  obtain ⟨i', he, hi'⟩ := h'.event
  cases he
  cases Option.some.inj (hi.symm.trans hi')
  exact ⟨rfl, rfl, rfl, Option.some.inj (h'.added.symm.trans h.added)⟩

/-- What is known of the row. -/
theorem DaNode.Adds.writtenBy (h : n.Adds platform e inp user blobInput row) :
    row.id = inp.newV4.cell ∧ row.WrittenBy platform user blobInput.content := by
  obtain ⟨user', content, relatedPubkey, huser, hrow⟩ := addBlobRow_eq_some h.added
  obtain rfl := Option.some.inj huser
  refine ⟨by rw [hrow]; rfl, inp, blobInput, rfl, h.added.trans ?_⟩
  rw [hrow]
  rfl

theorem DaNode.Adds.mem (h : n.Adds platform e inp user blobInput row)
    (hstep : n.step platform e = some n') : row ∈ n'.shared.db.blobs.rows := by
  obtain ⟨i, rfl, hi⟩ := h.event
  obtain ⟨blobs, hinsert⟩ := Table.exists_insert h.free
  have hwrite : n.write platform (.mutation i inp) = .insertBlob row :=
    DaNode.write_eq_insertBlob.2 (Or.inr ⟨i, inp, some user, blobInput, rfl, hi, h.added⟩)
  rw [DaNode.step_shared hstep, hwrite]
  simp only [Write.apply, Write.onDb, hinsert, Option.getD_some, Table.rows_of_insert hinsert]
  exact List.mem_append_right _ (List.mem_singleton_self _)

variable {registered : User → Prop} {texts : Registry Uuid (User × String)}

/-- The rows of a node are on record after a step, but for the one that it inserts. -/
theorem Recorded.rows_step (hn : Recorded platform registered texts n)
    (h : n.step platform e = some n') :
    (∀ row ∈ n'.shared.db.blobs.rows, row.Received ∨
      (∃ u user text, row.id = u.cell ∧ texts.Knows u (user, text) ∧ registered user ∧
        row.WrittenBy platform user text) ∨
      ∃ inp user blobInput, n.Adds platform e inp user blobInput row) ∧
    ∀ u v, texts.Knows u v → ∃ row ∈ n'.shared.db.blobs.rows, row.id = u.cell := by
  rw [DaNode.step_shared h]
  constructor
  · intro row hrow
    rcases Write.mem_blobs_onDb hrow with hold | ⟨hwrite, hfree⟩ | ⟨now, old, -, hold, rfl⟩
    · rcases hn.rows row hold with hreceived | hwritten
      · exact Or.inl hreceived
      · exact Or.inr (Or.inl hwritten)
    · rcases DaNode.write_eq_insertBlob.1 hwrite with
        ⟨i, inp, t, peerId, metadata, protoBlob, now, -, -, -, rfl⟩ |
        ⟨i, inp, currentUser, blobInput, rfl, hi, hadded⟩
      · exact Or.inl ⟨⟨_, rfl⟩, ⟨_, rfl⟩⟩
      · obtain ⟨user, -, -, rfl, -⟩ := addBlobRow_eq_some hadded
        exact Or.inr (Or.inr ⟨inp, user, blobInput, ⟨i, rfl, hi⟩, hadded, hfree⟩)
    · rcases hn.rows old hold with hreceived | hwritten
      · exact Or.inl hreceived
      · exact Or.inr (Or.inl hwritten)
  · intro u v hknows
    obtain ⟨row, hrow, hid⟩ := hn.known u v hknows
    rcases Write.blobs_onDb_of_mem (n.write platform e) hrow with hkept | ⟨now, -, hdeleted⟩
    · exact ⟨row, hkept, hid⟩
    · exact ⟨_, hdeleted, hid⟩

/-- What `add_blob` returns after a step is on record, or the step has inserted it. -/
theorem Recorded.returned_step (hn : Recorded platform registered texts n)
    (h : n.step platform e = some n') {m' : Mutation} (hm' : m' ∈ n'.mutations)
    {schema : BlobSchema} (hschema : m'.schema? = some schema) :
    (n'.shared.db.Keeps schema ∧ ∃ user, texts.Knows schema.id (user, schema.content)) ∨
    ∃ inp user blobInput row blob, n.Adds platform e inp user blobInput row ∧
      row.decode = some blob ∧ schema = BlobSchema.from blob blobInput.content := by
  have hkeep {m : Mutation} (hm : m ∈ n.mutations) (hschema : m.schema? = some schema) :
      n'.shared.db.Keeps schema ∧ ∃ user, texts.Knows schema.id (user, schema.content) := by
    obtain ⟨hkeeps, hknows⟩ := hn.returned m hm schema hschema
    rw [DaNode.step_shared h]
    exact ⟨hkeeps.write _, hknows⟩
  obtain ⟨i, hi⟩ := List.getElem?_of_mem hm'
  rcases DaNode.mutations_step h hi with hold | ⟨hstart, -⟩ | ⟨inp, m, s, rfl, hi, hstep⟩
  · exact Or.inl (hkeep (List.mem_of_getElem? hold) hschema)
  · cases e with
    | addBlob currentUser blobInput =>
        obtain rfl := Option.some.inj hstart
        cases hschema
    | deleteBlob currentUser blobId =>
        obtain rfl := Option.some.inj hstart
        cases hschema
    | _ => cases hstart
  · rcases Mutation.schema_step hstep hschema with
      hbefore | ⟨user, blobInput, row, blobs, blob, rfl, hrow, hinsert, hdecode, hfrom⟩
    · exact Or.inl (hkeep (List.mem_of_getElem? hi) hbefore)
    · exact Or.inr ⟨inp, user, blobInput, row, blob,
        ⟨⟨i, rfl, hi⟩, hrow, Table.lookup_eq_none_of_insert hinsert⟩, hdecode, hfrom⟩

/-- **Every step keeps the record**, or extends it by the text whose row it inserts. -/
theorem Recorded.step (hn : Recorded platform registered texts n)
    (hcaller : ∀ user blobInput, e.mutation? = some (.addBlob (some user) blobInput) →
      registered user)
    (h : n.step platform e = some n') :
    ∃ texts', texts.ExtendedBy texts' ∧ Recorded platform registered texts' n' := by
  obtain ⟨hrows, hknown⟩ := hn.rows_step h
  have hcallers : ∀ user blobInput, .addBlob (some user) blobInput ∈ n'.mutations →
      registered user := by
    intro user blobInput hmem
    obtain ⟨i, hi⟩ := List.getElem?_of_mem hmem
    rcases DaNode.mutations_step h hi with hold | ⟨hstart, -⟩ | ⟨inp, m, s, rfl, -, hstep⟩
    · exact hn.callers user blobInput (List.mem_of_getElem? hold)
    · exact hcaller user blobInput hstart
    · cases Mutation.next_of_step hstep
  by_cases hnew : ∃ inp user blobInput row, n.Adds platform e inp user blobInput row
  · obtain ⟨inp, user, blobInput, row, hadds⟩ := hnew
    obtain ⟨hid, hwritten⟩ := hadds.writtenBy
    have hfresh : ∀ v, ¬ texts.Knows inp.newV4 v := by
      intro v hknows
      obtain ⟨old, hold, hold'⟩ := hn.known _ v hknows
      exact Table.lookup_eq_none_iff.1 hadds.free old hold (hold'.trans hid.symm)
    have hext := Registry.extendedBy_register hfresh (user, blobInput.content)
    have hmine := Registry.knows_register texts inp.newV4 (user, blobInput.content)
    refine ⟨_, hext, fun row' hrow' => ?_, fun u v hknows => ?_, hcallers,
      fun m' hm' schema hschema => ?_⟩
    · rcases hrows row' hrow' with hreceived | ⟨u, v, text, hu, hknows, hold⟩ |
        ⟨inp', user', blobInput', hadds'⟩
      · exact Or.inl hreceived
      · exact Or.inr ⟨u, v, text, hu, hext _ _ hknows, hold⟩
      · obtain ⟨rfl, rfl, rfl, rfl⟩ := hadds.unique hadds'
        obtain ⟨i, -, hi⟩ := hadds.event
        exact Or.inr ⟨_, _, _, hid, hmine, hn.callers _ _ (List.mem_of_getElem? hi), hwritten⟩
    · rcases Registry.knows_register_iff.1 hknows with ⟨rfl, -⟩ | ⟨-, hold⟩
      · exact ⟨row, hadds.mem h, hid⟩
      · exact hknown u v hold
    · rcases hn.returned_step h hm' hschema with ⟨hkeeps, v, hknows⟩ |
        ⟨inp', user', blobInput', row', blob, hadds', hdecode, rfl⟩
      · exact ⟨hkeeps, v, hext _ _ hknows⟩
      · obtain ⟨rfl, rfl, rfl, rfl⟩ := hadds.unique hadds'
        have hschemaId : (BlobSchema.from blob blobInput'.content).id = inp'.newV4 := by
          have hdecodeId := (BlobRow.decode_eq_some hdecode).1
          rw [hid, Uuid.decodeUuid_cell, Option.some.injEq] at hdecodeId
          exact hdecodeId.symm
        rw [hschemaId]
        exact ⟨⟨_, hadds.mem h, by rw [hid, hschemaId], blob, hdecode, rfl⟩, _, hmine⟩
  · refine ⟨texts, .refl texts, fun row hrow => ?_, hknown, hcallers,
      fun m' hm' schema hschema => ?_⟩
    · rcases hrows row hrow with hreceived | hwritten | ⟨inp, user, blobInput, hadds⟩
      · exact Or.inl hreceived
      · exact Or.inr hwritten
      · exact absurd ⟨inp, user, blobInput, row, hadds⟩ hnew
    · rcases hn.returned_step h hm' hschema with hold |
        ⟨inp, user, blobInput, row, blob, hadds, -⟩
      · exact hold
      · exact absurd ⟨inp, user, blobInput, row, hadds⟩ hnew

theorem Recorded.mono {registered' : User → Prop} (hn : Recorded platform registered texts n)
    (hregistered : ∀ user, registered user → registered' user) :
    Recorded platform registered' texts n where
  rows row hrow := by
    rcases hn.rows row hrow with hreceived | ⟨u, user, text, hid, hknows, huser, hwritten⟩
    · exact Or.inl hreceived
    · exact Or.inr ⟨u, user, text, hid, hknows, hregistered user huser, hwritten⟩
  known := hn.known
  callers user blobInput hm := hregistered user (hn.callers user blobInput hm)
  returned := hn.returned

/-- The record is one of the blobs and the mutations. -/
theorem Recorded.congr (hn : Recorded platform registered texts n)
    (hblobs : n'.shared.db.blobs = n.shared.db.blobs) (hmutations : n'.mutations = n.mutations) :
    Recorded platform registered texts n' where
  rows := by
    rw [hblobs]
    exact hn.rows
  known := by
    rw [hblobs]
    exact hn.known
  callers := by
    rw [hmutations]
    exact hn.callers
  returned := by
    rw [hmutations]
    simp only [Db.Keeps, hblobs]
    exact hn.returned

end

end

/-! ## Along a run of a service -/

section

variable {platform : Platform} {auth : Auth}

theorem Db.Registered.mono {db db' : Db} {user : User} (h : db.Registered user)
    (hsub : db.users.rows ⊆ db'.users.rows) : db'.Registered user := by
  obtain ⟨row, hrow, hdecode⟩ := h
  exact ⟨row, hsub hrow, hdecode⟩

/-- The users of a service, its contexts and the record. -/
structure Service.Kept (platform : Platform) (auth : Auth) (texts : Registry Uuid (User × String))
    (s : Service) : Prop where
  accounts : s.db.Accounts platform
  sound : s.Sound auth
  recorded : Recorded platform s.db.Registered texts s.node

theorem Service.kept_step {texts : Registry Uuid (User × String)} {s s' : Service}
    {e : ServiceEvent} (hs : s.Kept platform auth texts) (h : s.step platform auth e = some s') :
    ∃ texts', texts.ExtendedBy texts' ∧ s'.Kept platform auth texts' := by
  have haccounts := Service.accounts_step hs.accounts h
  have hsound := hs.sound.step hs.accounts h
  have hsub := (Service.users_prefix_step h).subset
  have hregistered : ∀ user, s.db.Registered user → s'.db.Registered user :=
    fun user huser => huser.mono hsub
  suffices hrecorded : ∃ texts', texts.ExtendedBy texts' ∧
      Recorded platform s'.db.Registered texts' s'.node by
    obtain ⟨texts', hext, hrecorded⟩ := hrecorded
    exact ⟨texts', hext, haccounts, hsound, hrecorded⟩
  have hnode {e : Event} {node : DaNode} (hstep : s.node.step platform e = some node)
      (hcaller : ∀ user blobInput, e.mutation? = some (.addBlob (some user) blobInput) →
        s.db.Registered user) :
      ∃ texts', texts.ExtendedBy texts' ∧ Recorded platform s'.db.Registered texts' node := by
    obtain ⟨texts', hext, hrecorded⟩ := hs.recorded.step hcaller hstep
    exact ⟨texts', hext, hrecorded.mono hregistered⟩
  cases Service.next_of_step h with
  | node hown hstep =>
      refine hnode hstep fun user blobInput hstart => ?_
      rw [hown] at hstart
      cases hstart
  | restarted config peers =>
      exact ⟨texts, .refl texts, hs.recorded.rows, hs.recorded.known,
        fun _ _ hm => absurd hm List.not_mem_nil, List.forall_mem_nil _⟩
  | registered inp input =>
      exact ⟨texts, .refl texts, (hs.recorded.mono hregistered).congr
        (register_blobs platform auth inp input s.db).1 rfl⟩
  | @added i blobInput c node hc hstep =>
      refine hnode hstep fun user blobInput' hstart => ?_
      have huser : c.currentUser = some user := (Mutation.addBlob.inj (Option.some.inj hstart)).1
      obtain ⟨row, hrow, hid, heq⟩ := hs.sound.contexts c (List.mem_of_getElem? hc) user huser
      exact ⟨row, hrow, by rw [UserRow.decode_of_id hid, ← heq]⟩
  | deleted hc hstep => exact hnode hstep fun user blobInput hstart => nomatch hstart
  | _ => exact ⟨texts, .refl texts, hs.recorded⟩

theorem Service.kept_exec {texts : Registry Uuid (User × String)} {s t : Service}
    {es : List ServiceEvent} (hs : s.Kept platform auth texts)
    (h : Run.exec (Service.step platform auth) s es = some t) :
    ∃ texts', texts.ExtendedBy texts' ∧ t.Kept platform auth texts' := by
  refine Run.exec_invariant
    (I := fun t => ∃ texts', texts.ExtendedBy texts' ∧ t.Kept platform auth texts') ?_
    ⟨texts, .refl texts, hs⟩ h
  rintro t e t' ⟨texts₁, hext₁, ht⟩ hstep
  obtain ⟨texts₂, hext₂, ht'⟩ := Service.kept_step ht hstep
  exact ⟨texts₂, fun u v hknows => hext₂ u v (hext₁ u v hknows), ht'⟩

theorem Service.kept_start (config : P2PConfig) (peers : Peers) :
    (Service.start config peers).Kept platform auth .empty where
  accounts := accounts_empty platform
  sound := ⟨List.forall_mem_nil _, List.forall_mem_nil _⟩
  recorded :=
    { rows := List.forall_mem_nil _
      known := fun _ _ hknows => absurd hknows Registry.not_knows_empty
      callers := fun _ _ hm => absurd hm List.not_mem_nil
      returned := List.forall_mem_nil _ }

/-- What a returned blob is kept as stays, restarts included. -/
theorem Service.keeps_exec {s t : Service} {es : List ServiceEvent} {schema : BlobSchema}
    (hs : s.db.Keeps schema) (h : Run.exec (Service.step platform auth) s es = some t) :
    t.db.Keeps schema := by
  refine Run.exec_invariant (I := fun t : Service => t.db.Keeps schema) ?_ hs h
  intro t e t' ht hnext
  have hnode {e : Event} {node : DaNode} (hstep : t.node.step platform e = some node) :
      node.shared.db.Keeps schema := by
    rw [DaNode.step_shared hstep]
    exact ht.write _
  cases Service.next_of_step hnext with
  | node hown hstep => exact hnode hstep
  | registered inp input =>
      obtain ⟨row, hrow, hkept⟩ := ht
      exact ⟨row, (register_blobs platform auth inp input t.db).1 ▸ hrow, hkept⟩
  | added hc hstep => exact hnode hstep
  | deleted hc hstep => exact hnode hstep
  | _ => exact ht

end

/-! ## What the author sees -/

section

variable {platform : Platform}

/-- What `encrypt` writes does not depend on the errors of the caller. -/
theorem encrypt_eq_ok_congr {ε δ : Type} {bs data : Bytes} {n : Nat} {draw : Nat → RandomBytes}
    (h : (encrypt bs (PrivateKey.from n) draw : Outcome ε Bytes) = .ok data) :
    (encrypt bs (PrivateKey.from n) draw : Outcome δ Bytes) = .ok data := by
  have hchunks (chunks : List UInt32) (i : Nat) (cts : List Ciphertext) :
      (encryptChunks (PrivateKey.from n).publicKey draw i chunks : Outcome ε _) = .ok cts →
      (encryptChunks (PrivateKey.from n).publicKey draw i chunks : Outcome δ _) = .ok cts := by
    induction chunks generalizing i cts with
    | nil =>
        intro hnil
        rw [← Outcome.ok.inj hnil]
        rfl
    | cons chunk chunks ih =>
        simp only [encryptChunks, Outcome.bind_eq_ok, Outcome.pure_eq, Outcome.ok.injEq]
        rintro ⟨ct, hct, rest, hrest, heq⟩
        refine ⟨ct, ?_, rest, ih _ _ hrest, heq⟩
        cases hencrypt : (PrivateKey.from n).publicKey.encrypt chunk.toNat (draw i) with
        | ok ct' =>
            rw [hencrypt] at hct
            cases hct
            rfl
        | error e =>
            rw [hencrypt] at hct
            cases hct
  simp only [encrypt, Outcome.bind_eq_ok, Outcome.pure_eq, Outcome.ok.injEq] at h ⊢
  obtain ⟨cts, hcts, hdata⟩ := h
  exact ⟨cts, hchunks _ _ _ hcts, hdata⟩

theorem BlobRow.WrittenBy.ownerId {row : BlobRow} {user : User} {text : String}
    (h : row.WrittenBy platform user text) : row.ownerId = user.id.cell := by
  obtain ⟨inp, blobInput, -, hrow⟩ := h
  obtain ⟨_, content, relatedPubkey, hsome, hfields⟩ := addBlobRow_eq_some hrow
  obtain rfl := Option.some.inj hsome
  exact congrArg BlobRow.ownerId hfields

/-- A row of a text decodes as long as its size is one of an `i32`. -/
theorem BlobRow.WrittenBy.decode_isSome_iff {row : BlobRow} {user : User} {text : String}
    (h : row.WrittenBy platform user text) :
    row.decode.isSome ↔ row.content.length < 2 ^ 31 := by
  have howner := h.ownerId
  obtain ⟨inp, blobInput, rfl, hrow⟩ := h
  obtain ⟨-, -, -, -, -, hsize, -⟩ := addBlobRow_content hrow
  obtain ⟨author, content, relatedPubkey, -, hfields⟩ := addBlobRow_eq_some hrow
  have hid : row.id = inp.newV4.cell := congrArg BlobRow.id hfields
  have hsize : row.size = row.content.length := hsize
  rw [Option.isSome_iff_exists]
  constructor
  · rintro ⟨blob, hdecode⟩
    have hfits := decodeI32_eq_some_iff.1 (BlobRow.decode_eq_some hdecode).2.1
    have hlt := Int32.toInt_lt blob.size
    rw [hfits, hsize] at hlt
    omega
  · intro hlt
    obtain ⟨size, hfits, -⟩ := exists_decodeI32 (i := row.size) (by omega) (by omega)
    simp only [BlobRow.decode, hid, howner, hfits, Uuid.decodeUuid_cell]
    exact ⟨_, rfl⟩

/-- **What the author sees of a text**: all of it but the NULs at its end, unless a group of four of
    its bytes is zero. -/
theorem BlobRow.WrittenBy.shownContent {row : BlobRow} {user : User} {text : String} {blob : Blob}
    {privateKey : PrivateKey} (h : row.WrittenBy platform user text)
    (hkey : PrivateKey.tryFrom platform.base64 user.privateKey = .ok privateKey)
    (hdecode : row.decode = some blob) :
    shownContent platform privateKey blob
      = if HasZeroGroup (utf8 text) then .panic else .ok (trimNuls text) := by
  have hlen := h.decode_isSome_iff.1 (by rw [hdecode]; rfl)
  obtain ⟨inp, blobInput, rfl, hrow⟩ := h
  obtain ⟨_, n, huser, hkey', henc, -, hpublic⟩ := addBlobRow_content hrow
  obtain rfl := Option.some.inj huser
  obtain rfl := Except.ok.inj (hkey'.symm.trans hkey)
  obtain ⟨-, -, -, hcontent, -, -, -, hblobKey, -⟩ := BlobRow.decode_eq_some hdecode
  -- a text that is stored in fewer than 2 ^ 31 bytes has fewer than 2 ^ 32 groups
  obtain ⟨cts, henc', -, -, hbound, -⟩ :=
    encrypt_size (ε := FieldError) n (utf8 blobInput.content) inp.draw
  rw [← Outcome.ok.inj (henc.symm.trans henc')] at hbound
  have hgroups := chunks4_length (utf8 blobInput.content)
  have hlen : row.content.length < 2 ^ 31 := hlen
  have hbound : 4 + 10 * (((utf8 blobInput.content).length + 3) / 4) ≤ row.content.length := hbound
  have hdec := decrypt_encrypt n (utf8 blobInput.content) inp.draw (by omega)
  rw [encrypt_eq_ok_congr henc, Outcome.ok_bind] at hdec
  rw [Node.shownContent, if_pos (hblobKey.trans hpublic), hcontent]
  rw [← utf8_trimNuls, (fromUtf8_eq_ok_iff _ _).2 rfl] at hdec
  rw [show decrypt row.content (PrivateKey.from n) = _ from hdec]
  split <;> rfl

/-- The user's live blobs, as the query yields them. -/
def Context.own (context : Context) (user : User) : List BlobRow :=
  context.blobScan.filter (fun row => row.ownerId = user.id.cell && row.live)

/-- The row with its text as `UserSchema::blobs` shows it, if it decodes. -/
def BlobRow.shown (text : Uuid → String) (row : BlobRow) : Option BlobSchema :=
  row.decode.map (fun blob => BlobSchema.from blob (trimNuls (text blob.id)))

/-- The group of the row's text is zero. -/
def BlobRow.Garbles (text : Uuid → String) (row : BlobRow) : Prop :=
  ∃ u : Uuid, row.id = u.cell ∧ HasZeroGroup (utf8 (text u))

/-- The listing of a user's own blobs, with the key imported. -/
theorem Context.blobsOf_own {context : Context} {user : User} {privateKey : PrivateKey}
    (hcurrent : context.currentUser = some user)
    (hkey : PrivateKey.tryFrom platform.base64 user.privateKey = .ok privateKey) :
    context.blobsOf platform user.id = (fetchAll (context.own user) >>=
      Outcome.traverse (fun blob => do
        let content ← Node.shownContent platform privateKey blob
        pure (BlobSchema.from blob content))) := by
  rw [Context.blobsOf, hcurrent]
  simp only [hkey]
  rfl

/-- **A listing of rows whose texts are known**: each text is shown, unless a row does not decode,
    which is an error, or a text is garbled, which is a panic. -/
theorem Context.blobsOf_eq {context : Context} {user : User} {privateKey : PrivateKey}
    {text : Uuid → String} (hcurrent : context.currentUser = some user)
    (hkey : PrivateKey.tryFrom platform.base64 user.privateKey = .ok privateKey)
    (hown : ∀ row ∈ context.own user,
      ∃ u : Uuid, row.id = u.cell ∧ row.WrittenBy platform user (text u)) :
    ((∃ row ∈ context.own user, 2 ^ 31 ≤ row.content.length) →
      context.blobsOf platform user.id = .err (.database .columnDecode)) ∧
    ((∀ row ∈ context.own user, row.content.length < 2 ^ 31) →
      ((∃ row ∈ context.own user, row.Garbles text) →
        context.blobsOf platform user.id = .panic) ∧
      ((∀ row ∈ context.own user, ¬ row.Garbles text) →
        context.blobsOf platform user.id
          = .ok ((context.own user).filterMap (BlobRow.shown text)))) := by
  have hdecodes : ∀ row ∈ context.own user,
      (row.decode.isSome ↔ row.content.length < 2 ^ 31) := by
    intro row hrow
    obtain ⟨u, -, hwritten⟩ := hown row hrow
    exact hwritten.decode_isSome_iff
  rw [Context.blobsOf_own hcurrent hkey]
  constructor
  · rintro ⟨row, hrow, hlen⟩
    have hdecode : row.decode = none := by
      rw [← Option.not_isSome_iff_eq_none, hdecodes row hrow]
      omega
    rw [fetchAll, mapM_eq_none_of_mem hrow hdecode]
    rfl
  · intro hlen
    obtain ⟨blobs, hblobs⟩ :=
      mapM_eq_some_of_forall (fun row hrow => (hdecodes row hrow).2 (hlen row hrow))
    -- what is shown of each blob
    have hshown : ∀ blob ∈ blobs, ∃ row ∈ context.own user, row.id = blob.id.cell ∧
        Node.shownContent platform privateKey blob
          = if HasZeroGroup (utf8 (text blob.id)) then .panic
            else .ok (trimNuls (text blob.id)) := by
      intro blob hblob
      obtain ⟨row, hrow, hdecode⟩ := (mem_of_mapM_eq_some hblobs).1 hblob
      obtain ⟨u, hid, hwritten⟩ := hown row hrow
      have hu := (BlobRow.decode_eq_some hdecode).1
      rw [hid, Uuid.decodeUuid_cell, Option.some.injEq] at hu
      subst hu
      exact ⟨row, hrow, hid, hwritten.shownContent hkey hdecode⟩
    rw [fetchAll, hblobs, Outcome.ok_bind]
    constructor
    · rintro ⟨row, hrow, u, hid, hzero⟩
      refine Outcome.traverse_eq_panic (fun blob hblob => ?_) ?_
      · obtain ⟨-, -, -, hcontent⟩ := hshown blob hblob
        rw [hcontent]
        split
        · exact Or.inr rfl
        · exact Or.inl ⟨_, rfl⟩
      · obtain ⟨blob, hdecode⟩ :=
          Option.isSome_iff_exists.1 ((hdecodes row hrow).2 (hlen row hrow))
        have hblob := (mem_of_mapM_eq_some hblobs).2 ⟨row, hrow, hdecode⟩
        have hu := (BlobRow.decode_eq_some hdecode).1
        rw [hid, Uuid.decodeUuid_cell, Option.some.injEq] at hu
        subst hu
        obtain ⟨-, -, -, hcontent⟩ := hshown blob hblob
        rw [if_pos hzero] at hcontent
        exact ⟨blob, hblob, by rw [hcontent]; rfl⟩
    · intro hclean
      have hlist : (context.own user).filterMap (BlobRow.shown text)
          = blobs.map (fun blob => BlobSchema.from blob (trimNuls (text blob.id))) := by
        calc (context.own user).filterMap (BlobRow.shown text)
            = ((context.own user).map BlobRow.decode).filterMap
                (Option.map (fun blob => BlobSchema.from blob (trimNuls (text blob.id)))) :=
              List.filterMap_map.symm
          _ = blobs.map (fun blob => BlobSchema.from blob (trimNuls (text blob.id))) := by
              rw [map_eq_of_mapM_eq_some hblobs, List.filterMap_map]
              exact congrFun List.filterMap_eq_map blobs
      rw [hlist]
      refine Outcome.traverse_eq_map fun blob hblob => ?_
      obtain ⟨row, hrow, hid, hcontent⟩ := hshown blob hblob
      rw [hcontent, if_neg fun hzero => hclean row hrow ⟨blob.id, hid, hzero⟩]
      rfl

variable {auth : Auth}

/-- The row of a registered user. -/
theorem Db.Accounts.row_of_registered {db : Db} {user : User} (hdb : db.Accounts platform)
    (h : db.Registered user) :
    ∃ row ∈ db.users.rows, row.id = user.id.cell ∧ user = row.user user.id := by
  obtain ⟨row, hrow, hdecode⟩ := h
  obtain ⟨id, hid⟩ := hdb.ids row hrow
  rw [UserRow.decode_of_id hid, Option.some.injEq] at hdecode
  subst hdecode
  exact ⟨row, hrow, hid, rfl⟩

/-- Two registered users are told apart by their ids. -/
theorem Db.Accounts.eq_of_id {db : Db} {user user' : User} (hdb : db.Accounts platform)
    (h : db.Registered user) (h' : db.Registered user') (hid : user'.id = user.id) :
    user' = user := by
  obtain ⟨row, hrow, hcell, hfields⟩ := hdb.row_of_registered h
  obtain ⟨row', hrow', hcell', hfields'⟩ := hdb.row_of_registered h'
  obtain rfl : row' = row := Table.eq_of_mem hrow' hrow (by rw [hcell, hcell', hid])
  rw [hfields', hfields, hid]

/-- **What users see of their blobs.** In whatever state a service gets to, restarts included, each
    text that `add_blob` has returned still has its row, and every blob of a registered user is one
    of these texts. When the user lists the blobs, each live one shows its text, but for the NULs
    at its end; a text with a group of four zero bytes makes the listing panic, and one that is
    stored in 2 ^ 31 bytes or more makes it fail. -/
theorem own_blobs_listed
    (hbase64 : ∀ bs, platform.base64.decode (platform.base64.encode bs) = .ok bs)
    {config : P2PConfig} {peers : Peers} {es₁ es₂ : List ServiceEvent} {s t : Service}
    (h₁ : Run.exec (Service.step platform auth) (.start config peers) es₁ = some s)
    (h₂ : Run.exec (Service.step platform auth) s es₂ = some t)
    {context : Context} {user : User} (huser : t.db.Registered user)
    (hcurrent : context.currentUser = some user)
    (hscan : context.blobScan.Perm t.db.blobs.rows) :
    ∃ text : Uuid → String,
      (∀ schema, .returned (.ok (.addBlob schema)) ∈ s.node.mutations →
        t.db.Keeps schema ∧ text schema.id = schema.content) ∧
      (∀ row ∈ context.own user,
        ∃ u : Uuid, row.id = u.cell ∧ row.WrittenBy platform user (text u)) ∧
      ((∃ row ∈ context.own user, 2 ^ 31 ≤ row.content.length) →
        context.blobsOf platform user.id = .err (.database .columnDecode)) ∧
      ((∀ row ∈ context.own user, row.content.length < 2 ^ 31) →
        ((∃ row ∈ context.own user, row.Garbles text) →
          context.blobsOf platform user.id = .panic) ∧
        ((∀ row ∈ context.own user, ¬ row.Garbles text) →
          context.blobsOf platform user.id
            = .ok ((context.own user).filterMap (BlobRow.shown text)))) := by
  obtain ⟨texts₁, -, hs⟩ := Service.kept_exec (Service.kept_start config peers) h₁
  obtain ⟨texts₂, hext, ht⟩ := Service.kept_exec hs h₂
  let text (u : Uuid) : String := ((texts₂ u).map Prod.snd).getD ""
  have htext {u : Uuid} {author : User} {content : String}
      (hknows : texts₂.Knows u (author, content)) : text u = content := by
    simp only [text, show texts₂ u = some (author, content) from hknows]
    rfl
  have hown : ∀ row ∈ context.own user,
      ∃ u : Uuid, row.id = u.cell ∧ row.WrittenBy platform user (text u) := by
    intro row hrow
    rw [Context.own, List.mem_filter, Bool.and_eq_true, decide_eq_true_eq] at hrow
    rcases ht.recorded.rows row (hscan.mem_iff.1 hrow.1) with
      ⟨-, ownerId, htextual⟩ | ⟨u, author, content, hid, hknows, hauthor, hwritten⟩
    · rw [hrow.2.1] at htextual
      cases htextual
    · have hsame : author = user := ht.accounts.eq_of_id huser hauthor
        (Uuid.cell_inj.1 (hwritten.ownerId.symm.trans hrow.2.1))
      subst hsame
      exact ⟨u, hid, htext hknows ▸ hwritten⟩
  obtain ⟨random, hkey⟩ : ∃ random, PrivateKey.tryFrom platform.base64 user.privateKey
      = .ok (PrivateKey.generate random) := by
    obtain ⟨row, hrow, hdecode⟩ := huser
    obtain ⟨random, hstored⟩ := ht.accounts.keys row hrow
    refine ⟨random, ?_⟩
    rw [UserRow.decode_privateKey hdecode, hstored]
    exact PrivateKey.tryFrom_getEncodedPrivateKey hbase64 _
  refine ⟨text, fun schema hreturned => ?_, hown, Context.blobsOf_eq hcurrent hkey hown⟩
  obtain ⟨hkeeps, author, hknows⟩ := hs.recorded.returned _ hreturned schema rfl
  exact ⟨Service.keeps_exec hkeeps h₂, htext (hext _ _ hknows)⟩

/-- Alice adds "hi" with a NUL behind it; the statement of the INSERT and the call of `sync_blob`
    follow. -/
def ServiceEvent.sampleAdd : List ServiceEvent :=
  ServiceEvent.sample ++ [.addBlob 0 ⟨"hi\x00", none, none⟩,
    .node (.mutation 0 MutationInput.sample), .node (.mutation 0 MutationInput.sample)]

/-- A request of the user; the rows come as they were inserted, and ids are loaded one by one. -/
def Context.plain (user : User) (db : Db) : Context :=
  ⟨some user, db, db.blobs.rows, fun _ => [], fun _ => []⟩

/-- Alice is shown "hi". -/
theorem own_blobs_listed_sample :
    ∃ t user, Run.exec (Service.step Platform.standard Auth.sample) Service.sample
        ServiceEvent.sampleAdd = some t ∧ t.db.Registered user ∧
      ∃ blobs, (Context.plain user t.db).blobsOf Platform.standard user.id = .ok blobs ∧
        blobs.map (·.content) = ["hi"] := by
  have hrun : (Run.exec (Service.step Platform.standard Auth.sample) Service.sample
      ServiceEvent.sampleAdd).any (fun t =>
        t.db.users.rows.any (fun r => r.decode.map User.id = some (Uuid.sample 1)) &&
        t.db.blobs.rows.map (fun r => (r.id, r.ownerId, r.live, decide (r.content.length < 100)))
          = [((Uuid.sample 2).cell, (Uuid.sample 1).cell, true, true)] &&
        t.node.mutations = t.db.blobs.rows.filterMap (fun r => r.decode.map (fun blob =>
          .returned (.ok (.addBlob (BlobSchema.from blob "hi\x00")))))) = true := by
    decide +kernel
  obtain ⟨t, ht, hstate⟩ := (Option.any_eq_true _ _).1 hrun
  simp only [Bool.and_eq_true, decide_eq_true_eq, List.any_eq_true, Option.map_eq_some_iff,
    List.map_eq_singleton_iff, Prod.mk.injEq] at hstate
  obtain ⟨⟨⟨userRow, huserRow, user, hdecode, hid⟩, row, hrows, hrowId, howner, hlive, hlen⟩,
    hmutations⟩ := hstate
  have hregistered : t.db.Registered user := ⟨userRow, huserRow, hdecode⟩
  have hstay : Run.exec (Service.step Platform.standard Auth.sample) t [] = some t := rfl
  have hcurrent : (Context.plain user t.db).currentUser = some user := rfl
  have hscan : (Context.plain user t.db).blobScan.Perm t.db.blobs.rows := List.Perm.refl _
  obtain ⟨text, htexts, hown, -, hlist⟩ :=
    own_blobs_listed Base64.standard_decode_encode ht hstay hregistered hcurrent hscan
  have hmine : (Context.plain user t.db).own user = [row] := by
    simp [Context.own, Context.plain, hrows, howner, hid, hlive]
  rw [hmine] at hown hlist
  simp only [List.forall_mem_singleton] at hown hlist
  obtain ⟨u, hu, hwritten⟩ := hown
  obtain rfl : Uuid.sample 2 = u := Uuid.cell_inj.1 (hrowId.symm.trans hu)
  obtain ⟨blob, hblob⟩ := Option.isSome_iff_exists.1 (hwritten.decode_isSome_iff.2 (by omega))
  have hblobId := (BlobRow.decode_eq_some hblob).1
  rw [hrowId, Uuid.decodeUuid_cell, Option.some.injEq] at hblobId
  have htext : text (Uuid.sample 2) = "hi\x00" := by
    have hreturned : .returned (.ok (.addBlob (BlobSchema.from blob "hi\x00")))
        ∈ t.node.mutations := by
      rw [hmutations, hrows]
      simp [hblob]
    rw [hblobId]
    exact (htexts _ hreturned).2
  have hclean : ¬ row.Garbles text := by
    rintro ⟨u, hu', hzero⟩
    obtain rfl : Uuid.sample 2 = u := Uuid.cell_inj.1 (hrowId.symm.trans hu')
    rw [htext] at hzero
    exact absurd hzero (by decide +kernel)
  refine ⟨t, user, ht, hregistered, _, (hlist (by omega)).2 hclean, ?_⟩
  have hshown : row.shown text = some (BlobSchema.from blob (trimNuls (text blob.id))) := by
    rw [BlobRow.shown, hblob]
    rfl
  have htrim : trimNuls "hi\x00" = "hi" := by decide +kernel
  rw [List.filterMap_cons_some hshown, ← hblobId, htext, htrim]
  rfl

/-- A listed blob comes from a live row of the user. -/
theorem exists_row_of_blobsOf {context : Context} {id : Uuid} {blobs : List BlobSchema}
    (h : context.blobsOf platform id = .ok blobs) {schema : BlobSchema} (hschema : schema ∈ blobs) :
    ∃ row ∈ context.blobScan, row.ownerId = id.cell ∧ ∃ blob content, row.decode = some blob ∧
      schema = BlobSchema.from blob content := by
  unfold Context.blobsOf at h
  split at h
  · cases h
  · simp only [Outcome.bind_eq_ok] at h
    obtain ⟨fetched, hfetched, privateKey, -, htraverse⟩ := h
    obtain ⟨blob, hblob, hfrom⟩ := Outcome.mem_of_traverse_eq_ok htraverse hschema
    simp only [Outcome.bind_eq_ok, Outcome.pure_eq, Outcome.ok.injEq] at hfrom
    obtain ⟨content, -, rfl⟩ := hfrom
    obtain ⟨row, hrow, hdecode⟩ := mem_fetchAll hfetched hblob
    rw [List.mem_filter, Bool.and_eq_true, decide_eq_true_eq] at hrow
    exact ⟨row, hrow.1, hrow.2.1, blob, content, hdecode, rfl⟩

/-- **Owners are found.** Whatever a service goes through, the blobs that are loaded by their ids,
    and those that are listed for a user, are ones that `add_blob` has inserted for a registered
    user, and their owner is loaded, whichever ids are loaded with it. -/
theorem owners_found {config : P2PConfig} {peers : Peers} {es : List ServiceEvent} {s : Service}
    (h : Run.exec (Service.step platform auth) (.start config peers) es = some s)
    {context : Context} (hdb : context.db = s.db)
    (hscan : context.blobScan.Perm s.db.blobs.rows) :
    (∀ id blob, context.loadBlob id = .ok blob → blob.id = id ∧ blob.deletedAt = none ∧
      ∃ user, s.db.Registered user ∧ context.loadUser blob.ownerId = .ok user) ∧
    ∀ id blobs, context.blobsOf platform id = .ok blobs → blobs ≠ [] →
      ∃ user, s.db.Registered user ∧ user.id = id ∧
        ∀ blob ∈ blobs, context.loadUser blob.ownerId = .ok user := by
  obtain ⟨texts, -, hs⟩ := Service.kept_exec (Service.kept_start config peers) h
  -- the owner of a row with the bytes of a UUID
  have howner {row : BlobRow} {blob : Blob} (hrow : row ∈ s.db.blobs.rows)
      (hadded : ¬ row.Received) (hdecode : row.decode = some blob) :
      ∃ user, s.db.Registered user ∧ user.id = blob.ownerId ∧
        context.loadUser blob.ownerId = .ok user := by
    rcases hs.recorded.rows row hrow with hreceived | ⟨u, user, text, hid, -, huser, hwritten⟩
    · exact absurd hreceived hadded
    · have hblob := (BlobRow.decode_eq_some hdecode).2.2.1
      rw [hwritten.ownerId, Uuid.decodeUuid_cell, Option.some.injEq] at hblob
      obtain ⟨userRow, hmem, huserId, huserFields⟩ := hs.accounts.row_of_registered huser
      have hlookup : s.db.users.lookup user.id.cell = some userRow :=
        Table.lookup_eq_some_iff.2 ⟨hmem, huserId⟩
      refine ⟨user, huser, hblob, ?_⟩
      rw [Context.loadUser_eq, hdb, ← hblob, hlookup]
      exact congrArg Outcome.ok huserFields.symm
  constructor
  · intro id blob hload
    have hfound : BlobBatcher.load (id :: context.blobBatch id) context.db id
        = some (.ok blob) := by
      unfold Context.loadBlob at hload
      split at hload
      · next hbatch =>
          cases hload
          exact hbatch
      · cases hload
      · cases hload
    obtain ⟨row, hrow, hid, hdecode⟩ :=
      (BlobBatcher.load_answersOnce context.db _).row_of_found id blob hfound
    rw [List.mem_filter, hdb] at hrow
    have hadded : ¬ row.Received := by
      rintro ⟨⟨text, htext⟩, -⟩
      rw [hid] at htext
      cases htext
    obtain ⟨hblobId, -, -, -, -, -, -, -, -, hdeleted⟩ := BlobRow.decode_eq_some hdecode
    rw [hid, Uuid.decodeUuid_cell, Option.some.injEq] at hblobId
    obtain ⟨user, huser, -, hloaded⟩ := howner hrow.1 hadded hdecode
    exact ⟨hblobId.symm, hdeleted.trans (Option.isNone_iff_eq_none.1 hrow.2), user, huser, hloaded⟩
  · intro id blobs hlist hne
    -- a listed blob comes from a row of the user
    have hmine : ∀ schema ∈ blobs, ∃ user, s.db.Registered user ∧ user.id = id ∧
        context.loadUser schema.ownerId = .ok user := by
      intro schema hschema
      have hid := ownerId_of_blobsOf hlist hschema
      obtain ⟨row, hrow, hrowOwner, blob, content, hdecode, rfl⟩ :=
        exists_row_of_blobsOf hlist hschema
      have hadded : ¬ row.Received := by
        rintro ⟨-, text, htext⟩
        rw [hrowOwner] at htext
        cases htext
      obtain ⟨user, huser, huserId, hloaded⟩ := howner (hscan.mem_iff.1 hrow) hadded hdecode
      exact ⟨user, huser, huserId.trans hid, hloaded⟩
    obtain ⟨first, hfirst⟩ := List.exists_mem_of_ne_nil blobs hne
    obtain ⟨user, huser, huserId, -⟩ := hmine first hfirst
    refine ⟨user, huser, huserId, fun schema hschema => ?_⟩
    obtain ⟨user', huser', huserId', hloaded⟩ := hmine schema hschema
    rw [hs.accounts.eq_of_id huser huser' (huserId'.trans huserId.symm)] at hloaded
    exact hloaded

/-- Alice's blob is loaded by its id, and so is its owner. -/
theorem owners_found_sample :
    ∃ t user blob, Run.exec (Service.step Platform.standard Auth.sample) Service.sample
        ServiceEvent.sampleAdd = some t ∧
      (Context.plain user t.db).loadBlob (Uuid.sample 2) = .ok blob ∧
      ∃ owner, t.db.Registered owner ∧
        (Context.plain user t.db).loadUser blob.ownerId = .ok owner := by
  have hrun : (Run.exec (Service.step Platform.standard Auth.sample) Service.sample
      ServiceEvent.sampleAdd).any (fun t => (do
        let blob ← (Context.plain User.sample t.db).loadBlob (Uuid.sample 2)
        pure blob.id) = .ok (Uuid.sample 2)) = true := by
    decide +kernel
  obtain ⟨t, ht, hload⟩ := (Option.any_eq_true _ _).1 hrun
  obtain ⟨blob, hblob, -⟩ := Outcome.bind_eq_ok.1 (of_decide_eq_true hload)
  have hscan : (Context.plain User.sample t.db).blobScan.Perm t.db.blobs.rows := List.Perm.refl _
  obtain ⟨-, -, owner, howner, hfound⟩ := (owners_found ht rfl hscan).1 _ _ hblob
  exact ⟨t, User.sample, blob, ht, hblob, owner, howner, hfound⟩

end

end DaConcept.Node
