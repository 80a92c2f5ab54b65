import DaConcept.Node.Query
import DaConcept.Node.System

set_option autoImplicit false

/-! # Private keys in responses

`UserSchema::private_key` hands its key to whoever asks, while its sibling `UserSchema::blobs` wants
a user at least. The keys of other users steer nothing: two databases that differ in one of them
take a query through the same course. So a key shows up exactly where it is selected on its user,
and then in the response, unless an error takes the response down. -/

namespace DaConcept.Node

/-! ## Loading a user -/

/-- The user of a row whose id is known. -/
def UserRow.user (r : UserRow) (id : Uuid) : User where
  id := id
  username := r.username
  passwordHash := r.passwordHash
  privateKey := r.privateKey
  email := r.email
  createdAt := r.createdAt

theorem UserRow.decode_of_id {r : UserRow} {id : Uuid} (h : r.id = id.cell) :
    r.decode = some (r.user id) := by
  rw [UserRow.decode, h, Uuid.decodeUuid_cell]
  rfl

/-- The query of the user loader never fails to decode: it asks for ids of 16 bytes. -/
theorem Db.selectUsers_eq_ok (db : Db) (ids : List Uuid) : ∃ users, db.selectUsers ids = .ok users ∧
    ∀ user, user ∈ users ↔
      user.id ∈ ids ∧ ∃ row, db.users.lookup user.id.cell = some row ∧ user = row.user user.id := by
  have hdecode : ∀ row ∈ db.users.rows.filter (fun r => ids.any (·.cell = r.id)),
      ∃ id ∈ ids, row.id = id.cell ∧ row.decode = some (row.user id) := by
    intro row hrow
    rw [List.mem_filter, List.any_eq_true] at hrow
    obtain ⟨-, id, hid, heq⟩ := hrow
    have hcell : row.id = id.cell := (of_decide_eq_true heq).symm
    exact ⟨id, hid, hcell, UserRow.decode_of_id hcell⟩
  obtain ⟨users, husers⟩ := mapM_eq_some_of_forall (fun row hrow => by
    obtain ⟨id, -, -, hrow'⟩ := hdecode row hrow
    exact Option.isSome_iff_exists.2 ⟨_, hrow'⟩)
  refine ⟨users, by rw [Db.selectUsers, husers], fun user => ?_⟩
  rw [mem_of_mapM_eq_some husers]
  constructor
  · rintro ⟨row, hrow, huser⟩
    obtain ⟨id, hid, hcell, hrow'⟩ := hdecode row hrow
    obtain rfl := Option.some.inj (hrow'.symm.trans huser)
    exact ⟨hid, row, Table.lookup_eq_some_iff.2 ⟨List.mem_of_mem_filter hrow, hcell⟩, rfl⟩
  · rintro ⟨hid, row, hrow, huser⟩
    obtain ⟨hmem, hcell⟩ := Table.lookup_eq_some_iff.1 hrow
    refine ⟨row, List.mem_filter.2 ⟨hmem, ?_⟩, ?_⟩
    · exact List.any_eq_true.2 ⟨user.id, hid, decide_eq_true hcell.symm⟩
    · rw [huser]
      exact UserRow.decode_of_id hcell

/-- The user loader finds the row of the id. -/
theorem Context.loadUser_eq (context : Context) (id : Uuid) :
    context.loadUser id = match context.db.users.lookup id.cell with
      | some row => .ok (row.user id)
      | none => .err (.loader (.notFound ("User not found: " ++ id.toString))) := by
  obtain ⟨users, hselect, hmem⟩ := context.db.selectUsers_eq_ok (id :: context.userBatch id)
  have hin : id ∈ id :: context.userBatch id := List.mem_cons_self
  rw [Context.loadUser, UserBatcher.load, hselect]
  rcases hrow : context.db.users.lookup id.cell with _ | row
  · rw [batchLoad_of_not_mem hin]
    intro user huser hid
    obtain ⟨-, row, hrow', -⟩ := (hmem user).1 huser
    rw [hid, hrow] at hrow'
    cases hrow'
  · have hx : row.user id ∈ users := (hmem _).2 ⟨hin, row, hrow, rfl⟩
    have huniq : ∀ user ∈ users, user.id = (row.user id).id → user = row.user id := by
      intro user huser hid
      obtain ⟨-, row', hrow', huser'⟩ := (hmem user).1 huser
      rw [hid] at hrow' huser'
      obtain rfl := Option.some.inj (hrow.symm.trans hrow')
      exact huser'
    have hload : batchLoad User.id (fun id => "User not found: " ++ id.toString)
        (id :: context.userBatch id) (.ok users) id = some (.ok (row.user id)) :=
      batchLoad_of_mem hin hx huniq
    rw [hload]

/-! ## Where a key is selected -/

mutual

/-- The fields, resolved on the user `u`, come to the private key of a user that `secret` holds
    of. -/
def UserFields.AsksKey (platform : Platform) (context : Context) (secret : Uuid → Prop) (u : Uuid) :
    UserFields → Prop
  | .nil => False
  | .cons _ field rest =>
      field.AsksKey platform context secret u ∨ rest.AsksKey platform context secret u

def UserField.AsksKey (platform : Platform) (context : Context) (secret : Uuid → Prop) (u : Uuid) :
    UserField → Prop
  | .privateKey => secret u
  | .blobs fields => ∃ blobs, context.blobsOf platform u = .ok blobs ∧
      ∃ blob ∈ blobs, fields.AsksKey platform context secret blob.ownerId
  | _ => False

/-- The fields, resolved on a blob of the user `owner`, do. -/
def BlobFields.AsksKey (platform : Platform) (context : Context) (secret : Uuid → Prop)
    (owner : Uuid) : BlobFields → Prop
  | .nil => False
  | .cons _ field rest =>
      field.AsksKey platform context secret owner ∨ rest.AsksKey platform context secret owner

def BlobField.AsksKey (platform : Platform) (context : Context) (secret : Uuid → Prop)
    (owner : Uuid) : BlobField → Prop
  | .owner fields => fields.AsksKey platform context secret owner
  | _ => False

end

mutual

/-- The fields, resolved on the user `u`, come to a field that fails. -/
def UserFields.Fails (platform : Platform) (context : Context) (u : Uuid) : UserFields → Prop
  | .nil => False
  | .cons _ field rest => field.Fails platform context u ∨ rest.Fails platform context u

def UserField.Fails (platform : Platform) (context : Context) (u : Uuid) : UserField → Prop
  | .blobs fields => (∀ blobs, context.blobsOf platform u ≠ .ok blobs) ∨
      ∃ blobs, context.blobsOf platform u = .ok blobs ∧
        ∃ blob ∈ blobs, fields.Fails platform context blob.ownerId
  | _ => False

/-- The fields, resolved on a blob of the user `owner`, do. -/
def BlobFields.Fails (platform : Platform) (context : Context) (owner : Uuid) : BlobFields → Prop
  | .nil => False
  | .cons _ field rest => field.Fails platform context owner ∨ rest.Fails platform context owner

def BlobField.Fails (platform : Platform) (context : Context) (owner : Uuid) : BlobField → Prop
  | .owner fields => context.db.users.lookup owner.cell = none ∨
      fields.Fails platform context owner
  | _ => False

end

/-- A `blobs` field among the fields. -/
def UserFields.SelectsBlobs : UserFields → Prop
  | .nil => False
  | .cons _ (.blobs _) _ => True
  | .cons _ _ rest => rest.SelectsBlobs

/-- A field of `Query` other than `me` comes to the private key of a user that `secret` holds of. -/
def RootField.AsksKey (platform : Platform) (context : Context) (secret : Uuid → Prop) :
    RootField → Prop
  | .user id fields => fields.AsksKey platform context secret id
  | .blob id fields => ∃ blob, context.loadBlob id = .ok blob ∧
      fields.AsksKey platform context secret blob.ownerId
  | .blobs fields => ∃ blobs, Query.blobs platform context = .ok blobs ∧
      ∃ blob ∈ blobs, fields.AsksKey platform context secret blob.ownerId
  | _ => False

/-- A field of `Query` fails; `me` catches errors, but not the panic of a blob of the current user
    that does not decrypt. -/
def RootField.Fails (platform : Platform) (context : Context) : RootField → Prop
  | .apiVersion => False
  | .me fields => ∃ user, context.currentUser = some user ∧
      context.blobsOf platform user.id = .panic ∧ fields.SelectsBlobs
  | .user id fields => context.db.users.lookup id.cell = none ∨ fields.Fails platform context id
  | .blob id fields => (∀ blob, context.loadBlob id ≠ .ok blob) ∨
      ∃ blob, context.loadBlob id = .ok blob ∧ fields.Fails platform context blob.ownerId
  | .blobs fields => (∀ blobs, Query.blobs platform context ≠ .ok blobs) ∨
      ∃ blobs, Query.blobs platform context = .ok blobs ∧
        ∃ blob ∈ blobs, fields.Fails platform context blob.ownerId

/-! ## What succeeds -/

section

variable {platform : Platform} {context : Context}

theorem mem_fetchAll {rows : List BlobRow} {blobs : List Blob} {blob : Blob}
    (h : fetchAll rows = .ok blobs) (hblob : blob ∈ blobs) :
    ∃ row ∈ rows, row.decode = some blob := by
  unfold fetchAll at h
  split at h
  · next hrows =>
      cases h
      exact (mem_of_mapM_eq_some hrows).1 hblob
  · cases h

/-- The blobs of a user belong to the user. -/
theorem ownerId_of_blobsOf {id : Uuid} {blobs : List BlobSchema} {blob : BlobSchema}
    (h : context.blobsOf platform id = .ok blobs) (hblob : blob ∈ blobs) : blob.ownerId = id := by
  unfold Context.blobsOf at h
  split at h
  · cases h
  · simp only [Outcome.bind_eq_ok] at h
    obtain ⟨fetched, hfetched, privateKey, -, htraverse⟩ := h
    obtain ⟨b, hb, hfrom⟩ := Outcome.mem_of_traverse_eq_ok htraverse hblob
    simp only [Outcome.bind_eq_ok, Outcome.pure_eq, Outcome.ok.injEq] at hfrom
    obtain ⟨content, -, rfl⟩ := hfrom
    obtain ⟨row, hrow, hdecode⟩ := mem_fetchAll hfetched hb
    rw [List.mem_filter, Bool.and_eq_true, decide_eq_true_eq] at hrow
    have howner := (BlobRow.decode_eq_some hdecode).2.2.1
    rw [hrow.2.1, Uuid.decodeUuid_cell] at howner
    exact (Option.some.inj howner).symm

theorem resolver_eq_ok {α : Type} {x : Outcome FieldError α} {a : α} :
    resolver x = .ok a ↔ x = .ok a := Outcome.mapErr_eq_ok

theorem loadUser_ne_panic (id : Uuid) : context.loadUser id ≠ .panic := by
  rw [Context.loadUser_eq]
  split <;> exact nofun

theorem id_of_loadUser {id : Uuid} {user : User} (h : context.loadUser id = .ok user) :
    user.id = id := by
  rw [Context.loadUser_eq] at h
  split at h <;> cases h
  rfl

mutual

/-- Fields resolve unless one of them fails. -/
theorem UserFields.resolve_isOk_iff (user : UserSchema) : ∀ fields : UserFields,
    (∃ values, fields.resolve platform context user = .ok values) ↔
      ¬ fields.Fails platform context user.id
  | .nil => by simp [UserFields.resolve, UserFields.Fails]
  | .cons key field rest => by
      have hfield := UserField.resolve_isOk_iff user field
      have hrest := UserFields.resolve_isOk_iff user rest
      rw [UserFields.resolve, Outcome.bind₂_isOk_iff, UserFields.Fails, not_or, hrest, ← hfield]
      simp only [Outcome.mapErr_eq_ok]

theorem UserField.resolve_isOk_iff (user : UserSchema) : ∀ field : UserField,
    (∃ value, field.resolve platform context user = .ok value) ↔
      ¬ field.Fails platform context user.id
  | .id | .username | .email | .privateKey => by
      simp [UserField.resolve, UserField.Fails]
  | .blobs fields => by
      simp only [UserField.resolve, UserField.Fails, Outcome.bind_eq_ok, resolver_eq_ok,
        Outcome.pure_eq, Outcome.ok.injEq]
      rcases hblobs : context.blobsOf platform user.id with blobs | e | _
      · have htraverse : (∃ objects, Outcome.traverse (fun blob =>
            fields.resolve platform context blob) blobs = .ok objects) ↔ _ :=
          Outcome.traverse_isOk_iff
        simp only [BlobFields.resolve_isOk_iff _ fields] at htraverse
        simp [htraverse]
      · simp
      · simp

theorem BlobFields.resolve_isOk_iff (blob : BlobSchema) : ∀ fields : BlobFields,
    (∃ values, fields.resolve platform context blob = .ok values) ↔
      ¬ fields.Fails platform context blob.ownerId
  | .nil => by simp [BlobFields.resolve, BlobFields.Fails]
  | .cons key field rest => by
      have hfield := BlobField.resolve_isOk_iff blob field
      have hrest := BlobFields.resolve_isOk_iff blob rest
      rw [BlobFields.resolve, Outcome.bind₂_isOk_iff, BlobFields.Fails, not_or, hrest, ← hfield]
      simp only [Outcome.mapErr_eq_ok]

theorem BlobField.resolve_isOk_iff (blob : BlobSchema) : ∀ field : BlobField,
    (∃ value, field.resolve platform context blob = .ok value) ↔
      ¬ field.Fails platform context blob.ownerId
  | .id | .metadata | .contentType | .size | .hash | .createdAt | .content => by
      simp [BlobField.resolve, BlobField.Fails]
  | .owner fields => by
      simp only [BlobField.resolve, BlobField.Fails, Outcome.bind_eq_ok, resolver_eq_ok,
        Outcome.pure_eq, Outcome.ok.injEq, Context.loadUser_eq]
      rcases context.db.users.lookup blob.ownerId.cell with _ | row
      · simp
      · have hfields := UserFields.resolve_isOk_iff (UserSchema.new (row.user blob.ownerId)) fields
        simpa [UserSchema.new, UserRow.user] using hfields

end

end

/-! ## Two databases that differ in one private key -/

/-- The context with another private key for a user. -/
def Context.withKey (context : Context) (v : Uuid) (key : String) : Context :=
  { context with
    db := { context.db with
      users := context.db.users.update (fun r => r.id = v.cell)
        (fun r => { r with privateKey := key }) (fun _ => rfl) } }

/-- The user is `v`, and has another private key than `key`. -/
def Context.Secret (context : Context) (v : Uuid) (key : String) (u : Uuid) : Prop :=
  u = v ∧ ∃ row, context.db.users.lookup v.cell = some row ∧ row.privateKey ≠ key

section

variable {platform : Platform} {context : Context} {v : Uuid} {key : String}

@[simp] theorem Context.withKey_currentUser :
    (context.withKey v key).currentUser = context.currentUser := rfl

@[simp] theorem Context.blobsOf_withKey (id : Uuid) :
    (context.withKey v key).blobsOf platform id = context.blobsOf platform id := rfl

@[simp] theorem Query.blobs_withKey :
    Query.blobs platform (context.withKey v key) = Query.blobs platform context := rfl

@[simp] theorem Context.loadBlob_withKey (id : Uuid) :
    (context.withKey v key).loadBlob id = context.loadBlob id := rfl

/-- Loading a user: not found in both databases, or found with the same data but for the key. -/
theorem Context.loadUser_withKey (context : Context) (v : Uuid) (key : String) (id : Uuid) :
    (∃ e, context.loadUser id = .err e ∧ (context.withKey v key).loadUser id = .err e) ∨
    ∃ user key', context.loadUser id = .ok user ∧
      (context.withKey v key).loadUser id = .ok { user with privateKey := key' } ∧
      user.id = id ∧ (user.privateKey = key' ↔ ¬ context.Secret v key id) := by
  have hlookup : (context.withKey v key).db.users.lookup id.cell
      = (context.db.users.lookup id.cell).map
          (fun r => if r.id = v.cell then { r with privateKey := key } else r) := by
    have hupdate := Table.lookup_update context.db.users (fun r => r.id = v.cell)
      (fun r => { r with privateKey := key }) (fun _ => rfl) id.cell
    simp only [decide_eq_true_eq] at hupdate
    exact hupdate
  rw [Context.loadUser_eq, Context.loadUser_eq, hlookup]
  rcases hrow : context.db.users.lookup id.cell with _ | row
  · exact Or.inl ⟨_, rfl, rfl⟩
  · right
    have hid := Table.key_of_lookup hrow
    by_cases hv : id = v
    · subst hv
      refine ⟨row.user id, key, rfl, ?_, rfl, ?_⟩
      · simp only [Option.map_some, if_pos hid]
        rfl
      · simp [Context.Secret, hrow, UserRow.user]
    · have hne : ¬ row.id = v.cell := by
        rw [hid]
        exact fun h => hv (Uuid.cell_inj.1 h)
      refine ⟨row.user id, row.privateKey, rfl, ?_, rfl, ?_⟩
      · simp only [Option.map_some, if_neg hne]
        rfl
      · simp [Context.Secret, hv, UserRow.user]

theorem list_object_injective : Function.Injective
    (fun objects : List (List (String × Value)) => Value.list (objects.map Value.object)) := by
  intro objects objects' h
  have hinj : Function.Injective Value.object := fun _ _ heq => by simpa using heq
  exact hinj.list_map (by simpa using h)

mutual

/-- A selection set takes the same course in both databases, on users that differ in the key at
    most, and shows the difference exactly if it comes to the key. -/
theorem UserFields.resolve_withKey (user : UserSchema) (key' : String)
    (hkey : user.privateKey = key' ↔ ¬ context.Secret v key user.id) : ∀ fields : UserFields,
    Outcome.SameUnless (fields.AsksKey platform context (context.Secret v key) user.id)
      (fields.resolve platform context user)
      (fields.resolve platform (context.withKey v key) { user with privateKey := key' })
  | .nil => Outcome.sameUnless_self (by simp [UserFields.AsksKey]) _
  | .cons name field rest => by
      have hfield :=
        (UserField.resolve_withKey user key' hkey field).mapErr (ExecutionError.under name)
      have hrest := UserFields.resolve_withKey user key' hkey rest
      exact hfield.bind₂ (f := fun value values => (name, value) :: values)
        (fun _ _ _ _ h => by simpa using h) hrest

theorem UserField.resolve_withKey (user : UserSchema) (key' : String)
    (hkey : user.privateKey = key' ↔ ¬ context.Secret v key user.id) : ∀ field : UserField,
    Outcome.SameUnless (field.AsksKey platform context (context.Secret v key) user.id)
      (field.resolve platform context user)
      (field.resolve platform (context.withKey v key) { user with privateKey := key' })
  | .id | .username | .email => Outcome.sameUnless_self (by simp [UserField.AsksKey]) _
  | .privateKey => by
      simpa [UserField.resolve, UserField.AsksKey, Outcome.SameUnless] using hkey
  | .blobs fields => by
      simp only [UserField.resolve, UserField.AsksKey, Context.blobsOf_withKey]
      rcases context.blobsOf platform user.id with blobs | e | _
      · have hblobs := Outcome.sameUnless_traverse
          (fun blob (_ : blob ∈ blobs) => BlobFields.resolve_withKey blob fields)
        exact (hblobs.map list_object_injective).congr (by simp)
      · exact rfl
      · trivial

theorem BlobFields.resolve_withKey (blob : BlobSchema) : ∀ fields : BlobFields,
    Outcome.SameUnless (fields.AsksKey platform context (context.Secret v key) blob.ownerId)
      (fields.resolve platform context blob)
      (fields.resolve platform (context.withKey v key) blob)
  | .nil => Outcome.sameUnless_self (by simp [BlobFields.AsksKey]) _
  | .cons name field rest => by
      have hfield := (BlobField.resolve_withKey blob field).mapErr (ExecutionError.under name)
      have hrest := BlobFields.resolve_withKey blob rest
      exact hfield.bind₂ (f := fun value values => (name, value) :: values)
        (fun _ _ _ _ h => by simpa using h) hrest

theorem BlobField.resolve_withKey (blob : BlobSchema) : ∀ field : BlobField,
    Outcome.SameUnless (field.AsksKey platform context (context.Secret v key) blob.ownerId)
      (field.resolve platform context blob)
      (field.resolve platform (context.withKey v key) blob)
  | .id | .metadata | .contentType | .size | .hash | .createdAt | .content =>
      Outcome.sameUnless_self (by simp [BlobField.AsksKey]) _
  | .owner fields => by
      simp only [BlobField.resolve, BlobField.AsksKey]
      rcases Context.loadUser_withKey context v key blob.ownerId with
        ⟨e, he, he'⟩ | ⟨user, key', huser, huser', hid, hkey⟩
      · rw [he, he']
        exact rfl
      · rw [huser, huser']
        rw [← hid] at hkey ⊢
        have hfields := UserFields.resolve_withKey (UserSchema.new user) key' hkey fields
        exact hfields.map (fun _ _ h => by simpa using h)

end

end

/-! ## Under `me` -/

section

variable {platform : Platform} {context : Context}

mutual

/-- A selection set on a user leads to no other user: the blobs of a user belong to the user. -/
theorem UserFields.secret_of_asksKey {secret : Uuid → Prop} {u : Uuid} : ∀ fields : UserFields,
    fields.AsksKey platform context secret u → secret u
  | .nil, h => h.elim
  | .cons _ field rest, h =>
      h.elim (UserField.secret_of_asksKey field) (UserFields.secret_of_asksKey rest)

theorem UserField.secret_of_asksKey {secret : Uuid → Prop} {u : Uuid} : ∀ field : UserField,
    field.AsksKey platform context secret u → secret u
  | .id, h | .username, h | .email, h => h.elim
  | .privateKey, h => h
  | .blobs fields, h => by
      obtain ⟨blobs, hblobs, blob, hblob, hasks⟩ := h
      rw [ownerId_of_blobsOf hblobs hblob] at hasks
      exact BlobFields.secret_of_asksKey fields hasks

theorem BlobFields.secret_of_asksKey {secret : Uuid → Prop} {owner : Uuid} :
    ∀ fields : BlobFields, fields.AsksKey platform context secret owner → secret owner
  | .nil, h => h.elim
  | .cons _ field rest, h =>
      h.elim (BlobField.secret_of_asksKey field) (BlobFields.secret_of_asksKey rest)

theorem BlobField.secret_of_asksKey {secret : Uuid → Prop} {owner : Uuid} : ∀ field : BlobField,
    field.AsksKey platform context secret owner → secret owner
  | .id, h | .metadata, h | .contentType, h | .size, h | .hash, h | .createdAt, h
  | .content, h => h.elim
  | .owner fields, h => UserFields.secret_of_asksKey fields h

end

mutual

/-- Only the blobs of the user at hand can make a selection set panic. -/
theorem UserFields.resolve_ne_panic (user : UserSchema)
    (h : context.blobsOf platform user.id ≠ .panic) : ∀ fields : UserFields,
    fields.resolve platform context user ≠ .panic
  | .nil => nofun
  | .cons key field rest => by
      rw [UserFields.resolve, Ne, Outcome.bind₂_eq_panic, Outcome.mapErr_eq_panic, not_or]
      exact ⟨UserField.resolve_ne_panic user h field,
        fun hrest => UserFields.resolve_ne_panic user h rest hrest.2⟩

theorem UserField.resolve_ne_panic (user : UserSchema)
    (h : context.blobsOf platform user.id ≠ .panic) : ∀ field : UserField,
    field.resolve platform context user ≠ .panic
  | .id | .username | .email | .privateKey => nofun
  | .blobs fields => by
      intro hpanic
      simp only [UserField.resolve, Outcome.bind_eq_panic, resolver, Outcome.mapErr_eq_panic,
        Outcome.mapErr_eq_ok, Outcome.pure_eq, reduceCtorEq, and_false, exists_false,
        or_false] at hpanic
      rcases hpanic with hpanic | ⟨blobs, hblobs, htraverse⟩
      · exact h hpanic
      · refine Outcome.traverse_ne_panic (fun blob hblob => ?_) htraverse
        refine BlobFields.resolve_ne_panic blob ?_ fields
        rwa [ownerId_of_blobsOf hblobs hblob]

theorem BlobFields.resolve_ne_panic (blob : BlobSchema)
    (h : context.blobsOf platform blob.ownerId ≠ .panic) : ∀ fields : BlobFields,
    fields.resolve platform context blob ≠ .panic
  | .nil => nofun
  | .cons key field rest => by
      rw [BlobFields.resolve, Ne, Outcome.bind₂_eq_panic, Outcome.mapErr_eq_panic, not_or]
      exact ⟨BlobField.resolve_ne_panic blob h field,
        fun hrest => BlobFields.resolve_ne_panic blob h rest hrest.2⟩

theorem BlobField.resolve_ne_panic (blob : BlobSchema)
    (h : context.blobsOf platform blob.ownerId ≠ .panic) : ∀ field : BlobField,
    field.resolve platform context blob ≠ .panic
  | .id | .metadata | .contentType | .size | .hash | .createdAt | .content => nofun
  | .owner fields => by
      intro hpanic
      simp only [BlobField.resolve, Outcome.bind_eq_panic, resolver, Outcome.mapErr_eq_panic,
        Outcome.mapErr_eq_ok, Outcome.pure_eq, reduceCtorEq, and_false, exists_false,
        or_false] at hpanic
      rcases hpanic with hpanic | ⟨user, huser, hpanic⟩
      · exact loadUser_ne_panic blob.ownerId hpanic
      · rw [← id_of_loadUser huser] at h
        exact UserFields.resolve_ne_panic (UserSchema.new user) h fields hpanic

end

/-- If the blobs of the user at hand panic, the first `blobs` field does. -/
theorem UserFields.panics_iff (user : UserSchema)
    (h : context.blobsOf platform user.id = .panic) : ∀ fields : UserFields,
    fields.resolve platform context user = .panic ↔ fields.SelectsBlobs
  | .nil => by simp [UserFields.resolve, UserFields.SelectsBlobs]
  | .cons key field rest => by
      have hrest := UserFields.panics_iff user h rest
      rw [UserFields.resolve, Outcome.bind₂_eq_panic, Outcome.mapErr_eq_panic]
      simp only [Outcome.mapErr_eq_ok, hrest]
      cases field <;> simp [UserField.resolve, UserFields.SelectsBlobs, resolver, Outcome.mapErr, h]

/-- A selection set on a user panics exactly if it has a `blobs` field and the blobs of the user
    panic. -/
theorem UserFields.resolve_eq_panic_iff (user : UserSchema) (fields : UserFields) :
    fields.resolve platform context user = .panic ↔
      context.blobsOf platform user.id = .panic ∧ fields.SelectsBlobs := by
  by_cases hblobs : context.blobsOf platform user.id = .panic
  · simp only [hblobs, true_and]
    exact UserFields.panics_iff user hblobs fields
  · simp only [hblobs, false_and, iff_false]
    exact UserFields.resolve_ne_panic user hblobs fields

end

/-! ## Responses -/

section

variable {platform : Platform} {context : Context} {v : Uuid} {key : String}

/-- The course of a field in both databases: it fails in both alike, or it succeeds in both, with
    the same errors and with values that differ exactly if it comes to the key. -/
def RootField.SameCourse (platform : Platform) (context : Context) (v : Uuid) (key : String)
    (field : RootField) : Prop :=
  (field.Fails platform context ∧
    field.resolve platform context = field.resolve platform (context.withKey v key) ∧
    ∀ result, field.resolve platform context ≠ .ok result) ∨
  ∃ value value' errors, ¬ field.Fails platform context ∧
    field.resolve platform context = .ok (value, errors) ∧
    field.resolve platform (context.withKey v key) = .ok (value', errors) ∧
    (value = value' ↔ ¬ field.AsksKey platform context (context.Secret v key))

/-- A field without errors of its own. -/
theorem RootField.sameCourse_of_sameUnless {field : RootField} {x y : Outcome ExecutionError Value}
    (hx : field.resolve platform context = x >>= fun value => pure (value, []))
    (hy : field.resolve platform (context.withKey v key) = y >>= fun value => pure (value, []))
    (hsame : Outcome.SameUnless (field.AsksKey platform context (context.Secret v key)) x y)
    (hok : (∃ value, x = .ok value) ↔ ¬ field.Fails platform context) :
    field.SameCourse platform context v key := by
  rcases hsame.cases with ⟨rfl, hne⟩ | ⟨value, value', rfl, rfl, hvalue⟩
  · refine Or.inl ⟨by_contra fun hfails => ?_, hx.trans hy.symm, ?_⟩
    · obtain ⟨value, hvalue⟩ := hok.2 hfails
      exact hne value hvalue
    · rw [hx]
      intro result hresult
      obtain ⟨value, hvalue, -⟩ := Outcome.bind_eq_ok.1 hresult
      exact hne value hvalue
  · exact Or.inr ⟨value, value', [], hok.1 ⟨value, rfl⟩, hx, hy, hvalue⟩

theorem RootField.me_sameCourse
    (hv : ∀ user, context.currentUser = some user → user.id ≠ v) (fields : UserFields) :
    (RootField.me fields).SameCourse platform context v key := by
  rcases hcurrent : context.currentUser with _ | user
  · refine Or.inr ⟨.null, .null, [], ?_, ?_, ?_, by simp [RootField.AsksKey]⟩
    · simp [RootField.Fails, hcurrent]
    · simp only [RootField.resolve, hcurrent]
    · simp only [RootField.resolve, Context.withKey_currentUser, hcurrent]
  · have hne := hv user hcurrent
    have hsame : Outcome.SameUnless _ (fields.resolve platform context (UserSchema.new user))
        (fields.resolve platform (context.withKey v key) (UserSchema.new user)) :=
      UserFields.resolve_withKey (UserSchema.new user) user.privateKey
        (by simp [Context.Secret, UserSchema.new, hne]) fields
    -- the fields lead to no other user, so both databases give the same
    have hequal : fields.resolve platform context (UserSchema.new user)
        = fields.resolve platform (context.withKey v key) (UserSchema.new user) := by
      rcases hsame.cases with ⟨heq, -⟩ | ⟨object, object', hobject, hobject', hiff⟩
      · exact heq
      · rw [hobject, hobject', hiff.2 fun h => hne (UserFields.secret_of_asksKey fields h).1]
    have hfails : (RootField.me fields).Fails platform context ↔
        fields.resolve platform context (UserSchema.new user) = .panic := by
      rw [UserFields.resolve_eq_panic_iff]
      simp [RootField.Fails, hcurrent, UserSchema.new]
    simp only [RootField.SameCourse, hfails, RootField.resolve, Context.withKey_currentUser,
      hcurrent, ← hequal, RootField.AsksKey, not_false_iff, iff_true]
    rcases fields.resolve platform context (UserSchema.new user) with object | e | _
    · exact Or.inr ⟨.object object, _, [], by simp, rfl, rfl, rfl⟩
    · exact Or.inr ⟨.null, _, [e], by simp, rfl, rfl, rfl⟩
    · exact Or.inl ⟨rfl, trivial, by simp⟩

/-- `user` resolves as the `owner` of a blob of that user does. -/
theorem RootField.user_sameCourse (id : Uuid) (fields : UserFields) :
    (RootField.user id fields).SameCourse platform context v key := by
  let blob : BlobSchema := ⟨id, "", none, none, 0, none, id, 0⟩
  refine RootField.sameCourse_of_sameUnless
    (x := (BlobField.owner fields).resolve platform context blob)
    (y := (BlobField.owner fields).resolve platform (context.withKey v key) blob) ?_ ?_
    (BlobField.resolve_withKey blob (.owner fields))
    (BlobField.resolve_isOk_iff blob (.owner fields))
  · simp only [RootField.resolve, BlobField.resolve, blob, Outcome.bind_assoc, Outcome.pure_eq,
      Outcome.ok_bind]
  · simp only [RootField.resolve, BlobField.resolve, blob, Outcome.bind_assoc, Outcome.pure_eq,
      Outcome.ok_bind]

theorem RootField.blob_sameCourse (id : Uuid) (fields : BlobFields) :
    (RootField.blob id fields).SameCourse platform context v key := by
  rcases hload : context.loadBlob id with blob | e | _
  · have hasks : (RootField.blob id fields).AsksKey platform context (context.Secret v key) ↔
        fields.AsksKey platform context (context.Secret v key) blob.ownerId := by
      simp [RootField.AsksKey, hload]
    have hfails : (RootField.blob id fields).Fails platform context ↔
        fields.Fails platform context blob.ownerId := by
      simp [RootField.Fails, hload]
    refine RootField.sameCourse_of_sameUnless
      (x := fields.resolve platform context (BlobSchema.new platform blob) >>=
        fun object => pure (.object object))
      (y := fields.resolve platform (context.withKey v key) (BlobSchema.new platform blob) >>=
        fun object => pure (.object object)) ?_ ?_ ?_ ?_
    · simp [RootField.resolve, hload, resolver, Outcome.mapErr, Outcome.bind_assoc]
    · simp [RootField.resolve, hload, resolver, Outcome.mapErr, Outcome.bind_assoc]
    · rw [hasks]
      exact (BlobFields.resolve_withKey (BlobSchema.new platform blob) fields).map
        (fun _ _ h => by simpa using h)
    · rw [hfails]
      refine Iff.trans ?_ (BlobFields.resolve_isOk_iff (BlobSchema.new platform blob) fields)
      simp [Outcome.bind_eq_ok]
  · refine Or.inl ⟨Or.inl (by simp [hload]), ?_, ?_⟩
    · simp [RootField.resolve, hload, resolver, Outcome.mapErr]
    · simp [RootField.resolve, hload, resolver, Outcome.mapErr]
  · refine Or.inl ⟨Or.inl (by simp [hload]), ?_, ?_⟩
    · simp [RootField.resolve, hload, resolver, Outcome.mapErr]
    · simp [RootField.resolve, hload, resolver, Outcome.mapErr]

theorem RootField.blobs_sameCourse (fields : BlobFields) :
    (RootField.blobs fields).SameCourse platform context v key := by
  rcases hblobs : Query.blobs platform context with blobs | e | _
  · have hasks : (RootField.blobs fields).AsksKey platform context (context.Secret v key) ↔
        ∃ blob ∈ blobs, fields.AsksKey platform context (context.Secret v key) blob.ownerId := by
      simp [RootField.AsksKey, hblobs]
    have hfails : (RootField.blobs fields).Fails platform context ↔
        ∃ blob ∈ blobs, fields.Fails platform context blob.ownerId := by
      simp [RootField.Fails, hblobs]
    refine RootField.sameCourse_of_sameUnless
      (x := Outcome.traverse (fun blob => fields.resolve platform context blob) blobs >>=
        fun objects => pure (.list (objects.map .object)))
      (y := Outcome.traverse
          (fun blob => fields.resolve platform (context.withKey v key) blob) blobs >>=
        fun objects => pure (.list (objects.map .object))) ?_ ?_ ?_ ?_
    · simp [RootField.resolve, hblobs, resolver, Outcome.mapErr, Outcome.bind_assoc]
    · simp [RootField.resolve, hblobs, resolver, Outcome.mapErr, Outcome.bind_assoc]
    · rw [hasks]
      exact (Outcome.sameUnless_traverse
        (fun blob _ => BlobFields.resolve_withKey blob fields)).map list_object_injective
    · have htraverse : (∃ objects, Outcome.traverse (fun blob =>
          fields.resolve platform context blob) blobs = .ok objects) ↔ _ :=
        Outcome.traverse_isOk_iff
      simp only [BlobFields.resolve_isOk_iff _ fields] at htraverse
      simp [hfails, Outcome.bind_eq_ok, htraverse]
  · refine Or.inl ⟨Or.inl (by simp [hblobs]), ?_, ?_⟩
    · simp [RootField.resolve, hblobs, resolver, Outcome.mapErr]
    · simp [RootField.resolve, hblobs, resolver, Outcome.mapErr]
  · refine Or.inl ⟨Or.inl (by simp [hblobs]), ?_, ?_⟩
    · simp [RootField.resolve, hblobs, resolver, Outcome.mapErr]
    · simp [RootField.resolve, hblobs, resolver, Outcome.mapErr]

/-- Every field of `Query` takes the same course in both databases. -/
theorem RootField.sameCourse (key : String)
    (hv : ∀ user, context.currentUser = some user → user.id ≠ v) (field : RootField) :
    field.SameCourse platform context v key := by
  cases field with
  | apiVersion =>
      exact Or.inr ⟨.string "1.0", .string "1.0", [], by simp [RootField.Fails], rfl, rfl,
        by simp [RootField.AsksKey]⟩
  | me fields => exact RootField.me_sameCourse hv fields
  | user id fields => exact RootField.user_sameCourse id fields
  | blob id fields => exact RootField.blob_sameCourse id fields
  | blobs fields => exact RootField.blobs_sameCourse fields

/-- A query that fails gives the same response from both databases, without data; any other gives
    data that differ exactly if a field comes to the key. -/
theorem execute_withKey (key : String)
    (hv : ∀ user, context.currentUser = some user → user.id ≠ v)
    (query : List (String × RootField)) :
    ((∃ field ∈ query, field.2.Fails platform context) ∧
      execute platform context query = execute platform (context.withKey v key) query ∧
      ∀ response, execute platform context query = some response → response.data = none) ∨
    ∃ data data' errors, (¬ ∃ field ∈ query, field.2.Fails platform context) ∧
      execute platform context query = some ⟨some data, errors⟩ ∧
      execute platform (context.withKey v key) query = some ⟨some data', errors⟩ ∧
      (data = data' ↔
        ¬ ∃ field ∈ query, field.2.AsksKey platform context (context.Secret v key)) := by
  induction query with
  | nil => exact Or.inr ⟨[], [], [], by simp, rfl, rfl, by simp⟩
  | cons field rest ih =>
      obtain ⟨name, field⟩ := field
      rcases RootField.sameCourse key hv field with
        ⟨hfails, hsame, hne⟩ | ⟨value, value', errors, hfails, hvalue, hvalue', hiff⟩
      · refine Or.inl ⟨⟨_, List.mem_cons_self, hfails⟩, ?_, ?_⟩
        all_goals rcases hresolve : field.resolve platform context with result | e | _
        · exact absurd hresolve (hne result)
        · rw [hresolve] at hsame
          simp only [execute, hresolve, ← hsame]
        · rw [hresolve] at hsame
          simp only [execute, hresolve, ← hsame]
        · exact absurd hresolve (hne result)
        · simp [execute, hresolve]
        · simp [execute, hresolve]
      · simp only [execute, hvalue, hvalue', List.mem_cons, exists_eq_or_imp, hfails, false_or]
        rcases ih with ⟨hrest, hsame, hdata⟩ | ⟨data, data', errors', hrest, hd, hd', hiff'⟩
        · refine Or.inl ⟨hrest, ?_, ?_⟩
          all_goals rcases hexecute : execute platform context rest with _ | response
          · rw [← hsame, hexecute]
            rfl
          · rw [← hsame, hexecute]
            simp [hdata response hexecute]
          · exact nofun
          · simp [hdata response hexecute]
        · refine Or.inr ⟨(name, value) :: data, (name, value') :: data',
            errors.map (.under name) ++ errors', hrest, by simp [hd], by simp [hd'], ?_⟩
          rw [not_or, ← hiff, ← hiff']
          simp

end

/-! ## Which keys a query comes to -/

section

variable {platform : Platform} {context : Context} {secret secret' : Uuid → Prop}

mutual

/-- Whose keys are secret matters for the user at hand only. -/
theorem UserFields.asksKey_mono {u : Uuid} (h : secret u → secret' u) : ∀ fields : UserFields,
    fields.AsksKey platform context secret u → fields.AsksKey platform context secret' u
  | .nil, hasks => hasks
  | .cons _ field rest, hasks =>
      hasks.imp (UserField.asksKey_mono h field) (UserFields.asksKey_mono h rest)

theorem UserField.asksKey_mono {u : Uuid} (h : secret u → secret' u) : ∀ field : UserField,
    field.AsksKey platform context secret u → field.AsksKey platform context secret' u
  | .id, hasks | .username, hasks | .email, hasks => hasks
  | .privateKey, hasks => h hasks
  | .blobs fields, hasks => by
      obtain ⟨blobs, hblobs, blob, hblob, hasks⟩ := hasks
      refine ⟨blobs, hblobs, blob, hblob, BlobFields.asksKey_mono ?_ fields hasks⟩
      rwa [ownerId_of_blobsOf hblobs hblob]

theorem BlobFields.asksKey_mono {owner : Uuid} (h : secret owner → secret' owner) :
    ∀ fields : BlobFields,
    fields.AsksKey platform context secret owner → fields.AsksKey platform context secret' owner
  | .nil, hasks => hasks
  | .cons _ field rest, hasks =>
      hasks.imp (BlobField.asksKey_mono h field) (BlobFields.asksKey_mono h rest)

theorem BlobField.asksKey_mono {owner : Uuid} (h : secret owner → secret' owner) :
    ∀ field : BlobField,
    field.AsksKey platform context secret owner → field.AsksKey platform context secret' owner
  | .id, hasks | .metadata, hasks | .contentType, hasks | .size, hasks | .hash, hasks
  | .createdAt, hasks | .content, hasks => hasks
  | .owner fields, hasks => UserFields.asksKey_mono h fields hasks

end

/-- On a blob, a key is come to through the `owner`, who then has a row. -/
theorem BlobFields.owner_of_asksKey {owner : Uuid} : ∀ fields : BlobFields,
    fields.AsksKey platform context secret owner → ¬ fields.Fails platform context owner →
      context.db.users.lookup owner.cell ≠ none
  | .nil, hasks, _ => hasks.elim
  | .cons _ field rest, hasks, hfails => by
      rw [BlobFields.Fails, not_or] at hfails
      rcases hasks with hasks | hasks
      · cases field with
        | owner fields =>
            rw [BlobField.Fails, not_or] at hfails
            exact hfails.1.1
        | _ => exact hasks.elim
      · exact BlobFields.owner_of_asksKey rest hasks hfails.2

/-- A query that does not fail comes to keys of users that have a row. -/
theorem RootField.asksKey_mono
    (h : ∀ u, context.db.users.lookup u.cell ≠ none → secret u → secret' u) (field : RootField)
    (hfails : ¬ field.Fails platform context) (hasks : field.AsksKey platform context secret) :
    field.AsksKey platform context secret' := by
  cases field with
  | apiVersion => exact hasks
  | me fields => exact hasks
  | user id fields =>
      rw [RootField.Fails, not_or] at hfails
      exact UserFields.asksKey_mono (h id hfails.1) fields hasks
  | blob id fields =>
      obtain ⟨blob, hblob, hasks⟩ := hasks
      have hfields : ¬ fields.Fails platform context blob.ownerId :=
        fun hf => hfails (Or.inr ⟨blob, hblob, hf⟩)
      have howner := BlobFields.owner_of_asksKey fields hasks hfields
      exact ⟨blob, hblob, BlobFields.asksKey_mono (h blob.ownerId howner) fields hasks⟩
  | blobs fields =>
      obtain ⟨blobs, hblobs, blob, hblob, hasks⟩ := hasks
      have hfields : ¬ fields.Fails platform context blob.ownerId :=
        fun hf => hfails (Or.inr ⟨blobs, hblobs, blob, hblob, hf⟩)
      have howner := BlobFields.owner_of_asksKey fields hasks hfields
      exact ⟨blobs, hblobs, blob, hblob,
        BlobFields.asksKey_mono (h blob.ownerId howner) fields hasks⟩

/-- There is always another key. -/
theorem Context.exists_secret (context : Context) (v : Uuid) :
    ∃ key, ∀ u, context.db.users.lookup u.cell ≠ none → u = v → context.Secret v key u := by
  rcases hrow : context.db.users.lookup v.cell with _ | row
  · refine ⟨"", ?_⟩
    rintro u hu rfl
    exact absurd hrow hu
  · refine ⟨row.privateKey.push ' ', ?_⟩
    rintro u - rfl
    refine ⟨rfl, row, hrow, fun heq => ?_⟩
    have hlength := congrArg String.length heq
    rw [String.length_push] at hlength
    omega

end

/-! ## The response -/

/-- A field of the query comes to the private key of `v`, and no field fails. -/
def Leaks (platform : Platform) (context : Context) (v : Uuid) (query : List (String × RootField)) :
    Prop :=
  (∃ field ∈ query, field.2.AsksKey platform context (fun u => u = v)) ∧
    ¬ ∃ field ∈ query, field.2.Fails platform context

/-- **The response to a query does not depend on the private key of a user other than the current
    one, exactly unless a field outside `me` comes to that key and no field of the query fails.** -/
theorem execute_independent_iff (platform : Platform) (context : Context) (v : Uuid)
    (hv : ∀ user, context.currentUser = some user → user.id ≠ v)
    (query : List (String × RootField)) :
    (∀ key, execute platform (context.withKey v key) query = execute platform context query) ↔
      ¬ Leaks platform context v query := by
  constructor
  · rintro hsame ⟨⟨field, hfield, hasks⟩, hfails⟩
    obtain ⟨key, hkey⟩ := context.exists_secret v
    rcases execute_withKey key hv query with
      ⟨hfails', -⟩ | ⟨data, data', errors, -, hdata, hdata', hiff⟩
    · exact hfails hfails'
    · have hequal : data = data' := by
        have heq := hsame key
        rw [hdata, hdata'] at heq
        simpa using heq.symm
      exact hiff.1 hequal ⟨field, hfield,
        RootField.asksKey_mono hkey field.2 (fun hf => hfails ⟨field, hfield, hf⟩) hasks⟩
  · intro hleaks key
    rcases execute_withKey key hv query with
      ⟨-, hsame, -⟩ | ⟨data, data', errors, hfails, hdata, hdata', hiff⟩
    · exact hsame.symm
    · have hasks : ¬ ∃ field ∈ query,
          field.2.AsksKey platform context (context.Secret v key) := by
        rintro ⟨field, hfield, hasks⟩
        refine hleaks ⟨⟨field, hfield, ?_⟩, hfails⟩
        exact RootField.asksKey_mono (fun u _ hsecret => hsecret.1) field.2
          (fun hf => hfails ⟨field, hfield, hf⟩) hasks
      rw [hdata, hdata', hiff.2 hasks]

/-! ## A leak -/

/-- The row of the sample user. -/
def UserRow.sample : UserRow where
  id := User.sample.id.cell
  username := User.sample.username
  passwordHash := User.sample.passwordHash
  privateKey := User.sample.privateKey
  email := User.sample.email
  createdAt := User.sample.createdAt

/-- A request without a user to a node that has the sample user. -/
def Context.sample : Context where
  currentUser := none
  db := { Db.empty with users := ⟨[UserRow.sample], List.nodup_singleton _⟩ }
  blobScan := []
  userBatch _ := []
  blobBatch _ := []

/-- `{ user(id: ...) { privateKey } }`. -/
def RootField.sampleKey : List (String × RootField) :=
  [("user", .user User.sample.id (.cons "privateKey" .privateKey .nil))]

theorem execute_independent_sample :
    (∀ key, execute Platform.sample (Context.sample.withKey User.sample.id key) RootField.sampleKey
      = execute Platform.sample Context.sample RootField.sampleKey) ↔
      ¬ Leaks Platform.sample Context.sample User.sample.id RootField.sampleKey :=
  execute_independent_iff Platform.sample Context.sample User.sample.id nofun RootField.sampleKey

/-- Nobody has logged in, and the key is in the response. -/
theorem execute_leaks_key :
    ¬ ∀ (platform : Platform) (context : Context) (v : Uuid) (key : String)
      (query : List (String × RootField)),
      (∀ user, context.currentUser = some user → user.id ≠ v) →
      execute platform (context.withKey v key) query = execute platform context query := by
  intro h
  have hsame := h Platform.sample Context.sample User.sample.id "AQ==" RootField.sampleKey nofun
  have hbefore : execute Platform.sample Context.sample RootField.sampleKey
      = some ⟨some [("user", .object [("privateKey", .string "AA==")])], []⟩ := by
    rfl
  have hafter : execute Platform.sample (Context.sample.withKey User.sample.id "AQ==")
      RootField.sampleKey
      = some ⟨some [("user", .object [("privateKey", .string "AQ==")])], []⟩ := by
    rfl
  rw [hbefore, hafter] at hsame
  simp at hsame

end DaConcept.Node
