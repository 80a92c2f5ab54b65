import DaConcept.Node.UserApi

set_option autoImplicit false

/-! # The queries of the user API (`user_api/mod.rs`, `types.rs`, `data_loader.rs`)

A query is a tree of selection sets; resolving one walks the tree with the object at hand. Every
field but `me` and a few leaves is non-null, so an error takes the whole response down, or what is
under `me`: resolving is a sequence of calls each of which may fail. Fields are resolved in order,
and the errors of fields after a failed one, which the executor may or may not still see, are left
out. -/

namespace DaConcept.Node

open Crypto

/-! ## Loaders -/

/-- What `UserBatcher::load` and `BlobBatcher::load` make of the rows their query returns, or of its
    error: a map from the requested ids. -/
def batchLoad {α : Type} (idOf : α → Uuid) (notFound : Uuid → String) (ids : List Uuid)
    (fetched : Except SqlxError (List α)) : Uuid → Option (Except LoaderError α) :=
  match ids, fetched with
  | [], _ => fun _ => none
  | ids, .ok rows =>
      let found := rows.foldl (fun map row => Function.update map (idOf row) (some (.ok row)))
        (fun _ => none)
      ids.foldl (fun map id =>
        if (map id).isSome then map
        else Function.update map id (some (.error (.notFound (notFound id))))) found
  | ids, .error e =>
      ids.foldl (fun map id => Function.update map id (some (.error (.database e)))) (fun _ => none)

section

variable {α : Type} {idOf : α → Uuid}

/-- The rows go into the map under their ids. -/
theorem foldl_update_of_mem {map : Uuid → Option (Except LoaderError α)} {rows : List α} {x : α}
    (hx : x ∈ rows) (huniq : ∀ row ∈ rows, idOf row = idOf x → row = x) :
    rows.foldl (fun map row => Function.update map (idOf row) (some (.ok row))) map (idOf x)
      = some (.ok x) := by
  induction rows using List.reverseRecOn with
  | nil => cases hx
  | append_singleton init last ih =>
      rw [List.foldl_append, List.foldl_cons, List.foldl_nil]
      by_cases hid : idOf last = idOf x
      · obtain rfl := huniq last (by simp) hid
        exact Function.update_self ..
      · rw [Function.update_of_ne (Ne.symm hid)]
        rcases List.mem_append.1 hx with hold | hnew
        · exact ih hold (fun row hrow => huniq row (List.mem_append_left _ hrow))
        · exact absurd (by rw [List.mem_singleton.1 hnew]) hid

theorem foldl_update_of_not_mem {map : Uuid → Option (Except LoaderError α)} {rows : List α}
    {id : Uuid} (h : ∀ row ∈ rows, idOf row ≠ id) :
    rows.foldl (fun map row => Function.update map (idOf row) (some (.ok row))) map id
      = map id := by
  induction rows generalizing map with
  | nil => rfl
  | cons row rows ih =>
      rw [List.forall_mem_cons] at h
      rw [List.foldl_cons, ih h.2, Function.update_of_ne (Ne.symm h.1)]

/-- The requested ids that are not in the map are not found. -/
theorem foldl_notFound {map : Uuid → Option (Except LoaderError α)} {notFound : Uuid → String}
    {ids : List Uuid} {id : Uuid} :
    ids.foldl (fun map id =>
      if (map id).isSome then map
      else Function.update map id (some (.error (.notFound (notFound id))))) map id
      = if (map id).isSome then map id
        else if id ∈ ids then some (.error (.notFound (notFound id))) else none := by
  induction ids generalizing map with
  | nil =>
      rcases hmap : map id with _ | result <;> simp [hmap]
  | cons id' ids ih =>
      rw [List.foldl_cons, ih]
      by_cases hid : id = id'
      · subst hid
        rcases hmap : map id with _ | result <;> simp [hmap]
      · rcases map id' with _ | result <;> simp [hid]

/-- A requested id maps to the row that has it. -/
theorem batchLoad_of_mem {notFound : Uuid → String} {ids : List Uuid} {rows : List α} {x : α}
    (hid : idOf x ∈ ids) (hx : x ∈ rows) (huniq : ∀ row ∈ rows, idOf row = idOf x → row = x) :
    batchLoad idOf notFound ids (.ok rows) (idOf x) = some (.ok x) := by
  rcases ids with _ | ⟨id, ids⟩
  · cases hid
  · simp only [batchLoad]
    rw [foldl_notFound, foldl_update_of_mem hx huniq]
    rfl

/-- A requested id that no row has maps to the error that says so. -/
theorem batchLoad_of_not_mem {notFound : Uuid → String} {ids : List Uuid} {rows : List α}
    {id : Uuid} (hid : id ∈ ids) (h : ∀ row ∈ rows, idOf row ≠ id) :
    batchLoad idOf notFound ids (.ok rows) id = some (.error (.notFound (notFound id))) := by
  rcases ids with _ | ⟨id', ids⟩
  · cases hid
  · simp only [batchLoad]
    rw [foldl_notFound, foldl_update_of_not_mem h]
    simp [hid]

/-- No other id is a key of the map. -/
theorem batchLoad_of_not_requested {notFound : Uuid → String} {ids : List Uuid} {rows : List α}
    {id : Uuid} (hid : id ∉ ids) (h : ∀ row ∈ rows, idOf row ≠ id) :
    batchLoad idOf notFound ids (.ok rows) id = none := by
  rcases ids with _ | ⟨id', ids⟩
  · rfl
  · simp only [batchLoad]
    rw [foldl_notFound, foldl_update_of_not_mem h]
    simp [hid]

/-- If the query has failed, every requested id maps to its error. -/
theorem batchLoad_error {notFound : Uuid → String} (ids : List Uuid) (e : SqlxError) (id : Uuid) :
    batchLoad idOf notFound ids (.error e) id
      = if id ∈ ids then some (.error (.database e)) else none := by
  have hfold (ids : List Uuid) : ∀ map : Uuid → Option (Except LoaderError α),
      ids.foldl (fun map id => Function.update map id (some (.error (.database e)))) map id
        = if id ∈ ids then some (.error (.database e)) else map id := by
    induction ids with
    | nil => intro map; rfl
    | cons id' ids ih =>
        intro map
        rw [List.foldl_cons, ih]
        by_cases hid : id = id'
        · simp [hid]
        · simp [hid]
  rcases ids with _ | ⟨id', ids⟩
  · rfl
  · exact hfold (id' :: ids) _

end

/-- `SELECT * FROM users WHERE id IN (...)`. -/
def Db.selectUsers (db : Db) (ids : List Uuid) : Except SqlxError (List User) :=
  match (db.users.rows.filter (fun r => ids.any (·.cell = r.id))).mapM UserRow.decode with
  | some users => .ok users
  | none => .error .columnDecode

/-- `SELECT * FROM blobs WHERE id IN (...) AND deleted_at IS NULL`. -/
def Db.selectBlobs (db : Db) (ids : List Uuid) : Except SqlxError (List Blob) :=
  match (db.blobs.rows.filter (fun r => ids.any (·.cell = r.id) && r.live)).mapM
      BlobRow.decode with
  | some blobs => .ok blobs
  | none => .error .columnDecode

/-- `UserBatcher::load`. -/
def UserBatcher.load (userIds : List Uuid) (db : Db) : Uuid → Option (Except LoaderError User) :=
  batchLoad User.id (fun id => "User not found: " ++ id.toString) userIds (db.selectUsers userIds)

/-- `BlobBatcher::load`. -/
def BlobBatcher.load (blobIds : List Uuid) (db : Db) : Uuid → Option (Except LoaderError Blob) :=
  batchLoad Blob.id (fun id => "Blob not found: " ++ id.toString) blobIds (db.selectBlobs blobIds)

/-! ## Context and schema -/

/-- `Context`, and what the environment chooses: the order in which `SELECT`s yield the rows of
    `blobs`, and with which other ids an id is loaded. -/
structure Context where
  currentUser : Option User
  db : Db
  blobScan : List BlobRow
  userBatch : Uuid → List Uuid
  blobBatch : Uuid → List Uuid

/-- `user_loader().load(id)`. -/
def Context.loadUser (context : Context) (id : Uuid) : Outcome FieldError User :=
  match UserBatcher.load (id :: context.userBatch id) context.db id with
  | some (.ok user) => .ok user
  | some (.error e) => .err (.loader e)
  | none => .panic

/-- `blob_loader().load(id)`. -/
def Context.loadBlob (context : Context) (id : Uuid) : Outcome FieldError Blob :=
  match BlobBatcher.load (id :: context.blobBatch id) context.db id with
  | some (.ok blob) => .ok blob
  | some (.error e) => .err (.loader e)
  | none => .panic

/-- `UserSchema`. -/
structure UserSchema where
  id : Uuid
  username : String
  privateKey : String
  email : Option String
deriving DecidableEq

/-- `UserSchema::new`. -/
def UserSchema.new (user : User) : UserSchema where
  id := user.id
  username := user.username
  privateKey := user.privateKey
  email := user.email

/-- `BlobSchema::new`. -/
def BlobSchema.new (platform : Platform) (blob : Blob) : BlobSchema :=
  BlobSchema.from blob (platform.base64.encode blob.content)

/-- The rows a `SELECT * FROM blobs` returns, decoded. -/
def fetchAll (rows : List BlobRow) : Outcome FieldError (List Blob) :=
  match rows.mapM BlobRow.decode with
  | some blobs => .ok blobs
  | none => .err (.database .columnDecode)

/-- `Query::blobs`. -/
def Query.blobs (platform : Platform) (context : Context) :
    Outcome FieldError (List BlobSchema) := do
  let blobs ← fetchAll (context.blobScan.filter (·.live))
  pure (blobs.map (BlobSchema.new platform))

/-- The content that `UserSchema::blobs` shows of a blob. -/
def shownContent (platform : Platform) (privateKey : PrivateKey) (blob : Blob) :
    Outcome FieldError String :=
  if blob.publicKey = privateKey.publicKey.getEncodedPublicKey platform.base64 then
    (decrypt blob.content privateKey).mapErr .crypto
  else .ok (platform.base64.encode blob.content)

/-- `UserSchema::blobs`, of the user with the id. -/
def Context.blobsOf (platform : Platform) (context : Context) (id : Uuid) :
    Outcome FieldError (List BlobSchema) :=
  match context.currentUser with
  | none => .err (.message "Authentication required")
  | some currentUser => do
      let blobs ← fetchAll (context.blobScan.filter (fun r => r.ownerId = id.cell && r.live))
      let privateKey ← (Outcome.ofExcept
        (PrivateKey.tryFrom platform.base64 currentUser.privateKey)).mapErr .crypto
      Outcome.traverse (fun blob => do
        let content ← shownContent platform privateKey blob
        pure (BlobSchema.from blob content)) blobs

/-! ## Selection sets and values -/

mutual

/-- A selection set on a `UserSchema`: response keys and fields. -/
inductive UserFields where
  | nil
  | cons (key : String) (field : UserField) (rest : UserFields)

/-- A field of `UserSchema`. -/
inductive UserField where
  | id
  | username
  | email
  | privateKey
  | blobs (fields : BlobFields)

/-- A selection set on a `BlobSchema`. -/
inductive BlobFields where
  | nil
  | cons (key : String) (field : BlobField) (rest : BlobFields)

/-- A field of `BlobSchema`. -/
inductive BlobField where
  | id
  | metadata
  | contentType
  | size
  | hash
  | createdAt
  | owner (fields : UserFields)
  | content

end

/-- A field of `Query`. -/
inductive RootField where
  | apiVersion
  | me (fields : UserFields)
  | user (id : Uuid) (fields : UserFields)
  | blob (id : Uuid) (fields : BlobFields)
  | blobs (fields : BlobFields)

/-- A value in a response. -/
inductive Value where
  | null
  | int (i : Int)
  | string (s : String)
  | dateTime (t : Timestamp)
  | list (vs : List Value)
  | object (fields : List (String × Value))

/-- A leaf that may be null. -/
def Value.ofOption : Option String → Value
  | some s => .string s
  | none => .null

/-- An error with the path of response keys to the field that failed. -/
structure ExecutionError where
  path : List String
  error : FieldError
deriving DecidableEq

/-- An error of a field under a response key. -/
def ExecutionError.under (key : String) (e : ExecutionError) : ExecutionError :=
  { e with path := key :: e.path }

/-! ## Resolving -/

/-- The result of a resolver, its error at the field itself. -/
def resolver {α : Type} (x : Outcome FieldError α) : Outcome ExecutionError α :=
  x.mapErr (fun e => ⟨[], e⟩)

mutual

def UserFields.resolve (platform : Platform) (context : Context) (user : UserSchema) :
    UserFields → Outcome ExecutionError (List (String × Value))
  | .nil => .ok []
  | .cons key field rest => do
      let value ← (field.resolve platform context user).mapErr (.under key)
      let values ← rest.resolve platform context user
      pure ((key, value) :: values)

def UserField.resolve (platform : Platform) (context : Context) (user : UserSchema) :
    UserField → Outcome ExecutionError Value
  | .id => .ok (.string user.id.toString)
  | .username => .ok (.string user.username)
  | .email => .ok (.ofOption user.email)
  | .privateKey => .ok (.string user.privateKey)
  | .blobs fields => do
      let blobs ← resolver (context.blobsOf platform user.id)
      let objects ← Outcome.traverse (fun blob => fields.resolve platform context blob) blobs
      pure (.list (objects.map .object))

def BlobFields.resolve (platform : Platform) (context : Context) (blob : BlobSchema) :
    BlobFields → Outcome ExecutionError (List (String × Value))
  | .nil => .ok []
  | .cons key field rest => do
      let value ← (field.resolve platform context blob).mapErr (.under key)
      let values ← rest.resolve platform context blob
      pure ((key, value) :: values)

def BlobField.resolve (platform : Platform) (context : Context) (blob : BlobSchema) :
    BlobField → Outcome ExecutionError Value
  | .id => .ok (.string blob.id.toString)
  | .metadata => .ok (.ofOption blob.metadata)
  | .contentType => .ok (.ofOption blob.contentType)
  | .size => .ok (.int blob.size.toInt)
  | .hash => .ok (.ofOption blob.hash)
  | .createdAt => .ok (.dateTime blob.createdAt)
  | .owner fields => do
      let user ← resolver (context.loadUser blob.ownerId)
      let object ← fields.resolve platform context (UserSchema.new user)
      pure (.object object)
  | .content => .ok (.string blob.content)

end

/-- The value of a field of `Query`, with the errors met on the way. -/
def RootField.resolve (platform : Platform) (context : Context) :
    RootField → Outcome ExecutionError (Value × List ExecutionError)
  | .apiVersion => .ok (.string "1.0", [])
  | .me fields =>
      match context.currentUser with
      | none => .ok (.null, [])
      | some currentUser =>
          match fields.resolve platform context (UserSchema.new currentUser) with
          | .ok object => .ok (.object object, [])
          | .err e => .ok (.null, [e])
          | .panic => .panic
  | .user id fields => do
      let found ← resolver (context.loadUser id)
      let object ← fields.resolve platform context (UserSchema.new found)
      pure (.object object, [])
  | .blob id fields => do
      let found ← resolver (context.loadBlob id)
      let object ← fields.resolve platform context (BlobSchema.new platform found)
      pure (.object object, [])
  | .blobs fields => do
      let found ← resolver (Query.blobs platform context)
      let objects ← Outcome.traverse (fun b => fields.resolve platform context b) found
      pure (.list (objects.map .object), [])

/-- A response: the data, unless an error took it down, and the errors. -/
structure Response where
  data : Option (List (String × Value))
  errors : List ExecutionError

/-- Execute a query; a panic ends the connection without a response. -/
def execute (platform : Platform) (context : Context) :
    List (String × RootField) → Option Response
  | [] => some ⟨some [], []⟩
  | (key, field) :: rest =>
      match field.resolve platform context with
      | .panic => none
      | .err e => some ⟨none, [e.under key]⟩
      | .ok (value, errors) =>
          (execute platform context rest).map (fun response =>
            { data := response.data.map ((key, value) :: ·)
              errors := errors.map (.under key) ++ response.errors })

end DaConcept.Node
