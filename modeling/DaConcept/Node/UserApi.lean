import DaConcept.Node.Server

set_option autoImplicit false

/-! # The mutations of the user API (`da-node/src/user_api/mod.rs`)

`addBlob` and `deleteBlob`, cut into the statements and lock sections between which other activities
of the node may run, as the handlers of the server are. Nothing puts the statements of one mutation
into a transaction. -/

namespace DaConcept.Node

open Crypto

/-! ## Inputs and results -/

/-- `BlobInput`. -/
structure BlobInput where
  content : String
  metadata : Option String
  contentType : Option String
deriving DecidableEq

/-- `BlobSchema`. -/
structure BlobSchema where
  id : Uuid
  content : String
  metadata : Option String
  contentType : Option String
  size : Int32
  hash : Option String
  ownerId : Uuid
  createdAt : Timestamp
deriving DecidableEq

/-- `BlobSchema::from`. -/
def BlobSchema.from (blob : Blob) (content : String) : BlobSchema where
  id := blob.id
  content := content
  metadata := blob.metadata
  contentType := blob.contentType
  size := blob.size
  hash := blob.hash
  ownerId := blob.ownerId
  createdAt := blob.createdAt

/-- The errors of the loaders: `anyhow!("User not found: {}", id)` and its like, and
    `anyhow!("Database error: {}", e)`. -/
inductive LoaderError where
  | notFound (text : String)
  | database (e : SqlxError)
deriving DecidableEq

/-- What a resolver hands to `FieldError`. -/
inductive FieldError where
  | message (text : String)
  | database (e : SqlxError)
  | crypto (e : CryptoError)
  | loader (e : LoaderError)
deriving DecidableEq

/-- What a mutation returns. -/
inductive MutationData where
  | addBlob (blob : BlobSchema)
  | deleteBlob (deleted : Bool)
deriving DecidableEq

/-! ## Statements -/

/-- The row that `add_blob` inserts: `id` and `owner_id` are bound as `Uuid`s. -/
def addedRow (platform : Platform) (now : Timestamp) (blobId : Uuid) (currentUser : User)
    (blobInput : BlobInput) (content : Bytes) (relatedPubkey : String) : BlobRow where
  id := blobId.cell
  content := content
  metadata := blobInput.metadata
  contentType := blobInput.contentType
  size := content.length
  hash := some (platform.contentHash content)
  ownerId := currentUser.id.cell
  publicKey := relatedPubkey
  createdAt := now
  deletedAt := none

/-- The pending row that `delete_blob` inserts for a peer. -/
def pendingRow (blobId : Uuid) (peerId : String) : SyncStatusRow where
  blobId := blobId.cell
  peerNodeId := peerId
  syncStatus := .pending
  lastSyncAttempt := none
  lastSuccessfulSync := none

/-- The peers that have completed a blob. -/
def Db.completedPeers (db : Db) (blobId : Uuid) : List String :=
  (db.syncStatus.rows.filter
    (fun s => s.blobId = blobId.cell && s.syncStatus = .completed)).map (·.peerNodeId)

/-- `INSERT INTO sync_status (blob_id, peer_node_id, sync_status)
    SELECT ?, peer_node_id, 'pending' FROM sync_status
    WHERE blob_id = ? AND sync_status = 'completed'`: all rows are inserted or none. -/
def insertPendingOfCompleted (blobId : Uuid) (db : Db) : Except SqlxError Db :=
  match ((db.completedPeers blobId).map (pendingRow blobId)).foldlM Table.insert db.syncStatus with
  | some syncStatus => .ok { db with syncStatus }
  | none => .error .uniqueViolation

/-! ## The mutations -/

/-- Where a mutation stands. -/
inductive Mutation where
  /-- `add_blob` comes to its INSERT. -/
  | addBlob (currentUser : Option User) (blobInput : BlobInput)
  /-- `add_blob` comes to `sync_blob`. -/
  | addBlobSync (blob : Blob) (content : String)
  /-- `delete_blob` comes to its SELECT. -/
  | deleteBlob (currentUser : Option User) (blobId : Uuid)
  /-- `delete_blob` comes to its UPDATE. -/
  | deleteBlobUpdate (blob : Blob) (blobId : Uuid)
  /-- `delete_blob` comes to `sync_blob`. -/
  | deleteBlobSync (blob : Blob) (blobId : Uuid)
  /-- `delete_blob` comes to its INSERT. -/
  | deleteBlobPending (blobId : Uuid)
  /-- The mutation has returned. -/
  | returned (result : Outcome FieldError MutationData)
deriving DecidableEq

/-- What the environment supplies to a step of a mutation. -/
structure MutationInput where
  now : Timestamp
  /-- The draw of `Uuid::new_v4`. -/
  newV4 : Uuid
  /-- The random bytes of the encryptions. -/
  draw : Nat → RandomBytes

/-- What `add_blob` encrypts, and the public key it records. -/
def addBlobContent (platform : Platform) (draw : Nat → RandomBytes) (currentUser : User)
    (content : String) : Outcome FieldError (Bytes × String) :=
  match PrivateKey.tryFrom platform.base64 currentUser.privateKey with
  | .error e => .err (.crypto e)
  | .ok privateKey => do
      let encrypted ← encrypt (utf8 content) privateKey draw
      pure (encrypted, privateKey.publicKey.getEncodedPublicKey platform.base64)

/-- `add_blob` up to `sync_blob`. The statement has inserted its row before the row it returns is
    decoded. -/
def addBlob (platform : Platform) (inp : MutationInput) (currentUser : Option User)
    (blobInput : BlobInput) (db : Db) : Db × Mutation :=
  match currentUser with
  | none => (db, .returned (.err (.message "Authentication required")))
  | some currentUser =>
      match addBlobContent platform inp.draw currentUser blobInput.content with
      | .err e => (db, .returned (.err e))
      | .panic => (db, .returned .panic)
      | .ok (content, relatedPubkey) =>
          let row := addedRow platform inp.now inp.newV4 currentUser blobInput content relatedPubkey
          match db.blobs.insert row with
          | none => (db, .returned (.err (.database .uniqueViolation)))
          | some blobs =>
              match row.decode with
              | some blob => ({ db with blobs }, .addBlobSync blob blobInput.content)
              | none => ({ db with blobs }, .returned (.err (.database .columnDecode)))

/-- `delete_blob` up to its UPDATE. -/
def deleteBlob (currentUser : Option User) (blobId : Uuid) (db : Db) : Mutation :=
  match currentUser with
  | none => .returned (.err (.message "Authentication required"))
  | some currentUser =>
      match db.selectBlob blobId with
      | .error e => .returned (.err (.database e))
      | .ok none => .returned (.err (.message "Blob not found"))
      | .ok (some blob) =>
          if blob.ownerId ≠ currentUser.id then
            .returned (.err (.message "You don't have permission to delete this blob"))
          else .deleteBlobUpdate blob blobId

/-- `sync_blob`. -/
def syncBlob (blob : Blob) (s : Shared) : Shared :=
  { s with manager := s.manager.queueBlobFetch blob.id (blob.hash.getD "") }

/-- One step of a mutation; `none` if it has returned. -/
def Mutation.step (platform : Platform) (inp : MutationInput) (s : Shared) :
    Mutation → Option (Shared × Mutation)
  | .addBlob currentUser blobInput =>
      let (db, next) := Node.addBlob platform inp currentUser blobInput s.db
      some ({ s with db }, next)
  | .addBlobSync blob content =>
      some (syncBlob blob s, .returned (.ok (.addBlob (BlobSchema.from blob content))))
  | .deleteBlob currentUser blobId => some (s, Node.deleteBlob currentUser blobId s.db)
  | .deleteBlobUpdate blob blobId =>
      some ({ s with db := s.db.setDeletedAt blobId.cell inp.now }, .deleteBlobSync blob blobId)
  | .deleteBlobSync blob blobId => some (syncBlob blob s, .deleteBlobPending blobId)
  | .deleteBlobPending blobId =>
      match insertPendingOfCompleted blobId s.db with
      | .ok db => some ({ s with db }, .returned (.ok (.deleteBlob true)))
      | .error e => some (s, .returned (.err (.database e)))
  | .returned _ => none

/-! ## What a step of a mutation comes to -/

/-- Where a mutation goes on: `add_blob` to `sync_blob`, `delete_blob` to its UPDATE if it has found
    the blob and the caller owns it and from there on, and each of them to its result. -/
inductive Mutation.Next (db : Db) : Mutation → Mutation → Prop
  | added (currentUser : Option User) (blobInput : BlobInput) (blob : Blob) :
      Next db (.addBlob currentUser blobInput) (.addBlobSync blob blobInput.content)
  | found {user : User} {blobId : Uuid} {blob : Blob}
      (hfound : db.selectBlob blobId = .ok (some blob)) (howner : blob.ownerId = user.id) :
      Next db (.deleteBlob (some user) blobId) (.deleteBlobUpdate blob blobId)
  | deleted (blob : Blob) (blobId : Uuid) :
      Next db (.deleteBlobUpdate blob blobId) (.deleteBlobSync blob blobId)
  | queued (blob : Blob) (blobId : Uuid) :
      Next db (.deleteBlobSync blob blobId) (.deleteBlobPending blobId)
  | returned (m : Mutation) (result : Outcome FieldError MutationData) :
      Next db m (.returned result)

theorem addBlob_next (platform : Platform) (inp : MutationInput) (currentUser : Option User)
    (blobInput : BlobInput) (db : Db) :
    Mutation.Next db (.addBlob currentUser blobInput)
      (addBlob platform inp currentUser blobInput db).2 := by
  cases currentUser with
  | none => exact .returned _ _
  | some user =>
      simp only [addBlob]
      split
      · exact .returned _ _
      · exact .returned _ _
      · split
        · exact .returned _ _
        · split
          · exact .added _ _ _
          · exact .returned _ _

theorem deleteBlob_next (currentUser : Option User) (blobId : Uuid) (db : Db) :
    Mutation.Next db (.deleteBlob currentUser blobId) (deleteBlob currentUser blobId db) := by
  cases currentUser with
  | none => exact .returned _ _
  | some user =>
      simp only [deleteBlob]
      split
      · exact .returned _ _
      · exact .returned _ _
      · next blob hfound =>
          split
          · exact .returned _ _
          · next howner => exact .found hfound (not_not.1 howner)

/-- **What a step of a mutation comes to.** -/
theorem Mutation.next_of_step {platform : Platform} {inp : MutationInput} {s s' : Shared}
    {m m' : Mutation} (h : m.step platform inp s = some (s', m')) : m.Next s.db m' := by
  cases m with
  | addBlob currentUser blobInput =>
      cases h
      exact addBlob_next platform inp currentUser blobInput s.db
  | addBlobSync blob content =>
      cases h
      exact .returned _ _
  | deleteBlob currentUser blobId =>
      cases h
      exact deleteBlob_next currentUser blobId s.db
  | deleteBlobUpdate blob blobId =>
      cases h
      exact .deleted blob blobId
  | deleteBlobSync blob blobId =>
      cases h
      exact .queued blob blobId
  | deleteBlobPending blobId =>
      simp only [Mutation.step] at h
      split at h <;> cases h
      · exact .returned _ _
      · exact .returned _ _
  | returned result => cases h

/-- A mutation that runs alone, for at most `fuel` steps. -/
def Mutation.run (platform : Platform) (inp : MutationInput) :
    Nat → Shared → Mutation → Shared × Mutation
  | 0, s, m => (s, m)
  | fuel + 1, s, m =>
      match m.step platform inp s with
      | some (s', m') => Mutation.run platform inp fuel s' m'
      | none => (s, m)

end DaConcept.Node
