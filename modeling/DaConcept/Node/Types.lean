import DaConcept.Lib.Table
import DaConcept.Crypto.Elgamal
import DaConcept.Node.Uuid

set_option autoImplicit false

/-! # The node's data (`da-node/src/user_api/types.rs`, `proto/sync.proto`, `migrations/`)

The rows of the three tables, the structs they are decoded into, the messages between nodes, and
the errors. Columns that no statement of the node reads back (`retry_count`, `updated_at` and the
triggers that maintain it) are left out.

An id column holds a `Cell`. `sqlx` binds a `Uuid` as its 16 bytes and a `String` as text, a column
of TEXT affinity keeps both as they are, and a BLOB never equals a TEXT value: the two ways of
writing one UUID are different keys. -/

namespace DaConcept.Node

open Crypto

/-- A point in time. -/
abbrev Timestamp := Int

/-- What the node takes from libraries: the digest of `sha2::Sha256`, the base64 engine, and the
    RFC 3339 texts of `chrono`. -/
structure Platform where
  sha256 : Bytes → Bytes
  base64 : Base64
  toRfc3339 : Timestamp → String
  parseFromRfc3339 : String → Option Timestamp

/-- `format!("{:x}", hasher.finalize())` after hashing `content`. -/
def Platform.contentHash (platform : Platform) (content : Bytes) : String :=
  hexLower (platform.sha256 content)

/-! ## Cells -/

/-- The value of an id column. -/
inductive Cell where
  | text (s : String)
  | blob (bs : Bytes)
deriving DecidableEq

/-- A bound `Uuid`. -/
def Uuid.cell (u : Uuid) : Cell := .blob u.bytes

/-- Decoding a `Uuid`: the cell must hold exactly 16 bytes. -/
def Cell.decodeUuid (c : Cell) : Option Uuid :=
  let bytes := match c with
    | .text s => utf8 s
    | .blob bs => bs
  if h : bytes.length = 16 then some ⟨bytes, h⟩ else none

/-- The UUID a cell denotes, by its bytes or by its text. -/
def Cell.denotes : Cell → Option Uuid
  | .text s => Uuid.parse s
  | .blob bs => if h : bs.length = 16 then some ⟨bs, h⟩ else none

@[simp] theorem Uuid.decodeUuid_cell (u : Uuid) : u.cell.decodeUuid = some u :=
  dif_pos u.length_eq

@[simp] theorem Uuid.denotes_cell (u : Uuid) : u.cell.denotes = some u :=
  dif_pos u.length_eq

@[simp] theorem Uuid.denotes_text_toString (u : Uuid) :
    (Cell.text u.toString).denotes = some u := u.parse_toString

@[simp] theorem Uuid.cell_ne_text (u : Uuid) (s : String) : u.cell ≠ .text s := nofun

@[simp] theorem Uuid.text_ne_cell (u : Uuid) (s : String) : Cell.text s ≠ u.cell := nofun

@[simp] theorem Uuid.cell_inj {u v : Uuid} : u.cell = v.cell ↔ u = v := by
  cases u
  cases v
  simp [Uuid.cell]

/-- The 36 bytes of a UUID's text are no UUID. -/
theorem Uuid.decodeUuid_text_toString (u : Uuid) : (Cell.text u.toString).decodeUuid = none := by
  have hlen := length_toList_le_utf8 u.toString
  rw [Uuid.toString_length] at hlen
  have hne : (utf8 u.toString).length ≠ 16 := by omega
  exact dif_neg hne

/-! ## Rows -/

/-- A row of `users`. -/
structure UserRow where
  id : Cell
  username : String
  passwordHash : String
  privateKey : String
  email : Option String
  createdAt : Timestamp
deriving DecidableEq

/-- A row of `blobs`. -/
structure BlobRow where
  id : Cell
  content : Bytes
  metadata : Option String
  contentType : Option String
  size : Int
  hash : Option String
  ownerId : Cell
  publicKey : String
  createdAt : Timestamp
  deletedAt : Option Timestamp
deriving DecidableEq

/-- `deleted_at IS NULL`. -/
def BlobRow.live (r : BlobRow) : Bool := r.deletedAt.isNone

/-- The values that the CHECK of `sync_status.sync_status` admits. -/
inductive Status where
  | pending
  | completed
  | failed
deriving DecidableEq

/-- A row of `sync_status`. -/
structure SyncStatusRow where
  blobId : Cell
  peerNodeId : String
  syncStatus : Status
  lastSyncAttempt : Option Timestamp
  lastSuccessfulSync : Option Timestamp
deriving DecidableEq

/-- `PRIMARY KEY (blob_id, peer_node_id)`. -/
def SyncStatusRow.key (r : SyncStatusRow) : Cell × String := (r.blobId, r.peerNodeId)

/-- The database of a node. -/
structure Db where
  users : Table UserRow.id
  blobs : Table BlobRow.id
  syncStatus : Table SyncStatusRow.key

/-- The tables as the migrations create them. -/
def Db.empty : Db := ⟨.empty, .empty, .empty⟩

/-! ## Decoded rows -/

/-- `types::User`. -/
structure User where
  id : Uuid
  username : String
  passwordHash : String
  privateKey : String
  email : Option String
  createdAt : Timestamp
deriving DecidableEq

/-- `types::Blob`. -/
structure Blob where
  id : Uuid
  content : Bytes
  metadata : Option String
  contentType : Option String
  size : Int32
  hash : Option String
  ownerId : Uuid
  publicKey : String
  createdAt : Timestamp
  deletedAt : Option Timestamp
deriving DecidableEq

/-- Decoding an INTEGER as `i32`: it must be in range. -/
def decodeI32 (i : Int) : Option Int32 :=
  if (Int32.ofInt i).toInt = i then some (Int32.ofInt i) else none

theorem decodeI32_eq_some_iff {i : Int} {n : Int32} : decodeI32 i = some n ↔ n.toInt = i := by
  rw [decodeI32]
  constructor
  · intro h
    split at h
    · next hi =>
        obtain rfl := Option.some.inj h
        exact hi
    · cases h
  · rintro rfl
    simp

/-- `FromRow for User`. -/
def UserRow.decode (r : UserRow) : Option User := do
  let id ← r.id.decodeUuid
  pure { id, username := r.username, passwordHash := r.passwordHash, privateKey := r.privateKey,
         email := r.email, createdAt := r.createdAt }

/-- `FromRow for Blob`. -/
def BlobRow.decode (r : BlobRow) : Option Blob := do
  let id ← r.id.decodeUuid
  let size ← decodeI32 r.size
  let ownerId ← r.ownerId.decodeUuid
  pure { id, content := r.content, metadata := r.metadata, contentType := r.contentType, size,
         hash := r.hash, ownerId, publicKey := r.publicKey, createdAt := r.createdAt,
         deletedAt := r.deletedAt }

theorem BlobRow.decode_eq_some {row : BlobRow} {blob : Blob} (h : row.decode = some blob) :
    row.id.decodeUuid = some blob.id ∧ decodeI32 row.size = some blob.size ∧
      row.ownerId.decodeUuid = some blob.ownerId ∧ blob.content = row.content ∧
      blob.metadata = row.metadata ∧ blob.contentType = row.contentType ∧
      blob.hash = row.hash ∧ blob.publicKey = row.publicKey ∧ blob.createdAt = row.createdAt ∧
      blob.deletedAt = row.deletedAt := by
  simp only [BlobRow.decode, Option.bind_eq_bind, Option.bind_eq_some_iff, Option.pure_def,
    Option.some.injEq] at h
  obtain ⟨id, hid, size, hsize, ownerId, howner, rfl⟩ := h
  exact ⟨hid, hsize, howner, rfl, rfl, rfl, rfl, rfl, rfl, rfl⟩

/-! ## Errors -/

/-- `sqlx::Error`, as far as the node meets it: a violated constraint of the migrations, a cell
    that does not fit its field, or a failure of the database itself. -/
inductive SqlxError where
  | uniqueViolation
  | columnDecode
  | io
deriving DecidableEq

/-- `tonic::Status` as the handlers build it; `internal` carries the error that
    `format!("Database error: {}", e)` prints. The last two are tonic's own: a peer that cannot be
    reached, and a message that is longer than it decodes. -/
inductive GrpcStatus where
  | internal (e : SqlxError)
  | invalidArgument (message : String)
  | unavailable
  | outOfRange (message : String)
deriving DecidableEq

/-- `DANodeError`, as far as the sync code meets it. -/
inductive DANodeError where
  | grpcClient
  | grpc (status : GrpcStatus)
  | databaseConnection (e : SqlxError)
  | invalidResponse (message : String)
deriving DecidableEq

/-! ## Messages -/

/-- `message BlobMetadata`. -/
structure BlobMetadata where
  id : String
  hash : String
  contentType : Option String
  size : Int32
  ownerId : String
  publicKey : String
  metadata : Option String
  createdAt : String
  deletedAt : Option String
deriving DecidableEq

/-- `message Blob`. -/
structure ProtoBlob where
  metadata : Option BlobMetadata
  content : Bytes
deriving DecidableEq

/-- `message FetchBlobRequest`. -/
structure FetchBlobRequest where
  blobId : String
  peerId : String
  includeContent : Bool
deriving DecidableEq

/-- `oneof request_type` of `SyncRequest`. -/
inductive RequestType where
  | announce (metadata : Option BlobMetadata)
  | fetch (request : FetchBlobRequest)
  | delete (blobId : String)
  | status (blobId : String)
  | nodeInfo
  | handshake (nodeId nodeUrl : String)
deriving DecidableEq

/-- `enum SyncStatus`. -/
inductive SyncStatus where
  | unspecified
  | success
  | error
  | notFound
  | alreadyExists
  | unauthorized
deriving DecidableEq

/-- `message PeerSyncStatus`. -/
structure PeerSyncStatus where
  peerId : String
  blobId : String
  status : Status
  lastSyncAttempt : Option String
  lastSuccessfulSync : Option String
deriving DecidableEq

/-- `message NodeInfoResponse`. -/
structure NodeInfoResponse where
  nodeId : String
  blobCount : Int
  storageUsed : Int
  capabilities : List String
deriving DecidableEq

/-- `enum HandshakeStatus`. -/
inductive HandshakeStatus where
  | acknowledged
  | declined
deriving DecidableEq

/-- `oneof response_data` of `SyncResponse`. -/
inductive ResponseData where
  | announce (accepted : Bool)
  | fetch (blob : Option ProtoBlob)
  | delete (deleted : Bool)
  | statusResp (peerStatuses : List PeerSyncStatus)
  | nodeInfo (info : NodeInfoResponse)
  | handshake (status : HandshakeStatus) (peerId : Option String)
deriving DecidableEq

/-- `message SyncResponse`. -/
structure SyncResponse where
  status : SyncStatus
  message : String
  responseData : Option ResponseData
deriving DecidableEq

end DaConcept.Node
