import DaConcept.Node.Sync

set_option autoImplicit false

/-! # The peer-facing server (`da-node/src/node_api/server.rs`)

A request is served by a `Handler`. One step of it is one statement or lock section together with
the code up to the next one, so handlers of other requests, fetch tasks and the sync loop may run
between two steps. A handler that has replied stays as it is. -/

namespace DaConcept.Node

/-! ## Statements -/

/-- `SyncServiceImpl::does_blob_exist`: the id is bound as a string. -/
def SyncServiceImpl.doesBlobExist (blobId : String) (db : Db) : Bool := db.blobExists (.text blobId)

/-- `SELECT * FROM blobs WHERE id = ? AND deleted_at IS NULL`, the id bound as a `Uuid`. -/
def Db.selectBlob (db : Db) (blobId : Uuid) : Except SqlxError (Option Blob) :=
  match db.blobs.rows.find? (fun r => r.id = blobId.cell && r.live) with
  | none => .ok none
  | some row =>
      match row.decode with
      | some blob => .ok (some blob)
      | none => .error .columnDecode

/-- The SELECT decodes the row of the id, if it is there and live. -/
theorem Db.selectBlob_eq (db : Db) (blobId : Uuid) :
    db.selectBlob blobId = match (db.blobs.lookup blobId.cell).filter (·.live) with
      | none => .ok none
      | some row =>
          match row.decode with
          | some blob => .ok (some blob)
          | none => .error .columnDecode := by
  rw [Db.selectBlob, Table.find?_rows]

/-- The SELECT of a blob finds the live row of its bytes, if that decodes. -/
theorem selectBlob_eq_some_iff {db : Db} {u : Uuid} {blob : Blob} :
    db.selectBlob u = .ok (some blob) ↔
      ∃ row ∈ db.blobs.rows, row.live ∧ row.id = u.cell ∧ row.decode = some blob := by
  have hlookup (row : BlobRow) : row ∈ db.blobs.rows ∧ row.id = u.cell ↔
      db.blobs.lookup u.cell = some row := Table.lookup_eq_some_iff.symm
  have hrows : (∃ row ∈ db.blobs.rows, row.live ∧ row.id = u.cell ∧ row.decode = some blob) ↔
      ∃ row, db.blobs.lookup u.cell = some row ∧ row.live ∧ row.decode = some blob := by
    simp only [← hlookup]
    refine exists_congr fun row => ?_
    tauto
  rw [hrows, Db.selectBlob_eq]
  rcases db.blobs.lookup u.cell with _ | row
  · simp
  · by_cases hlive : row.live
    · rw [Option.filter_some, if_pos hlive]
      rcases hdecode : row.decode with _ | blob' <;> simp [hlive, hdecode]
    · rw [Option.filter_some, if_neg hlive]
      simp [hlive]

/-- `fetch_blob_by_id`. -/
def fetchBlobById (blobId : Uuid) (db : Db) : Except GrpcStatus (Option Blob) :=
  (db.selectBlob blobId).mapError .internal

/-- `UPDATE blobs SET deleted_at = ? WHERE id = ?`. -/
def Db.setDeletedAt (db : Db) (id : Cell) (now : Timestamp) : Db :=
  { db with
    blobs := db.blobs.update (fun r => r.id = id) (fun r => { r with deletedAt := some now })
      (fun _ => rfl) }

/-- `mark_blob_as_deleted`. -/
def markBlobAsDeleted (now : Timestamp) (blobId : String) (db : Db) : Db :=
  db.setDeletedAt (.text blobId) now

/-- `mark_blob_status_as_completed` is the UPDATE of `set_blob_status_as_completed`. -/
def markBlobStatusAsCompleted (timestamp : Timestamp) (blobId : Uuid) (peerId : String) (db : Db) :
    Db :=
  db.setStatus blobId peerId .completed timestamp (some timestamp)

/-! ## Replies -/

/-- The `proto_metadata` of `handle_fetch`. -/
def Blob.protoMetadata (platform : Platform) (blob : Blob) : BlobMetadata where
  id := blob.id.toString
  hash := blob.hash.getD ""
  contentType := blob.contentType
  size := blob.size
  ownerId := blob.ownerId.toString
  publicKey := blob.publicKey
  metadata := blob.metadata
  createdAt := platform.toRfc3339 blob.createdAt
  deletedAt := blob.deletedAt.map platform.toRfc3339

/-- The `proto_blob` of `handle_fetch`. -/
def Blob.protoBlob (platform : Platform) (includeContent : Bool) (blob : Blob) : ProtoBlob where
  metadata := some (blob.protoMetadata platform)
  content := if includeContent then blob.content else []

/-- The reply to a fetch request for a blob that was found. -/
def fetchedReply (platform : Platform) (request : FetchBlobRequest) (blob : Blob) :
    SyncResponse where
  status := .success
  message := "Blob fetched successfully"
  responseData := some (.fetch (some (blob.protoBlob platform request.includeContent)))

/-- One row of `sync_status` as `handle_sync_status` reports it. -/
def SyncStatusRow.peerSyncStatus (platform : Platform) (blobId : String) (r : SyncStatusRow) :
    PeerSyncStatus where
  peerId := r.peerNodeId
  blobId := blobId
  status := r.syncStatus
  lastSyncAttempt := r.lastSyncAttempt.map platform.toRfc3339
  lastSuccessfulSync := r.lastSuccessfulSync.map platform.toRfc3339

/-! ## Handlers -/

/-- Where the handler of a request stands. -/
inductive Handler where
  /-- `sync` has received the request. -/
  | sync (request : Option RequestType)
  /-- `handle_announce` comes to `queue_blob_fetch`. -/
  | announceQueue (blobId : Uuid) (hash : String)
  /-- `handle_fetch` comes to `mark_blob_status_as_completed`. -/
  | fetchMark (request : FetchBlobRequest) (blob : Blob)
  /-- `handle_delete` comes to `mark_blob_as_deleted`. -/
  | deleteMark (blobId : String)
  /-- `handle_node_info` comes to its second query. -/
  | nodeInfoStorage (blobCount : Int)
  /-- The handler has replied. -/
  | replied (reply : RpcReply)

/-- What the environment supplies to a step of a handler. -/
structure HandlerInput where
  now : Timestamp
  /-- The order in which a query yields the rows of `sync_status`. -/
  statusScan : List SyncStatusRow

/-- `handle_announce`, up to `queue_blob_fetch`. -/
def handleAnnounce (metadata : Option BlobMetadata) (db : Db) : Handler :=
  match metadata with
  | none => .replied (.ok ⟨.error, "Missing metadata", none⟩)
  | some metadata =>
      if SyncServiceImpl.doesBlobExist metadata.id db then
        .replied (.ok ⟨.alreadyExists, "Blob already exists", some (.announce false)⟩)
      else
        match Uuid.parse metadata.id with
        | some blobId => .announceQueue blobId metadata.hash
        | none => .replied (.error (.invalidArgument "Invalid uuid"))

/-- `handle_fetch`, up to `mark_blob_status_as_completed`. -/
def handleFetch (request : FetchBlobRequest) (db : Db) : Handler :=
  match Uuid.parse request.blobId with
  | none => .replied (.error (.invalidArgument "Invalid uuid"))
  | some blobId =>
      match fetchBlobById blobId db with
      | .error e => .replied (.error e)
      | .ok none =>
          .replied (.ok ⟨.notFound, "Blob not found: " ++ request.blobId, some (.fetch none)⟩)
      | .ok (some blob) => .fetchMark request blob

/-- `handle_delete`, up to `mark_blob_as_deleted`. -/
def handleDelete (blobId : String) (db : Db) : Handler :=
  if SyncServiceImpl.doesBlobExist blobId db then .deleteMark blobId
  else .replied (.ok ⟨.notFound, "Blob not found: " ++ blobId, some (.delete false)⟩)

/-- `handle_sync_status`, with the rows of `sync_status` in the order `scan`. -/
def handleSyncStatus (platform : Platform) (blobId : String) (scan : List SyncStatusRow) :
    SyncResponse where
  status := .success
  message := "Sync status retrieved"
  responseData := some (.statusResp ((scan.filter (fun r => r.blobId = .text blobId)).map
    (·.peerSyncStatus platform blobId)))

/-- The first query of `handle_node_info`; the count is decoded as an `i32`. -/
def handleNodeInfo (db : Db) : Handler :=
  match decodeI32 (db.blobs.rows.filter (·.live)).length with
  | some blobCount => .nodeInfoStorage blobCount.toInt
  | none => .replied (.error (.internal .columnDecode))

/-- The second query of `handle_node_info`; SQLite refuses a sum that leaves `i64`. -/
def nodeInfoReply (config : P2PConfig) (blobCount : Int) (db : Db) : RpcReply :=
  let storageUsed := ((db.blobs.rows.filter (·.live)).map (·.size)).sum
  if (Int64.ofInt storageUsed).toInt = storageUsed then
    .ok ⟨.success, "Node info retrieved", some (.nodeInfo
      { nodeId := config.nodeId
        blobCount
        storageUsed
        capabilities := ["blob_sync", "user_auth"] })⟩
  else .error (.internal .io)

/-- The reply of `handle_handshake`. -/
def handshakeReply (config : P2PConfig) : SyncResponse where
  status := .success
  message := "Handshake successful"
  responseData := some (.handshake .acknowledged (some config.nodeId))

/-- One step of a handler; `none` if it has replied. -/
def Handler.step (platform : Platform) (inp : HandlerInput) (s : Shared) :
    Handler → Option (Shared × Handler)
  | .sync (some (.announce metadata)) => some (s, handleAnnounce metadata s.db)
  | .sync (some (.fetch request)) => some (s, handleFetch request s.db)
  | .sync (some (.delete blobId)) => some (s, handleDelete blobId s.db)
  | .sync (some (.status blobId)) =>
      if inp.statusScan.Perm s.db.syncStatus.rows then
        some (s, .replied (.ok (handleSyncStatus platform blobId inp.statusScan)))
      else none
  | .sync (some .nodeInfo) => some (s, handleNodeInfo s.db)
  | .sync (some (.handshake nodeId nodeUrl)) =>
      some ({ s with manager := s.manager.addPeer nodeId nodeUrl },
        .replied (.ok (handshakeReply s.manager.config)))
  | .sync none => some (s, .replied (.ok ⟨.error, "Invalid request type", none⟩))
  | .announceQueue blobId hash =>
      some ({ s with manager := s.manager.queueBlobFetch blobId hash },
        .replied (.ok ⟨.success, "Blob announcement accepted", some (.announce true)⟩))
  | .fetchMark request blob =>
      some ({ s with db := markBlobStatusAsCompleted inp.now blob.id request.peerId s.db },
        .replied (.ok (fetchedReply platform request blob)))
  | .deleteMark blobId =>
      some ({ s with db := markBlobAsDeleted inp.now blobId s.db },
        .replied (.ok ⟨.success, "Blob deleted successfully", some (.delete true)⟩))
  | .nodeInfoStorage blobCount =>
      some (s, .replied (nodeInfoReply s.manager.config blobCount s.db))
  | .replied _ => none

/-! ## What a step of a handler comes to -/

/-- Where a handler goes on: to `queue_blob_fetch` with the parsed id of an announced blob, to the
    UPDATE for a blob that was found, to the deletion of one that is there, to the second query,
    or to its reply. Only from `queue_blob_fetch` does it reply that it accepts an announcement. -/
inductive Handler.Next (db : Db) : Handler → Handler → Prop
  | queue {metadata : BlobMetadata} {blobId : Uuid}
      (hparse : Uuid.parse metadata.id = some blobId) :
      Next db (.sync (some (.announce (some metadata)))) (.announceQueue blobId metadata.hash)
  | mark {request : FetchBlobRequest} {blob : Blob}
      (hfound : handleFetch request db = .fetchMark request blob) :
      Next db (.sync (some (.fetch request))) (.fetchMark request blob)
  | delete {blobId : String} (hexists : SyncServiceImpl.doesBlobExist blobId db = true) :
      Next db (.sync (some (.delete blobId))) (.deleteMark blobId)
  | storage (blobCount : Int) : Next db (.sync (some .nodeInfo)) (.nodeInfoStorage blobCount)
  | accept (blobId : Uuid) (hash : String) (reply : RpcReply) :
      Next db (.announceQueue blobId hash) (.replied reply)
  | reply {h : Handler} {reply : RpcReply} (hreply : PeerClient.announceBlob reply ≠ .ok true) :
      Next db h (.replied reply)

theorem handleAnnounce_next (metadata : Option BlobMetadata) (db : Db) :
    Handler.Next db (.sync (some (.announce metadata))) (handleAnnounce metadata db) := by
  cases metadata with
  | none => exact .reply (by simp [PeerClient.announceBlob])
  | some metadata =>
      simp only [handleAnnounce]
      split
      · exact .reply (by simp [PeerClient.announceBlob])
      · split
        · next blobId hparse => exact .queue hparse
        · exact .reply (by simp [PeerClient.announceBlob])

/-- `handle_fetch` hands its own request on. -/
theorem handleFetch_request {request request' : FetchBlobRequest} {db : Db} {blob : Blob}
    (h : handleFetch request db = .fetchMark request' blob) : request' = request := by
  unfold handleFetch at h
  split at h
  · cases h
  · split at h <;> cases h
    rfl

theorem handleFetch_next (request : FetchBlobRequest) (db : Db) :
    Handler.Next db (.sync (some (.fetch request))) (handleFetch request db) := by
  rcases hfetch : handleFetch request db with _ | _ | ⟨request', blob⟩ | _ | _ | reply
  case fetchMark =>
    obtain rfl := handleFetch_request hfetch
    exact .mark hfetch
  case replied =>
    refine .reply ?_
    unfold handleFetch at hfetch
    split at hfetch
    · cases hfetch
      simp [PeerClient.announceBlob]
    · split at hfetch <;> cases hfetch <;> simp [PeerClient.announceBlob]
  all_goals
    unfold handleFetch at hfetch
    split at hfetch
    · cases hfetch
    · split at hfetch <;> cases hfetch

theorem handleDelete_next (blobId : String) (db : Db) :
    Handler.Next db (.sync (some (.delete blobId))) (handleDelete blobId db) := by
  unfold handleDelete
  split
  · next hexists => exact .delete hexists
  · exact .reply (by simp [PeerClient.announceBlob])

/-- **What a step of a handler comes to.** -/
theorem Handler.next_of_step {platform : Platform} {inp : HandlerInput} {s s' : Shared}
    {h h' : Handler} (hs : h.step platform inp s = some (s', h')) : h.Next s.db h' := by
  cases h with
  | sync request =>
      rcases request with _ | request
      · cases hs
        exact .reply (by simp [PeerClient.announceBlob])
      · cases request with
        | announce metadata =>
            cases hs
            exact handleAnnounce_next metadata s.db
        | fetch request =>
            cases hs
            exact handleFetch_next request s.db
        | delete blobId =>
            cases hs
            exact handleDelete_next blobId s.db
        | status blobId =>
            simp only [Handler.step] at hs
            split at hs <;> cases hs
            exact .reply (by simp [PeerClient.announceBlob, handleSyncStatus])
        | nodeInfo =>
            cases hs
            unfold handleNodeInfo
            split
            · exact .storage _
            · exact .reply (by simp [PeerClient.announceBlob])
        | handshake nodeId nodeUrl =>
            cases hs
            exact .reply (by simp [PeerClient.announceBlob, handshakeReply])
  | announceQueue blobId hash =>
      cases hs
      exact .accept blobId hash _
  | fetchMark request blob =>
      cases hs
      exact .reply (by simp [PeerClient.announceBlob, fetchedReply])
  | deleteMark blobId =>
      cases hs
      exact .reply (by simp [PeerClient.announceBlob])
  | nodeInfoStorage blobCount =>
      cases hs
      refine .reply ?_
      unfold nodeInfoReply
      simp only
      split <;> simp [PeerClient.announceBlob]
  | replied reply => cases hs

end DaConcept.Node
