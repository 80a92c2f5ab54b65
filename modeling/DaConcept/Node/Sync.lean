import DaConcept.Node.Types

set_option autoImplicit false

/-! # The sync manager (`da-node/src/node_api/sync.rs`, `client.rs`)

The statements of `sync.rs` as functions on the database, and its two concurrent activities as
state machines: a fetch task, spawned for one queued blob, and the sync loop, which spawns the
tasks and then announces blobs. One step of a machine is one statement, one lock section or one
message, so that anything may happen between two steps. What the environment chooses is an
argument of the step: the clock, the order in which a hash map or an unordered query yields its
elements, and the reply of a peer. -/

namespace DaConcept.Node

/-! ## Statements -/

/-- `SELECT EXISTS(SELECT 1 FROM blobs WHERE id = ? AND deleted_at IS NULL)`. -/
def Db.blobExists (db : Db) (id : Cell) : Bool := db.blobs.rows.any (fun r => r.id = id && r.live)

/-- `SyncManager::does_blob_exist`: the id is bound as a `Uuid`. -/
def SyncManager.doesBlobExist (blobId : Uuid) (db : Db) : Bool := db.blobExists blobId.cell

/-- `UPDATE sync_status SET sync_status, last_sync_attempt [, last_successful_sync]
    WHERE blob_id = ? AND peer_node_id = ?`. -/
def Db.setStatus (db : Db) (blobId : Uuid) (peerId : String) (status : Status)
    (attempt : Timestamp) (success : Option Timestamp) : Db :=
  { db with
    syncStatus := db.syncStatus.update
      (fun r => r.blobId = blobId.cell && r.peerNodeId = peerId)
      (fun r =>
        { r with
          syncStatus := status
          lastSyncAttempt := some attempt
          lastSuccessfulSync := success <|> r.lastSuccessfulSync })
      (fun _ => rfl) }

/-- `set_blob_status_as_completed`, and `mark_blob_status_as_completed` of the server. -/
def setBlobStatusAsCompleted (timestamp : Timestamp) (blobId : Uuid) (peerId : String) (db : Db) :
    Db :=
  db.setStatus blobId peerId .completed timestamp (some timestamp)

/-- `set_blob_status_as_pending`. -/
def setBlobStatusAsPending (now : Timestamp) (blobId : Uuid) (peerId : String) (db : Db) : Db :=
  db.setStatus blobId peerId .pending now none

/-- `set_blob_status_as_failed`, and the UPDATE of `verify_received_blob`. -/
def setBlobStatusAsFailed (now : Timestamp) (blobId : Uuid) (peerId : String) (db : Db) : Db :=
  db.setStatus blobId peerId .failed now none

/-- `start_blob_sync_with_peer`: insert a pending row, or make the row that is there pending. -/
def startBlobSyncWithPeer (now : Timestamp) (blobId : Uuid) (peerId : String) (db : Db) : Db :=
  { db with
    syncStatus := db.syncStatus.upsert
      { blobId := blobId.cell
        peerNodeId := peerId
        syncStatus := .pending
        lastSyncAttempt := some now
        lastSuccessfulSync := none }
      (fun r => { r with syncStatus := .pending, lastSyncAttempt := some now })
      (fun _ => rfl) }

/-- The test of `verify_received_blob`: neither the hash of the content nor the hash in the
    metadata has to be the expected one for the blob to be rejected. -/
def verifyReceivedBlob (platform : Platform) (metadata : BlobMetadata) (otherBlob : ProtoBlob)
    (expectedHash : String) : Bool :=
  let computedHash := platform.contentHash otherBlob.content
  !(computedHash ≠ expectedHash && metadata.hash ≠ expectedHash)

/-- The row `store_received_blob` inserts: `id` and `owner_id` are bound as strings. -/
def receivedRow (platform : Platform) (timestamp : Timestamp) (metadata : BlobMetadata)
    (otherBlob : ProtoBlob) : BlobRow where
  id := .text metadata.id
  content := otherBlob.content
  metadata := metadata.metadata
  contentType := metadata.contentType
  size := metadata.size.toInt
  hash := some metadata.hash
  ownerId := .text metadata.ownerId
  publicKey := metadata.publicKey
  createdAt := (platform.parseFromRfc3339 metadata.createdAt).getD timestamp
  deletedAt := none

/-- `store_received_blob`. -/
def storeReceivedBlob (platform : Platform) (timestamp : Timestamp) (metadata : BlobMetadata)
    (otherBlob : ProtoBlob) (db : Db) : Except SqlxError Db :=
  match db.blobs.insert (receivedRow platform timestamp metadata otherBlob) with
  | some blobs => .ok { db with blobs }
  | none => .error .uniqueViolation

theorem storeReceivedBlob_of_insert_eq_none {platform : Platform} {timestamp : Timestamp}
    {metadata : BlobMetadata} {otherBlob : ProtoBlob} {db : Db}
    (h : db.blobs.insert (receivedRow platform timestamp metadata otherBlob) = none) :
    storeReceivedBlob platform timestamp metadata otherBlob db = .error .uniqueViolation := by
  rw [storeReceivedBlob, h]

theorem storeReceivedBlob_of_insert_eq_some {platform : Platform} {timestamp : Timestamp}
    {metadata : BlobMetadata} {otherBlob : ProtoBlob} {db : Db} {blobs : Table BlobRow.id}
    (h : db.blobs.insert (receivedRow platform timestamp metadata otherBlob) = some blobs) :
    storeReceivedBlob platform timestamp metadata otherBlob db = .ok { db with blobs } := by
  rw [storeReceivedBlob, h]

/-- A blob that was stored has been inserted, and nothing else has changed. -/
theorem insert_of_storeReceivedBlob_eq_ok {platform : Platform} {timestamp : Timestamp}
    {metadata : BlobMetadata} {otherBlob : ProtoBlob} {db db' : Db}
    (h : storeReceivedBlob platform timestamp metadata otherBlob db = .ok db') :
    ∃ blobs, db.blobs.insert (receivedRow platform timestamp metadata otherBlob) = some blobs ∧
      db' = { db with blobs } := by
  rw [storeReceivedBlob] at h
  split at h
  · next blobs hinsert => exact ⟨blobs, hinsert, (Except.ok.inj h).symm⟩
  · cases h

theorem insert_of_storeReceivedBlob_eq_error {platform : Platform} {timestamp : Timestamp}
    {metadata : BlobMetadata} {otherBlob : ProtoBlob} {db : Db} {e : SqlxError}
    (h : storeReceivedBlob platform timestamp metadata otherBlob db = .error e) :
    db.blobs.insert (receivedRow platform timestamp metadata otherBlob) = none := by
  rw [storeReceivedBlob] at h
  split at h
  · cases h
  · next hinsert => exact hinsert

/-- A live blob some peer of which has not completed. -/
def Db.shared (db : Db) (b : BlobRow) : Bool :=
  b.live && db.syncStatus.rows.any (fun s => s.blobId = b.id && s.syncStatus ≠ .completed)

/-- `get_blobs_to_share`, with the rows of `blobs` in the order `scan`. -/
def getBlobsToShare (db : Db) (scan : List BlobRow) : Except SqlxError (List Blob) :=
  match ((scan.filter db.shared).take 100).mapM BlobRow.decode with
  | some blobs => .ok blobs
  | none => .error .columnDecode

/-- `get_pending_peers`, with the rows of `sync_status` in the order `scan`. -/
def getPendingPeers (blobId : Uuid) (scan : List SyncStatusRow) : List String :=
  (scan.filter (fun s => s.blobId = blobId.cell && s.syncStatus ≠ .completed)).map
    (·.peerNodeId)

/-! ## Peers -/

/-- `P2PConfig`, without the fields that only time the loop and `max_blob_size`, which nothing
    reads. -/
structure P2PConfig where
  nodeId : String
  listenAddr : String
  maxConcurrentSyncs : Nat
deriving DecidableEq

/-- `PeerClient`: the address it connects to. -/
structure PeerClient where
  peerUrl : String
deriving DecidableEq

/-- What a call comes to: a response, an error status, or a transport error. -/
abbrev RpcReply := Except GrpcStatus SyncResponse

/-- The request of `PeerClient::fetch_blob`. -/
def PeerClient.fetchRequest (nodeId : String) (blobId : Uuid) : RequestType :=
  .fetch { blobId := blobId.toString, peerId := nodeId, includeContent := true }

/-- What `PeerClient::fetch_blob` makes of the reply. -/
def PeerClient.fetchBlob (reply : RpcReply) : Except DANodeError (Option ProtoBlob) :=
  match reply with
  | .error status => .error (.grpc status)
  | .ok response =>
      match response.responseData with
      | some (.fetch blob) => .ok blob
      | _ => .ok none

/-- What `PeerClient::announce_blob` makes of the reply. -/
def PeerClient.announceBlob (reply : RpcReply) : Except DANodeError Bool :=
  match reply with
  | .error status => .error (.grpc status)
  | .ok response =>
      match response.responseData with
      | some (.announce accepted) => .ok accepted
      | _ => .ok false

/-- The metadata `announce_blobs` sends for a blob. -/
def Blob.announcement (platform : Platform) (blob : Blob) : BlobMetadata where
  id := blob.id.toString
  hash := blob.hash.getD ""
  contentType := blob.contentType
  size := blob.size
  ownerId := blob.ownerId.toString
  publicKey := blob.publicKey
  metadata := blob.metadata
  createdAt := platform.toRfc3339 blob.createdAt
  deletedAt := none

/-! ## The shared state -/

/-- The map from peer ids to their clients. -/
abbrev Peers := Table (Prod.fst : String × PeerClient → String)

/-- `SyncManager`, without the database. -/
structure SyncManager where
  config : P2PConfig
  peers : Peers
  /-- `(blob_id, hash)`. -/
  blobQueue : List (Uuid × String)
  inProgress : Finset Uuid

/-- What all activities of a node share: the database and the sync manager behind its lock. -/
structure Shared where
  db : Db
  manager : SyncManager

/-- `add_peer`. -/
def SyncManager.addPeer (m : SyncManager) (peerId peerUrl : String) : SyncManager :=
  { m with peers := m.peers.put (peerId, ⟨peerUrl⟩) }

/-- `queue_blob_fetch`. -/
def SyncManager.queueBlobFetch (m : SyncManager) (blobId : Uuid) (hash : String) : SyncManager :=
  if blobId ∉ m.inProgress then
    { m with
      blobQueue := m.blobQueue ++ [(blobId, hash)]
      inProgress := insert blobId m.inProgress }
  else m

/-! ## A fetch task -/

/-- Where a fetch task stands: the statement or message it comes to next. -/
inductive FetchPc where
  /-- The read section that copies the peers. -/
  | start
  /-- `does_blob_exist`. -/
  | checkExists (peers : List (String × PeerClient))
  /-- The blob is there already: `start_blob_sync_with_peer` for each peer. -/
  | markPeers (peers : List (String × PeerClient))
  /-- The head of the loop over the peers: `start_blob_sync_with_peer` and the request. -/
  | tryPeer (peers : List (String × PeerClient))
  /-- Waiting for the reply of a peer. -/
  | awaitReply (peerId : String) (client : PeerClient) (rest : List (String × PeerClient))
  /-- `set_blob_status_as_failed`, or the UPDATE of `verify_received_blob`. -/
  | markFailed (peerId : String) (rest : List (String × PeerClient))
  /-- `store_received_blob`. -/
  | store (peerId : String) (metadata : BlobMetadata) (protoBlob : ProtoBlob) (now : Timestamp)
  /-- `set_blob_status_as_completed`. -/
  | markCompleted (peerId : String) (metadata : BlobMetadata) (protoBlob : ProtoBlob)
      (now : Timestamp)
  /-- `fetch_and_store_blob` has returned; the write section that ends the task is left. -/
  | finished (result : Except DANodeError Unit)
deriving DecidableEq

/-- A spawned fetch task. -/
structure FetchTask where
  blobId : Uuid
  expectedHash : String
  pc : FetchPc
deriving DecidableEq

/-- What the environment supplies to a step of a fetch task. -/
structure FetchInput where
  now : Timestamp
  /-- The order in which the copied map yields its peers. -/
  order : List (String × PeerClient)
  /-- The reply to the request the task waits for. -/
  reply : RpcReply

/-- What a fetch task does with the reply of a peer. -/
def FetchTask.receive (platform : Platform) (t : FetchTask) (peerId : String)
    (rest : List (String × PeerClient)) (inp : FetchInput) : FetchPc :=
  match PeerClient.fetchBlob inp.reply with
  | .ok (some protoBlob) =>
      match protoBlob.metadata with
      -- Blob metadata is missing
      | none => .tryPeer rest
      | some metadata =>
          if verifyReceivedBlob platform metadata protoBlob t.expectedHash then
            .store peerId metadata protoBlob inp.now
          -- Hash mismatch, try the next peer
          else .markFailed peerId rest
  | .ok none => .markFailed peerId rest
  | .error _ => .markFailed peerId rest

/-- One step of `fetch_and_store_blob`; `none` if it has returned. -/
def FetchTask.step (platform : Platform) (s : Shared) (t : FetchTask) (inp : FetchInput) :
    Option (Shared × FetchPc) :=
  match t.pc with
  | .start =>
      if inp.order.Perm s.manager.peers.rows then some (s, .checkExists inp.order) else none
  | .checkExists peers =>
      if SyncManager.doesBlobExist t.blobId s.db then some (s, .markPeers peers)
      else some (s, .tryPeer peers)
  | .markPeers [] => some (s, .finished (.ok ()))
  | .markPeers ((peerId, _) :: rest) =>
      some ({ s with db := startBlobSyncWithPeer inp.now t.blobId peerId s.db }, .markPeers rest)
  -- Failed to fetch blob from any peer
  | .tryPeer [] => some (s, .finished (.ok ()))
  | .tryPeer ((peerId, client) :: rest) =>
      some ({ s with db := startBlobSyncWithPeer inp.now t.blobId peerId s.db },
        .awaitReply peerId client rest)
  | .awaitReply peerId _ rest => some (s, t.receive platform peerId rest inp)
  | .markFailed peerId rest =>
      some ({ s with db := setBlobStatusAsFailed inp.now t.blobId peerId s.db }, .tryPeer rest)
  | .store peerId metadata protoBlob now =>
      match storeReceivedBlob platform now metadata protoBlob s.db with
      | .ok db => some ({ s with db }, .markCompleted peerId metadata protoBlob now)
      | .error e => some (s, .finished (.error (.databaseConnection e)))
  | .markCompleted peerId _ _ now =>
      some ({ s with db := setBlobStatusAsCompleted now t.blobId peerId s.db },
        .finished (.ok ()))
  | .finished _ => none

/-! ## What a step of a fetch task comes to -/

section

variable {platform : Platform}

/-- Where `fetch_and_store_blob` goes on, and the shared state that it leaves. -/
inductive FetchTask.Next (platform : Platform) (s : Shared) (t : FetchTask) (inp : FetchInput) :
    Shared → FetchPc → Prop
  | copied (hpc : t.pc = .start) (horder : inp.order.Perm s.manager.peers.rows) :
      Next platform s t inp s (.checkExists inp.order)
  | found {peers : List (String × PeerClient)} (hpc : t.pc = .checkExists peers)
      (hexists : SyncManager.doesBlobExist t.blobId s.db = true) :
      Next platform s t inp s (.markPeers peers)
  | missing {peers : List (String × PeerClient)} (hpc : t.pc = .checkExists peers)
      (hexists : SyncManager.doesBlobExist t.blobId s.db = false) :
      Next platform s t inp s (.tryPeer peers)
  | allMarked (hpc : t.pc = .markPeers []) : Next platform s t inp s (.finished (.ok ()))
  | mark {peerId : String} {client : PeerClient} {rest : List (String × PeerClient)}
      (hpc : t.pc = .markPeers ((peerId, client) :: rest)) :
      Next platform s t inp { s with db := startBlobSyncWithPeer inp.now t.blobId peerId s.db }
        (.markPeers rest)
  | gaveUp (hpc : t.pc = .tryPeer []) : Next platform s t inp s (.finished (.ok ()))
  | ask {peerId : String} {client : PeerClient} {rest : List (String × PeerClient)}
      (hpc : t.pc = .tryPeer ((peerId, client) :: rest)) :
      Next platform s t inp { s with db := startBlobSyncWithPeer inp.now t.blobId peerId s.db }
        (.awaitReply peerId client rest)
  | received {peerId : String} {client : PeerClient} {rest : List (String × PeerClient)}
      (hpc : t.pc = .awaitReply peerId client rest) :
      Next platform s t inp s (t.receive platform peerId rest inp)
  | markFailed {peerId : String} {rest : List (String × PeerClient)}
      (hpc : t.pc = .markFailed peerId rest) :
      Next platform s t inp { s with db := setBlobStatusAsFailed inp.now t.blobId peerId s.db }
        (.tryPeer rest)
  | stored {peerId : String} {metadata : BlobMetadata} {protoBlob : ProtoBlob} {now : Timestamp}
      {db : Db} (hpc : t.pc = .store peerId metadata protoBlob now)
      (hstore : storeReceivedBlob platform now metadata protoBlob s.db = .ok db) :
      Next platform s t inp { s with db } (.markCompleted peerId metadata protoBlob now)
  | refused {peerId : String} {metadata : BlobMetadata} {protoBlob : ProtoBlob} {now : Timestamp}
      {e : SqlxError} (hpc : t.pc = .store peerId metadata protoBlob now)
      (hstore : storeReceivedBlob platform now metadata protoBlob s.db = .error e) :
      Next platform s t inp s (.finished (.error (.databaseConnection e)))
  | completed {peerId : String} {metadata : BlobMetadata} {protoBlob : ProtoBlob} {now : Timestamp}
      (hpc : t.pc = .markCompleted peerId metadata protoBlob now) :
      Next platform s t inp { s with db := setBlobStatusAsCompleted now t.blobId peerId s.db }
        (.finished (.ok ()))

/-- **What a step of a fetch task comes to.** -/
theorem FetchTask.next_of_step {s s' : Shared} {t : FetchTask} {inp : FetchInput} {pc : FetchPc}
    (h : t.step platform s inp = some (s', pc)) : t.Next platform s inp s' pc := by
  rcases hpc : t.pc with _ | peers | peers | peers | ⟨peerId, client, rest⟩ | ⟨peerId, rest⟩ |
    ⟨peerId, metadata, protoBlob, now⟩ | ⟨peerId, metadata, protoBlob, now⟩ | result <;>
    simp only [FetchTask.step, hpc] at h
  case start =>
    split at h <;> cases h
    next horder => exact .copied hpc horder
  case checkExists =>
    split at h <;> cases h
    · next hexists => exact .found hpc hexists
    · next hexists => exact .missing hpc (Bool.not_eq_true _ ▸ hexists)
  case markPeers =>
    rcases peers with _ | ⟨⟨peerId, client⟩, rest⟩ <;> cases h
    · exact .allMarked hpc
    · exact .mark hpc
  case tryPeer =>
    rcases peers with _ | ⟨⟨peerId, client⟩, rest⟩ <;> cases h
    · exact .gaveUp hpc
    · exact .ask hpc
  case awaitReply =>
    cases h
    exact .received hpc
  case markFailed =>
    cases h
    exact .markFailed hpc
  case store =>
    split at h <;> cases h
    · next hstore => exact .stored hpc hstore
    · next hstore => exact .refused hpc hstore
  case markCompleted =>
    cases h
    exact .completed hpc
  case finished => cases h

end

/-! ## Where a task has its blob from -/

section

variable {platform : Platform}

theorem verifyReceivedBlob_eq_true_iff {metadata : BlobMetadata} {otherBlob : ProtoBlob}
    {expectedHash : String} :
    verifyReceivedBlob platform metadata otherBlob expectedHash = true ↔
      platform.contentHash otherBlob.content = expectedHash ∨ metadata.hash = expectedHash := by
  simp [verifyReceivedBlob]

/-- A task that a reply brings to the INSERT holds what the reply carried, and it was verified. -/
theorem FetchTask.receive_eq_store {t : FetchTask} {peerId peerId' : String}
    {rest : List (String × PeerClient)} {inp : FetchInput} {metadata : BlobMetadata}
    {protoBlob : ProtoBlob} {now : Timestamp}
    (h : t.receive platform peerId rest inp = .store peerId' metadata protoBlob now) :
    peerId' = peerId ∧ PeerClient.fetchBlob inp.reply = .ok (some protoBlob) ∧
      protoBlob.metadata = some metadata ∧ now = inp.now ∧
      verifyReceivedBlob platform metadata protoBlob t.expectedHash = true := by
  unfold FetchTask.receive at h
  split at h
  · next pb hpb =>
      split at h
      · cases h
      · next md hmd =>
          split at h
          · next hverify =>
              cases h
              exact ⟨rfl, hpb, hmd, rfl, hverify⟩
          · cases h
  · cases h
  · cases h

theorem FetchTask.receive_ne_markCompleted {t : FetchTask} {peerId peerId' : String}
    {rest : List (String × PeerClient)} {inp : FetchInput} {metadata : BlobMetadata}
    {protoBlob : ProtoBlob} {now : Timestamp} :
    t.receive platform peerId rest inp ≠ .markCompleted peerId' metadata protoBlob now := by
  unfold FetchTask.receive
  split
  · split
    · exact nofun
    · split <;> exact nofun
  · exact nofun
  · exact nofun

/-- A task comes to the INSERT only from the reply it waited for. -/
theorem FetchTask.step_to_store {s s' : Shared} {t : FetchTask} {inp : FetchInput}
    {peerId : String} {metadata : BlobMetadata} {protoBlob : ProtoBlob} {now : Timestamp}
    (h : t.step platform s inp = some (s', .store peerId metadata protoBlob now)) :
    ∃ client rest, t.pc = .awaitReply peerId client rest ∧
      PeerClient.fetchBlob inp.reply = .ok (some protoBlob) ∧
      protoBlob.metadata = some metadata ∧ now = inp.now ∧
      verifyReceivedBlob platform metadata protoBlob t.expectedHash = true := by
  generalize hpc' : FetchPc.store peerId metadata protoBlob now = pc at h
  cases FetchTask.next_of_step h with
  | @received p client rest hpc =>
      obtain ⟨rfl, hreceived⟩ := FetchTask.receive_eq_store hpc'.symm
      exact ⟨client, rest, hpc, hreceived⟩
  | _ => cases hpc'

/-- A task comes to the completion only from an INSERT that succeeded. -/
theorem FetchTask.step_to_markCompleted {s s' : Shared} {t : FetchTask} {inp : FetchInput}
    {peerId : String} {metadata : BlobMetadata} {protoBlob : ProtoBlob} {now : Timestamp}
    (h : t.step platform s inp = some (s', .markCompleted peerId metadata protoBlob now)) :
    t.pc = .store peerId metadata protoBlob now ∧
      storeReceivedBlob platform now metadata protoBlob s.db = .ok s'.db := by
  generalize hpc' : FetchPc.markCompleted peerId metadata protoBlob now = pc at h
  cases FetchTask.next_of_step h with
  | received hpc => exact absurd hpc'.symm FetchTask.receive_ne_markCompleted
  | stored hpc hstore =>
      cases hpc'
      exact ⟨hpc, hstore⟩
  | _ => cases hpc'

end

/-! ## The sync loop -/

/-- Where the sync loop stands. -/
inductive SyncLoop where
  /-- `process_sync_queue` takes the next batch. -/
  | process
  /-- The join over the spawned tasks. -/
  | join
  /-- The read section of `announce_blobs`. -/
  | announce
  /-- `get_blobs_to_share`. -/
  | selectBlobs (peers : Peers)
  /-- The head of the loop over the blobs: `get_pending_peers`. -/
  | nextBlob (peers : Peers) (blobs : List Blob)
  /-- The head of the loop over the pending peers of one blob. -/
  | nextPeer (peers : Peers) (blob : Blob) (pending : List String) (blobs : List Blob)
  /-- Waiting for the reply to an announcement. -/
  | awaitReply (peers : Peers) (blob : Blob) (peerId : String) (client : PeerClient)
      (pending : List String) (blobs : List Blob)
  /-- `set_blob_status_as_pending`. -/
  | markPending (peers : Peers) (blob : Blob) (peerId : String) (pending : List String)
      (blobs : List Blob)
  /-- `start_sync_loop` has returned an error. -/
  | stopped (e : DANodeError)

/-- What the environment supplies to a step of the sync loop. -/
structure LoopInput where
  now : Timestamp
  blobScan : List BlobRow
  statusScan : List SyncStatusRow
  reply : RpcReply

/-- The first jobs of the queue, as many as one round takes. -/
def SyncManager.batch (m : SyncManager) : List (Uuid × String) :=
  m.blobQueue.take (min m.config.maxConcurrentSyncs m.blobQueue.length)

/-- The queue without the batch. -/
def SyncManager.takeBatch (m : SyncManager) : SyncManager :=
  { m with blobQueue := m.blobQueue.drop (min m.config.maxConcurrentSyncs m.blobQueue.length) }

/-- The task spawned for a job. -/
def FetchTask.spawn (job : Uuid × String) : FetchTask := ⟨job.1, job.2, .start⟩

/-- One step of `start_sync_loop`: the shared state, the tasks and where the loop stands. -/
def SyncLoop.step (s : Shared) (tasks : List FetchTask) (inp : LoopInput) :
    SyncLoop → Option (Shared × List FetchTask × SyncLoop)
  | .process =>
      -- No blobs needed to sync.
      if s.manager.batch = [] then some (s, tasks, .announce)
      else some ({ s with manager := s.manager.takeBatch },
        tasks ++ s.manager.batch.map FetchTask.spawn, .join)
  | .join => if tasks.isEmpty then some (s, tasks, .announce) else none
  | .announce => some (s, tasks, .selectBlobs s.manager.peers)
  | .selectBlobs peers =>
      if inp.blobScan.Perm s.db.blobs.rows then
        match getBlobsToShare s.db inp.blobScan with
        | .ok blobs => some (s, tasks, .nextBlob peers blobs)
        | .error e => some (s, tasks, .stopped (.databaseConnection e))
      else none
  -- the sleep between two rounds changes nothing
  | .nextBlob _ [] => some (s, tasks, .process)
  | .nextBlob peers (blob :: blobs) =>
      if inp.statusScan.Perm s.db.syncStatus.rows then
        some (s, tasks, .nextPeer peers blob (getPendingPeers blob.id inp.statusScan) blobs)
      else none
  | .nextPeer peers _ [] blobs => some (s, tasks, .nextBlob peers blobs)
  | .nextPeer peers blob (peerId :: pending) blobs =>
      match peers.lookup peerId with
      | some (_, client) => some (s, tasks, .awaitReply peers blob peerId client pending blobs)
      | none => some (s, tasks, .nextPeer peers blob pending blobs)
  | .awaitReply peers blob peerId _ pending blobs =>
      match PeerClient.announceBlob inp.reply with
      | .ok _ => some (s, tasks, .markPending peers blob peerId pending blobs)
      | .error _ => some (s, tasks, .nextPeer peers blob pending blobs)
  | .markPending peers blob peerId pending blobs =>
      some ({ s with db := setBlobStatusAsPending inp.now blob.id peerId s.db }, tasks,
        .nextPeer peers blob pending blobs)
  | .stopped _ => none

/-- Where the sync loop goes on, with the shared state and the tasks that it leaves. -/
inductive SyncLoop.Next (s : Shared) (tasks : List FetchTask) (inp : LoopInput) :
    SyncLoop → Shared → List FetchTask → SyncLoop → Prop
  | spawned (hbatch : s.manager.batch ≠ []) :
      Next s tasks inp .process { s with manager := s.manager.takeBatch }
        (tasks ++ s.manager.batch.map FetchTask.spawn) .join
  | noJobs (hbatch : s.manager.batch = []) : Next s tasks inp .process s tasks .announce
  | joined (hidle : tasks = []) : Next s tasks inp .join s tasks .announce
  | copied : Next s tasks inp .announce s tasks (.selectBlobs s.manager.peers)
  | selected {peers : Peers} {blobs : List Blob} (hscan : inp.blobScan.Perm s.db.blobs.rows)
      (hblobs : getBlobsToShare s.db inp.blobScan = .ok blobs) :
      Next s tasks inp (.selectBlobs peers) s tasks (.nextBlob peers blobs)
  | stopped {peers : Peers} {e : SqlxError} (hscan : inp.blobScan.Perm s.db.blobs.rows)
      (hblobs : getBlobsToShare s.db inp.blobScan = .error e) :
      Next s tasks inp (.selectBlobs peers) s tasks (.stopped (.databaseConnection e))
  | allAnnounced {peers : Peers} : Next s tasks inp (.nextBlob peers []) s tasks .process
  | pending {peers : Peers} {blob : Blob} {blobs : List Blob}
      (hscan : inp.statusScan.Perm s.db.syncStatus.rows) :
      Next s tasks inp (.nextBlob peers (blob :: blobs)) s tasks
        (.nextPeer peers blob (getPendingPeers blob.id inp.statusScan) blobs)
  | announced {peers : Peers} {blob : Blob} {blobs : List Blob} :
      Next s tasks inp (.nextPeer peers blob [] blobs) s tasks (.nextBlob peers blobs)
  | known {peers : Peers} {blob : Blob} {peerId name : String} {client : PeerClient}
      {pending : List String} {blobs : List Blob}
      (hpeer : peers.lookup peerId = some (name, client)) :
      Next s tasks inp (.nextPeer peers blob (peerId :: pending) blobs) s tasks
        (.awaitReply peers blob peerId client pending blobs)
  | unknown {peers : Peers} {blob : Blob} {peerId : String} {pending : List String}
      {blobs : List Blob} (hpeer : peers.lookup peerId = none) :
      Next s tasks inp (.nextPeer peers blob (peerId :: pending) blobs) s tasks
        (.nextPeer peers blob pending blobs)
  | answered {peers : Peers} {blob : Blob} {peerId : String} {client : PeerClient}
      {pending : List String} {blobs : List Blob} {accepted : Bool}
      (hreply : PeerClient.announceBlob inp.reply = .ok accepted) :
      Next s tasks inp (.awaitReply peers blob peerId client pending blobs) s tasks
        (.markPending peers blob peerId pending blobs)
  | failed {peers : Peers} {blob : Blob} {peerId : String} {client : PeerClient}
      {pending : List String} {blobs : List Blob} {e : DANodeError}
      (hreply : PeerClient.announceBlob inp.reply = .error e) :
      Next s tasks inp (.awaitReply peers blob peerId client pending blobs) s tasks
        (.nextPeer peers blob pending blobs)
  | marked {peers : Peers} {blob : Blob} {peerId : String} {pending : List String}
      {blobs : List Blob} :
      Next s tasks inp (.markPending peers blob peerId pending blobs)
        { s with db := setBlobStatusAsPending inp.now blob.id peerId s.db } tasks
        (.nextPeer peers blob pending blobs)

/-- **What a step of the sync loop comes to.** -/
theorem SyncLoop.next_of_step {s s' : Shared} {tasks tasks' : List FetchTask} {inp : LoopInput}
    {l l' : SyncLoop} (h : l.step s tasks inp = some (s', tasks', l')) :
    l.Next s tasks inp s' tasks' l' := by
  cases l with
  | process =>
      simp only [SyncLoop.step] at h
      split at h <;> cases h
      · next hbatch => exact .noJobs hbatch
      · next hbatch => exact .spawned hbatch
  | join =>
      simp only [SyncLoop.step] at h
      split at h <;> cases h
      next hidle => exact .joined (List.isEmpty_iff.1 hidle)
  | announce =>
      cases h
      exact .copied
  | selectBlobs peers =>
      simp only [SyncLoop.step] at h
      split at h
      · next hscan =>
          split at h <;> cases h
          · next hblobs => exact .selected hscan hblobs
          · next hblobs => exact .stopped hscan hblobs
      · cases h
  | nextBlob peers blobs =>
      rcases blobs with _ | ⟨blob, blobs⟩
      · cases h
        exact .allAnnounced
      · simp only [SyncLoop.step] at h
        split at h <;> cases h
        next hscan => exact .pending hscan
  | nextPeer peers blob pending blobs =>
      rcases pending with _ | ⟨peerId, pending⟩
      · cases h
        exact .announced
      · simp only [SyncLoop.step] at h
        split at h <;> cases h
        · next hpeer => exact .known hpeer
        · next hpeer => exact .unknown hpeer
  | awaitReply peers blob peerId client pending blobs =>
      simp only [SyncLoop.step] at h
      split at h <;> cases h
      · next hreply => exact .answered hreply
      · next hreply => exact .failed hreply
  | markPending peers blob peerId pending blobs =>
      cases h
      exact .marked
  | stopped e => cases h

end DaConcept.Node
