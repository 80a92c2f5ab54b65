import DaConcept.Node.System

set_option autoImplicit false

/-! # Replicas

`store_received_blob` writes what `handle_fetch` of another node replied. The reply keeps everything
the row says, but the INSERT binds `id` and `owner_id` as strings, while every statement that reads
a blob binds its id as a `Uuid` or decodes both. So the replica has the fields of the original and
the same UUIDs in another representation: no read finds it by its id, and none can decode it. -/

namespace DaConcept.Node

/-! ## Storing what another node replied -/

/-- The row a node inserts for a blob that another node found for it. -/
def Blob.replicaRow (platform : Platform) (timestamp : Timestamp) (blob : Blob) : BlobRow :=
  receivedRow platform timestamp (blob.protoMetadata platform) (blob.protoBlob platform true)

/-- A node with database `dbB` stores what `handle_fetch` of a node with database `dbA` replied. -/
structure Replicates (platform : Platform) (dbA : Db) (request : FetchBlobRequest) (blob : Blob)
    (timestamp : Timestamp) (dbB dbB' : Db) : Prop where
  includeContent : request.includeContent = true
  found : handleFetch request dbA = .fetchMark request blob
  stored : ∃ protoBlob metadata,
    PeerClient.fetchBlob (.ok (fetchedReply platform request blob)) = .ok (some protoBlob) ∧
    protoBlob.metadata = some metadata ∧
    storeReceivedBlob platform timestamp metadata protoBlob dbB = .ok dbB'

section

variable {platform : Platform} {dbA dbB dbB' : Db} {request : FetchBlobRequest} {blob : Blob}
  {timestamp : Timestamp}

/-- What is stored is the replica row, and nothing else changes. -/
theorem Replicates.insert (h : Replicates platform dbA request blob timestamp dbB dbB') :
    dbB.blobs.insert (blob.replicaRow platform timestamp) = some dbB'.blobs ∧
      dbB'.users = dbB.users ∧ dbB'.syncStatus = dbB.syncStatus := by
  obtain ⟨protoBlob, metadata, hfetch, hmetadata, hstore⟩ := h.stored
  simp only [PeerClient.fetchBlob, fetchedReply, h.includeContent, Except.ok.injEq,
    Option.some.injEq] at hfetch
  subst hfetch
  obtain rfl : blob.protoMetadata platform = metadata := by
    simpa [Blob.protoBlob] using hmetadata
  obtain ⟨blobs, hinsert, rfl⟩ := insert_of_storeReceivedBlob_eq_ok hstore
  exact ⟨hinsert, rfl, rfl⟩

/-- What `handle_fetch` found is the decoded live row of the requested UUID. -/
theorem handleFetch_eq_fetchMark {db : Db} (h : handleFetch request db = .fetchMark request blob) :
    ∃ blobId row, Uuid.parse request.blobId = some blobId ∧
      db.blobs.lookup blobId.cell = some row ∧ row.live = true ∧ row.decode = some blob := by
  unfold handleFetch at h
  split at h
  · cases h
  · next blobId hparse =>
      rw [fetchBlobById] at h
      rcases hselect : db.selectBlob blobId with e | found
      · rw [hselect] at h
        cases h
      · rw [hselect] at h
        rcases found with _ | found
        · cases h
        · cases h
          obtain ⟨row, hrow, hlive, hid, hdecode⟩ := selectBlob_eq_some_iff.1 hselect
          exact ⟨blobId, row, hparse, Table.lookup_eq_some_iff.2 ⟨hrow, hid⟩, hlive, hdecode⟩

/-- The replica denotes the UUIDs of the original and has its fields, the hash spelled out. -/
theorem Blob.replicaRow_agrees (platform : Platform) (timestamp : Timestamp) (blob : Blob) :
    (blob.replicaRow platform timestamp).id.denotes = some blob.id ∧
      (blob.replicaRow platform timestamp).ownerId.denotes = some blob.ownerId ∧
      (blob.replicaRow platform timestamp).content = blob.content ∧
      (blob.replicaRow platform timestamp).metadata = blob.metadata ∧
      (blob.replicaRow platform timestamp).contentType = blob.contentType ∧
      (blob.replicaRow platform timestamp).size = blob.size.toInt ∧
      (blob.replicaRow platform timestamp).hash = some (blob.hash.getD "") ∧
      (blob.replicaRow platform timestamp).publicKey = blob.publicKey :=
  ⟨blob.id.denotes_text_toString, blob.ownerId.denotes_text_toString, rfl, rfl, rfl, rfl, rfl, rfl⟩

/-! ## Reading a replica -/

/-- No text of a UUID decodes, so the replica does not. -/
theorem Blob.decode_replicaRow (platform : Platform) (timestamp : Timestamp) (blob : Blob) :
    (blob.replicaRow platform timestamp).decode = none := by
  have hid : (blob.replicaRow platform timestamp).id.decodeUuid = none :=
    blob.id.decodeUuid_text_toString
  rw [BlobRow.decode, hid]
  rfl

/-- Storing a replica leaves what `fetch_blob_by_id` returns as it was, for every id. -/
theorem Replicates.fetchBlobById (h : Replicates platform dbA request blob timestamp dbB dbB')
    (blobId : Uuid) : Node.fetchBlobById blobId dbB' = Node.fetchBlobById blobId dbB := by
  have hne : ¬ blobId.cell = (blob.replicaRow platform timestamp).id :=
    blobId.cell_ne_text blob.id.toString
  rw [Node.fetchBlobById, Node.fetchBlobById, Db.selectBlob_eq, Db.selectBlob_eq,
    Table.lookup_of_insert h.insert.1, if_neg hne]

/-- **A blob that the node did not have is not served after its replica was stored.** -/
theorem Replicates.not_served (h : Replicates platform dbA request blob timestamp dbB dbB')
    (hnew : SyncManager.doesBlobExist blob.id dbB = false) :
    Node.fetchBlobById blob.id dbB' = .ok none := by
  rw [h.fetchBlobById, Node.fetchBlobById, Db.selectBlob]
  have hfind : dbB.blobs.rows.find? (fun r => r.id = blob.id.cell && r.live) = none := by
    rw [List.find?_eq_none]
    intro row hrow hfound
    rw [SyncManager.doesBlobExist, Db.blobExists, List.any_eq_false] at hnew
    exact hnew row hrow hfound
  rw [hfind]
  rfl

/-- The replica is a row of the table. -/
theorem Replicates.replicaRow_mem (h : Replicates platform dbA request blob timestamp dbB dbB') :
    blob.replicaRow platform timestamp ∈ dbB'.blobs.rows := by
  rw [Table.rows_of_insert h.insert.1]
  exact List.mem_append_right _ (List.mem_singleton_self _)

end

/-! ## Fidelity -/

/-- A database serves a blob as it is, and every live row for it decodes. -/
structure ReplicaFaithful (blob : Blob) (db : Db) : Prop where
  served : ∃ replica, fetchBlobById blob.id db = .ok (some replica) ∧ replica.id = blob.id ∧
    replica.content = blob.content ∧ replica.metadata = blob.metadata ∧
    replica.contentType = blob.contentType ∧ replica.size = blob.size ∧
    replica.hash = blob.hash ∧ replica.ownerId = blob.ownerId ∧
    replica.publicKey = blob.publicKey
  decodes : ∀ row ∈ db.blobs.rows, row.live = true → row.id.denotes = some blob.id →
    row.decode.isSome

/-- **No replica is faithful: its row does not decode, and the blob is served afterwards only if it
    was before.** -/
theorem replica_never_faithful (platform : Platform) (dbA : Db) (request : FetchBlobRequest)
    (blob : Blob) (timestamp : Timestamp) (dbB dbB' : Db)
    (h : Replicates platform dbA request blob timestamp dbB dbB') :
    ¬ ReplicaFaithful blob dbB' ∧
      (SyncManager.doesBlobExist blob.id dbB = false → fetchBlobById blob.id dbB' = .ok none) := by
  refine ⟨fun hfaithful => ?_, h.not_served⟩
  have hdecodes := hfaithful.decodes _ h.replicaRow_mem rfl
    (blob.replicaRow_agrees platform timestamp).1
  rw [blob.decode_replicaRow platform timestamp] at hdecodes
  cases hdecodes

/-- The database of the sample node after the sample user has added the sample blob. -/
def Db.sampleAdded : Db :=
  (Mutation.run Platform.sample MutationInput.sample 1 DaNode.sample.shared
    (.addBlob (some User.sample) ⟨"", none, none⟩)).1.db

/-- The request of another node for the sample blob. -/
def FetchBlobRequest.sample : FetchBlobRequest := ⟨(Uuid.sample 2).toString, "node", true⟩

/-- A node without blobs stores the sample blob. -/
theorem replicates_sample :
    ∃ db, Replicates Platform.sample Db.sampleAdded FetchBlobRequest.sample Blob.sample 0 Db.empty
      db := by
  have hfetch : fetchBlobById (Uuid.sample 2) Db.sampleAdded = .ok (some Blob.sample) := by
    decide +kernel
  obtain ⟨blobs, hblobs⟩ : ∃ blobs,
      Db.empty.blobs.insert (Blob.sample.replicaRow Platform.sample 0) = some blobs := by
    exact ⟨_, rfl⟩
  refine ⟨{ Db.empty with blobs }, rfl, ?_, _, _, rfl, rfl, ?_⟩
  · simp only [handleFetch, FetchBlobRequest.sample, Uuid.parse_toString, hfetch]
  · rw [Blob.replicaRow] at hblobs
    simp only [storeReceivedBlob, FetchBlobRequest.sample, hblobs]

theorem replica_never_faithful_sample :
    ∃ db, ¬ ReplicaFaithful Blob.sample db ∧ fetchBlobById Blob.sample.id db = .ok none := by
  obtain ⟨db, h⟩ := replicates_sample
  obtain ⟨hfaithful, hserved⟩ := replica_never_faithful Platform.sample _ _ _ _ _ _ h
  exact ⟨db, hfaithful, hserved (by decide)⟩

/-- A blob that `addBlob` created is no longer a blob to the node that fetched it. -/
theorem replica_not_faithful :
    ¬ ∀ (platform : Platform) (dbA dbB dbB' : Db) (request : FetchBlobRequest) (blob : Blob)
      (timestamp : Timestamp), Replicates platform dbA request blob timestamp dbB dbB' →
      ReplicaFaithful blob dbB' := by
  intro h
  obtain ⟨db, hreplicates⟩ := replicates_sample
  obtain ⟨replica, hserved, -⟩ := (h _ _ _ _ _ _ _ hreplicates).served
  rw [hreplicates.not_served (by decide)] at hserved
  cases hserved

end DaConcept.Node
