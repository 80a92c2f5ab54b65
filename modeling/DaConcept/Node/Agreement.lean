import DaConcept.Lib.Registry
import DaConcept.Node.Network
import DaConcept.Node.Replica

set_option autoImplicit false

/-! # Agreement of replicas

`add_blob` fixes what a blob is: a registry remembers it under the UUID that was drawn. Everything
else a node does with blobs copies: rows are decoded, announced, queued by their hash, sent as
replies, verified and inserted. `SoundNode` says that all these copies agree with the registry, on
one node; no step of a node breaks it, given that the requests and replies it meets are sound, and
in a network of these nodes they are. Two rows for one UUID then agree, wherever they are. -/

namespace DaConcept.Node

/-! ## What a blob is -/

/-- What a row says about its blob, but for its id. The hash is that of the content. -/
structure Facts where
  content : Bytes
  metadata : Option String
  contentType : Option String
  size : Int
  ownerId : Uuid
  publicKey : String
deriving DecidableEq

/-- The row is a row of the blob. -/
structure BlobRow.Shows (platform : Platform) (row : BlobRow) (f : Facts) : Prop where
  content : row.content = f.content
  metadata : row.metadata = f.metadata
  contentType : row.contentType = f.contentType
  size : row.size = f.size
  hash : row.hash = some (platform.contentHash f.content)
  ownerId : row.ownerId.denotes = some f.ownerId
  publicKey : row.publicKey = f.publicKey

/-- The decoded row is one of the blob. -/
structure Blob.Shows (platform : Platform) (blob : Blob) (f : Facts) : Prop where
  content : blob.content = f.content
  metadata : blob.metadata = f.metadata
  contentType : blob.contentType = f.contentType
  size : blob.size.toInt = f.size
  hash : blob.hash = some (platform.contentHash f.content)
  ownerId : blob.ownerId = f.ownerId
  publicKey : blob.publicKey = f.publicKey

/-- A cell that denotes a UUID decodes as no other. -/
theorem Cell.decodeUuid_of_denotes {c : Cell} {u v : Uuid} (hdenotes : c.denotes = some u)
    (hdecode : c.decodeUuid = some v) : v = u := by
  cases c with
  | blob bs => exact Option.some.inj (hdecode.symm.trans hdenotes)
  | text s =>
      have hlength := length_toList_le_utf8 s
      have hbytes : (utf8 s).length = 16 := by
        simp only [Cell.decodeUuid] at hdecode
        split at hdecode
        · next h => exact h
        · cases hdecode
      have hparse : Uuid.parse s = none := by
        unfold Uuid.parse
        simp only
        rw [if_neg (by omega), if_neg (by omega), if_neg (by omega), if_neg (by omega)]
      rw [Cell.denotes, hparse] at hdenotes
      cases hdenotes

section

variable {platform : Platform} {f : Facts}

/-- Decoding keeps what a row shows, and the UUID it denotes. -/
theorem BlobRow.Shows.decode {row : BlobRow} {blob : Blob} {u : Uuid} (h : row.Shows platform f)
    (hid : row.id.denotes = some u) (hdecode : row.decode = some blob) :
    blob.id = u ∧ blob.Shows platform f := by
  obtain ⟨hid', hsize, howner, hcontent, hmetadata, htype, hhash, hkey, -, -⟩ :=
    BlobRow.decode_eq_some hdecode
  refine ⟨Cell.decodeUuid_of_denotes hid hid', ?_⟩
  exact
    { content := hcontent.trans h.content
      metadata := hmetadata.trans h.metadata
      contentType := htype.trans h.contentType
      size := (decodeI32_eq_some_iff.1 hsize).trans h.size
      hash := hhash.trans h.hash
      ownerId := Cell.decodeUuid_of_denotes h.ownerId howner
      publicKey := hkey.trans h.publicKey }

/-- The replica of a blob shows what the blob shows. -/
theorem Blob.Shows.replicaRow {blob : Blob} (h : blob.Shows platform f) (timestamp : Timestamp) :
    (blob.replicaRow platform timestamp).Shows platform f := by
  obtain ⟨-, howner, hcontent, hmetadata, htype, hsize, hhash, hkey⟩ :=
    blob.replicaRow_agrees platform timestamp
  exact
    { content := hcontent.trans h.content
      metadata := hmetadata.trans h.metadata
      contentType := htype.trans h.contentType
      size := hsize.trans h.size
      hash := by rw [hhash, h.hash, Option.getD_some]
      ownerId := by rw [howner, h.ownerId]
      publicKey := hkey.trans h.publicKey }

end

/-! ## Sound copies -/

section

variable (platform : Platform) (origin : Registry Uuid Facts)

/-- A row that agrees with the registry. -/
def SoundRow (row : BlobRow) : Prop :=
  ∃ u f, row.id.denotes = some u ∧ origin.Knows u f ∧ row.Shows platform f

/-- A decoded row that does. -/
def SoundBlob (blob : Blob) : Prop := ∃ f, origin.Knows blob.id f ∧ blob.Shows platform f

/-- An id with its hash, as it is queued. -/
def SoundJob (job : Uuid × String) : Prop :=
  ∃ f, origin.Knows job.1 f ∧ job.2 = platform.contentHash f.content

/-- A received blob: what is stored of it is a sound row. -/
def SoundReceived (metadata : BlobMetadata) (protoBlob : ProtoBlob) : Prop :=
  ∀ now, SoundRow platform origin (receivedRow platform now metadata protoBlob)

def SoundRequest : RequestType → Prop
  | .announce (some metadata) => ∀ blobId, Uuid.parse metadata.id = some blobId →
      SoundJob platform origin (blobId, metadata.hash)
  | .fetch request => request.includeContent = true
  | _ => True

def SoundReply (reply : RpcReply) : Prop :=
  ∀ protoBlob metadata, PeerClient.fetchBlob reply = .ok (some protoBlob) →
    protoBlob.metadata = some metadata → SoundReceived platform origin metadata protoBlob

def SoundHandler : Handler → Prop
  | .sync (some request) => SoundRequest platform origin request
  | .announceQueue blobId hash => SoundJob platform origin (blobId, hash)
  | .fetchMark request blob => request.includeContent = true ∧ SoundBlob platform origin blob
  | .replied reply => SoundReply platform origin reply
  | _ => True

def SoundMutation : Mutation → Prop
  | .addBlobSync blob _ => SoundBlob platform origin blob
  | .deleteBlobUpdate blob _ => SoundBlob platform origin blob
  | .deleteBlobSync blob _ => SoundBlob platform origin blob
  | _ => True

def SoundPc : FetchPc → Prop
  | .store _ metadata protoBlob _ => SoundReceived platform origin metadata protoBlob
  | _ => True

def SoundLoop : SyncLoop → Prop
  | .nextBlob _ blobs => ∀ blob ∈ blobs, SoundBlob platform origin blob
  | .nextPeer _ blob _ blobs => ∀ blob' ∈ blob :: blobs, SoundBlob platform origin blob'
  | .awaitReply _ blob _ _ _ blobs => ∀ blob' ∈ blob :: blobs, SoundBlob platform origin blob'
  | .markPending _ blob _ _ blobs => ∀ blob' ∈ blob :: blobs, SoundBlob platform origin blob'
  | _ => True

/-- All copies on a node agree with the registry. -/
structure SoundNode (n : DaNode) : Prop where
  rows : ∀ row ∈ n.shared.db.blobs.rows, SoundRow platform origin row
  queue : ∀ job ∈ n.shared.manager.blobQueue, SoundJob platform origin job
  jobs : ∀ t ∈ n.tasks, SoundJob platform origin (t.blobId, t.expectedHash)
  tasks : ∀ t ∈ n.tasks, SoundPc platform origin t.pc
  loop : SoundLoop platform origin n.loop
  handlers : ∀ h ∈ n.handlers, SoundHandler platform origin h
  mutations : ∀ m ∈ n.mutations, SoundMutation platform origin m

end

/-! ## A registry that grows -/

section

variable {platform : Platform} {origin origin' : Registry Uuid Facts}
  (hext : origin.ExtendedBy origin')

include hext

theorem SoundRow.mono {row : BlobRow} (h : SoundRow platform origin row) :
    SoundRow platform origin' row := by
  obtain ⟨u, f, hid, hknows, hshows⟩ := h
  exact ⟨u, f, hid, hext u f hknows, hshows⟩

theorem SoundBlob.mono {blob : Blob} (h : SoundBlob platform origin blob) :
    SoundBlob platform origin' blob := by
  obtain ⟨f, hknows, hshows⟩ := h
  exact ⟨f, hext _ f hknows, hshows⟩

theorem SoundJob.mono {job : Uuid × String} (h : SoundJob platform origin job) :
    SoundJob platform origin' job := by
  obtain ⟨f, hknows, hhash⟩ := h
  exact ⟨f, hext _ f hknows, hhash⟩

theorem SoundReceived.mono {metadata : BlobMetadata} {protoBlob : ProtoBlob}
    (h : SoundReceived platform origin metadata protoBlob) :
    SoundReceived platform origin' metadata protoBlob := fun now => (h now).mono hext

theorem SoundRequest.mono {request : RequestType} (h : SoundRequest platform origin request) :
    SoundRequest platform origin' request := by
  unfold SoundRequest at h ⊢
  split
  · exact fun blobId hparse => (h blobId hparse).mono hext
  · exact h
  · trivial

theorem SoundHandler.mono {handler : Handler} (h : SoundHandler platform origin handler) :
    SoundHandler platform origin' handler := by
  cases handler with
  | sync request =>
      cases request with
      | none => trivial
      | some request => exact SoundRequest.mono hext h
  | announceQueue blobId hash => exact SoundJob.mono hext h
  | fetchMark request blob => exact ⟨h.1, h.2.mono hext⟩
  | replied reply => exact fun pb md hpb hmd => (h pb md hpb hmd).mono hext
  | _ => trivial

theorem SoundMutation.mono {m : Mutation} (h : SoundMutation platform origin m) :
    SoundMutation platform origin' m := by
  cases m with
  | addBlobSync blob content => exact SoundBlob.mono hext h
  | deleteBlobUpdate blob blobId => exact SoundBlob.mono hext h
  | deleteBlobSync blob blobId => exact SoundBlob.mono hext h
  | _ => trivial

theorem SoundPc.mono {pc : FetchPc} (h : SoundPc platform origin pc) :
    SoundPc platform origin' pc := by
  cases pc with
  | store peerId metadata protoBlob now => exact SoundReceived.mono hext h
  | _ => trivial

theorem SoundLoop.mono {l : SyncLoop} (h : SoundLoop platform origin l) :
    SoundLoop platform origin' l := by
  cases l with
  | nextBlob peers blobs => exact fun blob hblob => (h blob hblob).mono hext
  | nextPeer peers blob pending blobs => exact fun b hb => (h b hb).mono hext
  | awaitReply peers blob peerId client pending blobs => exact fun b hb => (h b hb).mono hext
  | markPending peers blob peerId pending blobs => exact fun b hb => (h b hb).mono hext
  | _ => trivial

theorem SoundNode.mono {n : DaNode} (h : SoundNode platform origin n) :
    SoundNode platform origin' n where
  rows row hrow := (h.rows row hrow).mono hext
  queue job hjob := (h.queue job hjob).mono hext
  jobs t ht := (h.jobs t ht).mono hext
  tasks t ht := (h.tasks t ht).mono hext
  loop := h.loop.mono hext
  handlers hd hhd := (h.handlers hd hhd).mono hext
  mutations m hm := (h.mutations m hm).mono hext

end

/-! ## The steps of the activities -/

section

variable {platform : Platform} {origin : Registry Uuid Facts}

/-- A sound row decodes to a sound blob. -/
theorem SoundRow.decode {row : BlobRow} {blob : Blob} (h : SoundRow platform origin row)
    (hdecode : row.decode = some blob) : SoundBlob platform origin blob := by
  obtain ⟨u, f, hid, hknows, hshows⟩ := h
  obtain ⟨rfl, hblob⟩ := hshows.decode hid hdecode
  exact ⟨f, hknows, hblob⟩

theorem SoundBlob.job {blob : Blob} (h : SoundBlob platform origin blob) :
    SoundJob platform origin (blob.id, blob.hash.getD "") := by
  obtain ⟨f, hknows, hshows⟩ := h
  exact ⟨f, hknows, by rw [hshows.hash, Option.getD_some]⟩

theorem SoundBlob.announcement {blob : Blob} (h : SoundBlob platform origin blob) :
    SoundRequest platform origin (.announce (some (blob.announcement platform))) := by
  intro blobId hparse
  obtain rfl := Option.some.inj (blob.id.parse_toString.symm.trans hparse)
  exact h.job

/-- A reply that carries no blob is sound. -/
theorem soundReply_of_none {reply : RpcReply} (h : ∀ protoBlob,
    PeerClient.fetchBlob reply ≠ .ok (some protoBlob)) : SoundReply platform origin reply :=
  fun protoBlob _ hfetch => absurd hfetch (h protoBlob)

theorem soundReply_unavailable (platform : Platform) (origin : Registry Uuid Facts) :
    SoundReply platform origin (.error .unavailable) :=
  soundReply_of_none (by simp [PeerClient.fetchBlob])

theorem SoundBlob.fetchedReply {request : FetchBlobRequest} {blob : Blob}
    (hcontent : request.includeContent = true) (h : SoundBlob platform origin blob) :
    SoundReply platform origin (.ok (fetchedReply platform request blob)) := by
  obtain ⟨f, hknows, hshows⟩ := h
  intro protoBlob metadata hfetch hmetadata now
  simp only [PeerClient.fetchBlob, Node.fetchedReply, hcontent, Except.ok.injEq,
    Option.some.injEq] at hfetch
  subst hfetch
  obtain rfl : blob.protoMetadata platform = metadata := by
    simpa [Blob.protoBlob] using hmetadata
  exact ⟨blob.id, f, (blob.replicaRow_agrees platform now).1, hknows, hshows.replicaRow now⟩

/-! What a handler replies on its first step carries no blob, and what it hands on is sound. -/

theorem sound_handleAnnounce {metadata : Option BlobMetadata} (db : Db)
    (h : SoundRequest platform origin (.announce metadata)) :
    SoundHandler platform origin (handleAnnounce metadata db) := by
  unfold handleAnnounce
  split
  · exact soundReply_of_none (by simp [PeerClient.fetchBlob])
  · next metadata =>
      split
      · exact soundReply_of_none (by simp [PeerClient.fetchBlob])
      · split
        · next blobId hparse => exact h blobId hparse
        · exact soundReply_of_none (by simp [PeerClient.fetchBlob])

theorem sound_handleFetch {request : FetchBlobRequest} {db : Db}
    (hrows : ∀ row ∈ db.blobs.rows, SoundRow platform origin row)
    (h : SoundRequest platform origin (.fetch request)) :
    SoundHandler platform origin (handleFetch request db) := by
  rcases hfetch : handleFetch request db with _ | _ | ⟨request', blob⟩ | _ | _ | reply
  case fetchMark =>
    obtain rfl := handleFetch_request hfetch
    obtain ⟨blobId, row, -, hrow, -, hdecode⟩ := handleFetch_eq_fetchMark hfetch
    have hmem := (Table.lookup_eq_some_iff.1 hrow).1
    exact ⟨h, (hrows row hmem).decode hdecode⟩
  case replied =>
    refine soundReply_of_none fun protoBlob => ?_
    unfold handleFetch at hfetch
    split at hfetch
    · cases hfetch
      simp [PeerClient.fetchBlob]
    · split at hfetch <;> cases hfetch <;> simp [PeerClient.fetchBlob]
  all_goals
    unfold handleFetch at hfetch
    split at hfetch
    · cases hfetch
    · split at hfetch <;> cases hfetch

theorem sound_handleDelete (blobId : String) (db : Db) :
    SoundHandler platform origin (handleDelete blobId db) := by
  unfold handleDelete
  split
  · trivial
  · exact soundReply_of_none (by simp [PeerClient.fetchBlob])

theorem sound_handleNodeInfo (db : Db) : SoundHandler platform origin (handleNodeInfo db) := by
  unfold handleNodeInfo
  split
  · trivial
  · exact soundReply_of_none (by simp [PeerClient.fetchBlob])

theorem Handler.sound_step {inp : HandlerInput} {s s' : Shared} {h h' : Handler}
    (hrows : ∀ row ∈ s.db.blobs.rows, SoundRow platform origin row)
    (hh : SoundHandler platform origin h) (hstep : h.step platform inp s = some (s', h')) :
    SoundHandler platform origin h' := by
  cases h with
  | sync request =>
      rcases request with _ | request
      · cases hstep
        exact soundReply_of_none (by simp [PeerClient.fetchBlob])
      · cases request with
        | announce metadata =>
            cases hstep
            exact sound_handleAnnounce s.db hh
        | fetch request =>
            cases hstep
            exact sound_handleFetch hrows hh
        | delete blobId =>
            cases hstep
            exact sound_handleDelete blobId s.db
        | status blobId =>
            simp only [Handler.step] at hstep
            split at hstep <;> cases hstep
            exact soundReply_of_none (by simp [PeerClient.fetchBlob, handleSyncStatus])
        | nodeInfo =>
            cases hstep
            exact sound_handleNodeInfo s.db
        | handshake nodeId nodeUrl =>
            cases hstep
            exact soundReply_of_none (by simp [PeerClient.fetchBlob, handshakeReply])
  | announceQueue blobId hash =>
      cases hstep
      exact soundReply_of_none (by simp [PeerClient.fetchBlob])
  | fetchMark request blob =>
      cases hstep
      exact SoundBlob.fetchedReply hh.1 hh.2
  | deleteMark blobId =>
      cases hstep
      exact soundReply_of_none (by simp [PeerClient.fetchBlob])
  | nodeInfoStorage blobCount =>
      cases hstep
      refine soundReply_of_none fun protoBlob => ?_
      unfold nodeInfoReply
      simp only
      split <;> simp [PeerClient.fetchBlob]
  | replied reply => cases hstep

theorem Mutation.sound_step {inp : MutationInput} {s s' : Shared} {m m' : Mutation}
    (hrows : ∀ row ∈ s.db.blobs.rows, SoundRow platform origin row)
    (hdraw : ∀ currentUser blobInput row, m = .addBlob currentUser blobInput →
      addBlobRow platform inp currentUser blobInput = some row → SoundRow platform origin row)
    (hm : SoundMutation platform origin m) (hstep : m.step platform inp s = some (s', m')) :
    SoundMutation platform origin m' := by
  cases Mutation.next_of_step hstep with
  | added currentUser blobInput blob =>
      simp only [Mutation.step, Option.some.injEq, Prod.mk.injEq] at hstep
      rcases addBlob_cases platform inp currentUser blobInput s.db with
        ⟨result, hadd, -⟩ | ⟨row, blobs, hrow, -, ⟨blob', hdecode, hadd⟩ | ⟨-, result, hadd⟩⟩
      · rw [hadd] at hstep
        cases hstep.2
      · rw [hadd] at hstep
        cases hstep.2
        exact (hdraw currentUser blobInput row rfl hrow).decode hdecode
      · rw [hadd] at hstep
        cases hstep.2
  | found hfound howner =>
      obtain ⟨row, hrow, -, -, hdecode⟩ := selectBlob_eq_some_iff.1 hfound
      exact (hrows row hrow).decode hdecode
  | deleted blob blobId => exact hm
  | queued blob blobId => trivial
  | returned m result => trivial

/-- A task comes to the INSERT with what a sound reply carried. -/
theorem FetchTask.sound_step {inp : FetchInput} {s s' : Shared} {t : FetchTask} {pc : FetchPc}
    {nodeId : String} (hreply : (t.outgoing nodeId).isSome → SoundReply platform origin inp.reply)
    (hstep : t.step platform s inp = some (s', pc)) : SoundPc platform origin pc := by
  cases pc with
  | store peerId metadata protoBlob now =>
      obtain ⟨client, rest, hpc, hfetch, hmetadata, -, -⟩ := FetchTask.step_to_store hstep
      refine hreply ?_ protoBlob metadata hfetch hmetadata
      simp [FetchTask.outgoing, hpc]
  | _ => trivial

theorem SyncLoop.sound_step {inp : LoopInput} {s s' : Shared} {tasks tasks' : List FetchTask}
    {l l' : SyncLoop} (hrows : ∀ row ∈ s.db.blobs.rows, SoundRow platform origin row)
    (hl : SoundLoop platform origin l) (hstep : l.step s tasks inp = some (s', tasks', l')) :
    SoundLoop platform origin l' := by
  cases SyncLoop.next_of_step hstep with
  | @selected peers blobs hscan hblobs =>
      intro blob hblob
      unfold getBlobsToShare at hblobs
      split at hblobs
      · next hrowsDecode =>
          cases hblobs
          obtain ⟨row, hrow, hdecode⟩ := (mem_of_mapM_eq_some hrowsDecode).1 hblob
          have hmem := hscan.mem_iff.1 (List.mem_of_mem_filter (List.mem_of_mem_take hrow))
          exact (hrows row hmem).decode hdecode
      · cases hblobs
  | pending hscan => exact hl
  | announced => exact fun b hb => hl b (List.mem_cons_of_mem _ hb)
  | known hpeer => exact hl
  | unknown hpeer => exact hl
  | answered hreply => exact hl
  | failed hreply => exact hl
  | marked => exact hl
  | _ => trivial

/-! ## The step of a node -/

/-- The environment of a step is sound: the request that arrives, the reply that a waiting task
    gets, and the row that a drawn UUID makes. -/
def SoundEvent (platform : Platform) (origin : Registry Uuid Facts) (n : DaNode) : Event → Prop
  | .request (some request) => SoundRequest platform origin request
  | .task i inp => ∀ t, n.tasks[i]? = some t →
      (t.outgoing n.shared.manager.config.nodeId).isSome → SoundReply platform origin inp.reply
  | .mutation i inp => ∀ currentUser blobInput row,
      n.mutations[i]? = some (.addBlob currentUser blobInput) →
      addBlobRow platform inp currentUser blobInput = some row → SoundRow platform origin row
  | _ => True

variable {n n' : DaNode} {e : Event}

/-- What a step inserts is sound. -/
theorem SoundNode.rows_step (hn : SoundNode platform origin n)
    (he : SoundEvent platform origin n e) (h : n.step platform e = some n') :
    ∀ row ∈ n'.shared.db.blobs.rows, SoundRow platform origin row := by
  intro row hrow
  rw [DaNode.step_shared h] at hrow
  rcases Write.mem_blobs_onDb hrow with hold | ⟨hwrite, -⟩ | ⟨now, old, -, hold, rfl⟩
  · exact hn.rows row hold
  · rcases DaNode.write_eq_insertBlob.1 hwrite with
      ⟨i, inp, t, peerId, metadata, protoBlob, now, rfl, hi, hpc, rfl⟩ |
      ⟨i, inp, currentUser, blobInput, rfl, hi, hadd⟩
    · have hsound := hn.tasks t (List.mem_of_getElem? hi)
      rw [hpc] at hsound
      exact hsound now
    · exact he currentUser blobInput row hi hadd
  · obtain ⟨u, f, hid, hknows, hshows⟩ := hn.rows old hold
    exact ⟨u, f, hid, hknows, ⟨hshows.content, hshows.metadata, hshows.contentType, hshows.size,
      hshows.hash, hshows.ownerId, hshows.publicKey⟩⟩

/-- What a step queues is sound. -/
theorem SoundNode.queue_step (hn : SoundNode platform origin n)
    (h : n.step platform e = some n') :
    ∀ job ∈ n'.shared.manager.blobQueue, SoundJob platform origin job := by
  intro job hjob
  rw [DaNode.step_shared h] at hjob
  rcases Write.mem_blobQueue_onManager hjob with hold | hwrite
  · exact hn.queue job hold
  · rcases DaNode.write_eq_queue hwrite with
      ⟨i, inp, rfl, hi⟩ | ⟨i, inp, blob, rfl, hid, hhash, ⟨content, hi⟩ | ⟨id, hi⟩⟩
    · exact hn.handlers _ (List.mem_of_getElem? hi)
    · have hblob : SoundBlob platform origin blob := hn.mutations _ (List.mem_of_getElem? hi)
      have hjob := hblob.job
      rwa [← hid, ← hhash] at hjob
    · have hblob : SoundBlob platform origin blob := hn.mutations _ (List.mem_of_getElem? hi)
      have hjob := hblob.job
      rwa [← hid, ← hhash] at hjob

/-- Every task has a sound job, and a sound blob when it comes to the INSERT. -/
theorem SoundNode.tasks_step (hn : SoundNode platform origin n)
    (he : SoundEvent platform origin n e) (h : n.step platform e = some n') :
    ∀ t ∈ n'.tasks, SoundJob platform origin (t.blobId, t.expectedHash) ∧
      SoundPc platform origin t.pc := by
  intro t' ht'
  rcases DaNode.mem_tasks_step h ht' with hold | ⟨job, hjob, rfl⟩ | ⟨t, ht, heq, hgo⟩
  · exact ⟨hn.jobs t' hold, hn.tasks t' hold⟩
  · exact ⟨hn.queue job hjob, trivial⟩
  · refine ⟨?_, ?_⟩
    · rw [heq]
      exact hn.jobs t ht
    · rcases hgo with hfail | ⟨i, inp, s, rfl, hi, hstep⟩
      · rw [FetchTask.fail_eq_some hfail]
        trivial
      · exact FetchTask.sound_step (he t hi) hstep

/-- **A step of a sound node in a sound environment leaves it sound.** -/
theorem soundNode_step (hn : SoundNode platform origin n) (he : SoundEvent platform origin n e)
    (h : n.step platform e = some n') : SoundNode platform origin n' where
  rows := hn.rows_step he h
  queue := hn.queue_step h
  jobs t ht := (hn.tasks_step he h t ht).1
  tasks t ht := (hn.tasks_step he h t ht).2
  loop := by
    rcases DaNode.loop_step h with hsame | ⟨inp, rfl, s, tasks, hstep⟩
    · rw [hsame]
      exact hn.loop
    · exact SyncLoop.sound_step hn.rows hn.loop hstep
  handlers hd' hhd' := by
    rcases DaNode.mem_handlers_step h hhd' with
      hold | ⟨request, rfl, rfl⟩ | ⟨i, inp, hd, s, rfl, hi, hstep⟩
    · exact hn.handlers hd' hold
    · cases request with
      | none => trivial
      | some request => exact he
    · exact Handler.sound_step hn.rows (hn.handlers hd (List.mem_of_getElem? hi)) hstep
  mutations m' hm' := by
    rcases DaNode.mem_mutations_step h hm' with
      hold | ⟨currentUser, blobInput, rfl⟩ | ⟨currentUser, blobId, rfl⟩ |
      ⟨i, inp, m, s, rfl, hi, hstep⟩
    · exact hn.mutations m' hold
    · trivial
    · trivial
    · refine Mutation.sound_step hn.rows ?_ (hn.mutations m (List.mem_of_getElem? hi)) hstep
      rintro currentUser blobInput row rfl
      exact he currentUser blobInput row hi

end

/-! ## The network -/

section

variable {ι : Type} [DecidableEq ι] {platform : Platform} {d : Topology ι}
  {origin : Registry Uuid Facts} {net net' : Network ι}

/-- All copies in a network agree with the registry, which knows no UUID that was not drawn. -/
structure SoundNetwork (platform : Platform) (origin : Registry Uuid Facts) (net : Network ι) :
    Prop where
  nodes : ∀ i, SoundNode platform origin (net.nodes i)
  calls : ∀ c ∈ net.calls, SoundRequest platform origin c.request
  drawn : ∀ u f, origin.Knows u f → u ∈ net.drawn

omit [DecidableEq ι] in
theorem soundNetwork_start (platform : Platform) (d : Topology ι) :
    SoundNetwork platform .empty (Network.start d) where
  nodes _ :=
    { rows := List.forall_mem_nil _
      queue := List.forall_mem_nil _
      jobs := List.forall_mem_nil _
      tasks := List.forall_mem_nil _
      loop := trivial
      handlers := List.forall_mem_nil _
      mutations := List.forall_mem_nil _ }
  calls := List.forall_mem_nil _
  drawn _ _ h := absurd h Registry.not_knows_empty

theorem SoundNode.outgoing {n : DaNode} (hn : SoundNode platform origin n) {client : Client}
    {peer : PeerClient} {request : RequestType}
    (h : n.outgoing platform client = some (peer, request)) :
    SoundRequest platform origin request := by
  cases client with
  | task blobId =>
      simp only [DaNode.outgoing, Option.bind_eq_some_iff] at h
      obtain ⟨t, -, ht⟩ := h
      unfold FetchTask.outgoing at ht
      split at ht <;> cases ht
      exact rfl
  | loop =>
      have hloop := hn.loop
      simp only [DaNode.outgoing] at h
      unfold SyncLoop.outgoing at h
      split at h
      · next hl =>
          cases h
          rw [hl] at hloop
          exact (hloop _ List.mem_cons_self).announcement
      · cases h

theorem Client.soundEvent {n : DaNode} (client : Client) (now : Timestamp) {reply : RpcReply}
    (h : SoundReply platform origin reply) :
    SoundEvent platform origin n (client.event n now reply) := by
  cases client with
  | task blobId => exact fun _ _ _ => h
  | loop => trivial

omit [DecidableEq ι] in
theorem OtherRequest.sound (d : Topology ι) (request : OtherRequest ι) :
    SoundRequest platform origin (request.request d) := by
  cases request <;> trivial

/-- A step that draws no UUID finds a sound environment in the activities of the node. -/
theorem soundEvent_of_internal {n : DaNode} {e : Event} (hinternal : n.internal platform e = true)
    (hdraw : n.draws e = none) : SoundEvent platform origin n e := by
  cases e with
  | request request => cases hinternal
  | task i inp =>
      intro t hi hsome
      simp only [DaNode.internal, hi, Option.all_some, Option.isNone_iff_eq_none] at hinternal
      rw [hinternal] at hsome
      cases hsome
  | mutation i inp =>
      intro currentUser blobInput row hi
      simp [DaNode.draws, hi] at hdraw
  | _ => trivial

/-- The facts that `add_blob` fixes. -/
def Facts.added (user : User) (blobInput : BlobInput) (content : Bytes) (relatedPubkey : String) :
    Facts where
  content := content
  metadata := blobInput.metadata
  contentType := blobInput.contentType
  size := content.length
  ownerId := user.id
  publicKey := relatedPubkey

theorem addedRow_shows (platform : Platform) (now : Timestamp) (blobId : Uuid) (user : User)
    (blobInput : BlobInput) (content : Bytes) (relatedPubkey : String) :
    (addedRow platform now blobId user blobInput content relatedPubkey).Shows platform
      (.added user blobInput content relatedPubkey) where
  content := rfl
  metadata := rfl
  contentType := rfl
  size := rfl
  hash := rfl
  ownerId := user.id.denotes_cell
  publicKey := rfl

/-- A step that draws a fresh UUID extends the registry, and then its environment is sound. -/
theorem exists_register (platform : Platform) {n : DaNode} {e : Event} {u : Uuid}
    (hdraw : n.draws e = some u)
    (hfresh : ∀ f, ¬ origin.Knows u f) :
    ∃ origin' : Registry Uuid Facts, origin.ExtendedBy origin' ∧
      (∀ v f, origin'.Knows v f → v = u ∨ origin.Knows v f) ∧ SoundEvent platform origin' n e := by
  unfold DaNode.draws at hdraw
  split at hdraw
  · next i inp =>
      split at hdraw
      · next currentUser blobInput hi =>
          obtain rfl := Option.some.inj hdraw
          rcases hrow : addBlobRow platform inp currentUser blobInput with _ | row
          · -- nothing is inserted, and the UUID stays unknown
            refine ⟨origin, .refl origin, fun v f hv => Or.inr hv, ?_⟩
            intro currentUser' blobInput' row' hi' hrow'
            rw [hi] at hi'
            cases hi'
            rw [hrow] at hrow'
            cases hrow'
          · obtain ⟨user, content, relatedPubkey, -, rfl⟩ := addBlobRow_eq_some hrow
            refine ⟨origin.register inp.newV4 (.added user blobInput content relatedPubkey),
              Registry.extendedBy_register hfresh _, ?_, ?_⟩
            · intro v f hv
              rcases Registry.knows_register_iff.1 hv with ⟨hu, -⟩ | ⟨-, hold⟩
              · exact Or.inl hu
              · exact Or.inr hold
            · intro currentUser' blobInput' row' hi' hrow'
              rw [hi] at hi'
              cases hi'
              rw [hrow] at hrow'
              cases hrow'
              exact ⟨inp.newV4, _, inp.newV4.denotes_cell, Registry.knows_register ..,
                addedRow_shows ..⟩
      · cases hdraw
  · cases hdraw

/-- All nodes are sound after a sound step of one. -/
theorem SoundNetwork.update (hnet : SoundNetwork platform origin net) {i : ι} {e : Event}
    {n : DaNode} (he : SoundEvent platform origin (net.nodes i) e)
    (hn : (net.nodes i).step platform e = some n) (j : ι) :
    SoundNode platform origin (Function.update net.nodes i n j) := by
  by_cases hij : j = i
  · subst hij
    rw [Function.update_self]
    exact soundNode_step (hnet.nodes j) he hn
  · rw [Function.update_of_ne hij]
    exact hnet.nodes j

omit [DecidableEq ι] in
/-- Changing the bookkeeping of a call leaves its request sound. -/
theorem SoundNetwork.calls_set (hnet : SoundNetwork platform origin net) {k : Nat} {c c' : Call ι}
    (hc : net.calls[k]? = some c) (hrequest : c'.request = c.request) :
    ∀ c₁ ∈ net.calls.set k c', SoundRequest platform origin c₁.request := by
  intro c₁ hc₁
  rcases List.mem_or_eq_of_mem_set hc₁ with hold | rfl
  · exact hnet.calls c₁ hold
  · rw [hrequest]
    exact hnet.calls c (List.mem_of_getElem? hc)

/-- **Whatever happens in a sound network, it stays sound; at most, the registry learns the UUID
    that was drawn.** -/
theorem soundNetwork_step (hnet : SoundNetwork platform origin net) {l : Label ι}
    (h : net.step platform d l = some net') : ∃ origin', SoundNetwork platform origin' net' := by
  cases l with
  | node i e =>
      obtain ⟨hinternal, hfresh, n, hn, rfl⟩ := Network.step_node_eq_some.1 h
      rcases hdraw : (net.nodes i).draws e with _ | u
      · have he : SoundEvent platform origin (net.nodes i) e :=
          soundEvent_of_internal hinternal hdraw
        exact ⟨origin, hnet.update he hn, hnet.calls, hnet.drawn⟩
      · -- a fresh UUID is in no registry yet, so its facts can be added
        have hu : ∀ f, ¬ origin.Knows u f := fun f hf => hfresh u hdraw (hnet.drawn u f hf)
        obtain ⟨origin', hext, hknows, he⟩ := exists_register platform hdraw hu
        have hnet' : SoundNetwork platform origin' { net with drawn := u :: net.drawn } := by
          refine ⟨fun j => (hnet.nodes j).mono hext, fun c hc => (hnet.calls c hc).mono hext, ?_⟩
          intro v f hv
          rcases hknows v f hv with rfl | hold
          · exact List.mem_cons_self
          · exact List.mem_cons_of_mem _ (hnet.drawn v f hold)
        exact ⟨origin', hnet'.update he hn, hnet'.calls, hnet'.drawn⟩
  | other i request =>
      obtain ⟨n, hn, rfl⟩ := Network.step_other_eq_some.1 h
      have he : SoundEvent platform origin (net.nodes i) (.request (some (request.request d))) :=
        request.sound d
      exact ⟨origin, hnet.update he hn, hnet.calls, hnet.drawn⟩
  | send i client =>
      obtain ⟨-, peer, request, callee, hout, -, rfl⟩ := Network.step_send_eq_some.1 h
      refine ⟨origin, hnet.nodes, ?_, hnet.drawn⟩
      intro c hc
      rcases List.mem_append.1 hc with hold | hnew
      · exact hnet.calls c hold
      · obtain rfl := List.mem_singleton.1 hnew
        exact (hnet.nodes i).outgoing hout
  | unsent i client now =>
      obtain ⟨-, -, n, hn, rfl⟩ := Network.step_unsent_eq_some.1 h
      have he := client.soundEvent (n := net.nodes i) now (soundReply_unavailable platform origin)
      exact ⟨origin, hnet.update he hn, hnet.calls, hnet.drawn⟩
  | arrive k again =>
      obtain ⟨c, hc, -, n, hn, rfl⟩ := Network.step_arrive_eq_some.1 h
      have he : SoundEvent platform origin (net.nodes c.callee) (.request (some c.request)) :=
        hnet.calls c (List.mem_of_getElem? hc)
      exact ⟨origin, hnet.update he hn, hnet.calls_set hc rfl, hnet.drawn⟩
  | lose k =>
      obtain ⟨c, hc, rfl⟩ := Network.step_lose_eq_some.1 h
      exact ⟨origin, hnet.nodes, hnet.calls_set hc rfl, hnet.drawn⟩
  | reply k h' now =>
      obtain ⟨c, reply, hc, -, -, hreply, n, hn, rfl⟩ := Network.step_reply_eq_some.1 h
      have hsound : SoundReply platform origin reply :=
        (hnet.nodes c.callee).handlers _ (List.mem_of_getElem? hreply)
      have he := c.client.soundEvent (n := net.nodes c.caller) now hsound
      exact ⟨origin, hnet.update he hn, hnet.calls_set hc rfl, hnet.drawn⟩
  | fail k now =>
      obtain ⟨c, hc, -, n, hn, rfl⟩ := Network.step_fail_eq_some.1 h
      have he := c.client.soundEvent (n := net.nodes c.caller) now
        (soundReply_unavailable platform origin)
      exact ⟨origin, hnet.update he hn, hnet.calls_set hc rfl, hnet.drawn⟩

/-- Every run leads to a sound network. -/
theorem soundNetwork_exec {ls : List (Label ι)}
    (h : Run.exec (Network.step platform d) (Network.start d) ls = some net) :
    ∃ origin, SoundNetwork platform origin net :=
  Run.exec_invariant (I := fun net => ∃ origin, SoundNetwork platform origin net)
    (fun _ _ _ ⟨_, hnet⟩ hstep => soundNetwork_step hnet hstep)
    ⟨.empty, soundNetwork_start platform d⟩ h

end

/-- **In every run of a network, any two rows of `blobs` on any two nodes whose ids denote one UUID
    agree, and their hash is that of the content.** -/
theorem replicas_agree {ι : Type} [DecidableEq ι] (platform : Platform) (d : Topology ι)
    (ls : List (Label ι)) (net : Network ι)
    (h : Run.exec (Network.step platform d) (Network.start d) ls = some net)
    (i j : ι) (row row' : BlobRow) (hrow : row ∈ (net.nodes i).shared.db.blobs.rows)
    (hrow' : row' ∈ (net.nodes j).shared.db.blobs.rows) (u : Uuid)
    (hid : row.id.denotes = some u) (hid' : row'.id.denotes = some u) :
    row.content = row'.content ∧ row.hash = row'.hash ∧ row.metadata = row'.metadata ∧
      row.contentType = row'.contentType ∧ row.size = row'.size ∧
      row.publicKey = row'.publicKey ∧ (∃ owner, row.ownerId.denotes = some owner ∧
        row'.ownerId.denotes = some owner) ∧
      row.hash = some (platform.contentHash row.content) := by
  obtain ⟨origin, hnet⟩ := soundNetwork_exec h
  obtain ⟨v, f, hv, hknows, hshows⟩ := (hnet.nodes i).rows row hrow
  obtain ⟨w, g, hw, hknows', hshows'⟩ := (hnet.nodes j).rows row' hrow'
  obtain rfl := Option.some.inj (hid.symm.trans hv)
  obtain rfl := Option.some.inj (hid'.symm.trans hw)
  obtain rfl := hknows.unique hknows'
  refine ⟨?_, ?_, ?_, ?_, ?_, ?_, ⟨f.ownerId, hshows.ownerId, hshows'.ownerId⟩, ?_⟩
  · rw [hshows.content, hshows'.content]
  · rw [hshows.hash, hshows'.hash]
  · rw [hshows.metadata, hshows'.metadata]
  · rw [hshows.contentType, hshows'.contentType]
  · rw [hshows.size, hshows'.size]
  · rw [hshows.publicKey, hshows'.publicKey]
  · rw [hshows.hash, hshows.content]

/-- The second node has stored the blob of the first, under another cell. -/
theorem replicas_agree_sample :
    ∃ net : Network Bool, Run.exec (Network.step Platform.sample Deployment.sample)
      (Network.start Deployment.sample) Label.sampleStore = some net ∧
      ∃ row ∈ (net.nodes false).shared.db.blobs.rows,
      ∃ row' ∈ (net.nodes true).shared.db.blobs.rows,
        row.id ≠ row'.id ∧ row.content = row'.content ∧ row.hash = row'.hash := by
  have hrun : (Run.exec (Network.step Platform.sample Deployment.sample)
      (Network.start Deployment.sample) Label.sampleStore).any (fun net =>
        (net.nodes false).shared.db.blobs.rows.any (fun row =>
          (net.nodes true).shared.db.blobs.rows.any (fun row' =>
            row.id.denotes = some (Uuid.sample 2) ∧ row'.id.denotes = some (Uuid.sample 2) ∧
              row.id ≠ row'.id))) = true := by
    decide +kernel
  obtain ⟨net, hnet, hany⟩ := (Option.any_eq_true _ _).1 hrun
  obtain ⟨row, hrow, hany'⟩ := List.any_eq_true.1 hany
  obtain ⟨row', hrow', hcond⟩ := List.any_eq_true.1 hany'
  obtain ⟨hid, hid', hne⟩ := of_decide_eq_true hcond
  obtain ⟨hcontent, hhash, -⟩ := replicas_agree Platform.sample Deployment.sample _ net hnet
    false true row row' hrow hrow' (Uuid.sample 2) hid hid'
  exact ⟨net, hnet, row, hrow, row', hrow', hne, hcontent, hhash⟩

end DaConcept.Node
