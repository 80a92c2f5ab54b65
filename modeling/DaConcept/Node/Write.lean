import DaConcept.Node.System

set_option autoImplicit false

/-! # What a step writes

Every step of every activity makes at most one change to the state the activities share. A `Write`
names that change, and `DaNode.step_shared` says once and for all that a step does to the shared
state what its write says. What a step can do to a table or to the queue is then read off the
writes, and who may perform a given write off `DaNode.write`. -/

namespace DaConcept.Node

/-- A change to the shared state. -/
inductive Write where
  | nothing
  /-- A row for `blobs`; it is not inserted if its id is there. -/
  | insertBlob (row : BlobRow)
  | setDeletedAt (id : Cell) (now : Timestamp)
  | startSync (now : Timestamp) (blobId : Uuid) (peerId : String)
  | setStatus (blobId : Uuid) (peerId : String) (status : Status) (attempt : Timestamp)
      (success : Option Timestamp)
  | insertPending (blobId : Uuid)
  | queue (blobId : Uuid) (hash : String)
  | takeBatch
  | endTask (blobId : Uuid)
  | addPeer (peerId peerUrl : String)
deriving DecidableEq

/-- The database after a write. -/
def Write.onDb (w : Write) (db : Db) : Db :=
  match w with
  | .insertBlob row => { db with blobs := (db.blobs.insert row).getD db.blobs }
  | .setDeletedAt id now => db.setDeletedAt id now
  | .startSync now blobId peerId => startBlobSyncWithPeer now blobId peerId db
  | .setStatus blobId peerId status attempt success =>
      db.setStatus blobId peerId status attempt success
  | .insertPending blobId =>
      match insertPendingOfCompleted blobId db with
      | .ok db' => db'
      | .error _ => db
  | _ => db

/-- The sync manager after a write. -/
def Write.onManager (w : Write) (m : SyncManager) : SyncManager :=
  match w with
  | .queue blobId hash => m.queueBlobFetch blobId hash
  | .takeBatch => m.takeBatch
  | .endTask blobId => m.endTask blobId
  | .addPeer peerId peerUrl => m.addPeer peerId peerUrl
  | _ => m

/-- The shared state after a write. -/
def Write.apply (w : Write) (s : Shared) : Shared := ⟨w.onDb s.db, w.onManager s.manager⟩

/-! ## What a write does to the tables -/

/-- `insertPendingOfCompleted` meets the row of a completed peer and fails, unless there is none,
    and then it inserts nothing. -/
theorem insertPendingOfCompleted_eq (blobId : Uuid) (db : Db) :
    insertPendingOfCompleted blobId db
      = if db.completedPeers blobId = [] then .ok db else .error .uniqueViolation := by
  unfold insertPendingOfCompleted
  rcases hpeers : db.completedPeers blobId with _ | ⟨peerId, rest⟩
  · rfl
  · have hmem : peerId ∈ db.completedPeers blobId := hpeers ▸ List.mem_cons_self
    obtain ⟨row, hrow, hid⟩ := List.mem_map.1 hmem
    simp only [List.mem_filter, Bool.and_eq_true, decide_eq_true_eq] at hrow
    have hkey : SyncStatusRow.key row = SyncStatusRow.key (pendingRow blobId peerId) := by
      simp [SyncStatusRow.key, pendingRow, hrow.2.1, hid]
    have hclash : db.syncStatus.insert (pendingRow blobId peerId) = none := by
      rw [Table.insert_eq_none_iff, Table.lookup_eq_some_iff.2 ⟨hrow.1, hkey⟩]
      rfl
    rw [List.map_cons, List.foldlM_cons, hclash, if_neg (List.cons_ne_nil _ _)]
    rfl

theorem Write.onDb_insertPending (blobId : Uuid) (db : Db) :
    (Write.insertPending blobId).onDb db = db := by
  simp only [Write.onDb, insertPendingOfCompleted_eq]
  by_cases h : db.completedPeers blobId = []
  · rw [if_pos h]
  · rw [if_neg h]

/-- The rows of `blobs` after a write: the old ones, a new one, or an old one with its
    `deleted_at` set. -/
theorem Write.mem_blobs_onDb {w : Write} {db : Db} {row : BlobRow}
    (h : row ∈ (w.onDb db).blobs.rows) :
    row ∈ db.blobs.rows ∨ (w = .insertBlob row ∧ db.blobs.lookup row.id = none) ∨
    ∃ now old, w = .setDeletedAt old.id now ∧ old ∈ db.blobs.rows ∧
      row = { old with deletedAt := some now } := by
  cases w with
  | insertBlob new =>
      simp only [Write.onDb] at h
      rcases hins : db.blobs.insert new with _ | blobs
      · rw [hins] at h
        exact Or.inl h
      · rw [hins, Option.getD_some, Table.rows_of_insert hins] at h
        rcases List.mem_append.1 h with hold | hnew
        · exact Or.inl hold
        · obtain rfl := List.mem_singleton.1 hnew
          exact Or.inr (Or.inl ⟨rfl, Table.lookup_eq_none_of_insert hins⟩)
  | setDeletedAt id now =>
      simp only [Write.onDb, Db.setDeletedAt, Table.rows_update, List.mem_map] at h
      obtain ⟨old, hold, hrow⟩ := h
      split at hrow
      · next hid =>
          obtain rfl : old.id = id := by simpa using hid
          exact Or.inr (Or.inr ⟨now, old, rfl, hold, hrow.symm⟩)
      · exact Or.inl (hrow ▸ hold)
  | insertPending blobId =>
      rw [Write.onDb_insertPending] at h
      exact Or.inl h
  | _ => exact Or.inl h

/-- A row of `blobs` is never removed; at most its `deleted_at` changes. -/
theorem Write.blobs_onDb_of_mem (w : Write) {db : Db} {row : BlobRow} (h : row ∈ db.blobs.rows) :
    row ∈ (w.onDb db).blobs.rows ∨
    ∃ now, w = .setDeletedAt row.id now ∧
      { row with deletedAt := some now } ∈ (w.onDb db).blobs.rows := by
  cases w with
  | insertBlob new =>
      simp only [Write.onDb]
      rcases hins : db.blobs.insert new with _ | blobs
      · exact Or.inl h
      · rw [Option.getD_some, Table.rows_of_insert hins]
        exact Or.inl (List.mem_append_left _ h)
  | setDeletedAt id now =>
      simp only [Write.onDb, Db.setDeletedAt, Table.rows_update, List.mem_map]
      by_cases hid : row.id = id
      · exact Or.inr ⟨now, by rw [hid], row, h, by simp [hid]⟩
      · exact Or.inl ⟨row, h, by simp [hid]⟩
  | insertPending blobId =>
      rw [Write.onDb_insertPending]
      exact Or.inl h
  | _ => exact Or.inl h

/-- The status recorded for a blob and a peer. -/
def Db.status (db : Db) (blobId : Uuid) (peerId : String) : Option Status :=
  (db.syncStatus.lookup (blobId.cell, peerId)).map (·.syncStatus)

theorem lookup_startBlobSyncWithPeer (now : Timestamp) (b : Uuid) (p : String) (db : Db)
    (k : Cell × String) :
    (startBlobSyncWithPeer now b p db).syncStatus.lookup k
      = if k = (b.cell, p) then
          some (((db.syncStatus.lookup k).map (fun r =>
            { r with syncStatus := .pending, lastSyncAttempt := some now })).getD
              { blobId := b.cell, peerNodeId := p, syncStatus := .pending
                lastSyncAttempt := some now, lastSuccessfulSync := none })
        else db.syncStatus.lookup k :=
  Table.lookup_upsert db.syncStatus
    { blobId := b.cell, peerNodeId := p, syncStatus := .pending, lastSyncAttempt := some now,
      lastSuccessfulSync := none }
    (fun r => { r with syncStatus := .pending, lastSyncAttempt := some now }) (fun _ => rfl) k

theorem lookup_setStatus (db : Db) (b : Uuid) (p : String) (status : Status)
    (attempt : Timestamp) (success : Option Timestamp) (k : Cell × String) :
    (db.setStatus b p status attempt success).syncStatus.lookup k
      = (db.syncStatus.lookup k).map (fun r =>
          if r.blobId = b.cell && r.peerNodeId = p then
            { r with
              syncStatus := status
              lastSyncAttempt := some attempt
              lastSuccessfulSync := success <|> r.lastSuccessfulSync }
          else r) :=
  Table.lookup_update db.syncStatus (fun r => r.blobId = b.cell && r.peerNodeId = p)
    (fun r =>
      { r with
        syncStatus := status
        lastSyncAttempt := some attempt
        lastSuccessfulSync := success <|> r.lastSuccessfulSync })
    (fun _ => rfl) k

/-- No other row is touched. -/
theorem lookup_setStatus_of_ne (db : Db) (b : Uuid) (p : String) (status : Status)
    (attempt : Timestamp) (success : Option Timestamp) {k : Cell × String} (h : k ≠ (b.cell, p)) :
    (db.setStatus b p status attempt success).syncStatus.lookup k = db.syncStatus.lookup k := by
  rw [lookup_setStatus]
  cases hrow : db.syncStatus.lookup k with
  | none => rfl
  | some row =>
      have hother : ¬ (row.blobId = b.cell ∧ row.peerNodeId = p) := by
        rintro ⟨hb, hp⟩
        refine h ((Table.key_of_lookup hrow).symm.trans ?_)
        rw [SyncStatusRow.key, hb, hp]
      simp [hother]

theorem status_startBlobSyncWithPeer (now : Timestamp) (b blobId : Uuid) (p peerId : String)
    (db : Db) :
    (startBlobSyncWithPeer now b p db).status blobId peerId
      = if b = blobId ∧ p = peerId then some .pending else db.status blobId peerId := by
  rw [Db.status, lookup_startBlobSyncWithPeer]
  by_cases h : b = blobId ∧ p = peerId
  · obtain ⟨rfl, rfl⟩ := h
    rcases db.syncStatus.lookup (b.cell, p) with _ | row <;> simp
  · have hkey : ¬ ((blobId.cell, peerId) = (b.cell, p)) := by
      simpa using fun hb hp => h ⟨hb.symm, hp.symm⟩
    rw [if_neg h, if_neg hkey]
    rfl

theorem status_setStatus (db : Db) (b blobId : Uuid) (p peerId : String) (status : Status)
    (attempt : Timestamp) (success : Option Timestamp) :
    (db.setStatus b p status attempt success).status blobId peerId
      = if b = blobId ∧ p = peerId then (db.status blobId peerId).map (fun _ => status)
        else db.status blobId peerId := by
  rw [Db.status, lookup_setStatus, Db.status]
  rcases hrow : db.syncStatus.lookup (blobId.cell, peerId) with _ | row
  · simp
  · have hkey : row.blobId = blobId.cell ∧ row.peerNodeId = peerId := by
      simpa [SyncStatusRow.key] using Table.key_of_lookup hrow
    by_cases h : b = blobId ∧ p = peerId
    · obtain ⟨rfl, rfl⟩ := h
      simp [hkey]
    · have hne : ¬ (blobId = b ∧ peerId = p) := fun h' => h ⟨h'.1.symm, h'.2.symm⟩
      simp [hkey, h, hne]

/-- What a write does to the status recorded for a blob and a peer. -/
theorem Write.status_onDb (w : Write) (db : Db) (blobId : Uuid) (peerId : String) :
    (w.onDb db).status blobId peerId = match w with
      | .startSync _ b p =>
          if b = blobId ∧ p = peerId then some .pending else db.status blobId peerId
      | .setStatus b p status _ _ =>
          if b = blobId ∧ p = peerId then (db.status blobId peerId).map (fun _ => status)
          else db.status blobId peerId
      | _ => db.status blobId peerId := by
  cases w with
  | startSync now b p => exact status_startBlobSyncWithPeer now b blobId p peerId db
  | setStatus b p status attempt success =>
      exact status_setStatus db b blobId p peerId status attempt success
  | insertPending b => rw [Write.onDb_insertPending]
  | _ => rfl

/-! ## The write of a step -/

def FetchTask.write (platform : Platform) (t : FetchTask) (inp : FetchInput) : Write :=
  match t.pc with
  | .markPeers ((peerId, _) :: _) => .startSync inp.now t.blobId peerId
  | .tryPeer ((peerId, _) :: _) => .startSync inp.now t.blobId peerId
  | .markFailed peerId _ => .setStatus t.blobId peerId .failed inp.now none
  | .store _ metadata protoBlob now => .insertBlob (receivedRow platform now metadata protoBlob)
  | .markCompleted peerId _ _ now => .setStatus t.blobId peerId .completed now (some now)
  | .finished _ => .endTask t.blobId
  | _ => .nothing

def SyncLoop.write (s : Shared) (inp : LoopInput) : SyncLoop → Write
  | .process => if s.manager.batch = [] then .nothing else .takeBatch
  | .markPending _ blob peerId _ _ => .setStatus blob.id peerId .pending inp.now none
  | _ => .nothing

def Handler.write (inp : HandlerInput) : Handler → Write
  | .sync (some (.handshake nodeId nodeUrl)) => .addPeer nodeId nodeUrl
  | .announceQueue blobId hash => .queue blobId hash
  | .fetchMark request blob => .setStatus blob.id request.peerId .completed inp.now (some inp.now)
  | .deleteMark blobId => .setDeletedAt (.text blobId) inp.now
  | _ => .nothing

/-- The row an `add_blob` comes to insert. -/
def addBlobRow (platform : Platform) (inp : MutationInput) (currentUser : Option User)
    (blobInput : BlobInput) : Option BlobRow :=
  match currentUser with
  | none => none
  | some currentUser =>
      match addBlobContent platform inp.draw currentUser blobInput.content with
      | .ok (content, relatedPubkey) =>
          some (addedRow platform inp.now inp.newV4 currentUser blobInput content relatedPubkey)
      | _ => none

def Mutation.write (platform : Platform) (inp : MutationInput) : Mutation → Write
  | .addBlob currentUser blobInput =>
      match addBlobRow platform inp currentUser blobInput with
      | some row => .insertBlob row
      | none => .nothing
  | .addBlobSync blob _ => .queue blob.id (blob.hash.getD "")
  | .deleteBlobUpdate _ blobId => .setDeletedAt blobId.cell inp.now
  | .deleteBlobSync blob _ => .queue blob.id (blob.hash.getD "")
  | .deleteBlobPending blobId => .insertPending blobId
  | _ => .nothing

/-- The write of a node's step. -/
def DaNode.write (platform : Platform) (n : DaNode) : Event → Write
  | .handler i inp => (n.handlers[i]?).elim .nothing (·.write inp)
  | .mutation i inp => (n.mutations[i]?).elim .nothing (·.write platform inp)
  | .task i inp => (n.tasks[i]?).elim .nothing (·.write platform inp)
  | .loop inp => n.loop.write n.shared inp
  | _ => .nothing

/-! ## A step performs its write -/

/-- `add_blob` returns without a new row, or inserts its row and goes on to `sync_blob` exactly if
    the row decodes. -/
theorem addBlob_cases (platform : Platform) (inp : MutationInput) (currentUser : Option User)
    (blobInput : BlobInput) (db : Db) :
    (∃ result, addBlob platform inp currentUser blobInput db = (db, .returned result) ∧
      ∀ row ∈ addBlobRow platform inp currentUser blobInput, db.blobs.insert row = none) ∨
    ∃ row blobs, addBlobRow platform inp currentUser blobInput = some row ∧
      db.blobs.insert row = some blobs ∧
      ((∃ blob, row.decode = some blob ∧ addBlob platform inp currentUser blobInput db
          = ({ db with blobs }, .addBlobSync blob blobInput.content)) ∨
        row.decode = none ∧ ∃ result,
          addBlob platform inp currentUser blobInput db
            = ({ db with blobs }, .returned result)) := by
  cases currentUser with
  | none => exact Or.inl ⟨_, rfl, by simp [addBlobRow]⟩
  | some user =>
      simp only [addBlob, addBlobRow]
      rcases addBlobContent platform inp.draw user blobInput.content with ⟨content, key⟩ | e | _
      · simp only
        rcases hinsert : db.blobs.insert
          (addedRow platform inp.now inp.newV4 user blobInput content key) with _ | blobs
        · exact Or.inl ⟨_, rfl, by simpa using hinsert⟩
        · refine Or.inr ⟨_, blobs, rfl, hinsert, ?_⟩
          simp only
          rcases hdecode : BlobRow.decode
            (addedRow platform inp.now inp.newV4 user blobInput content key) with _ | blob
          · exact Or.inr ⟨rfl, _, rfl⟩
          · exact Or.inl ⟨blob, rfl, rfl⟩
      · exact Or.inl ⟨_, rfl, by simp⟩
      · exact Or.inl ⟨_, rfl, by simp⟩

theorem addBlob_write (platform : Platform) (inp : MutationInput) (currentUser : Option User)
    (blobInput : BlobInput) (db : Db) :
    (addBlob platform inp currentUser blobInput db).1
      = (Mutation.write platform inp (.addBlob currentUser blobInput)).onDb db := by
  rw [Mutation.write]
  rcases addBlob_cases platform inp currentUser blobInput db with
    ⟨result, hadd, htaken⟩ | ⟨row, blobs, hrow, hinsert, ⟨blob, -, hadd⟩ | ⟨-, result, hadd⟩⟩
  · rw [hadd]
    rcases hrow : addBlobRow platform inp currentUser blobInput with _ | row
    · rfl
    · simp [Write.onDb, htaken row hrow]
  · simp [hadd, hrow, Write.onDb, hinsert]
  · simp [hadd, hrow, Write.onDb, hinsert]

theorem Mutation.step_shared {platform : Platform} {inp : MutationInput} {s s' : Shared}
    {m m' : Mutation} (h : m.step platform inp s = some (s', m')) :
    s' = (m.write platform inp).apply s := by
  cases m with
  | addBlob u input =>
      simp only [Mutation.step, Option.some.injEq, Prod.mk.injEq] at h
      obtain ⟨rfl, -⟩ := h
      rw [addBlob_write, Mutation.write]
      split <;> rfl
  | deleteBlobPending b =>
      simp only [Mutation.step, Mutation.write, Write.apply, Write.onDb] at h ⊢
      rcases hins : insertPendingOfCompleted b s.db with e | db
      · rw [hins] at h
        obtain ⟨rfl, -⟩ := Prod.mk.inj (Option.some.inj h)
        rfl
      · rw [hins] at h
        obtain ⟨rfl, -⟩ := Prod.mk.inj (Option.some.inj h)
        rfl
  | returned r => cases h
  | _ =>
      simp only [Mutation.step, Option.some.injEq, Prod.mk.injEq] at h
      obtain ⟨rfl, -⟩ := h
      rfl

theorem Handler.step_shared {platform : Platform} {inp : HandlerInput} {s s' : Shared}
    {h h' : Handler} (hs : h.step platform inp s = some (s', h')) :
    s' = (h.write inp).apply s := by
  cases h with
  | sync request =>
      rcases request with _ | request
      · cases hs
        rfl
      · cases request with
        | status blobId =>
            simp only [Handler.step] at hs
            split at hs <;> cases hs
            rfl
        | _ =>
            cases hs
            rfl
  | replied reply => cases hs
  | _ =>
      cases hs
      rfl

theorem FetchTask.step_shared {platform : Platform} {s s' : Shared} {t : FetchTask}
    {inp : FetchInput} {pc : FetchPc} (h : t.step platform s inp = some (s', pc)) :
    s' = (t.write platform inp).apply s := by
  cases FetchTask.next_of_step h with
  | @stored peerId metadata protoBlob now db hpc hstore =>
      obtain ⟨blobs, hinsert, rfl⟩ := insert_of_storeReceivedBlob_eq_ok hstore
      simp [FetchTask.write, hpc, Write.apply, Write.onDb, Write.onManager, hinsert]
  | @refused peerId metadata protoBlob now e hpc hstore =>
      have hinsert := insert_of_storeReceivedBlob_eq_error hstore
      simp [FetchTask.write, hpc, Write.apply, Write.onDb, Write.onManager, hinsert]
  | copied hpc horder =>
      rw [FetchTask.write, hpc]
      rfl
  | found hpc hexists =>
      rw [FetchTask.write, hpc]
      rfl
  | missing hpc hexists =>
      rw [FetchTask.write, hpc]
      rfl
  | _ hpc =>
      rw [FetchTask.write, hpc]
      rfl

theorem SyncLoop.step_shared {s s' : Shared} {tasks tasks' : List FetchTask} {inp : LoopInput}
    {l l' : SyncLoop} (h : l.step s tasks inp = some (s', tasks', l')) :
    s' = (l.write s inp).apply s := by
  cases SyncLoop.next_of_step h with
  | spawned hbatch =>
      rw [SyncLoop.write, if_neg hbatch]
      rfl
  | noJobs hbatch =>
      rw [SyncLoop.write, if_pos hbatch]
      rfl
  | _ => rfl

/-- **A step of a node does its write to the shared state, and nothing else.** -/
theorem DaNode.step_shared {platform : Platform} {n n' : DaNode} {e : Event}
    (h : n.step platform e = some n') : n'.shared = (n.write platform e).apply n.shared := by
  cases e with
  | handler i inp =>
      obtain ⟨hd, hi, s', hd', hstep, rfl⟩ := DaNode.step_handler_eq_some.1 h
      simp only [DaNode.write, hi, Option.elim_some]
      exact Handler.step_shared hstep
  | mutation i inp =>
      obtain ⟨m, hi, s', m', hstep, rfl⟩ := DaNode.step_mutation_eq_some.1 h
      simp only [DaNode.write, hi, Option.elim_some]
      exact Mutation.step_shared hstep
  | task i inp =>
      obtain ⟨t, hi, hend | hgo⟩ := DaNode.step_task_eq_some.1 h
      · obtain ⟨result, hpc, rfl⟩ := hend
        simp only [DaNode.write, hi, Option.elim_some, FetchTask.write, hpc]
        rfl
      · obtain ⟨s', pc, hstep, rfl⟩ := hgo
        simp only [DaNode.write, hi, Option.elim_some]
        exact FetchTask.step_shared hstep
  | failTask i =>
      obtain ⟨t, hi, pc, hpc, rfl⟩ := DaNode.step_failTask_eq_some.1 h
      rfl
  | loop inp =>
      obtain ⟨s', tasks', l', hstep, rfl⟩ := DaNode.step_loop_eq_some.1 h
      exact SyncLoop.step_shared hstep
  | _ =>
      cases h
      rfl

/-! ## Whose write it is -/

theorem SyncLoop.write_cases (s : Shared) (inp : LoopInput) (l : SyncLoop) :
    l.write s inp = .nothing ∨ (l = .process ∧ l.write s inp = .takeBatch) ∨
      ∃ blobId peerId, l.write s inp = .setStatus blobId peerId .pending inp.now none := by
  cases l with
  | process =>
      rw [SyncLoop.write]
      split
      · exact Or.inl rfl
      · exact Or.inr (Or.inl ⟨rfl, rfl⟩)
  | markPending peers blob peerId pending blobs => exact Or.inr (Or.inr ⟨_, _, rfl⟩)
  | _ => exact Or.inl rfl

/-- Only a round that has jobs takes them. -/
theorem SyncLoop.write_ne_takeBatch {s : Shared} {inp : LoopInput} {l : SyncLoop}
    (hbatch : l = .process → s.manager.batch = []) : l.write s inp ≠ .takeBatch := by
  cases l with
  | process =>
      rw [SyncLoop.write, if_pos (hbatch rfl)]
      simp
  | _ => simp [SyncLoop.write]

/-- A write is that of a handler, a mutation, a task or the sync loop. -/
theorem DaNode.write_cases {platform : Platform} {n : DaNode} {e : Event} {w : Write}
    (h : n.write platform e = w) (hw : w ≠ .nothing) :
    (∃ i inp hd, e = .handler i inp ∧ n.handlers[i]? = some hd ∧ hd.write inp = w) ∨
    (∃ i inp m, e = .mutation i inp ∧ n.mutations[i]? = some m ∧ m.write platform inp = w) ∨
    (∃ i inp t, e = .task i inp ∧ n.tasks[i]? = some t ∧ t.write platform inp = w) ∨
    ∃ inp, e = .loop inp ∧ n.loop.write n.shared inp = w := by
  have hactivity {α : Type} {a? : Option α} {f : α → Write} (h : a?.elim .nothing f = w) :
      ∃ a, a? = some a ∧ f a = w := by
    cases a? with
    | none => exact absurd h.symm hw
    | some a => exact ⟨a, rfl, h⟩
  cases e with
  | handler i inp =>
      obtain ⟨hd, hi, hwrite⟩ := hactivity h
      exact Or.inl ⟨i, inp, hd, rfl, hi, hwrite⟩
  | mutation i inp =>
      obtain ⟨m, hi, hwrite⟩ := hactivity h
      exact Or.inr (Or.inl ⟨i, inp, m, rfl, hi, hwrite⟩)
  | task i inp =>
      obtain ⟨t, hi, hwrite⟩ := hactivity h
      exact Or.inr (Or.inr (Or.inl ⟨i, inp, t, rfl, hi, hwrite⟩))
  | loop inp => exact Or.inr (Or.inr (Or.inr ⟨inp, rfl, h⟩))
  | _ => exact absurd h.symm hw

/-! ## Who inserts a row into `blobs` -/

section

variable {platform : Platform} {row : BlobRow}

theorem addBlobRow_eq_some {inp : MutationInput} {currentUser : Option User}
    {blobInput : BlobInput} (h : addBlobRow platform inp currentUser blobInput = some row) :
    ∃ user content relatedPubkey, currentUser = some user ∧
      row = addedRow platform inp.now inp.newV4 user blobInput content relatedPubkey := by
  cases currentUser with
  | none => cases h
  | some user =>
      simp only [addBlobRow] at h
      split at h
      · next content relatedPubkey _ =>
          obtain rfl := Option.some.inj h
          exact ⟨user, content, relatedPubkey, rfl, rfl⟩
      · cases h

theorem FetchTask.write_eq_insertBlob {t : FetchTask} {inp : FetchInput} :
    t.write platform inp = .insertBlob row ↔ ∃ peerId metadata protoBlob now,
      t.pc = .store peerId metadata protoBlob now ∧
        row = receivedRow platform now metadata protoBlob := by
  obtain ⟨blobId, expectedHash, pc⟩ := t
  cases pc with
  | markPeers peers => rcases peers with _ | ⟨⟨p, client⟩, rest⟩ <;> simp [FetchTask.write]
  | tryPeer peers => rcases peers with _ | ⟨⟨p, client⟩, rest⟩ <;> simp [FetchTask.write]
  | store peerId metadata protoBlob now => simp [FetchTask.write, eq_comm]
  | _ => simp [FetchTask.write]

theorem Mutation.write_eq_insertBlob {m : Mutation} {inp : MutationInput} :
    m.write platform inp = .insertBlob row ↔ ∃ currentUser blobInput,
      m = .addBlob currentUser blobInput ∧
        addBlobRow platform inp currentUser blobInput = some row := by
  cases m with
  | addBlob u input =>
      simp only [Mutation.write]
      split
      · next row' hrow => simp [hrow]
      · next hrow => simp [hrow]
  | _ => simp [Mutation.write]

theorem Handler.write_ne_insertBlob (inp : HandlerInput) (h : Handler) :
    h.write inp ≠ .insertBlob row := by
  unfold Handler.write
  split <;> simp

theorem SyncLoop.write_ne_insertBlob (s : Shared) (inp : LoopInput) (l : SyncLoop) :
    l.write s inp ≠ .insertBlob row := by
  rcases SyncLoop.write_cases s inp l with hw | ⟨-, hw⟩ | ⟨blobId, peerId, hw⟩ <;> simp [hw]

/-- Only `store_received_blob` and `add_blob` insert a row. -/
theorem DaNode.write_eq_insertBlob {n : DaNode} {e : Event} :
    n.write platform e = .insertBlob row ↔
      (∃ i inp t peerId metadata protoBlob now, e = .task i inp ∧ n.tasks[i]? = some t ∧
        t.pc = .store peerId metadata protoBlob now ∧
        row = receivedRow platform now metadata protoBlob) ∨
      ∃ i inp currentUser blobInput, e = .mutation i inp ∧
        n.mutations[i]? = some (.addBlob currentUser blobInput) ∧
        addBlobRow platform inp currentUser blobInput = some row := by
  constructor
  · intro h
    rcases DaNode.write_cases h (by simp) with ⟨i, inp, hd, rfl, hi, hw⟩ |
      ⟨i, inp, m, rfl, hi, hw⟩ | ⟨i, inp, t, rfl, hi, hw⟩ | ⟨inp, rfl, hw⟩
    · exact absurd hw (Handler.write_ne_insertBlob inp hd)
    · obtain ⟨currentUser, blobInput, rfl, hrow⟩ := Mutation.write_eq_insertBlob.1 hw
      exact Or.inr ⟨i, inp, currentUser, blobInput, rfl, hi, hrow⟩
    · obtain ⟨peerId, metadata, protoBlob, now, hpc, hrow⟩ := FetchTask.write_eq_insertBlob.1 hw
      exact Or.inl ⟨i, inp, t, peerId, metadata, protoBlob, now, rfl, hi, hpc, hrow⟩
    · exact absurd hw (SyncLoop.write_ne_insertBlob _ _ _)
  · rintro (⟨i, inp, t, peerId, metadata, protoBlob, now, rfl, hi, hpc, hrow⟩ |
      ⟨i, inp, currentUser, blobInput, rfl, hi, hrow⟩)
    · rw [DaNode.write, hi, Option.elim_some]
      exact FetchTask.write_eq_insertBlob.2 ⟨peerId, metadata, protoBlob, now, hpc, hrow⟩
    · rw [DaNode.write, hi, Option.elim_some]
      exact Mutation.write_eq_insertBlob.2 ⟨currentUser, blobInput, rfl, hrow⟩

end

/-! ## Who deletes a row -/

/-- Only `handle_delete`, by a text, and `delete_blob`, by the bytes of a UUID, set `deleted_at`. -/
theorem DaNode.write_eq_setDeletedAt {platform : Platform} {n : DaNode} {e : Event} {id : Cell}
    {now : Timestamp} (h : n.write platform e = .setDeletedAt id now) :
    (∃ i inp s, e = .handler i inp ∧ n.handlers[i]? = some (.deleteMark s) ∧ id = .text s) ∨
    ∃ i inp blob blobId, e = .mutation i inp ∧
      n.mutations[i]? = some (.deleteBlobUpdate blob blobId) ∧ id = blobId.cell := by
  rcases DaNode.write_cases h (by simp) with ⟨i, inp, hd, rfl, hi, hw⟩ | ⟨i, inp, m, rfl, hi, hw⟩ |
    ⟨i, inp, t, rfl, hi, hw⟩ | ⟨inp, rfl, hw⟩
  · unfold Handler.write at hw
    split at hw <;> cases hw
    exact Or.inl ⟨i, inp, _, rfl, hi, rfl⟩
  · unfold Mutation.write at hw
    split at hw
    · split at hw <;> cases hw
    all_goals cases hw
    exact Or.inr ⟨i, inp, _, _, rfl, hi, rfl⟩
  · unfold FetchTask.write at hw
    split at hw <;> cases hw
  · rcases SyncLoop.write_cases n.shared inp n.loop with hw' | ⟨-, hw'⟩ | ⟨_, _, hw'⟩ <;>
      rw [hw'] at hw <;> cases hw

/-! ## Who queues a job -/

/-- A job of the queue was there before the write, or the write queues it. -/
theorem Write.mem_blobQueue_onManager {w : Write} {m : SyncManager} {job : Uuid × String}
    (h : job ∈ (w.onManager m).blobQueue) : job ∈ m.blobQueue ∨ w = .queue job.1 job.2 := by
  cases w with
  | queue blobId hash =>
      simp only [Write.onManager, SyncManager.queueBlobFetch] at h
      split at h
      · rcases List.mem_append.1 h with hold | hnew
        · exact Or.inl hold
        · obtain rfl := List.mem_singleton.1 hnew
          exact Or.inr rfl
      · exact Or.inl h
  | takeBatch => exact Or.inl (List.mem_of_mem_drop h)
  | _ => exact Or.inl h

/-- Only `handle_announce` and the two calls of `sync_blob` queue a job. -/
theorem DaNode.write_eq_queue {platform : Platform} {n : DaNode} {e : Event} {blobId : Uuid}
    {hash : String} (h : n.write platform e = .queue blobId hash) :
    (∃ i inp, e = .handler i inp ∧ n.handlers[i]? = some (.announceQueue blobId hash)) ∨
    ∃ i inp blob, e = .mutation i inp ∧ blobId = blob.id ∧ hash = blob.hash.getD "" ∧
      ((∃ content, n.mutations[i]? = some (.addBlobSync blob content)) ∨
        ∃ id, n.mutations[i]? = some (.deleteBlobSync blob id)) := by
  rcases DaNode.write_cases h (by simp) with ⟨i, inp, hd, rfl, hi, hw⟩ | ⟨i, inp, m, rfl, hi, hw⟩ |
    ⟨i, inp, t, rfl, hi, hw⟩ | ⟨inp, rfl, hw⟩
  · unfold Handler.write at hw
    split at hw <;> cases hw
    exact Or.inl ⟨i, inp, rfl, hi⟩
  · cases m with
    | addBlob currentUser blobInput =>
        simp only [Mutation.write] at hw
        split at hw <;> cases hw
    | addBlobSync blob content =>
        cases hw
        exact Or.inr ⟨i, inp, blob, rfl, rfl, rfl, Or.inl ⟨content, hi⟩⟩
    | deleteBlobSync blob id =>
        cases hw
        exact Or.inr ⟨i, inp, blob, rfl, rfl, rfl, Or.inr ⟨id, hi⟩⟩
    | _ => cases hw
  · unfold FetchTask.write at hw
    split at hw <;> cases hw
  · rcases SyncLoop.write_cases n.shared inp n.loop with hw' | ⟨-, hw'⟩ | ⟨_, _, hw'⟩ <;>
      rw [hw'] at hw <;> cases hw

/-! ## Who adds a peer -/

theorem Write.mem_peers_onManager {w : Write} {m : SyncManager} {peer : String × PeerClient}
    (h : peer ∈ (w.onManager m).peers.rows) :
    peer ∈ m.peers.rows ∨ w = .addPeer peer.1 peer.2.peerUrl := by
  cases w with
  | addPeer peerId peerUrl =>
      rcases Table.mem_put h with rfl | hold
      · exact Or.inr rfl
      · exact Or.inl hold
  | queue blobId hash =>
      simp only [Write.onManager, SyncManager.queueBlobFetch] at h
      split at h <;> exact Or.inl h
  | _ => exact Or.inl h

/-- Only `handle_handshake` adds a peer. -/
theorem DaNode.write_eq_addPeer {platform : Platform} {n : DaNode} {e : Event}
    {nodeId nodeUrl : String} (h : n.write platform e = .addPeer nodeId nodeUrl) :
    ∃ i inp, e = .handler i inp ∧
      n.handlers[i]? = some (.sync (some (.handshake nodeId nodeUrl))) := by
  rcases DaNode.write_cases h (by simp) with ⟨i, inp, hd, rfl, hi, hw⟩ | ⟨i, inp, m, rfl, hi, hw⟩ |
    ⟨i, inp, t, rfl, hi, hw⟩ | ⟨inp, rfl, hw⟩
  · unfold Handler.write at hw
    split at hw <;> cases hw
    exact ⟨i, inp, rfl, hi⟩
  · unfold Mutation.write at hw
    split at hw
    · split at hw <;> cases hw
    all_goals cases hw
  · unfold FetchTask.write at hw
    split at hw <;> cases hw
  · rcases SyncLoop.write_cases n.shared inp n.loop with hw' | ⟨-, hw'⟩ | ⟨_, _, hw'⟩ <;>
      rw [hw'] at hw <;> cases hw

end DaConcept.Node
