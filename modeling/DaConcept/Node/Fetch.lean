import DaConcept.Node.Write

set_option autoImplicit false

/-! # One call of `fetch_and_store_blob`

`FetchTask.step` cuts a fetch into the statements between which other activities run. Here is the
call as a whole, `fetchAndStoreBlob`, with no other activity in between: a loop over the peers, each
with what happens if the call comes to it. `soloReaches_iff` says that it is what the machine does
by itself.

A reply leads to one of three exits of the loop body. `Fetches` has one constructor for each way a
turn of the loop can go, and what holds of the calls is proved by induction on it. -/

namespace DaConcept.Node

/-! ## The call -/

/-- A peer of the copied map, with its reply and the clock at the statements before and after it. -/
structure Contact where
  peerId : String
  client : PeerClient
  askedAt : Timestamp
  reply : RpcReply
  answeredAt : Timestamp

/-- What the loop body makes of a reply. -/
inductive Exit where
  /-- An error, no blob, or a blob that fails the verification. -/
  | failed
  /-- Blob metadata is missing. -/
  | noMetadata
  | verified (metadata : BlobMetadata) (protoBlob : ProtoBlob)
deriving DecidableEq

/-- What a call comes to: the database, the peers asked, the peer whose blob was stored, and the
    result. -/
structure FetchRun where
  db : Db
  asked : List String
  stored : Option String
  result : Except DANodeError Unit

variable (platform : Platform) (blobId : Uuid) (expectedHash : String)

def Exit.of (reply : RpcReply) : Exit :=
  match PeerClient.fetchBlob reply with
  | .ok (some protoBlob) =>
      match protoBlob.metadata with
      | none => .noMetadata
      | some metadata =>
          if verifyReceivedBlob platform metadata protoBlob expectedHash then
            .verified metadata protoBlob
          else .failed
  | .ok none => .failed
  | .error _ => .failed

def Contact.exit (c : Contact) : Exit := Exit.of platform expectedHash c.reply

/-- The loop over the peers. -/
def fetchFromPeers : List Contact → Db → FetchRun
  -- Failed to fetch blob from any peer
  | [], db => { db, asked := [], stored := none, result := .ok () }
  | c :: rest, db =>
      let db := startBlobSyncWithPeer c.askedAt blobId c.peerId db
      match c.exit platform expectedHash with
      | .failed =>
          let run := fetchFromPeers rest (setBlobStatusAsFailed c.answeredAt blobId c.peerId db)
          { run with asked := c.peerId :: run.asked }
      | .noMetadata =>
          let run := fetchFromPeers rest db
          { run with asked := c.peerId :: run.asked }
      | .verified metadata protoBlob =>
          match storeReceivedBlob platform c.answeredAt metadata protoBlob db with
          | .error e =>
              { db, asked := [c.peerId], stored := none, result := .error (.databaseConnection e) }
          | .ok db =>
              { db := setBlobStatusAsCompleted c.answeredAt blobId c.peerId db
                asked := [c.peerId], stored := some c.peerId, result := .ok () }

/-- `fetch_and_store_blob`. -/
def fetchAndStoreBlob (contacts : List Contact) (db : Db) : FetchRun :=
  if SyncManager.doesBlobExist blobId db then
    { db := contacts.foldl (fun db c => startBlobSyncWithPeer c.askedAt blobId c.peerId db) db
      asked := [], stored := none, result := .ok () }
  else fetchFromPeers platform blobId expectedHash contacts db

/-- The row that a contact brings to the INSERT. -/
def Contact.row (c : Contact) : Option BlobRow :=
  match c.exit platform expectedHash with
  | .verified metadata protoBlob => some (receivedRow platform c.answeredAt metadata protoBlob)
  | _ => none

/-- The call comes to a contact if none before it is verified. -/
def Reaches (contacts : List Contact) (c : Contact) : Prop :=
  ∃ before after, contacts = before ++ c :: after ∧
    ∀ d ∈ before, d.row platform expectedHash = none

/-- The first blob that is verified. -/
def firstRow (contacts : List Contact) : Option BlobRow :=
  contacts.findSome? (·.row platform expectedHash)

/-! ## What the loop comes to -/

/-- The runs of the loop, turn by turn. -/
inductive Fetches : List Contact → Db → FetchRun → Prop
  | gaveUp (db : Db) : Fetches [] db { db, asked := [], stored := none, result := .ok () }
  | failed {c : Contact} {rest : List Contact} {db : Db} {run : FetchRun}
      (hexit : c.exit platform expectedHash = .failed)
      (hrest : Fetches rest (setBlobStatusAsFailed c.answeredAt blobId c.peerId
        (startBlobSyncWithPeer c.askedAt blobId c.peerId db)) run) :
      Fetches (c :: rest) db { run with asked := c.peerId :: run.asked }
  | noMetadata {c : Contact} {rest : List Contact} {db : Db} {run : FetchRun}
      (hexit : c.exit platform expectedHash = .noMetadata)
      (hrest : Fetches rest (startBlobSyncWithPeer c.askedAt blobId c.peerId db) run) :
      Fetches (c :: rest) db { run with asked := c.peerId :: run.asked }
  | refused {c : Contact} {row : BlobRow} {db : Db} (rest : List Contact)
      (hrow : c.row platform expectedHash = some row) (hinsert : db.blobs.insert row = none) :
      Fetches (c :: rest) db
        { db := startBlobSyncWithPeer c.askedAt blobId c.peerId db
          asked := [c.peerId], stored := none
          result := .error (.databaseConnection .uniqueViolation) }
  | stored {c : Contact} {row : BlobRow} {db : Db} {blobs : Table BlobRow.id} (rest : List Contact)
      (hrow : c.row platform expectedHash = some row)
      (hinsert : db.blobs.insert row = some blobs) :
      Fetches (c :: rest) db
        { db := setBlobStatusAsCompleted c.answeredAt blobId c.peerId
            { startBlobSyncWithPeer c.askedAt blobId c.peerId db with blobs }
          asked := [c.peerId], stored := some c.peerId, result := .ok () }

variable {platform blobId expectedHash}

theorem fetches (contacts : List Contact) : ∀ db : Db, Fetches platform blobId expectedHash contacts
    db (fetchFromPeers platform blobId expectedHash contacts db) := by
  induction contacts with
  | nil => exact .gaveUp
  | cons c rest ih =>
      intro db
      rw [fetchFromPeers]
      cases hexit : c.exit platform expectedHash with
      | failed => exact .failed hexit (ih _)
      | noMetadata => exact .noMetadata hexit (ih _)
      | verified metadata protoBlob =>
          have hrow : c.row platform expectedHash
              = some (receivedRow platform c.answeredAt metadata protoBlob) := by
            rw [Contact.row, hexit]
          cases hinsert : db.blobs.insert
              (receivedRow platform c.answeredAt metadata protoBlob) with
          | none =>
              have hstore : storeReceivedBlob platform c.answeredAt metadata protoBlob
                  (startBlobSyncWithPeer c.askedAt blobId c.peerId db) = .error .uniqueViolation :=
                storeReceivedBlob_of_insert_eq_none hinsert
              simp only [hstore]
              exact .refused rest hrow hinsert
          | some blobs =>
              have hstore : storeReceivedBlob platform c.answeredAt metadata protoBlob
                  (startBlobSyncWithPeer c.askedAt blobId c.peerId db)
                    = .ok { startBlobSyncWithPeer c.askedAt blobId c.peerId db with blobs } :=
                storeReceivedBlob_of_insert_eq_some hinsert
              simp only [hstore]
              exact .stored rest hrow hinsert

section
variable {contacts : List Contact} {db : Db} {run : FetchRun}

theorem Contact.row_of_failed {c : Contact} (h : c.exit platform expectedHash = .failed) :
    c.row platform expectedHash = none := by rw [Contact.row, h]

theorem Contact.row_of_noMetadata {c : Contact} (h : c.exit platform expectedHash = .noMetadata) :
    c.row platform expectedHash = none := by rw [Contact.row, h]

/-- Of the blobs, the first one that is verified is inserted, unless its id is taken. -/
theorem Fetches.inserted_eq (h : Fetches platform blobId expectedHash contacts db run) :
    (firstRow platform expectedHash contacts).bind db.blobs.insert
        = run.stored.map (fun _ => run.db.blobs) ∧
      (run.stored = none → run.db.blobs = db.blobs) := by
  induction h with
  | gaveUp db => exact ⟨rfl, fun _ => rfl⟩
  | failed hexit _ ih =>
      rw [firstRow, List.findSome?_cons, Contact.row_of_failed hexit]
      exact ih
  | noMetadata hexit _ ih =>
      rw [firstRow, List.findSome?_cons, Contact.row_of_noMetadata hexit]
      exact ih
  | refused rest hrow hinsert =>
      rw [firstRow, List.findSome?_cons, hrow, Option.bind_some, hinsert]
      exact ⟨rfl, fun _ => rfl⟩
  | stored rest hrow hinsert =>
      rw [firstRow, List.findSome?_cons, hrow, Option.bind_some, hinsert]
      refine ⟨rfl, fun hnone => ?_⟩
      cases hnone

theorem Fetches.asked_subset (h : Fetches platform blobId expectedHash contacts db run) :
    ∀ p ∈ run.asked, p ∈ contacts.map (·.peerId) := by
  induction h with
  | gaveUp db => exact fun p hp => hp
  | failed _ _ ih => exact List.cons_subset_cons _ ih
  | noMetadata _ _ ih => exact List.cons_subset_cons _ ih
  | refused rest _ _ => exact List.cons_subset_cons _ (List.nil_subset _)
  | stored rest _ _ => exact List.cons_subset_cons _ (List.nil_subset _)

theorem Fetches.stored_mem (h : Fetches platform blobId expectedHash contacts db run) :
    ∀ p, run.stored = some p → p ∈ run.asked := by
  induction h with
  | gaveUp db =>
      intro p hp
      cases hp
  | failed _ _ ih => exact fun p hp => List.mem_cons_of_mem _ (ih p hp)
  | noMetadata _ _ ih => exact fun p hp => List.mem_cons_of_mem _ (ih p hp)
  | refused rest _ _ =>
      intro p hp
      cases hp
  | stored rest _ _ => exact fun p hp => List.mem_singleton.2 (Option.some.inj hp).symm

/-- The rows of blobs and peers that were not asked for are left alone. -/
theorem Fetches.lookup_eq (h : Fetches platform blobId expectedHash contacts db run)
    {k : Cell × String} (hk : ∀ p ∈ run.asked, k ≠ (blobId.cell, p)) :
    run.db.syncStatus.lookup k = db.syncStatus.lookup k := by
  induction h with
  | gaveUp db => rfl
  | failed _ _ ih =>
      have hhead := hk _ List.mem_cons_self
      rw [ih fun p hp => hk p (List.mem_cons_of_mem _ hp), setBlobStatusAsFailed,
        lookup_setStatus_of_ne _ _ _ _ _ _ hhead, lookup_startBlobSyncWithPeer, if_neg hhead]
  | noMetadata _ _ ih =>
      have hhead := hk _ List.mem_cons_self
      rw [ih fun p hp => hk p (List.mem_cons_of_mem _ hp),
        lookup_startBlobSyncWithPeer, if_neg hhead]
  | refused rest _ _ =>
      rw [lookup_startBlobSyncWithPeer, if_neg (hk _ List.mem_cons_self)]
  | stored rest _ _ =>
      have hhead := hk _ List.mem_cons_self
      exact (lookup_setStatus_of_ne _ _ _ _ _ _ hhead).trans
        ((lookup_startBlobSyncWithPeer _ _ _ _ _).trans (if_neg hhead))

theorem Fetches.status_eq (h : Fetches platform blobId expectedHash contacts db run) {p : String}
    (hp : p ∉ run.asked) : run.db.status blobId p = db.status blobId p := by
  refine congrArg (Option.map (·.syncStatus)) (h.lookup_eq fun q hq heq => hp ?_)
  exact (Prod.mk.inj heq).2 ▸ hq

end

/-! ## The machine by itself -/

/-- A fetch task while no other activity runs. -/
def FetchTask.solo (platform : Platform) (c : Shared × FetchTask) (inp : FetchInput) :
    Option (Shared × FetchTask) :=
  (c.2.step platform c.1 inp).map (fun next => (next.1, { c.2 with pc := next.2 }))

/-- The peer of a contact as the machine has it. -/
def Contact.peer (c : Contact) : String × PeerClient := (c.peerId, c.client)

/-- Where the machine goes on after a reply. -/
def Exit.next (peerId : String) (rest : List (String × PeerClient)) (now : Timestamp) :
    Exit → FetchPc
  | .failed => .markFailed peerId rest
  | .noMetadata => .tryPeer rest
  | .verified metadata protoBlob => .store peerId metadata protoBlob now

theorem FetchTask.receive_eq (t : FetchTask) (peerId : String)
    (rest : List (String × PeerClient)) (inp : FetchInput) :
    t.receive platform peerId rest inp
      = (Exit.of platform t.expectedHash inp.reply).next peerId rest inp.now := by
  rw [FetchTask.receive, Exit.of]
  cases PeerClient.fetchBlob inp.reply with
  | error e => rfl
  | ok blob =>
      cases blob with
      | none => rfl
      | some protoBlob =>
          cases hmetadata : protoBlob.metadata with
          | none => simp only [hmetadata, Exit.next]
          | some metadata =>
              by_cases hverify :
                  verifyReceivedBlob platform metadata protoBlob t.expectedHash = true
              · simp only [hmetadata, hverify, if_true, Exit.next]
              · simp only [hmetadata, hverify, if_false, Exit.next, Bool.false_eq_true]

/-- Some run of the machine leads from one state to the other. -/
def FetchTask.SoloReaches (platform : Platform) (c final : Shared × FetchTask) : Prop :=
  ∃ inputs, Run.exec (FetchTask.solo platform) c inputs = some final

theorem FetchTask.SoloReaches.step {s s' : Shared} {t : FetchTask} {pc : FetchPc}
    {final : Shared × FetchTask} (inp : FetchInput)
    (hstep : t.step platform s inp = some (s', pc))
    (hrest : FetchTask.SoloReaches platform (s', { t with pc }) final) :
    FetchTask.SoloReaches platform (s, t) final := by
  obtain ⟨inputs, hrun⟩ := hrest
  refine ⟨inp :: inputs, Run.exec_cons_eq_some.2 ⟨_, ?_, hrun⟩⟩
  rw [FetchTask.solo, hstep, Option.map_some]

/-- The two steps that ask a peer and take its reply. -/
theorem FetchTask.SoloReaches.ask {c : Contact} {peers : List (String × PeerClient)} {db : Db}
    {manager : SyncManager} {final : Shared × FetchTask}
    (hrest : FetchTask.SoloReaches platform
      (⟨startBlobSyncWithPeer c.askedAt blobId c.peerId db, manager⟩,
        ⟨blobId, expectedHash, (c.exit platform expectedHash).next c.peerId peers c.answeredAt⟩)
      final) :
    FetchTask.SoloReaches platform
      (⟨db, manager⟩, ⟨blobId, expectedHash, .tryPeer (c.peer :: peers)⟩) final := by
  refine .step ⟨c.askedAt, [], c.reply⟩ rfl (.step ⟨c.answeredAt, [], c.reply⟩ rfl ?_)
  rw [FetchTask.receive_eq]
  exact hrest

theorem Contact.exit_of_row {c : Contact} {row : BlobRow}
    (h : c.row platform expectedHash = some row) : ∃ metadata protoBlob,
      c.exit platform expectedHash = .verified metadata protoBlob ∧
        row = receivedRow platform c.answeredAt metadata protoBlob := by
  rw [Contact.row] at h
  cases hexit : c.exit platform expectedHash with
  | failed =>
      rw [hexit] at h
      cases h
  | noMetadata =>
      rw [hexit] at h
      cases h
  | verified metadata protoBlob =>
      rw [hexit] at h
      exact ⟨metadata, protoBlob, rfl, (Option.some.inj h).symm⟩

/-- Every run of the loop is one of the machine. -/
theorem Fetches.soloReaches {contacts : List Contact} {db : Db} {run : FetchRun}
    (h : Fetches platform blobId expectedHash contacts db run) (manager : SyncManager) :
    FetchTask.SoloReaches platform
      (⟨db, manager⟩, ⟨blobId, expectedHash, .tryPeer (contacts.map Contact.peer)⟩)
      (⟨run.db, manager⟩, ⟨blobId, expectedHash, .finished run.result⟩) := by
  induction h with
  | gaveUp db => exact .step ⟨0, [], .error .unavailable⟩ rfl ⟨[], rfl⟩
  | @failed c rest db run hexit hrest ih =>
      refine .ask ?_
      rw [hexit]
      exact .step ⟨c.answeredAt, [], c.reply⟩ rfl ih
  | @noMetadata c rest db run hexit hrest ih =>
      refine .ask ?_
      rw [hexit]
      exact ih
  | @refused c row db rest hrow hinsert =>
      obtain ⟨metadata, protoBlob, hexit, rfl⟩ := Contact.exit_of_row hrow
      have hstore : storeReceivedBlob platform c.answeredAt metadata protoBlob
          (startBlobSyncWithPeer c.askedAt blobId c.peerId db) = .error .uniqueViolation :=
        storeReceivedBlob_of_insert_eq_none hinsert
      refine .ask ?_
      rw [hexit]
      refine .step ⟨c.answeredAt, [], c.reply⟩ ?_ ⟨[], rfl⟩
      simp only [Exit.next, FetchTask.step, hstore]
  | @stored c row db blobs rest hrow hinsert =>
      obtain ⟨metadata, protoBlob, hexit, rfl⟩ := Contact.exit_of_row hrow
      have hstore : storeReceivedBlob platform c.answeredAt metadata protoBlob
          (startBlobSyncWithPeer c.askedAt blobId c.peerId db)
            = .ok { startBlobSyncWithPeer c.askedAt blobId c.peerId db with blobs } :=
        storeReceivedBlob_of_insert_eq_some hinsert
      have hstep : FetchTask.step platform
          ⟨startBlobSyncWithPeer c.askedAt blobId c.peerId db, manager⟩
          ⟨blobId, expectedHash, .store c.peerId metadata protoBlob c.answeredAt⟩
          ⟨c.answeredAt, [], c.reply⟩
            = some (⟨{ startBlobSyncWithPeer c.askedAt blobId c.peerId db with blobs }, manager⟩,
              .markCompleted c.peerId metadata protoBlob c.answeredAt) := by
        simp only [FetchTask.step, hstore]
      -- the INSERT, the completion, and the end of the call
      refine .ask ?_
      rw [hexit]
      exact .step _ hstep (.step ⟨c.answeredAt, [], c.reply⟩ rfl ⟨[], rfl⟩)

theorem Fetches.eq_fetchFromPeers {contacts : List Contact} {db : Db} {run : FetchRun}
    (h : Fetches platform blobId expectedHash contacts db run) :
    run = fetchFromPeers platform blobId expectedHash contacts db := by
  induction h with
  | gaveUp db => rfl
  | failed hexit _ ih => simp only [fetchFromPeers, hexit, ← ih]
  | noMetadata hexit _ ih => simp only [fetchFromPeers, hexit, ← ih]
  | @refused c row db rest hrow hinsert =>
      obtain ⟨metadata, protoBlob, hexit, rfl⟩ := Contact.exit_of_row hrow
      have hstore : storeReceivedBlob platform c.answeredAt metadata protoBlob
          (startBlobSyncWithPeer c.askedAt blobId c.peerId db) = .error .uniqueViolation :=
        storeReceivedBlob_of_insert_eq_none hinsert
      simp only [fetchFromPeers, hexit, hstore]
  | @stored c row db blobs rest hrow hinsert =>
      obtain ⟨metadata, protoBlob, hexit, rfl⟩ := Contact.exit_of_row hrow
      have hstore : storeReceivedBlob platform c.answeredAt metadata protoBlob
          (startBlobSyncWithPeer c.askedAt blobId c.peerId db)
            = .ok { startBlobSyncWithPeer c.askedAt blobId c.peerId db with blobs } :=
        storeReceivedBlob_of_insert_eq_some hinsert
      simp only [fetchFromPeers, hexit, hstore]

/-- A run of the machine that has not returned takes a step. -/
theorem FetchTask.SoloReaches.next {s : Shared} {t : FetchTask} {final : Shared × FetchTask}
    {result : Except DANodeError Unit} (hfinal : final.2.pc = .finished result)
    (hpc : t.pc ≠ .finished result) (h : FetchTask.SoloReaches platform (s, t) final) :
    ∃ inp s' pc, t.step platform s inp = some (s', pc) ∧
      FetchTask.SoloReaches platform (s', { t with pc }) final := by
  obtain ⟨inputs, hrun⟩ := h
  have hne : (s, t) ≠ final := by
    rintro rfl
    exact hpc hfinal
  obtain ⟨inp, inputs, next, rfl, hsolo, hrest⟩ := Run.exec_next hne hrun
  obtain ⟨⟨s', pc⟩, hstep, rfl⟩ := Option.map_eq_some_iff.1 hsolo
  exact ⟨inp, s', pc, hstep, inputs, hrest⟩

theorem FetchTask.SoloReaches.eq_of_finished {s : Shared} {t : FetchTask}
    {final : Shared × FetchTask} {result : Except DANodeError Unit} (hpc : t.pc = .finished result)
    (h : FetchTask.SoloReaches platform (s, t) final) : (s, t) = final := by
  obtain ⟨inputs, hrun⟩ := h
  refine (Run.exec_of_final (fun inp => ?_) hrun).1
  rw [FetchTask.solo, FetchTask.step, hpc, Option.map_none]

/-- A peer that the call does not come to. -/
def Contact.unreached (peer : String × PeerClient) : Contact :=
  ⟨peer.1, peer.2, 0, .error .unavailable, 0⟩

theorem map_peer_unreached (peers : List (String × PeerClient)) :
    (peers.map Contact.unreached).map Contact.peer = peers := by
  rw [List.map_map]
  exact List.map_id peers

/-- From the INSERT of a verified blob the machine returns, with what the loop comes to. -/
theorem exists_fetches_of_verified {manager : SyncManager} {final : Shared × FetchTask}
    {result : Except DANodeError Unit} (hfinal : final.2.pc = .finished result) {db : Db}
    {c : Contact} {metadata : BlobMetadata} {protoBlob : ProtoBlob}
    (hexit : c.exit platform expectedHash = .verified metadata protoBlob) (rest : List Contact)
    (h : FetchTask.SoloReaches platform
      (⟨startBlobSyncWithPeer c.askedAt blobId c.peerId db, manager⟩,
        ⟨blobId, expectedHash, .store c.peerId metadata protoBlob c.answeredAt⟩) final) :
    ∃ run, Fetches platform blobId expectedHash (c :: rest) db run ∧
      final = (⟨run.db, manager⟩, ⟨blobId, expectedHash, .finished run.result⟩) := by
  have hrow : c.row platform expectedHash
      = some (receivedRow platform c.answeredAt metadata protoBlob) := by
    rw [Contact.row, hexit]
  obtain ⟨inp, s', pc, hstep, hrest⟩ := h.next hfinal (by rintro ⟨⟩)
  cases hinsert : db.blobs.insert (receivedRow platform c.answeredAt metadata protoBlob) with
  | none =>
      have hstore : storeReceivedBlob platform c.answeredAt metadata protoBlob
          (startBlobSyncWithPeer c.askedAt blobId c.peerId db) = .error .uniqueViolation :=
        storeReceivedBlob_of_insert_eq_none hinsert
      simp only [FetchTask.step, hstore] at hstep
      obtain ⟨rfl, rfl⟩ := Prod.mk.inj (Option.some.inj hstep)
      exact ⟨_, .refused rest hrow hinsert, (hrest.eq_of_finished rfl).symm⟩
  | some blobs =>
      have hstore : storeReceivedBlob platform c.answeredAt metadata protoBlob
          (startBlobSyncWithPeer c.askedAt blobId c.peerId db)
            = .ok { startBlobSyncWithPeer c.askedAt blobId c.peerId db with blobs } :=
        storeReceivedBlob_of_insert_eq_some hinsert
      simp only [FetchTask.step, hstore] at hstep
      obtain ⟨rfl, rfl⟩ := Prod.mk.inj (Option.some.inj hstep)
      obtain ⟨inp', s', pc, hstep', hrest'⟩ := hrest.next hfinal (by rintro ⟨⟩)
      obtain ⟨rfl, rfl⟩ := Prod.mk.inj (Option.some.inj hstep')
      exact ⟨_, .stored rest hrow hinsert, (hrest'.eq_of_finished rfl).symm⟩

/-- Every run of the machine that returns is one of the loop. -/
theorem FetchTask.SoloReaches.exists_fetches {manager : SyncManager}
    {final : Shared × FetchTask} {result : Except DANodeError Unit}
    (hfinal : final.2.pc = .finished result) (peers : List (String × PeerClient)) : ∀ db : Db,
      FetchTask.SoloReaches platform
        (⟨db, manager⟩, ⟨blobId, expectedHash, .tryPeer peers⟩) final →
      ∃ contacts run, contacts.map Contact.peer = peers ∧
        Fetches platform blobId expectedHash contacts db run ∧
        final = (⟨run.db, manager⟩, ⟨blobId, expectedHash, .finished run.result⟩) := by
  induction peers with
  | nil =>
      intro db h
      obtain ⟨inp, s', pc, hstep, hrest⟩ := h.next hfinal (by rintro ⟨⟩)
      obtain ⟨rfl, rfl⟩ := Prod.mk.inj (Option.some.inj hstep)
      exact ⟨[], _, rfl, .gaveUp db, (hrest.eq_of_finished rfl).symm⟩
  | cons peer peers ih =>
      intro db h
      obtain ⟨inp, s', pc, hstep, hrest⟩ := h.next hfinal (by rintro ⟨⟩)
      obtain ⟨rfl, rfl⟩ := Prod.mk.inj (Option.some.inj hstep)
      obtain ⟨inp', s', pc, hstep', hrest'⟩ := hrest.next hfinal (by rintro ⟨⟩)
      obtain ⟨rfl, rfl⟩ := Prod.mk.inj (Option.some.inj hstep')
      rw [FetchTask.receive_eq] at hrest'
      cases hexit : Exit.of platform expectedHash inp'.reply with
      | failed =>
          simp only [hexit, Exit.next] at hrest'
          obtain ⟨inp'', s', pc, hstep'', hrest''⟩ := hrest'.next hfinal (by rintro ⟨⟩)
          obtain ⟨rfl, rfl⟩ := Prod.mk.inj (Option.some.inj hstep'')
          obtain ⟨contacts, run, rfl, hrun, hend⟩ := ih _ hrest''
          let c : Contact := ⟨peer.1, peer.2, inp.now, inp'.reply, inp''.now⟩
          exact ⟨c :: contacts, _, rfl, .failed hexit hrun, hend⟩
      | noMetadata =>
          simp only [hexit, Exit.next] at hrest'
          obtain ⟨contacts, run, rfl, hrun, hend⟩ := ih _ hrest'
          let c : Contact := ⟨peer.1, peer.2, inp.now, inp'.reply, inp'.now⟩
          exact ⟨c :: contacts, _, rfl, .noMetadata hexit hrun, hend⟩
      | verified metadata protoBlob =>
          simp only [hexit, Exit.next] at hrest'
          let c : Contact := ⟨peer.1, peer.2, inp.now, inp'.reply, inp'.now⟩
          have hpeers : (c :: peers.map Contact.unreached).map Contact.peer = peer :: peers := by
            rw [List.map_cons, map_peer_unreached]
            rfl
          have hexit' : c.exit platform expectedHash = .verified metadata protoBlob := hexit
          obtain ⟨run, hrun, hend⟩ := exists_fetches_of_verified hfinal hexit' _ hrest'
          exact ⟨_, run, hpeers, hrun, hend⟩

theorem soloReaches_markPeers {manager : SyncManager} (contacts : List Contact) : ∀ db : Db,
    FetchTask.SoloReaches platform
      (⟨db, manager⟩, ⟨blobId, expectedHash, .markPeers (contacts.map Contact.peer)⟩)
      (⟨contacts.foldl (fun db c => startBlobSyncWithPeer c.askedAt blobId c.peerId db) db,
          manager⟩,
        ⟨blobId, expectedHash, .finished (.ok ())⟩) := by
  induction contacts with
  | nil => exact fun db => .step ⟨0, [], .error .unavailable⟩ rfl ⟨[], rfl⟩
  | cons c contacts ih => exact fun db => .step ⟨c.askedAt, [], c.reply⟩ rfl (ih _)

theorem FetchTask.SoloReaches.exists_marked {manager : SyncManager}
    {final : Shared × FetchTask} {result : Except DANodeError Unit}
    (hfinal : final.2.pc = .finished result) (peers : List (String × PeerClient)) : ∀ db : Db,
      FetchTask.SoloReaches platform
        (⟨db, manager⟩, ⟨blobId, expectedHash, .markPeers peers⟩) final →
      ∃ contacts : List Contact, contacts.map Contact.peer = peers ∧
        final = (⟨contacts.foldl
          (fun db c => startBlobSyncWithPeer c.askedAt blobId c.peerId db) db, manager⟩,
          ⟨blobId, expectedHash, .finished (.ok ())⟩) := by
  induction peers with
  | nil =>
      intro db h
      obtain ⟨inp, s', pc, hstep, hrest⟩ := h.next hfinal (by rintro ⟨⟩)
      obtain ⟨rfl, rfl⟩ := Prod.mk.inj (Option.some.inj hstep)
      exact ⟨[], rfl, (hrest.eq_of_finished rfl).symm⟩
  | cons peer peers ih =>
      intro db h
      obtain ⟨inp, s', pc, hstep, hrest⟩ := h.next hfinal (by rintro ⟨⟩)
      obtain ⟨rfl, rfl⟩ := Prod.mk.inj (Option.some.inj hstep)
      obtain ⟨contacts, rfl, hend⟩ := ih _ hrest
      exact ⟨⟨peer.1, peer.2, inp.now, inp.reply, inp.now⟩ :: contacts, rfl, hend⟩

/-- Every run of the machine that returns is a call. -/
theorem FetchTask.SoloReaches.exists_call {db : Db} {manager : SyncManager}
    {final : Shared × FetchTask} {result : Except DANodeError Unit}
    (hfinal : final.2.pc = .finished result)
    (h : FetchTask.SoloReaches platform (⟨db, manager⟩, ⟨blobId, expectedHash, .start⟩) final) :
    ∃ (contacts : List Contact) (run : FetchRun),
      (contacts.map Contact.peer).Perm manager.peers.rows ∧
      run = fetchAndStoreBlob platform blobId expectedHash contacts db ∧
      final = (⟨run.db, manager⟩, ⟨blobId, expectedHash, .finished run.result⟩) := by
  obtain ⟨inp, s', pc, hstep, hrest⟩ := h.next hfinal (by rintro ⟨⟩)
  rw [FetchTask.step] at hstep
  by_cases horder : inp.order.Perm manager.peers.rows
  · rw [if_pos horder] at hstep
    obtain ⟨rfl, rfl⟩ := Prod.mk.inj (Option.some.inj hstep)
    obtain ⟨inp', s', pc, hstep', hrest'⟩ := hrest.next hfinal (by rintro ⟨⟩)
    rw [FetchTask.step] at hstep'
    cases hexists : SyncManager.doesBlobExist blobId db with
    | true =>
        simp only [hexists, if_true] at hstep'
        obtain ⟨rfl, rfl⟩ := Prod.mk.inj (Option.some.inj hstep')
        obtain ⟨contacts, hpeers, hend⟩ := hrest'.exists_marked hfinal _ _
        exact ⟨contacts, _, hpeers ▸ horder, by rw [fetchAndStoreBlob, if_pos hexists], hend⟩
    | false =>
        simp only [hexists, Bool.false_eq_true, if_false] at hstep'
        obtain ⟨rfl, rfl⟩ := Prod.mk.inj (Option.some.inj hstep')
        obtain ⟨contacts, run, hpeers, hrun, hend⟩ := hrest'.exists_fetches hfinal _ _
        refine ⟨contacts, run, hpeers ▸ horder, ?_, hend⟩
        rw [fetchAndStoreBlob, if_neg (by rw [hexists]; decide)]
        exact hrun.eq_fetchFromPeers
  · rw [if_neg horder] at hstep
    cases hstep

/-- Every call is a run of the machine. -/
theorem soloReaches_fetchAndStoreBlob {manager : SyncManager} {contacts : List Contact}
    (horder : (contacts.map Contact.peer).Perm manager.peers.rows) (db : Db) :
    FetchTask.SoloReaches platform (⟨db, manager⟩, ⟨blobId, expectedHash, .start⟩)
      (⟨(fetchAndStoreBlob platform blobId expectedHash contacts db).db, manager⟩,
        ⟨blobId, expectedHash,
          .finished (fetchAndStoreBlob platform blobId expectedHash contacts db).result⟩) := by
  have hstart : FetchTask.step platform ⟨db, manager⟩ ⟨blobId, expectedHash, .start⟩
      ⟨0, contacts.map Contact.peer, .error .unavailable⟩
        = some (⟨db, manager⟩, .checkExists (contacts.map Contact.peer)) := if_pos horder
  refine .step _ hstart ?_
  cases hexists : SyncManager.doesBlobExist blobId db with
  | true =>
      have hcheck : FetchTask.step platform ⟨db, manager⟩
          ⟨blobId, expectedHash, .checkExists (contacts.map Contact.peer)⟩
          ⟨0, [], .error .unavailable⟩
            = some (⟨db, manager⟩, .markPeers (contacts.map Contact.peer)) := if_pos hexists
      rw [fetchAndStoreBlob, if_pos hexists]
      exact .step _ hcheck (soloReaches_markPeers contacts db)
  | false =>
      have hcheck : FetchTask.step platform ⟨db, manager⟩
          ⟨blobId, expectedHash, .checkExists (contacts.map Contact.peer)⟩
          ⟨0, [], .error .unavailable⟩
            = some (⟨db, manager⟩, .tryPeer (contacts.map Contact.peer)) :=
        if_neg (by rw [hexists]; decide)
      rw [fetchAndStoreBlob, if_neg (by rw [hexists]; decide)]
      exact .step _ hcheck ((fetches contacts db).soloReaches manager)

/-- **The call is the machine by itself**: what the machine returns with is what the call comes to
    for some order of the peers, replies and times, and every such call is a run of the machine. -/
theorem soloReaches_iff {db : Db} {manager : SyncManager} {final : Shared × FetchTask} :
    FetchTask.SoloReaches platform (⟨db, manager⟩, ⟨blobId, expectedHash, .start⟩) final ∧
        (∃ result, final.2.pc = .finished result) ↔
      ∃ (contacts : List Contact) (run : FetchRun),
        (contacts.map Contact.peer).Perm manager.peers.rows ∧
        run = fetchAndStoreBlob platform blobId expectedHash contacts db ∧
        final = (⟨run.db, manager⟩, ⟨blobId, expectedHash, .finished run.result⟩) := by
  constructor
  · rintro ⟨h, result, hfinal⟩
    exact h.exists_call hfinal
  · rintro ⟨contacts, run, horder, rfl, rfl⟩
    exact ⟨soloReaches_fetchAndStoreBlob horder db, _, rfl⟩

end DaConcept.Node
