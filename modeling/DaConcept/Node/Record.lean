import DaConcept.Node.Fetch
import DaConcept.Node.System

set_option autoImplicit false

/-! # What a fetch leaves behind

Every exit of the loop in `fetch_and_store_blob` ought to settle the row that
`start_blob_sync_with_peer` has made pending. Two do not: a blob without metadata, after which the
loop just goes on, and a refused INSERT, which returns (`fetch_records_iff`). What is stored has the
id of the response, and what is completed the id of the request, and nothing compares them
(`fetch_touches_only_iff`). -/

namespace DaConcept.Node

variable {platform : Platform} {blobId : Uuid} {expectedHash : String}

section
variable {contacts : List Contact} {db : Db} {run : FetchRun}

/-! ## The status of each peer asked -/

/-- The status that a call leaves for a peer it comes to. -/
def Contact.finalStatus (platform : Platform) (expectedHash : String) (db : Db) (c : Contact) :
    Status :=
  match c.exit platform expectedHash with
  | .failed => .failed
  | .noMetadata => .pending
  | .verified metadata protoBlob =>
      if (db.blobs.insert (receivedRow platform c.answeredAt metadata protoBlob)).isSome then
        .completed
      else .pending

theorem Contact.finalStatus_of_row {db : Db} {c : Contact} {row : BlobRow}
    (h : c.row platform expectedHash = some row) :
    c.finalStatus platform expectedHash db
      = if (db.blobs.insert row).isSome then .completed else .pending := by
  obtain ⟨metadata, protoBlob, hexit, rfl⟩ := Contact.exit_of_row h
  rw [Contact.finalStatus, hexit]

theorem reaches_cons {c d : Contact} {rest : List Contact} :
    Reaches platform expectedHash (c :: rest) d ↔
      d = c ∨ (c.row platform expectedHash = none ∧ Reaches platform expectedHash rest d) := by
  constructor
  · rintro ⟨before, after, heq, hbefore⟩
    cases before with
    | nil => exact Or.inl (List.cons.inj heq).1.symm
    | cons c' before =>
        obtain ⟨rfl, hrest⟩ := List.cons.inj heq
        rw [List.forall_mem_cons] at hbefore
        exact Or.inr ⟨hbefore.1, before, after, hrest, hbefore.2⟩
  · rintro (rfl | ⟨hrow, before, after, rfl, hbefore⟩)
    · exact ⟨[], rest, rfl, fun d hd => absurd hd List.not_mem_nil⟩
    · exact ⟨c :: before, after, rfl, List.forall_mem_cons.2 ⟨hrow, hbefore⟩⟩

/-- What the call records of a contact: it asks the peer, leaves the status of its exit, and has
    stored the peer's blob if that is `completed`. -/
def Contact.Recorded (platform : Platform) (blobId : Uuid) (expectedHash : String) (db : Db)
    (run : FetchRun) (c : Contact) : Prop :=
  c.peerId ∈ run.asked ∧
    run.db.status blobId c.peerId = some (c.finalStatus platform expectedHash db) ∧
    (run.stored = some c.peerId ↔ c.finalStatus platform expectedHash db = .completed)

theorem not_mem_asked {c : Contact} {rest : List Contact}
    (hnodup : ((c :: rest).map (·.peerId)).Nodup)
    (h : Fetches platform blobId expectedHash rest db run) : c.peerId ∉ run.asked := by
  rw [List.map_cons, List.nodup_cons] at hnodup
  exact fun hmem => hnodup.1 (h.asked_subset _ hmem)

/-- After a turn that goes on to the next peer, its own peer keeps the status it got. -/
theorem Fetches.recorded_head {c : Contact} {db' : Db}
    (h : Fetches platform blobId expectedHash contacts db run) (hasked : c.peerId ∉ run.asked)
    (hstatus : db.status blobId c.peerId = some (c.finalStatus platform expectedHash db'))
    (hnot : c.finalStatus platform expectedHash db' ≠ .completed) :
    c.Recorded platform blobId expectedHash db' { run with asked := c.peerId :: run.asked } := by
  refine ⟨List.mem_cons_self, (h.status_eq hasked).trans hstatus, ?_⟩
  exact iff_of_false (fun hstored => hasked (h.stored_mem _ hstored)) hnot

theorem Contact.Recorded.cons {c : Contact} {p : String}
    (h : c.Recorded platform blobId expectedHash db run) :
    c.Recorded platform blobId expectedHash db { run with asked := p :: run.asked } :=
  ⟨List.mem_cons_of_mem _ h.1, h.2⟩

/-- **The call records every peer it comes to.** -/
theorem Fetches.recorded (h : Fetches platform blobId expectedHash contacts db run)
    (hnodup : (contacts.map (·.peerId)).Nodup) : ∀ c, Reaches platform expectedHash contacts c →
      c.Recorded platform blobId expectedHash db run := by
  induction h with
  | gaveUp db =>
      rintro c ⟨before, after, heq, -⟩
      exact absurd heq.symm (List.append_ne_nil_of_right_ne_nil _ (List.cons_ne_nil _ _))
  | @failed c rest db run hexit hrest ih =>
      intro d hd
      rcases reaches_cons.1 hd with rfl | ⟨-, hd'⟩
      · have hfinal : d.finalStatus platform expectedHash db = .failed := by
          rw [Contact.finalStatus, hexit]
        refine hrest.recorded_head (not_mem_asked hnodup hrest) ?_ (by rw [hfinal]; decide)
        rw [hfinal, setBlobStatusAsFailed, status_setStatus, if_pos ⟨rfl, rfl⟩,
          status_startBlobSyncWithPeer, if_pos ⟨rfl, rfl⟩, Option.map_some]
      · exact Contact.Recorded.cons (ih (List.nodup_cons.1 hnodup).2 d hd')
  | @noMetadata c rest db run hexit hrest ih =>
      intro d hd
      rcases reaches_cons.1 hd with rfl | ⟨-, hd'⟩
      · have hfinal : d.finalStatus platform expectedHash db = .pending := by
          rw [Contact.finalStatus, hexit]
        refine hrest.recorded_head (not_mem_asked hnodup hrest) ?_ (by rw [hfinal]; decide)
        rw [hfinal, status_startBlobSyncWithPeer, if_pos ⟨rfl, rfl⟩]
      · exact Contact.Recorded.cons (ih (List.nodup_cons.1 hnodup).2 d hd')
  | @refused c row db rest hrow hinsert =>
      intro d hd
      rcases reaches_cons.1 hd with rfl | ⟨hnone, -⟩
      · refine ⟨List.mem_cons_self, ?_, ?_⟩
        · rw [Contact.finalStatus_of_row hrow, hinsert]
          exact (status_startBlobSyncWithPeer _ _ _ _ _ _).trans (if_pos ⟨rfl, rfl⟩)
        · rw [Contact.finalStatus_of_row hrow, hinsert]
          refine iff_of_false ?_ (by decide)
          intro h
          cases h
      · rw [hrow] at hnone
        cases hnone
  | @stored c row db blobs rest hrow hinsert =>
      intro d hd
      rcases reaches_cons.1 hd with rfl | ⟨hnone, -⟩
      · refine ⟨List.mem_cons_self, ?_, ?_⟩
        · have hstart :
              ({ startBlobSyncWithPeer d.askedAt blobId d.peerId db with blobs } : Db).status
                blobId d.peerId = some .pending :=
            (status_startBlobSyncWithPeer _ _ _ _ _ _).trans (if_pos ⟨rfl, rfl⟩)
          rw [Contact.finalStatus_of_row hrow, hinsert, setBlobStatusAsCompleted, status_setStatus,
            if_pos ⟨rfl, rfl⟩, hstart]
          rfl
        · rw [Contact.finalStatus_of_row hrow, hinsert]
          exact iff_of_true rfl rfl
      · rw [hrow] at hnone
        cases hnone

/-- Only peers that the call comes to are asked. -/
theorem Fetches.exists_reaches (h : Fetches platform blobId expectedHash contacts db run) :
    ∀ p ∈ run.asked, ∃ c, Reaches platform expectedHash contacts c ∧ c.peerId = p := by
  have hhead {c : Contact} {rest : List Contact} :
      Reaches platform expectedHash (c :: rest) c := reaches_cons.2 (Or.inl rfl)
  induction h with
  | gaveUp db =>
      intro p hp
      cases hp
  | failed hexit _ ih =>
      intro p hp
      rcases List.mem_cons.1 hp with rfl | hp
      · exact ⟨_, hhead, rfl⟩
      · obtain ⟨c, hc, rfl⟩ := ih p hp
        exact ⟨c, reaches_cons.2 (Or.inr ⟨Contact.row_of_failed hexit, hc⟩), rfl⟩
  | noMetadata hexit _ ih =>
      intro p hp
      rcases List.mem_cons.1 hp with rfl | hp
      · exact ⟨_, hhead, rfl⟩
      · obtain ⟨c, hc, rfl⟩ := ih p hp
        exact ⟨c, reaches_cons.2 (Or.inr ⟨Contact.row_of_noMetadata hexit, hc⟩), rfl⟩
  | refused rest _ _ => exact fun p hp => ⟨_, hhead, (List.mem_singleton.1 hp).symm⟩
  | stored rest _ _ => exact fun p hp => ⟨_, hhead, (List.mem_singleton.1 hp).symm⟩

/-- No peer after the one whose blob was stored is asked. -/
theorem Fetches.not_asked_after (h : Fetches platform blobId expectedHash contacts db run)
    (hnodup : (contacts.map (·.peerId)).Nodup) :
    ∀ before c after, contacts = before ++ c :: after → run.stored = some c.peerId →
      ∀ d ∈ after, d.peerId ∉ run.asked := by
  -- a turn that goes on to the next peer does not store
  have hturn {c' : Contact} {rest : List Contact} {db : Db} {run : FetchRun}
      (hnodup : ((c' :: rest).map (·.peerId)).Nodup)
      (hrest : Fetches platform blobId expectedHash rest db run)
      (ih : ∀ before c after, rest = before ++ c :: after → run.stored = some c.peerId →
        ∀ d ∈ after, d.peerId ∉ run.asked) :
      ∀ before c after, c' :: rest = before ++ c :: after → run.stored = some c.peerId →
        ∀ d ∈ after, d.peerId ∉ c'.peerId :: run.asked := by
    intro before c after heq hstored d hd
    rcases before with _ | ⟨c'', before⟩
    · obtain ⟨rfl, rfl⟩ := List.cons.inj heq
      exact absurd (hrest.stored_mem _ hstored) (not_mem_asked hnodup hrest)
    · -- the peers are distinct, so the one of this turn is none of the later ones
      obtain ⟨rfl, rfl⟩ := List.cons.inj heq
      rw [List.map_cons, List.nodup_cons] at hnodup
      intro hmem
      rcases List.mem_cons.1 hmem with hsame | hmem
      · refine hnodup.1 (hsame ▸ List.mem_map_of_mem ?_)
        exact List.mem_append_right _ (List.mem_cons_of_mem _ hd)
      · exact ih before c after rfl hstored d hd hmem
  induction h with
  | gaveUp db =>
      intro before c after heq hstored
      cases hstored
  | failed _ hrest ih => exact hturn hnodup hrest (ih (List.nodup_cons.1 hnodup).2)
  | noMetadata _ hrest ih => exact hturn hnodup hrest (ih (List.nodup_cons.1 hnodup).2)
  | refused rest _ _ =>
      intro before c after heq hstored
      cases hstored
  | stored rest _ _ =>
      intro before c after heq hstored d hd hmem
      rcases before with _ | ⟨c'', before⟩
      · obtain ⟨rfl, rfl⟩ := List.cons.inj heq
        rw [List.map_cons, List.nodup_cons] at hnodup
        exact hnodup.1 (List.mem_singleton.1 hmem ▸ List.mem_map_of_mem hd)
      · obtain ⟨rfl, rfl⟩ := List.cons.inj heq
        rw [List.map_cons, List.nodup_cons] at hnodup
        refine hnodup.1 ?_
        rw [Option.some.inj hstored]
        exact List.mem_map_of_mem (List.mem_append_right _ List.mem_cons_self)

end

/-! ## The record of a call -/

/-- A call has made a peer's row `completed`. -/
def NewlyCompleted (blobId : Uuid) (db : Db) (run : FetchRun) (p : String) : Prop :=
  run.db.status blobId p = some .completed ∧ db.status blobId p ≠ some .completed

/-- The rows of the blob say what happened: each peer asked is `completed` if its blob was stored
    and `failed` otherwise, at most one is newly completed, and the peers after it were neither
    asked nor touched. -/
structure RecordsExactly (blobId : Uuid) (contacts : List Contact) (db : Db) (run : FetchRun) :
    Prop where
  statuses : ∀ p ∈ run.asked,
    run.db.status blobId p = some (if run.stored = some p then .completed else .failed)
  once (p q : String) (hp : NewlyCompleted blobId db run p) (hq : NewlyCompleted blobId db run q) :
    p = q
  untouched (before after : List Contact) (c : Contact) (h : contacts = before ++ c :: after)
    (hstored : run.stored = some c.peerId) : ∀ d ∈ after, d.peerId ∉ run.asked ∧
      run.db.syncStatus.lookup (blobId.cell, d.peerId)
        = db.syncStatus.lookup (blobId.cell, d.peerId)

/-- The peer's blob, if it sends one, has metadata, and if it is verified, its id is free. -/
def Contact.Settles (platform : Platform) (expectedHash : String) (db : Db) (c : Contact) : Prop :=
  c.exit platform expectedHash ≠ .noMetadata ∧
    ∀ row, c.row platform expectedHash = some row → db.blobs.lookup row.id = none

theorem Contact.finalStatus_ne_pending_iff {db : Db} {c : Contact} :
    c.finalStatus platform expectedHash db ≠ .pending ↔ c.Settles platform expectedHash db := by
  cases hexit : c.exit platform expectedHash with
  | failed => simp [Contact.finalStatus, Contact.Settles, Contact.row, hexit]
  | noMetadata => simp [Contact.finalStatus, Contact.Settles, hexit]
  | verified metadata protoBlob =>
      have hrow : c.row platform expectedHash
          = some (receivedRow platform c.answeredAt metadata protoBlob) := by
        rw [Contact.row, hexit]
      rw [Contact.finalStatus_of_row hrow, Contact.Settles, hexit, hrow]
      cases hinsert : db.blobs.insert (receivedRow platform c.answeredAt metadata protoBlob) with
      | none => simp [Option.isSome_iff_ne_none.1 (Table.insert_eq_none_iff.1 hinsert)]
      | some blobs => simp [Table.lookup_eq_none_of_insert hinsert]

theorem FetchRun.recordsExactly_iff {contacts : List Contact} {db : Db} {run : FetchRun}
    (h : Fetches platform blobId expectedHash contacts db run)
    (hnodup : (contacts.map (·.peerId)).Nodup) :
    RecordsExactly blobId contacts db run ↔
      ∀ c, Reaches platform expectedHash contacts c → c.Settles platform expectedHash db := by
  constructor
  · intro hrecords c hc
    obtain ⟨hasked, hstatus, -⟩ := h.recorded hnodup c hc
    rw [← Contact.finalStatus_ne_pending_iff]
    have hexact := hrecords.statuses c.peerId hasked
    rw [hstatus, Option.some.injEq] at hexact
    rw [hexact]
    split <;> decide
  · intro hsettles
    -- a peer that is completed is the one whose blob was stored
    have hcompleted : ∀ p ∈ run.asked, run.db.status blobId p = some .completed →
        run.stored = some p := by
      intro p hp hstatus
      obtain ⟨c, hc, rfl⟩ := h.exists_reaches p hp
      obtain ⟨-, hfinal, hstored⟩ := h.recorded hnodup c hc
      exact hstored.2 (Option.some.inj (hfinal.symm.trans hstatus))
    have hnew : ∀ p, NewlyCompleted blobId db run p → run.stored = some p := by
      rintro p ⟨hnow, hbefore⟩
      by_cases hp : p ∈ run.asked
      · exact hcompleted p hp hnow
      · exact absurd ((h.status_eq hp).symm.trans hnow) hbefore
    refine ⟨?_, fun p q hp hq => ?_, fun before after c heq hstored d hd => ?_⟩
    · intro p hp
      obtain ⟨c, hc, rfl⟩ := h.exists_reaches p hp
      obtain ⟨-, hfinal, hstored⟩ := h.recorded hnodup c hc
      have hpending := Contact.finalStatus_ne_pending_iff.2 (hsettles c hc)
      rw [hfinal]
      by_cases hdone : run.stored = some c.peerId
      · rw [if_pos hdone, hstored.1 hdone]
      · rw [if_neg hdone]
        have hnot := mt hstored.2 hdone
        cases hstatus : c.finalStatus platform expectedHash db with
        | pending => exact absurd hstatus hpending
        | completed => exact absurd hstatus hnot
        | failed => rfl
    · exact Option.some.inj ((hnew p hp).symm.trans (hnew q hq))
    · have hnot := h.not_asked_after hnodup before c after heq hstored d hd
      refine ⟨hnot, h.lookup_eq fun p hp hkey => hnot ?_⟩
      exact (Prod.mk.inj hkey).2 ▸ hp

/-- **When the record is exact**: no peer that the call comes to sends a blob without metadata, and
    the id of the first verified blob is free. -/
theorem fetch_records_iff (platform : Platform) (blobId : Uuid) (expectedHash : String)
    (contacts : List Contact) (hnodup : (contacts.map (·.peerId)).Nodup) (db : Db)
    (hmissing : SyncManager.doesBlobExist blobId db = false) :
    RecordsExactly blobId contacts db
        (fetchAndStoreBlob platform blobId expectedHash contacts db) ↔
      ∀ c, Reaches platform expectedHash contacts c → c.Settles platform expectedHash db := by
  rw [fetchAndStoreBlob, if_neg (by rw [hmissing]; decide)]
  exact FetchRun.recordsExactly_iff (fetches contacts db) hnodup

/-- The peer of the sample node, which replies `reply` when it is asked for the sample blob. -/
def Contact.sample (peerId : String) (reply : RpcReply) : Contact :=
  ⟨peerId, ⟨"http://peer"⟩, 0, reply, 0⟩

/-- The reply that carries a blob with the content of the sample blob. -/
def RpcReply.sample (metadata : Option BlobMetadata) : RpcReply :=
  .ok ⟨.success, "Blob fetched successfully", some (.fetch (some ⟨metadata, [0, 0, 0, 0]⟩))⟩

/-- The hash of the sample blob. -/
def Blob.sampleHash : String := Platform.sample.contentHash [0, 0, 0, 0]

/-- The first peer cannot be reached, the second one does not have the blob, and the third one sends
    it. -/
def Contact.sampleList : List Contact :=
  [.sample "peer" (.error .unavailable), .sample "other" (.ok ⟨.error, "", none⟩),
   .sample "origin" (.sample (some (Blob.sample.announcement Platform.sample)))]

theorem fetch_records_sample :
    (fetchAndStoreBlob Platform.sample (Uuid.sample 2) Blob.sampleHash Contact.sampleList
      Db.empty).stored = some "origin" ∧
    RecordsExactly (Uuid.sample 2) Contact.sampleList Db.empty
      (fetchAndStoreBlob Platform.sample (Uuid.sample 2) Blob.sampleHash Contact.sampleList
        Db.empty) := by
  refine ⟨by decide +kernel, (fetch_records_iff Platform.sample (Uuid.sample 2) Blob.sampleHash _
    (by decide) Db.empty (by decide)).2 ?_⟩
  intro c hc
  rcases reaches_cons.1 hc with rfl | ⟨-, hc⟩
  · exact ⟨by decide, fun row _ => rfl⟩
  · rcases reaches_cons.1 hc with rfl | ⟨-, hc⟩
    · exact ⟨by decide, fun row _ => rfl⟩
    · rcases reaches_cons.1 hc with rfl | ⟨-, before, after, heq, -⟩
      · exact ⟨by decide +kernel, fun row _ => rfl⟩
      · exact absurd heq.symm (List.append_ne_nil_of_right_ne_nil _ (List.cons_ne_nil _ _))

/-- A peer sends the blob without metadata, and its row stays pending. -/
theorem fetch_records_false :
    ¬ RecordsExactly (Uuid.sample 2) [.sample "peer" (.sample none)] Db.empty
      (fetchAndStoreBlob Platform.sample (Uuid.sample 2) Blob.sampleHash
        [.sample "peer" (.sample none)] Db.empty) := by
  intro h
  have hstatus := h.statuses "peer" (by decide)
  exact absurd hstatus (by decide +kernel)

/-! ## The blob of a call -/

theorem completed_mem_startBlobSyncWithPeer {now : Timestamp} {b : Uuid} {p : String} {db : Db}
    {r : SyncStatusRow} (h : r ∈ (startBlobSyncWithPeer now b p db).syncStatus.rows)
    (hr : r.syncStatus = .completed) : r ∈ db.syncStatus.rows := by
  rw [Table.mem_rows_iff, lookup_startBlobSyncWithPeer] at h
  split at h
  · -- the row that is written is pending
    rw [← Option.some.inj h] at hr
    cases hold : db.syncStatus.lookup r.key <;> simp [hold] at hr
  · exact Table.mem_rows_iff.2 h

theorem completed_mem_setBlobStatusAsFailed {now : Timestamp} {b : Uuid} {p : String} {db : Db}
    {r : SyncStatusRow} (h : r ∈ (setBlobStatusAsFailed now b p db).syncStatus.rows)
    (hr : r.syncStatus = .completed) : r ∈ db.syncStatus.rows := by
  obtain ⟨r', hr', rfl⟩ := List.mem_map.1 h
  by_cases hrow : (decide (r'.blobId = b.cell) && decide (r'.peerNodeId = p)) = true
  · rw [if_pos hrow] at hr
    cases hr
  · rw [if_neg hrow]
    exact hr'

/-- A call that stores nothing completes nothing. -/
theorem Fetches.completed_mem {contacts : List Contact} {db : Db} {run : FetchRun}
    (h : Fetches platform blobId expectedHash contacts db run) (hstored : run.stored = none)
    {r : SyncStatusRow} (hr : r ∈ run.db.syncStatus.rows) (hdone : r.syncStatus = .completed) :
    r ∈ db.syncStatus.rows := by
  induction h with
  | gaveUp db => exact hr
  | failed _ _ ih =>
      have hfailed := completed_mem_setBlobStatusAsFailed (ih hstored hr) hdone
      exact completed_mem_startBlobSyncWithPeer hfailed hdone
  | noMetadata _ _ ih => exact completed_mem_startBlobSyncWithPeer (ih hstored hr) hdone
  | refused rest _ _ => exact completed_mem_startBlobSyncWithPeer hr hdone
  | stored rest _ _ => cases hstored

/-- A call for a blob inserts no row that denotes another one, and makes a row `completed` only if
    a row denotes the blob afterwards. -/
structure TouchesOnly (blobId : Uuid) (db : Db) (run : FetchRun) : Prop where
  inserted : ∀ row ∈ run.db.blobs.rows, row ∉ db.blobs.rows → row.id.denotes = some blobId
  completed : ∀ r ∈ run.db.syncStatus.rows, r.syncStatus = .completed →
    r ∉ db.syncStatus.rows → ∃ row ∈ run.db.blobs.rows, row.id.denotes = some blobId

theorem Fetches.touchesOnly_iff {contacts : List Contact} {db : Db} {run : FetchRun}
    (h : Fetches platform blobId expectedHash contacts db run) :
    TouchesOnly blobId db run ↔
      ∀ row, firstRow platform expectedHash contacts = some row →
        db.blobs.lookup row.id = none → row.id.denotes = some blobId := by
  obtain ⟨hinserted, hsame⟩ := h.inserted_eq
  constructor
  · intro htouches row hfirst hfree
    have hnew : row ∉ db.blobs.rows := by
      intro hmem
      rw [Table.mem_rows_iff.1 hmem] at hfree
      cases hfree
    refine htouches.inserted row ?_ hnew
    obtain ⟨blobs, hinsert⟩ := Table.exists_insert hfree
    rw [hfirst, Option.bind_some, hinsert] at hinserted
    obtain ⟨_, -, rfl⟩ := Option.map_eq_some_iff.1 hinserted.symm
    rw [Table.rows_of_insert hinsert]
    exact List.mem_append_right _ (List.mem_singleton.2 rfl)
  · intro hdenotes
    cases hstored : run.stored with
    | none =>
        have hblobs := hsame hstored
        refine ⟨fun row hrow hnew => absurd (hblobs ▸ hrow) hnew, fun r hr hdone hnew => ?_⟩
        exact absurd (h.completed_mem hstored hr hdone) hnew
    | some p =>
        rw [hstored, Option.map_some, Option.bind_eq_some_iff] at hinserted
        obtain ⟨row, hfirst, hinsert⟩ := hinserted
        have hrow := hdenotes row hfirst (Table.lookup_eq_none_of_insert hinsert)
        refine ⟨fun row' hrow' hnew => ?_, fun r hr hdone hnew => ⟨row, ?_, hrow⟩⟩
        · rw [Table.rows_of_insert hinsert] at hrow'
          rcases List.mem_append.1 hrow' with hold | hlast
          · exact absurd hold hnew
          · exact List.mem_singleton.1 hlast ▸ hrow
        · rw [Table.rows_of_insert hinsert]
          exact List.mem_append_right _ (List.mem_singleton.2 rfl)

/-- A call for a blob that is there leaves the table of blobs alone. -/
theorem blobs_foldl_startBlobSyncWithPeer (blobId : Uuid) (contacts : List Contact) : ∀ db : Db,
    (contacts.foldl (fun db c => startBlobSyncWithPeer c.askedAt blobId c.peerId db) db).blobs
      = db.blobs := by
  induction contacts with
  | nil => exact fun db => rfl
  | cons c rest ih => exact fun db => ih _

/-- **When a call touches only its blob**: the blob is there already, no blob is verified, or the
    first one that is has an id that is taken or denotes the blob. -/
theorem fetch_touches_only_iff (platform : Platform) (blobId : Uuid) (expectedHash : String)
    (contacts : List Contact) (db : Db) :
    TouchesOnly blobId db (fetchAndStoreBlob platform blobId expectedHash contacts db) ↔
      (SyncManager.doesBlobExist blobId db = false →
        ∀ row, firstRow platform expectedHash contacts = some row →
          db.blobs.lookup row.id = none → row.id.denotes = some blobId) := by
  cases hexists : SyncManager.doesBlobExist blobId db with
  | false =>
      rw [fetchAndStoreBlob, if_neg (by rw [hexists]; decide),
        (fetches contacts db).touchesOnly_iff]
      exact ⟨fun h _ => h, fun h => h rfl⟩
  | true =>
      obtain ⟨row, hrow, hlive⟩ := List.any_eq_true.1 hexists
      have hid : row.id.denotes = some blobId := by
        rw [of_decide_eq_true (Bool.and_eq_true_iff.1 hlive).1, Uuid.denotes_cell]
      have hblobs := blobs_foldl_startBlobSyncWithPeer blobId contacts db
      rw [fetchAndStoreBlob, if_pos hexists]
      refine iff_of_true ⟨fun row' hrow' hnew => absurd (hblobs ▸ hrow') hnew,
        fun r _ _ _ => ⟨row, ?_, hid⟩⟩ (fun h => Bool.noConfusion h)
      exact hblobs.symm ▸ hrow

/-- Asked for the sample blob, a peer sends its content under another id. -/
theorem fetch_touches_only_false :
    ¬ TouchesOnly (Uuid.sample 2) Db.empty
      (fetchAndStoreBlob Platform.sample (Uuid.sample 2) Blob.sampleHash
        [.sample "peer" (.sample (some { Blob.sample.announcement Platform.sample with
          id := (Uuid.sample 3).toString }))] Db.empty) := by
  intro h
  have hrow : (fetchAndStoreBlob Platform.sample (Uuid.sample 2) Blob.sampleHash
      [.sample "peer" (.sample (some { Blob.sample.announcement Platform.sample with
        id := (Uuid.sample 3).toString }))] Db.empty).db.blobs.rows.any
        (fun row => row.id.denotes ≠ some (Uuid.sample 2)) = true := by decide +kernel
  obtain ⟨row, hmem, hother⟩ := List.any_eq_true.1 hrow
  exact of_decide_eq_true hother (h.inserted row hmem List.not_mem_nil)

end DaConcept.Node
