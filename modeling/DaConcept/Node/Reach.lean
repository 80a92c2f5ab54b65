import DaConcept.Node.Progress

set_option autoImplicit false

/-! # Reachable databases

Which rows can a database hold that the migrations created and a node has run on? A blob that a
user of the node added is stored under the bytes of its UUID, a blob fetched from a peer under the
text of its id, and a `sync_status` row always names its blob by the bytes (`Db.Shaped`). Two
consequences are drawn here: the handlers that look a blob up by its text and those that look it up
by its bytes meet different rows (`lookups_agree_iff`), and the blobs that the sync loop selects
are never a peer's, so no peer can make it fail to decode them, and every round of it ends
(`loop_never_stops`). -/

namespace DaConcept.Node

/-! ## Reachable nodes -/

/-- What a node can come to from empty tables, over any number of restarts, by steps that meet `C`.
    A restart keeps the database and nothing else. -/
inductive DaNode.Reached (platform : Platform) (C : DaNode → Event → Prop) : DaNode → Prop
  | start (config : P2PConfig) (peers : Peers) (db : Db) (hblobs : db.blobs = .empty)
      (hstatus : db.syncStatus = .empty) : Reached platform C (.start config peers db)
  | restart {n : DaNode} (config : P2PConfig) (peers : Peers) (hn : Reached platform C n) :
      Reached platform C (.start config peers n.shared.db)
  | step {n n' : DaNode} {e : Event} (hn : Reached platform C n) (hC : C n e)
      (h : n.step platform e = some n') : Reached platform C n'

section

variable {platform : Platform} {C : DaNode → Event → Prop} {n : DaNode}

/-- A property of empty tables that every write keeps holds of every reachable database. -/
theorem DaNode.Reached.db_invariant {I : Db → Prop}
    (hempty : ∀ db : Db, db.blobs = .empty → db.syncStatus = .empty → I db)
    (hwrite : ∀ (n : DaNode) (e : Event), I n.shared.db → C n e →
      I ((n.write platform e).onDb n.shared.db))
    (hn : n.Reached platform C) : I n.shared.db := by
  induction hn with
  | start config peers db hblobs hstatus => exact hempty db hblobs hstatus
  | restart config peers hn ih => exact ih
  | @step n n' e hn hC h ih =>
      rw [DaNode.step_shared h]
      exact hwrite n e ih hC

/-- A run from a reachable node leads to one. -/
theorem DaNode.Reached.exec {n' : DaNode} {es : List Event} (hn : n.Reached platform C)
    (hC : Run.Meets (DaNode.step platform) C n es)
    (h : Run.exec (DaNode.step platform) n es = some n') : n'.Reached platform C := by
  refine Run.exec_invariant_of (C := C) (fun n e n' hn hC h => ?_) hn hC h
  exact .step hn hC h

end

/-! ## The keys of the rows -/

/-- A row as `store_received_blob` inserts it: id and owner are texts. -/
def BlobRow.Received (row : BlobRow) : Prop :=
  (∃ id, row.id = .text id) ∧ ∃ ownerId, row.ownerId = .text ownerId

/-- A row as `add_blob` inserts it: id and owner are the bytes of UUIDs. -/
def BlobRow.Added (row : BlobRow) : Prop :=
  (∃ id : Uuid, row.id = id.cell) ∧ ∃ ownerId : Uuid, row.ownerId = ownerId.cell

/-- There is a row of `sync_status` for a blob and a peer. -/
def Db.tracked (db : Db) (blobId : Cell) (peerId : String) : Bool :=
  (db.syncStatus.lookup (blobId, peerId)).isSome

/-- Every blob is a peer's or a user's, and blobs are tracked by the bytes of their UUIDs. -/
structure Db.Shaped (db : Db) : Prop where
  blobs : ∀ row ∈ db.blobs.rows, row.Received ∨ row.Added
  syncStatus : ∀ r ∈ db.syncStatus.rows, ∃ u : Uuid, r.blobId = u.cell

section

variable {platform : Platform}

theorem tracked_iff {db : Db} {blobId : Cell} {peerId : String} :
    db.tracked blobId peerId = true ↔
      ∃ r ∈ db.syncStatus.rows, r.blobId = blobId ∧ r.peerNodeId = peerId := by
  rw [Db.tracked, Option.isSome_iff_exists]
  constructor
  · rintro ⟨r, hr⟩
    obtain ⟨hmem, hkey⟩ := Table.lookup_eq_some_iff.1 hr
    exact ⟨r, hmem, (Prod.mk.inj hkey).1, (Prod.mk.inj hkey).2⟩
  · rintro ⟨r, hmem, rfl, rfl⟩
    exact ⟨r, Table.lookup_eq_some_iff.2 ⟨hmem, rfl⟩⟩

/-- Only `start_blob_sync_with_peer` adds a row to `sync_status`. -/
theorem Write.tracked_onDb (w : Write) (db : Db) (blobId : Cell) (peerId : String) :
    (w.onDb db).tracked blobId peerId = true ↔
      db.tracked blobId peerId = true ∨
        ∃ now u, w = .startSync now u peerId ∧ blobId = u.cell := by
  cases w with
  | startSync now u p =>
      have hsome := congrArg Option.isSome
        (lookup_startBlobSyncWithPeer now u p db (blobId, peerId))
      refine (Bool.eq_iff_iff.1 hsome).trans ?_
      by_cases hkey : (blobId, peerId) = (u.cell, p)
      · obtain ⟨rfl, rfl⟩ := Prod.mk.inj hkey
        simp
      · have hother : ¬ ∃ now' v, Write.startSync now u p = .startSync now' v peerId ∧
            blobId = v.cell := by
          rintro ⟨now', v, hsame, rfl⟩
          cases hsame
          exact hkey rfl
        simp only [hkey, if_false, Db.tracked, hother, or_false]
  | setStatus u p status attempt success =>
      have hsome := congrArg Option.isSome
        (lookup_setStatus db u p status attempt success (blobId, peerId))
      refine (Bool.eq_iff_iff.1 hsome).trans ?_
      rw [Option.isSome_map]
      simp [Db.tracked]
  | insertPending u =>
      rw [Write.onDb_insertPending]
      simp
  | _ => simp [Write.onDb, Db.tracked, Db.setDeletedAt]

theorem shape_of_write_eq_insertBlob {n : DaNode} {e : Event} {row : BlobRow}
    (h : n.write platform e = .insertBlob row) : row.Received ∨ row.Added := by
  rcases DaNode.write_eq_insertBlob.1 h with
    ⟨i, inp, t, peerId, metadata, protoBlob, now, -, -, -, rfl⟩ |
    ⟨i, inp, currentUser, blobInput, -, -, hrow⟩
  · exact Or.inl ⟨⟨_, rfl⟩, ⟨_, rfl⟩⟩
  · obtain ⟨user, content, relatedPubkey, -, rfl⟩ := addBlobRow_eq_some hrow
    exact Or.inr ⟨⟨_, rfl⟩, ⟨_, rfl⟩⟩

theorem shaped_empty {db : Db} (hblobs : db.blobs = .empty) (hstatus : db.syncStatus = .empty) :
    db.Shaped where
  blobs := by simp [hblobs]
  syncStatus := by simp [hstatus]

theorem shaped_write {n : DaNode} {e : Event} (h : n.shared.db.Shaped) :
    ((n.write platform e).onDb n.shared.db).Shaped where
  blobs := by
    intro row hrow
    rcases Write.mem_blobs_onDb hrow with hold | ⟨hwrite, -⟩ | ⟨now, old, -, hold, rfl⟩
    · exact h.blobs row hold
    · exact shape_of_write_eq_insertBlob hwrite
    · exact h.blobs old hold
  syncStatus := by
    intro r hr
    have htracked := (Write.tracked_onDb _ _ _ _).1 (tracked_iff.2 ⟨r, hr, rfl, rfl⟩)
    rcases htracked with hold | ⟨now, u, -, hid⟩
    · obtain ⟨r', hr', hid, -⟩ := tracked_iff.1 hold
      rw [← hid]
      exact h.syncStatus r' hr'
    · exact ⟨u, hid⟩

/-- **Every reachable database is shaped.** -/
theorem DaNode.Reached.shaped {C : DaNode → Event → Prop} {n : DaNode}
    (hn : n.Reached platform C) : n.shared.db.Shaped :=
  hn.db_invariant (fun _ => shaped_empty) (fun _ _ h _ => shaped_write h)

end

/-! ## Looking a blob up -/

section

variable {platform : Platform} {C : DaNode → Event → Prop} {n : DaNode}

/-- The lookups of the blob with UUID `u`, which a request names by the text `s`, agree: the one of
    `handle_announce` and `handle_delete`, the one of a fetch task, and the one of `handle_fetch`;
    and `handle_sync_status` reports the rows recorded for the blob, in the order of the scan. -/
structure LookupsAgree (platform : Platform) (db : Db) (s : String) (u : Uuid) : Prop where
  exists_eq : SyncServiceImpl.doesBlobExist s db = SyncManager.doesBlobExist u db
  fetch_iff : (∃ blob, fetchBlobById u db = .ok (some blob)) ↔ SyncManager.doesBlobExist u db
  status_eq : ∀ scan, scan.Perm db.syncStatus.rows →
    (handleSyncStatus platform s scan).responseData = some (.statusResp
      ((scan.filter (fun r => r.blobId.denotes = some u)).map (·.peerSyncStatus platform s)))

theorem blobExists_iff {db : Db} {id : Cell} :
    db.blobExists id = true ↔ ∃ row ∈ db.blobs.rows, row.live ∧ row.id = id := by
  simp [Db.blobExists, and_comm]

/-- A blob that a user added decodes if its size fits an `i32`. -/
theorem BlobRow.Added.decode_isSome_iff {row : BlobRow} (h : row.Added) :
    row.decode.isSome ↔ (decodeI32 row.size).isSome := by
  obtain ⟨⟨id, hid⟩, ⟨ownerId, howner⟩⟩ := h
  rcases hsize : decodeI32 row.size with _ | size
  · simp [BlobRow.decode, hid, hsize]
  · simp [BlobRow.decode, hid, hsize, howner]

/-- A row whose id is the bytes of a UUID is a user's. -/
theorem Db.Shaped.added {db : Db} (h : db.Shaped) {row : BlobRow} (hrow : row ∈ db.blobs.rows)
    {u : Uuid} (hid : row.id = u.cell) : row.Added := by
  rcases h.blobs row hrow with hreceived | hadded
  · obtain ⟨id, htext⟩ := hreceived.1
    rw [hid] at htext
    exact absurd htext (u.cell_ne_text id)
  · exact hadded

theorem fetchBlobById_iff {db : Db} (h : db.Shaped) (u : Uuid) :
    (∃ blob, fetchBlobById u db = .ok (some blob)) ↔
      ∃ row ∈ db.blobs.rows, row.live ∧ row.id = u.cell ∧ (decodeI32 row.size).isSome := by
  have hselect (blob : Blob) : fetchBlobById u db = .ok (some blob) ↔
      db.selectBlob u = .ok (some blob) := by
    rw [fetchBlobById]
    cases db.selectBlob u <;> simp [Except.mapError]
  simp only [hselect, selectBlob_eq_some_iff]
  constructor
  · rintro ⟨blob, row, hrow, hlive, hid, hdecode⟩
    refine ⟨row, hrow, hlive, hid, (h.added hrow hid).decode_isSome_iff.1 ?_⟩
    rw [hdecode]
    rfl
  · rintro ⟨row, hrow, hlive, hid, hsize⟩
    obtain ⟨blob, hdecode⟩ :=
      Option.isSome_iff_exists.1 ((h.added hrow hid).decode_isSome_iff.2 hsize)
    exact ⟨blob, row, hrow, hlive, hid, hdecode⟩

/-- No row of a shaped database is found under a text. -/
theorem Db.Shaped.filter_text {db : Db} (h : db.Shaped) {scan : List SyncStatusRow}
    (hscan : scan.Perm db.syncStatus.rows) (s : String) :
    scan.filter (fun r => r.blobId = .text s) = [] := by
  rw [List.filter_eq_nil_iff]
  intro r hr
  obtain ⟨u, hid⟩ := h.syncStatus r (hscan.mem_iff.1 hr)
  simp [hid]

theorem Db.Shaped.denotes_iff {db : Db} (h : db.Shaped) {r : SyncStatusRow}
    (hr : r ∈ db.syncStatus.rows) (u : Uuid) : r.blobId.denotes = some u ↔ r.blobId = u.cell := by
  obtain ⟨v, hid⟩ := h.syncStatus r hr
  rw [hid, Uuid.denotes_cell, Option.some.injEq, Uuid.cell_inj]

/-- What `handle_sync_status` reports is all that is recorded for a blob only if nothing is. -/
theorem status_eq_iff (platform : Platform) {db : Db} (h : db.Shaped) (s : String) (u : Uuid) :
    (∀ scan, scan.Perm db.syncStatus.rows →
      (handleSyncStatus platform s scan).responseData = some (.statusResp
        ((scan.filter (fun r => r.blobId.denotes = some u)).map (·.peerSyncStatus platform s)))) ↔
      ∀ r ∈ db.syncStatus.rows, r.blobId ≠ u.cell := by
  constructor
  · intro hall r hr hid
    have hreport := hall db.syncStatus.rows (List.Perm.refl _)
    simp only [handleSyncStatus, h.filter_text (List.Perm.refl _), List.map_nil, Option.some.injEq,
      ResponseData.statusResp.injEq] at hreport
    have hnone := List.filter_eq_nil_iff.1 (List.map_eq_nil_iff.1 hreport.symm) r hr
    exact hnone (by simpa using (h.denotes_iff hr u).2 hid)
  · intro hnone scan hscan
    have hempty : scan.filter (fun r => r.blobId.denotes = some u) = [] := by
      rw [List.filter_eq_nil_iff]
      intro r hr hdenotes
      have hmem := hscan.mem_iff.1 hr
      exact hnone r hmem ((h.denotes_iff hmem u).1 (of_decide_eq_true hdenotes))
    simp only [handleSyncStatus, h.filter_text hscan, hempty]

/-- A blob is held under neither of its keys, or under both. -/
theorem neither_or_both_iff {a b f : Prop} (hf : f → b) :
    ((a ↔ b) ∧ (f ↔ b)) ↔ (¬ a ∧ ¬ b) ∨ (a ∧ f) := by
  tauto

theorem not_exists_row_iff {db : Db} {s : String} {u : Uuid} :
    (∀ row ∈ db.blobs.rows, row.live → row.id ≠ .text s ∧ row.id ≠ u.cell) ↔
      (¬ ∃ row ∈ db.blobs.rows, row.live ∧ row.id = .text s) ∧
        ¬ ∃ row ∈ db.blobs.rows, row.live ∧ row.id = u.cell := by
  constructor
  · intro h
    refine ⟨?_, ?_⟩
    · rintro ⟨row, hrow, hlive, hid⟩
      exact (h row hrow hlive).1 hid
    · rintro ⟨row, hrow, hlive, hid⟩
      exact (h row hrow hlive).2 hid
  · rintro ⟨htext, hbytes⟩ row hrow hlive
    exact ⟨fun hid => htext ⟨row, hrow, hlive, hid⟩, fun hid => hbytes ⟨row, hrow, hlive, hid⟩⟩

/-- **When the lookups of a blob agree.** In a reachable database they do exactly if no peer is
    tracked for the blob and it is held under neither key, or under both: by a row that a peer
    spelled `s` and by one that a user added with a size that fits an `i32`. -/
theorem lookups_agree_iff (hn : n.Reached platform C) (s : String) (u : Uuid) :
    LookupsAgree platform n.shared.db s u ↔
      (∀ r ∈ n.shared.db.syncStatus.rows, r.blobId ≠ u.cell) ∧
      ((∀ row ∈ n.shared.db.blobs.rows, row.live → row.id ≠ .text s ∧ row.id ≠ u.cell) ∨
        (∃ row ∈ n.shared.db.blobs.rows, row.live ∧ row.id = .text s) ∧
        ∃ row ∈ n.shared.db.blobs.rows, row.live ∧ row.id = u.cell ∧
          (decodeI32 row.size).isSome) := by
  have hshaped := hn.shaped
  have hbytes : SyncManager.doesBlobExist u n.shared.db ↔
      ∃ row ∈ n.shared.db.blobs.rows, row.live ∧ row.id = u.cell := blobExists_iff
  have htext : SyncServiceImpl.doesBlobExist s n.shared.db ↔
      ∃ row ∈ n.shared.db.blobs.rows, row.live ∧ row.id = .text s := blobExists_iff
  -- a row found by its bytes whose size fits is a row found by its bytes
  have hfits : (∃ row ∈ n.shared.db.blobs.rows, row.live ∧ row.id = u.cell ∧
      (decodeI32 row.size).isSome) →
      ∃ row ∈ n.shared.db.blobs.rows, row.live ∧ row.id = u.cell := by
    rintro ⟨row, hrow, hlive, hid, -⟩
    exact ⟨row, hrow, hlive, hid⟩
  rw [not_exists_row_iff, ← neither_or_both_iff hfits, ← fetchBlobById_iff hshaped, ← htext,
    ← hbytes, ← status_eq_iff platform hshaped s u, ← Bool.eq_iff_iff]
  constructor
  · intro h
    exact ⟨h.status_eq, h.exists_eq, h.fetch_iff⟩
  · rintro ⟨hstatus, hexists, hfetch⟩
    exact ⟨hexists, hfetch, hstatus⟩

end

/-- A peer announces another blob and then sends the sample blob, which is stored under the id in
    its metadata, and a user draws this id for a blob that is added. -/
def Event.sampleBoth : List Event :=
  [.request (some (.handshake "peer" "http://peer")), .handler 0 HandlerInput.sample,
   .request (some (.announce (some
     { Blob.sample.announcement Platform.sample with id := (Uuid.sample 3).toString }))),
   .handler 1 HandlerInput.sample, .handler 1 HandlerInput.sample, .loop LoopInput.sample] ++
  List.replicate 7 (.task 0 (FetchInput.sample (.ok SyncResponse.sample))) ++
  [.addBlob (some User.sample) ⟨"", none, none⟩, .mutation 0 MutationInput.sample,
   .mutation 0 MutationInput.sample]

/-- The sample blob is found by its text and by its bytes, and tracked for nobody; the other blob is
    tracked, and found by neither. -/
theorem lookups_agree_sample :
    ∃ n : DaNode, n.Reached Platform.sample (fun _ _ => True) ∧
      n.shared.db.blobs.rows = [BlobRow.sampleCopy, BlobRow.sample] ∧
      n.shared.db.tracked (Uuid.sample 3).cell "peer" = true ∧
      LookupsAgree Platform.sample n.shared.db (Uuid.sample 2).toString (Uuid.sample 2) ∧
      SyncServiceImpl.doesBlobExist (Uuid.sample 2).toString n.shared.db = true := by
  have hrun : (Run.exec (DaNode.step Platform.sample) DaNode.sample Event.sampleBoth).any (fun n =>
      n.shared.db.blobs.rows = [BlobRow.sampleCopy, BlobRow.sample] ∧
      n.shared.db.tracked (Uuid.sample 3).cell "peer" = true ∧
      (∀ r ∈ n.shared.db.syncStatus.rows, r.blobId ≠ (Uuid.sample 2).cell) ∧
      SyncServiceImpl.doesBlobExist (Uuid.sample 2).toString n.shared.db = true) = true := by
    decide +kernel
  obtain ⟨n, hn, hcond⟩ := (Option.any_eq_true _ _).1 hrun
  obtain ⟨hrows, htracked, hstatus, hexists⟩ : _ ∧ _ ∧ _ ∧ _ := of_decide_eq_true hcond
  have hreached : n.Reached Platform.sample (fun _ _ => True) :=
    .exec (.start _ _ _ rfl rfl) (Run.meets_of_forall (fun _ _ _ => trivial) _) hn
  refine ⟨n, hreached, hrows, htracked, (lookups_agree_iff hreached _ _).2 ⟨hstatus, Or.inr ?_⟩,
    hexists⟩
  rw [hrows]
  exact ⟨⟨BlobRow.sampleCopy, by simp, rfl, rfl⟩, BlobRow.sample, by simp, rfl, rfl, by decide⟩

/-- A blob that a user has added is found by its bytes and not by its text. -/
theorem lookups_disagree :
    ∃ n : DaNode, n.Reached Platform.sample (fun _ _ => True) ∧
      Uuid.parse (Uuid.sample 2).toString = some (Uuid.sample 2) ∧
      ¬ LookupsAgree Platform.sample n.shared.db (Uuid.sample 2).toString (Uuid.sample 2) := by
  have hrun : (Run.exec (DaNode.step Platform.sample) DaNode.sample Event.sampleQueue).any
      (fun n => SyncManager.doesBlobExist (Uuid.sample 2) n.shared.db ∧
        ¬ SyncServiceImpl.doesBlobExist (Uuid.sample 2).toString n.shared.db) = true := by
    decide +kernel
  obtain ⟨n, hn, hany⟩ := (Option.any_eq_true _ _).1 hrun
  obtain ⟨hbytes, htext⟩ : _ ∧ _ := by simpa using hany
  refine ⟨n, ?_, Uuid.parse_toString _, ?_⟩
  · exact DaNode.Reached.exec (.start _ _ _ rfl rfl)
      (Run.meets_of_forall (fun _ _ _ => trivial) _) hn
  · intro h
    have hsame := h.exists_eq
    rw [hbytes, htext] at hsame
    cases hsame

/-! ## The sync loop -/

section

variable {platform : Platform} {C : DaNode → Event → Prop} {n : DaNode}

/-- The row that an `add_blob` comes to insert has a size that fits an `i32`. -/
def Mutation.AddsSmall (platform : Platform) (inp : MutationInput) : Mutation → Prop
  | .addBlob currentUser blobInput =>
      ∀ row ∈ addBlobRow platform inp currentUser blobInput, (decodeI32 row.size).isSome
  | _ => True

/-- Every blob that comes to be added has a size that fits an `i32`. -/
def DaNode.AddsSmall (platform : Platform) (n : DaNode) : Event → Prop
  | .mutation i inp => ∀ m ∈ n.mutations[i]?, m.AddsSmall platform inp
  | _ => True

instance (platform : Platform) (inp : MutationInput) :
    ∀ m : Mutation, Decidable (m.AddsSmall platform inp)
  | .addBlob currentUser blobInput => inferInstanceAs (Decidable
      (∀ row ∈ addBlobRow platform inp currentUser blobInput, (decodeI32 row.size).isSome))
  | .addBlobSync .. | .deleteBlob .. | .deleteBlobUpdate .. | .deleteBlobSync ..
  | .deleteBlobPending .. | .returned .. => inferInstanceAs (Decidable True)

instance (platform : Platform) (n : DaNode) : ∀ e : Event, Decidable (n.AddsSmall platform e)
  | .mutation i inp =>
      inferInstanceAs (Decidable (∀ m ∈ n.mutations[i]?, m.AddsSmall platform inp))
  | .request .. | .addBlob .. | .deleteBlob .. | .handler .. | .task .. | .failTask ..
  | .loop .. => inferInstanceAs (Decidable True)

/-- Every blob that a user added decodes. -/
def Db.AddedDecode (db : Db) : Prop :=
  ∀ row ∈ db.blobs.rows, row.Added → (decodeI32 row.size).isSome

theorem addedDecode_write {e : Event} (h : n.shared.db.AddedDecode)
    (hsmall : n.AddsSmall platform e) : ((n.write platform e).onDb n.shared.db).AddedDecode := by
  intro row hrow hadded
  rcases Write.mem_blobs_onDb hrow with hold | ⟨hwrite, -⟩ | ⟨now, old, -, hold, rfl⟩
  · exact h row hold hadded
  · rcases DaNode.write_eq_insertBlob.1 hwrite with
      ⟨i, inp, t, peerId, metadata, protoBlob, now, -, -, -, rfl⟩ |
      ⟨i, inp, currentUser, blobInput, rfl, hi, hrow⟩
    · obtain ⟨id, hid⟩ := hadded.1
      exact absurd hid (id.text_ne_cell _)
    · exact hsmall _ hi row hrow
  · exact h old hold hadded

/-- A blob that is due at a peer is a user's, and decodes. -/
theorem decode_of_shared {db : Db} (hshaped : db.Shaped) (hdecode : db.AddedDecode) {row : BlobRow}
    (hrow : row ∈ db.blobs.rows) (hshared : db.shared row = true) : row.decode.isSome := by
  simp only [Db.shared, Bool.and_eq_true, List.any_eq_true, decide_eq_true_eq] at hshared
  obtain ⟨-, r, hr, hid, -⟩ := hshared
  obtain ⟨u, hu⟩ := hshaped.syncStatus r hr
  have hadded := hshaped.added hrow (hid.symm.trans hu)
  exact hadded.decode_isSome_iff.2 (hdecode row hrow hadded)

/-- What `get_blobs_to_share` selects decodes. -/
theorem getBlobsToShare_ok {db : Db} (hshaped : db.Shaped) (hdecode : db.AddedDecode)
    {scan : List BlobRow} (hscan : scan.Perm db.blobs.rows) :
    ∃ blobs, getBlobsToShare db scan = .ok blobs := by
  have hall : ∀ row ∈ (scan.filter db.shared).take 100, row.decode.isSome := by
    intro row hrow
    obtain ⟨hmem, hshared⟩ := List.mem_filter.1 (List.mem_of_mem_take hrow)
    exact decode_of_shared hshaped hdecode (hscan.mem_iff.1 hmem) hshared
  obtain ⟨blobs, hblobs⟩ := mapM_eq_some_of_forall hall
  exact ⟨blobs, by rw [getBlobsToShare, hblobs]⟩

/-- Every blob in a reachable database that a user added decodes. -/
theorem DaNode.Reached.addedDecode (hn : n.Reached platform (DaNode.AddsSmall platform)) :
    n.shared.db.AddedDecode :=
  hn.db_invariant (fun db hblobs _ => by simp [Db.AddedDecode, hblobs])
    (fun _ _ h hsmall => addedDecode_write h hsmall)

/-- The sync loop stops at nothing but a blob that does not decode. -/
theorem SyncLoop.step_to_stopped {s s' : Shared} {tasks tasks' : List FetchTask}
    {inp : LoopInput} {l : SyncLoop} {err : DANodeError}
    (h : l.step s tasks inp = some (s', tasks', .stopped err)) :
    inp.blobScan.Perm s.db.blobs.rows ∧ ∀ blobs, getBlobsToShare s.db inp.blobScan ≠ .ok blobs := by
  cases SyncLoop.next_of_step h with
  | stopped hscan hblobs =>
      refine ⟨hscan, fun blobs hok => ?_⟩
      rw [hblobs] at hok
      cases hok

/-- **Peers cannot stop the sync loop.** As long as every blob that is added here has a size that
    fits an `i32`, the loop does not return, `get_blobs_to_share` returns `Ok` in whatever order the
    database yields the rows, and a round ends: while no request arrives and no user calls a
    mutation, at most `DaNode.work` steps are left, whatever the peers reply and whatever fails, and
    when none is possible any more, the loop is ready for its next round. -/
theorem loop_never_stops (hn : n.Reached platform (DaNode.AddsSmall platform)) :
    (∀ err, n.loop ≠ .stopped err) ∧
    (∀ scan, scan.Perm n.shared.db.blobs.rows →
      ∃ blobs, getBlobsToShare n.shared.db scan = .ok blobs) ∧
    ∀ es n', Run.exec (DaNode.step platform) n es = some n' →
      Run.Meets (DaNode.step platform) (fun n e => n.GoesOn e ∧ n.AddsSmall platform e) n es →
      es.length ≤ n.work ∧
        ((∀ e : Event, n'.GoesOn e → n'.step platform e = none) → n'.loop = .process) := by
  have hselect {n : DaNode} (hn : n.Reached platform (DaNode.AddsSmall platform))
      {scan : List BlobRow} (hscan : scan.Perm n.shared.db.blobs.rows) :
      ∃ blobs, getBlobsToShare n.shared.db scan = .ok blobs :=
    getBlobsToShare_ok hn.shaped hn.addedDecode hscan
  have hloop {n : DaNode} (hn : n.Reached platform (DaNode.AddsSmall platform)) :
      ∀ err, n.loop ≠ .stopped err := by
    induction hn with
    | start config peers db hblobs hstatus => simp [DaNode.start]
    | restart config peers hn ih => simp [DaNode.start]
    | @step n n' e hn hC h ih =>
        intro err hstopped
        rcases DaNode.loop_step h with hsame | ⟨inp, rfl, shared, tasks, hstep⟩
        · exact ih err (hsame.symm.trans hstopped)
        · rw [hstopped] at hstep
          obtain ⟨hscan, hfail⟩ := SyncLoop.step_to_stopped hstep
          obtain ⟨blobs, hblobs⟩ := hselect hn hscan
          exact hfail blobs hblobs
  refine ⟨hloop hn, fun scan hscan => hselect hn hscan, fun es n' h hes => ⟨?_, fun hstuck => ?_⟩⟩
  · exact DaNode.length_le_work (hes.mono fun _ _ he => he.1) h
  · have hn' := hn.exec (hes.mono fun _ _ he => he.2) h
    exact (DaNode.atRest_of_stuck hstuck).loop_eq (hloop hn')

end

/-- The sync loop ends its round on a node that has stored what its peer sent. -/
def Event.sampleRound : List Event :=
  List.replicate 4 (.loop { LoopInput.sample with blobScan := [BlobRow.sampleCopy] })

theorem loop_never_stops_sample :
    ∃ n n' : DaNode,
      Run.exec (DaNode.step Platform.sample) DaNode.sample Event.sampleStore = some n ∧
      n.shared.db.blobs.rows = [BlobRow.sampleCopy] ∧ (∀ err, n.loop ≠ .stopped err) ∧
      Run.exec (DaNode.step Platform.sample) n Event.sampleRound = some n' ∧
      Event.sampleRound.length ≤ n.work ∧ n'.loop.processing = true := by
  have hsmall : Run.Meets (DaNode.step Platform.sample) (DaNode.AddsSmall Platform.sample)
      DaNode.sample Event.sampleStore := by decide +kernel
  have hrun : (Run.exec (DaNode.step Platform.sample) DaNode.sample Event.sampleStore).any (fun n =>
      n.shared.db.blobs.rows = [BlobRow.sampleCopy] ∧
      Run.Meets (DaNode.step Platform.sample)
        (fun n e => n.GoesOn e ∧ n.AddsSmall Platform.sample e) n Event.sampleRound ∧
      (Run.exec (DaNode.step Platform.sample) n Event.sampleRound).any (·.loop.processing) = true)
        = true := by decide +kernel
  obtain ⟨n, hn, hcond⟩ := (Option.any_eq_true _ _).1 hrun
  obtain ⟨hrows, hround, hloop⟩ : _ ∧ _ ∧ _ := of_decide_eq_true hcond
  obtain ⟨n', hn', hprocessing⟩ := (Option.any_eq_true _ _).1 hloop
  obtain ⟨hstops, -, hends⟩ := loop_never_stops (.exec (.start _ _ _ rfl rfl) hsmall hn)
  exact ⟨n, n', hn, hrows, hstops, hn', (hends _ n' hn' hround).1, hprocessing⟩

end DaConcept.Node
