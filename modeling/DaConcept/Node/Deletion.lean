import DaConcept.Node.Write

set_option autoImplicit false

/-! # Deleting a blob

`delete_blob` sets `deleted_at`, queues the blob and then inserts a pending row for every peer that
has completed it. The INSERT meets the very rows it selects from, so it fails as soon as there is
one, and the first two changes stay.

A deleted row keeps its id. A received blob is inserted under the text of its id, which is another
key than the bytes under which a blob of this node's users is stored, and every existence check
looks at live rows only: whether a deletion lasts depends on the ids of later INSERTs. -/

namespace DaConcept.Node

/-! ## All or nothing -/

section

variable {platform : Platform} {s : Shared} {row : BlobRow} {u : User} {blobId : Uuid}

/-- The SELECT finds the live row of the blob. -/
theorem selectBlob_of_mem {db : Db} (hrow : row ∈ db.blobs.rows) (hid : row.id = blobId.cell)
    (hlive : row.live) :
    db.selectBlob blobId = match row.decode with
      | some blob => .ok (some blob)
      | none => .error .columnDecode := by
  have hlookup : db.blobs.lookup blobId.cell = some row :=
    Table.lookup_eq_some_iff.2 ⟨hrow, hid⟩
  have hselect := Db.selectBlob_eq db blobId
  rw [hlookup, Option.filter_some, if_pos hlive] at hselect
  exact hselect

/-- What `delete_blob` comes to when nothing else runs: for the owner of a live blob it fails at the
    SELECT if the row does not decode, at the INSERT if a peer has completed the blob, and not at
    all otherwise. -/
theorem run_deleteBlob (inp : MutationInput) (hrow : row ∈ s.db.blobs.rows)
    (hid : row.id = blobId.cell) (hlive : row.live) (howner : row.ownerId.decodeUuid = some u.id) :
    Mutation.run platform inp 4 s (.deleteBlob (some u) blobId) = match row.decode with
      | none => (s, .returned (.err (.database .columnDecode)))
      | some blob =>
          let s' := syncBlob blob { s with db := s.db.setDeletedAt blobId.cell inp.now }
          if s.db.completedPeers blobId = [] then (s', .returned (.ok (.deleteBlob true)))
          else (s', .returned (.err (.database .uniqueViolation))) := by
  have hselect := selectBlob_of_mem hrow hid hlive
  rcases hdecode : row.decode with _ | blob
  · rw [hdecode] at hselect
    simp only [Mutation.run, Mutation.step, deleteBlob, hselect]
  · rw [hdecode] at hselect
    have hsame : blob.ownerId = u.id := by
      have hown := (BlobRow.decode_eq_some hdecode).2.2.1
      rw [howner] at hown
      exact (Option.some.inj hown).symm
    have hpeers : (s.db.setDeletedAt blobId.cell inp.now).completedPeers blobId
        = s.db.completedPeers blobId := rfl
    simp only [Mutation.run, Mutation.step, deleteBlob, hselect, hsame, ne_eq, not_true_eq_false,
      if_false, syncBlob, insertPendingOfCompleted_eq, hpeers]
    by_cases hnone : s.db.completedPeers blobId = []
    · simp only [hnone, if_true]
    · simp only [hnone, if_false]

/-- Either `delete_blob` returned `true` and the blob is deleted, or it returned an error and the
    tables of blobs and of statuses, the queue and the ids in progress are what they were. -/
def AllOrNothing (blobId : Uuid) (s s' : Shared) (m : Mutation) : Prop :=
  (m = .returned (.ok (.deleteBlob true)) ∧
    ∀ row ∈ s'.db.blobs.rows, row.id = blobId.cell → row.deletedAt.isSome) ∨
  ((∃ e, m = .returned (.err e)) ∧
    s'.db.blobs = s.db.blobs ∧ s'.db.syncStatus = s.db.syncStatus ∧
    s'.manager.blobQueue = s.manager.blobQueue ∧ s'.manager.inProgress = s.manager.inProgress)

theorem deletedAt_of_mem_setDeletedAt {db : Db} {id : Cell} {now : Timestamp} {row : BlobRow}
    (h : row ∈ (db.setDeletedAt id now).blobs.rows) (hid : row.id = id) :
    row.deletedAt = some now := by
  simp only [Db.setDeletedAt, Table.rows_update, List.mem_map] at h
  obtain ⟨old, -, hold⟩ := h
  split at hold
  · rw [← hold]
  · next hne =>
      rw [hold] at hne
      simp [hid] at hne

/-- **A deletion by the owner of a live blob is all or nothing exactly if the row does not decode,
    so that nothing happens, or no peer has completed the blob.** -/
theorem deleteBlob_allOrNothing_iff (platform : Platform) (inp : MutationInput) (s : Shared)
    (row : BlobRow) (u : User) (blobId : Uuid) (hrow : row ∈ s.db.blobs.rows)
    (hid : row.id = blobId.cell) (hlive : row.live)
    (howner : row.ownerId.decodeUuid = some u.id) :
    AllOrNothing blobId s (Mutation.run platform inp 4 s (.deleteBlob (some u) blobId)).1
        (Mutation.run platform inp 4 s (.deleteBlob (some u) blobId)).2 ↔
      row.decode = none ∨ s.db.completedPeers blobId = [] := by
  rw [run_deleteBlob inp hrow hid hlive howner]
  rcases hdecode : row.decode with _ | blob
  · simp only [true_or, iff_true]
    exact Or.inr ⟨⟨_, rfl⟩, rfl, rfl, rfl, rfl⟩
  · by_cases hnone : s.db.completedPeers blobId = []
    · simp only [hnone, if_true, or_true, iff_true]
      refine Or.inl ⟨rfl, fun row' hrow' hid' => ?_⟩
      rw [deletedAt_of_mem_setDeletedAt hrow' hid']
      rfl
    · simp only [hnone, if_false, reduceCtorEq, or_self, iff_false]
      rintro (⟨hok, -⟩ | ⟨-, hblobs, -⟩)
      · cases hok
      · -- the row is deleted in the new table and live in the old one
        have hrow' : row ∈ (s.db.setDeletedAt blobId.cell inp.now).blobs.rows :=
          (congrArg (row ∈ ·.rows) hblobs).mpr hrow
        have hdel := deletedAt_of_mem_setDeletedAt hrow' hid
        rw [BlobRow.live, hdel] at hlive
        cases hlive

end

/-- The shared state of the sample node with the sample blob, which is pending at one peer and has
    failed at another. -/
def Shared.sample : Shared :=
  { DaNode.sample.shared with
    db := { Db.empty with
      blobs := ⟨[BlobRow.sample], by decide⟩
      syncStatus := ⟨[⟨(Uuid.sample 2).cell, "peer", .pending, some 0, none⟩,
        ⟨(Uuid.sample 2).cell, "other", .failed, some 0, none⟩], by decide⟩ } }

theorem deleteBlob_allOrNothing_sample :
    AllOrNothing (Uuid.sample 2) Shared.sample
      (Mutation.run Platform.sample MutationInput.sample 4 Shared.sample
        (.deleteBlob (some User.sample) (Uuid.sample 2))).1
      (Mutation.run Platform.sample MutationInput.sample 4 Shared.sample
        (.deleteBlob (some User.sample) (Uuid.sample 2))).2 :=
  (deleteBlob_allOrNothing_iff Platform.sample MutationInput.sample _ BlobRow.sample User.sample
    (Uuid.sample 2) List.mem_cons_self rfl rfl (Uuid.decodeUuid_cell _)).2 (Or.inr (by decide))

/-- After the peer has fetched the blob its owner deletes it: the mutation fails, and the blob is
    deleted. -/
theorem deleteBlob_not_allOrNothing :
    ∃ n : DaNode,
      Run.exec (DaNode.step Platform.sample) DaNode.sample
        (Event.sampleAdd ++ Event.sampleFetch) = some n ∧
      n.shared.db.blobExists (Uuid.sample 2).cell ∧
      ¬ AllOrNothing (Uuid.sample 2) n.shared
        (Mutation.run Platform.sample MutationInput.sample 4 n.shared
          (.deleteBlob (some User.sample) (Uuid.sample 2))).1
        (Mutation.run Platform.sample MutationInput.sample 4 n.shared
          (.deleteBlob (some User.sample) (Uuid.sample 2))).2 := by
  have hrun : (Run.exec (DaNode.step Platform.sample) DaNode.sample
      (Event.sampleAdd ++ Event.sampleFetch)).any (fun n =>
        n.shared.db.blobExists (Uuid.sample 2).cell ∧
        (Mutation.run Platform.sample MutationInput.sample 4 n.shared
          (.deleteBlob (some User.sample) (Uuid.sample 2))).2
            = .returned (.err (.database .uniqueViolation)) ∧
        ¬ (Mutation.run Platform.sample MutationInput.sample 4 n.shared
          (.deleteBlob (some User.sample) (Uuid.sample 2))).1.db.blobExists (Uuid.sample 2).cell)
      = true := by decide +kernel
  obtain ⟨n, hn, hany⟩ := (Option.any_eq_true _ _).1 hrun
  obtain ⟨hexists, herr, hgone⟩ : _ ∧ _ ∧ _ := by simpa using hany
  refine ⟨n, hn, hexists, ?_⟩
  rintro (⟨hok, -⟩ | ⟨-, hblobs, -⟩)
  · rw [herr] at hok
    cases hok
  · rw [Db.blobExists, hblobs] at hgone
    rw [Db.blobExists, hgone] at hexists
    cases hexists

/-! ## For good -/

/-- No row whose id denotes the UUID is live. -/
def DaNode.Gone (n : DaNode) (u : Uuid) : Prop :=
  ∀ row ∈ n.shared.db.blobs.rows, row.id.denotes = some u → row.live = false

instance (n : DaNode) (u : Uuid) : Decidable (n.Gone u) :=
  inferInstanceAs (Decidable (∀ row ∈ n.shared.db.blobs.rows, _))

/-- A row comes to be inserted whose id denotes the UUID and is not in the table: a received blob,
    under the text of the id in its metadata, or an added one, under the bytes it has drawn. -/
def DaNode.Revives (platform : Platform) (n : DaNode) (u : Uuid) : Event → Prop
  | .task i _ => ∃ t peerId metadata protoBlob now, n.tasks[i]? = some t ∧
      t.pc = .store peerId metadata protoBlob now ∧ Uuid.parse metadata.id = some u ∧
      n.shared.db.blobs.lookup (.text metadata.id) = none
  | .mutation i inp => ∃ currentUser blobInput row,
      n.mutations[i]? = some (.addBlob currentUser blobInput) ∧
      addBlobRow platform inp currentUser blobInput = some row ∧ inp.newV4 = u ∧
      n.shared.db.blobs.lookup u.cell = none
  | _ => False

section

variable {platform : Platform} {n n' : DaNode} {e : Event} {u : Uuid}

theorem DaNode.revives_iff :
    n.Revives platform u e ↔ ∃ row, n.write platform e = .insertBlob row ∧
      row.id.denotes = some u ∧ n.shared.db.blobs.lookup row.id = none := by
  simp only [DaNode.write_eq_insertBlob]
  constructor
  · intro h
    cases e with
    | task i inp =>
        obtain ⟨t, peerId, metadata, protoBlob, now, hi, hpc, hparse, hfresh⟩ := h
        exact ⟨receivedRow platform now metadata protoBlob,
          Or.inl ⟨i, inp, t, peerId, metadata, protoBlob, now, rfl, hi, hpc, rfl⟩, hparse, hfresh⟩
    | mutation i inp =>
        obtain ⟨currentUser, blobInput, row, hi, hrow, hu, hfresh⟩ := h
        obtain ⟨user, content, relatedPubkey, -, hadded⟩ := addBlobRow_eq_some hrow
        have hid : row.id = u.cell := by rw [hadded, ← hu, addedRow]
        exact ⟨row, Or.inr ⟨i, inp, currentUser, blobInput, rfl, hi, hrow⟩, by simp [hid],
          by rwa [hid]⟩
    | _ => exact h.elim
  · rintro ⟨row, hinsert, hdenotes, hfresh⟩
    rcases hinsert with ⟨i, inp, t, peerId, metadata, protoBlob, now, rfl, hi, hpc, rfl⟩ |
      ⟨i, inp, currentUser, blobInput, rfl, hi, hrow⟩
    · exact ⟨t, peerId, metadata, protoBlob, now, hi, hpc, hdenotes, hfresh⟩
    · obtain ⟨user, content, relatedPubkey, -, hadded⟩ := addBlobRow_eq_some hrow
      have hid : row.id = inp.newV4.cell := by rw [hadded, addedRow]
      rw [hid, Uuid.denotes_cell] at hdenotes
      obtain rfl := Option.some.inj hdenotes
      exact ⟨currentUser, blobInput, row, hi, hrow, rfl, by rwa [hid] at hfresh⟩

/-- The row that a write comes to insert. -/
def Write.insertedRow : Write → Option BlobRow
  | .insertBlob row => some row
  | _ => none

theorem Write.insertedRow_eq_some {w : Write} {row : BlobRow} :
    w.insertedRow = some row ↔ w = .insertBlob row := by
  cases w <;> simp [Write.insertedRow]

instance (n : DaNode) (u : Uuid) (e : Event) : Decidable (n.Revives platform u e) :=
  decidable_of_iff (∃ row ∈ (n.write platform e).insertedRow, row.id.denotes = some u ∧
    n.shared.db.blobs.lookup row.id = none) <| by
      simp only [Option.mem_def, Write.insertedRow_eq_some, DaNode.revives_iff]

theorem live_of_write_eq_insertBlob {row : BlobRow} (h : n.write platform e = .insertBlob row) :
    row.live = true := by
  rcases DaNode.write_eq_insertBlob.1 h with ⟨_, _, _, _, _, _, _, -, -, -, rfl⟩ |
    ⟨_, _, _, _, -, -, hrow⟩
  · rfl
  · obtain ⟨user, content, relatedPubkey, -, rfl⟩ := addBlobRow_eq_some hrow
    rfl

/-- A step leaves the blob gone exactly if it does not revive it. -/
theorem gone_step_iff (h : n.step platform e = some n') (hn : n.Gone u) :
    n'.Gone u ↔ ¬ n.Revives platform u e := by
  rw [DaNode.revives_iff, DaNode.Gone, DaNode.step_shared h]
  constructor
  · rintro hgone ⟨row, hwrite, hdenotes, hfresh⟩
    have hmem : row ∈ ((n.write platform e).onDb n.shared.db).blobs.rows := by
      rw [hwrite]
      obtain ⟨blobs, hins⟩ := Table.exists_insert hfresh
      simp [Write.onDb, hins, Table.rows_of_insert hins]
    have hdead := hgone row hmem hdenotes
    rw [live_of_write_eq_insertBlob hwrite] at hdead
    cases hdead
  · intro hrevives row hrow hdenotes
    rcases Write.mem_blobs_onDb hrow with hold | ⟨hwrite, hfresh⟩ | ⟨now, old, hwrite, hold, rfl⟩
    · exact hn row hold hdenotes
    · exact absurd ⟨row, hwrite, hdenotes, hfresh⟩ hrevives
    · rfl

end

/-- **After a step that sets `deleted_at` on the row of an id, no later state of a run has a live
    row whose id denotes the UUID, exactly if no other live row denoted it and no later step inserts
    a row under an id that denotes it and is not in the table.** -/
theorem deletion_permanent_iff (platform : Platform) (n n' : DaNode) (e : Event) (id : Cell)
    (now : Timestamp) (u : Uuid) (es : List Event) (hstep : n.step platform e = some n')
    (hdelete : n.write platform e = .setDeletedAt id now) :
    Run.Always (DaNode.step platform) (fun n => n.Gone u) n' es ↔
      (∀ row ∈ n.shared.db.blobs.rows, row.id ≠ id → row.id.denotes = some u →
        row.live = false) ∧
      Run.Meets (DaNode.step platform)
        (fun n e => (n.step platform e).isSome → ¬ n.Revives platform u e) n' es := by
  rw [Run.always_iff_meets (fun _ _ _ hn h => gone_step_iff h hn) n' es]
  refine and_congr_left fun _ => ?_
  have hdb : n'.shared.db = n.shared.db.setDeletedAt id now := by
    rw [DaNode.step_shared hstep, hdelete]
    rfl
  rw [DaNode.Gone, hdb]
  simp only [Db.setDeletedAt, Table.rows_update, List.forall_mem_map, decide_eq_true_eq]
  refine forall₂_congr fun row hrow => ?_
  by_cases hid : row.id = id
  · simp [hid, BlobRow.live]
  · simp [hid]

/-- The sample user adds a blob and calls `deleteBlob` while the fetch of the blob is queued. -/
def Event.sampleDelete : List Event :=
  Event.sampleQueue ++ [.deleteBlob (some User.sample) (Uuid.sample 2),
    .mutation 1 MutationInput.sample]

/-- The sample node has stored the blob that its peer announced, and the peer asks it to delete the
    blob. -/
def Event.sampleRemove : List Event :=
  Event.sampleStore ++ [.request (some (.delete (Uuid.sample 2).toString)),
    .handler 2 HandlerInput.sample]

/-- The loop ends its round, and the peer announces and sends the blob again. -/
def Event.sampleRestore : List Event :=
  List.replicate 4 (.loop
    { LoopInput.sample with blobScan := [{ BlobRow.sampleCopy with deletedAt := some 0 }] }) ++
  [.request (some (.announce (some (Blob.sample.announcement Platform.sample)))),
   .handler 3 HandlerInput.sample, .handler 3 HandlerInput.sample, .loop LoopInput.sample] ++
  List.replicate 5 (.task 0 (FetchInput.sample (.ok SyncResponse.sample)))

/-- The blob is fetched again, but its INSERT meets the deleted row, which has the same text as id,
    so the blob stays deleted. -/
theorem deletion_permanent_sample :
    ∃ n n' n'' : DaNode,
      Run.exec (DaNode.step Platform.sample) DaNode.sample Event.sampleRemove = some n ∧
      n.step Platform.sample (.handler 2 HandlerInput.sample) = some n' ∧
      Run.exec (DaNode.step Platform.sample) n' Event.sampleRestore = some n'' ∧
      n''.tasks.map FetchTask.pc = [.finished (.error (.databaseConnection .uniqueViolation))] ∧
      Run.Always (DaNode.step Platform.sample) (fun n => n.Gone (Uuid.sample 2)) n'
        Event.sampleRestore := by
  have hrun : (Run.exec (DaNode.step Platform.sample) DaNode.sample Event.sampleRemove).any
      (fun n => (n.step Platform.sample (.handler 2 HandlerInput.sample)).any (fun n' =>
        (Run.exec (DaNode.step Platform.sample) n' Event.sampleRestore).any (fun n'' =>
          n''.tasks.map FetchTask.pc = [.finished (.error (.databaseConnection .uniqueViolation))] ∧
          n.write Platform.sample (.handler 2 HandlerInput.sample)
            = .setDeletedAt (.text (Uuid.sample 2).toString) 0 ∧
          (∀ row ∈ n.shared.db.blobs.rows, row.id ≠ .text (Uuid.sample 2).toString →
            row.id.denotes = some (Uuid.sample 2) → row.live = false) ∧
          Run.Meets (DaNode.step Platform.sample) (fun n e => (n.step Platform.sample e).isSome →
            ¬ n.Revives Platform.sample (Uuid.sample 2) e) n' Event.sampleRestore))) = true := by
    decide +kernel
  obtain ⟨n, hn, hany⟩ := (Option.any_eq_true _ _).1 hrun
  obtain ⟨n', hn', hany'⟩ := (Option.any_eq_true _ _).1 hany
  obtain ⟨n'', hn'', hcond⟩ := (Option.any_eq_true _ _).1 hany'
  obtain ⟨hrefused, hwrite, hother, hmeets⟩ : _ ∧ _ ∧ _ ∧ _ := of_decide_eq_true hcond
  exact ⟨n, n', n'', hn, hn', hn'', hrefused,
    (deletion_permanent_iff Platform.sample n n' _ _ _ (Uuid.sample 2) _ hn' hwrite).2
      ⟨hother, hmeets⟩⟩

/-- The rest of `deleteBlob`, and the task queued for the blob, to which the peer replies that it
    has the blob. -/
def Event.sampleRefetch : List Event :=
  List.replicate 2 (.mutation 1 MutationInput.sample) ++ [.loop LoopInput.sample] ++
    List.replicate 5 (.task 0 (FetchInput.sample (.ok SyncResponse.sample)))

/-- The deleted blob, whose id is stored as bytes, is fetched again and inserted under the text of
    its id. -/
theorem deletion_undone :
    ∃ n n' n'' : DaNode,
      Run.exec (DaNode.step Platform.sample) DaNode.sample Event.sampleDelete = some n ∧
      n.step Platform.sample (.mutation 1 MutationInput.sample) = some n' ∧
      n.write Platform.sample (.mutation 1 MutationInput.sample)
        = .setDeletedAt (Uuid.sample 2).cell 0 ∧
      n'.Gone (Uuid.sample 2) ∧
      Run.exec (DaNode.step Platform.sample) n' Event.sampleRefetch = some n'' ∧
      ¬ n''.Gone (Uuid.sample 2) := by
  have hrun : (Run.exec (DaNode.step Platform.sample) DaNode.sample Event.sampleDelete).any
      (fun n => (n.step Platform.sample (.mutation 1 MutationInput.sample)).any (fun n' =>
        (Run.exec (DaNode.step Platform.sample) n' Event.sampleRefetch).any (fun n'' =>
          n.write Platform.sample (.mutation 1 MutationInput.sample)
            = .setDeletedAt (Uuid.sample 2).cell 0 ∧
          n'.Gone (Uuid.sample 2) ∧ ¬ n''.Gone (Uuid.sample 2)))) = true := by decide +kernel
  obtain ⟨n, hn, hany⟩ := (Option.any_eq_true _ _).1 hrun
  obtain ⟨n', hn', hany'⟩ := (Option.any_eq_true _ _).1 hany
  obtain ⟨n'', hn'', hcond⟩ := (Option.any_eq_true _ _).1 hany'
  obtain ⟨hwrite, hgone, hback⟩ : _ ∧ _ ∧ _ := by simpa using hcond
  exact ⟨n, n', n'', hn, hn', hwrite, hgone, hn'', hback⟩

end DaConcept.Node
