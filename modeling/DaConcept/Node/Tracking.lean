import DaConcept.Node.Announce
import DaConcept.Node.Reach

set_option autoImplicit false

/-! # Tracked blobs

The sync loop announces a blob to the peers that have a row in `sync_status` for it. Such rows are
only made by fetch tasks, for the peers a task has copied: a task that finds its blob marks all of
them, one that fetches it only those it asks. Between the arrival of a blob and the end of its task
the rows are still to come, so the invariant is that every live blob is covered for every known
peer: tracked, or about to be. `covered_step_iff` says exactly which steps keep it; in an idle node
nothing is about to happen, and then every live blob is tracked for every known peer. -/

namespace DaConcept.Node

/-! ## Covered pairs -/

/-- The keys of the peers map. -/
def SyncManager.peerIds (m : SyncManager) : List String := m.peers.rows.map Prod.fst

/-- A task here will mark its blob for the peer, if it finds the blob and no statement fails. -/
def FetchPc.Marks (peerId : String) : FetchPc → Prop
  | .start => True
  | .checkExists peers | .markPeers peers => peerId ∈ peers.map Prod.fst
  | _ => False

instance (peerId : String) : ∀ pc : FetchPc, Decidable (pc.Marks peerId)
  | .start => inferInstanceAs (Decidable True)
  | .checkExists peers | .markPeers peers =>
      inferInstanceAs (Decidable (peerId ∈ peers.map Prod.fst))
  | .tryPeer _ | .awaitReply .. | .markFailed .. | .store .. | .markCompleted .. | .finished _ =>
      inferInstanceAs (Decidable False)

/-- The mutation has added the blob and will queue it. -/
def Mutation.Queues (blobId : Cell) : Mutation → Prop
  | .addBlobSync blob _ => blob.id.cell = blobId
  | _ => False

instance (blobId : Cell) : ∀ m : Mutation, Decidable (m.Queues blobId)
  | .addBlobSync blob _ => inferInstanceAs (Decidable (blob.id.cell = blobId))
  | .addBlob .. | .deleteBlob .. | .deleteBlobUpdate .. | .deleteBlobSync ..
  | .deleteBlobPending .. | .returned .. => inferInstanceAs (Decidable False)

/-- The blob is tracked for the peer, or queued, or a task or a mutation will see to it. -/
def DaNode.Covers (n : DaNode) (blobId : Cell) (peerId : String) : Prop :=
  n.shared.db.tracked blobId peerId = true ∨
  (∃ job ∈ n.shared.manager.blobQueue, job.1.cell = blobId) ∨
  (∃ t ∈ n.tasks, t.blobId.cell = blobId ∧ t.pc.Marks peerId) ∨
  ∃ m ∈ n.mutations, m.Queues blobId

instance (n : DaNode) (blobId : Cell) (peerId : String) : Decidable (n.Covers blobId peerId) :=
  inferInstanceAs (Decidable (_ ∨ (∃ job ∈ n.shared.manager.blobQueue, _) ∨
    (∃ t ∈ n.tasks, _) ∨ ∃ m ∈ n.mutations, _))

/-- The blob is covered for every known peer. -/
def DaNode.CoversBlob (n : DaNode) (blobId : Cell) : Prop :=
  ∀ peerId ∈ n.shared.manager.peerIds, n.Covers blobId peerId

/-- Every live blob is covered for the peer. -/
def DaNode.CoversPeer (n : DaNode) (peerId : String) : Prop :=
  ∀ row ∈ n.shared.db.blobs.rows, row.live = true → n.Covers row.id peerId

/-- Every live blob is covered for every known peer. -/
def DaNode.Covered (n : DaNode) : Prop :=
  ∀ peerId ∈ n.shared.manager.peerIds, n.CoversPeer peerId

instance (n : DaNode) (blobId : Cell) : Decidable (n.CoversBlob blobId) :=
  inferInstanceAs (Decidable (∀ peerId ∈ n.shared.manager.peerIds, _))

instance (n : DaNode) (peerId : String) : Decidable (n.CoversPeer peerId) :=
  inferInstanceAs (Decidable (∀ row ∈ n.shared.db.blobs.rows, row.live = true → _))

instance (n : DaNode) : Decidable n.Covered :=
  inferInstanceAs (Decidable (∀ peerId ∈ n.shared.manager.peerIds, _))

/-- Every live blob has a row in `sync_status` for every known peer. -/
def DaNode.Tracked (n : DaNode) : Prop :=
  ∀ peerId ∈ n.shared.manager.peerIds, ∀ row ∈ n.shared.db.blobs.rows, row.live = true →
    n.shared.db.tracked row.id peerId = true

instance (n : DaNode) : Decidable n.Tracked :=
  inferInstanceAs (Decidable (∀ peerId ∈ n.shared.manager.peerIds,
    ∀ row ∈ n.shared.db.blobs.rows, row.live = true → _))

/-! ## The steps that keep blobs covered -/

/-- A row that is inserted is one that the known peers are covered for; if the id is taken, it is
    not inserted. -/
def DaNode.CoversInsert (n : DaNode) (row : BlobRow) : Prop :=
  (n.shared.db.blobs.lookup row.id).isSome ∨ n.CoversBlob row.id

instance (n : DaNode) (row : BlobRow) : Decidable (n.CoversInsert row) :=
  inferInstanceAs (Decidable (_ ∨ n.CoversBlob row.id))

/-- What the steps of a handler have to meet: a peer shakes hands for whom all blobs are covered. -/
def Handler.KeepsCovered (n : DaNode) : Handler → Prop
  | .sync (some (.handshake nodeId _)) => n.CoversPeer nodeId
  | _ => True

/-- What the steps of a task have to meet: a fetched blob is covered. -/
def FetchPc.KeepsCovered (platform : Platform) (n : DaNode) : FetchPc → Prop
  | .store _ metadata protoBlob now =>
      n.CoversInsert (receivedRow platform now metadata protoBlob)
  | _ => True

/-- What the steps of the `i`-th mutation have to meet: an added blob has a size that fits an `i32`
    or is covered, and `queue_blob_fetch` takes it or all is covered without it. -/
def Mutation.KeepsCovered (platform : Platform) (n : DaNode) (i : Nat) (inp : MutationInput) :
    Mutation → Prop
  | .addBlob currentUser blobInput =>
      ∀ row ∈ addBlobRow platform inp currentUser blobInput,
        (decodeI32 row.size).isSome ∨ n.CoversInsert row
  | .addBlobSync blob _ =>
      blob.id ∉ n.shared.manager.inProgress ∨
        DaNode.Covered { n with mutations := n.mutations.eraseIdx i }
  | _ => True

/-- What a step has to meet. A statement may only fail in a task without which all is covered. -/
def DaNode.KeepsCovered (platform : Platform) (n : DaNode) : Event → Prop
  | .handler i _ => ∀ hd ∈ n.handlers[i]?, hd.KeepsCovered n
  | .task i _ => ∀ t ∈ n.tasks[i]?, t.pc.KeepsCovered platform n
  | .mutation i inp => ∀ m ∈ n.mutations[i]?, m.KeepsCovered platform n i inp
  | .failTask i => DaNode.Covered { n with tasks := n.tasks.eraseIdx i }
  | _ => True

instance (n : DaNode) : ∀ hd : Handler, Decidable (hd.KeepsCovered n)
  | .sync (some (.handshake nodeId _)) => inferInstanceAs (Decidable (n.CoversPeer nodeId))
  | .sync none | .sync (some (.announce _)) | .sync (some (.fetch _)) | .sync (some (.delete _))
  | .sync (some (.status _)) | .sync (some .nodeInfo) | .announceQueue .. | .fetchMark ..
  | .deleteMark _ | .nodeInfoStorage _ | .replied _ => inferInstanceAs (Decidable True)

instance (platform : Platform) (n : DaNode) :
    ∀ pc : FetchPc, Decidable (pc.KeepsCovered platform n)
  | .store _ metadata protoBlob now =>
      inferInstanceAs (Decidable (n.CoversInsert (receivedRow platform now metadata protoBlob)))
  | .start | .checkExists _ | .markPeers _ | .tryPeer _ | .awaitReply .. | .markFailed ..
  | .markCompleted .. | .finished _ => inferInstanceAs (Decidable True)

instance (platform : Platform) (n : DaNode) (i : Nat) (inp : MutationInput) :
    ∀ m : Mutation, Decidable (m.KeepsCovered platform n i inp)
  | .addBlob currentUser blobInput => inferInstanceAs (Decidable
      (∀ row ∈ addBlobRow platform inp currentUser blobInput, _ ∨ n.CoversInsert row))
  | .addBlobSync blob _ =>
      inferInstanceAs (Decidable (blob.id ∉ n.shared.manager.inProgress ∨ DaNode.Covered _))
  | .deleteBlob .. | .deleteBlobUpdate .. | .deleteBlobSync .. | .deleteBlobPending ..
  | .returned .. => inferInstanceAs (Decidable True)

instance (platform : Platform) (n : DaNode) :
    ∀ e : Event, Decidable (n.KeepsCovered platform e)
  | .handler i _ => inferInstanceAs (Decidable (∀ hd ∈ n.handlers[i]?, hd.KeepsCovered n))
  | .task i _ => inferInstanceAs (Decidable (∀ t ∈ n.tasks[i]?, t.pc.KeepsCovered platform n))
  | .mutation i inp =>
      inferInstanceAs (Decidable (∀ m ∈ n.mutations[i]?, m.KeepsCovered platform n i inp))
  | .failTask _ => inferInstanceAs (Decidable (DaNode.Covered _))
  | .request _ | .addBlob .. | .deleteBlob .. | .loop _ => inferInstanceAs (Decidable True)

/-! ## One activity and the rest -/

theorem exists_mem_set {α : Type} {P : α → Prop} {l : List α} {i : Nat} (hi : i < l.length)
    (a : α) : (∃ x ∈ l.set i a, P x) ↔ P a ∨ ∃ x ∈ l.eraseIdx i, P x := by
  rw [List.set_eq_take_append_cons_drop, if_pos hi, List.eraseIdx_eq_take_drop_succ]
  simp only [List.mem_append, List.mem_cons, or_and_right, exists_or, exists_eq_left]
  exact or_left_comm

theorem exists_mem_getElem? {α : Type} {P : α → Prop} {l : List α} {i : Nat} {a : α}
    (hi : l[i]? = some a) : (∃ x ∈ l, P x) ↔ P a ∨ ∃ x ∈ l.eraseIdx i, P x := by
  obtain ⟨hlt, rfl⟩ := List.getElem?_eq_some_iff.1 hi
  rw [← exists_mem_set hlt, List.set_getElem_self]

section

variable {platform : Platform} {n n' : DaNode} {blobId : Cell} {peerId : String}

/-- A pair is covered by the `i`-th task, or without it. -/
theorem covers_task_iff {i : Nat} {t : FetchTask} (hi : n.tasks[i]? = some t) :
    n.Covers blobId peerId ↔ (t.blobId.cell = blobId ∧ t.pc.Marks peerId) ∨
      DaNode.Covers { n with tasks := n.tasks.eraseIdx i } blobId peerId := by
  simp only [DaNode.Covers, exists_mem_getElem? hi, or_assoc, or_left_comm]

theorem covers_setTask_iff {i : Nat} (t : FetchTask) (hi : i < n.tasks.length) :
    DaNode.Covers { n with tasks := n.tasks.set i t } blobId peerId ↔
      (t.blobId.cell = blobId ∧ t.pc.Marks peerId) ∨
      DaNode.Covers { n with tasks := n.tasks.eraseIdx i } blobId peerId := by
  simp only [DaNode.Covers, exists_mem_set hi, or_assoc, or_left_comm]

/-- A pair is covered by the `i`-th mutation, or without it. -/
theorem covers_mutation_iff {i : Nat} {m : Mutation} (hi : n.mutations[i]? = some m) :
    n.Covers blobId peerId ↔ m.Queues blobId ∨
      DaNode.Covers { n with mutations := n.mutations.eraseIdx i } blobId peerId := by
  simp only [DaNode.Covers, exists_mem_getElem? hi, or_left_comm]

theorem covers_setMutation_iff {i : Nat} (m : Mutation) (hi : i < n.mutations.length) :
    DaNode.Covers { n with mutations := n.mutations.set i m } blobId peerId ↔
      m.Queues blobId ∨
      DaNode.Covers { n with mutations := n.mutations.eraseIdx i } blobId peerId := by
  simp only [DaNode.Covers, exists_mem_set hi, or_left_comm]

/-! ## What a write does to covered pairs -/

/-- A pair stays covered while rows, jobs, tasks and mutations are only added. -/
theorem DaNode.Covers.mono (hc : n.Covers blobId peerId)
    (hdb : n.shared.db.tracked blobId peerId = true → n'.shared.db.tracked blobId peerId = true)
    (hqueue : n.shared.manager.blobQueue ⊆ n'.shared.manager.blobQueue)
    (htasks : n.tasks ⊆ n'.tasks) (hmutations : n.mutations ⊆ n'.mutations) :
    n'.Covers blobId peerId := by
  rcases hc with htracked | ⟨job, hjob, hid⟩ | ⟨t, ht, hmarks⟩ | ⟨m, hm, hqueues⟩
  · exact Or.inl (hdb htracked)
  · exact Or.inr (Or.inl ⟨job, hqueue hjob, hid⟩)
  · exact Or.inr (Or.inr (Or.inl ⟨t, htasks ht, hmarks⟩))
  · exact Or.inr (Or.inr (Or.inr ⟨m, hmutations hm, hqueues⟩))

theorem Write.tracked_mono (w : Write) {db : Db} (h : db.tracked blobId peerId = true) :
    (w.onDb db).tracked blobId peerId = true :=
  (w.tracked_onDb db blobId peerId).2 (Or.inl h)

/-- No write but the start of a round takes a job from the queue. -/
theorem Write.blobQueue_subset {w : Write} (hround : w ≠ .takeBatch) (m : SyncManager) :
    m.blobQueue ⊆ (w.onManager m).blobQueue := by
  cases w with
  | takeBatch => exact absurd rfl hround
  | queue blobId hash =>
      simp only [Write.onManager, SyncManager.queueBlobFetch]
      split
      · exact List.subset_append_left _ _
      · exact List.Subset.refl _
  | _ => exact List.Subset.refl _

/-- A write keeps pairs covered, unless it starts a round. -/
theorem covers_apply {w : Write} (hround : w ≠ .takeBatch) (hc : n.Covers blobId peerId) :
    DaNode.Covers { n with shared := w.apply n.shared } blobId peerId :=
  hc.mono w.tracked_mono (w.blobQueue_subset hround _) (List.Subset.refl _) (List.Subset.refl _)

/-- No write makes a dead row live. -/
theorem Write.live_onDb {w : Write} {db : Db} {row : BlobRow} (hrow : row ∈ (w.onDb db).blobs.rows)
    (hlive : row.live = true) : row ∈ db.blobs.rows ∨ w = .insertBlob row := by
  rcases Write.mem_blobs_onDb hrow with hold | ⟨hw, -⟩ | ⟨now, old, -, -, rfl⟩
  · exact Or.inl hold
  · exact Or.inr hw
  · cases hlive

theorem Write.mem_peerIds_onManager {w : Write} {m : SyncManager}
    (h : peerId ∈ (w.onManager m).peerIds) :
    peerId ∈ m.peerIds ∨ ∃ peerUrl, w = .addPeer peerId peerUrl := by
  obtain ⟨peer, hpeer, rfl⟩ := List.mem_map.1 h
  rcases Write.mem_peers_onManager hpeer with hold | hw
  · exact Or.inl (List.mem_map_of_mem hold)
  · exact Or.inr ⟨_, hw⟩

/-- All stays covered if no row and no peer is new and what was covered stays so. -/
theorem covered_of_write {w : Write} (hn : n.Covered) (hshared : n'.shared = w.apply n.shared)
    (hrow : ∀ row, w ≠ .insertBlob row) (hpeer : ∀ p url, w ≠ .addPeer p url)
    (hcovers : ∀ row ∈ n.shared.db.blobs.rows, row.live = true →
      ∀ p ∈ n.shared.manager.peerIds, n.Covers row.id p → n'.Covers row.id p) : n'.Covered := by
  intro p hp row hmem hlive
  rw [hshared] at hp hmem
  rcases Write.mem_peerIds_onManager hp with hold | ⟨url, hw⟩
  · rcases Write.live_onDb hmem hlive with hrow' | hw
    · exact hcovers row hrow' hlive p hold (hn p hold row hrow' hlive)
    · exact absurd hw (hrow row)
  · exact absurd hw (hpeer p url)

theorem covered_congr (hshared : n'.shared = n.shared)
    (hcovers : ∀ id p, n'.Covers id p ↔ n.Covers id p) : n'.Covered ↔ n.Covered := by
  simp only [DaNode.Covered, DaNode.CoversPeer, hshared, hcovers]

/-! ## The steps of each activity -/

/-- A row that is inserted is the only one that may not be covered. -/
theorem covered_insert_iff {row : BlobRow} {blobs : Table BlobRow.id} (hn : n.Covered)
    (hlive : row.live = true) (hinsert : n.shared.db.blobs.insert row = some blobs)
    (hblobs : n'.shared.db.blobs = blobs) (hmanager : n'.shared.manager = n.shared.manager)
    (hcovers : ∀ id p, n'.Covers id p ↔ n.Covers id p) : n'.Covered ↔ n.CoversInsert row := by
  have hfree : ¬ (n.shared.db.blobs.lookup row.id).isSome := by
    intro htaken
    rw [Table.insert_eq_none_iff.2 htaken] at hinsert
    cases hinsert
  have hrows : n'.shared.db.blobs.rows = n.shared.db.blobs.rows ++ [row] := by
    rw [hblobs, Table.rows_of_insert hinsert]
  rw [DaNode.CoversInsert, or_iff_right hfree]
  constructor
  · intro h p hp
    have hnew : row ∈ n'.shared.db.blobs.rows := by simp [hrows]
    exact (hcovers _ _).1 (h p (hmanager ▸ hp) row hnew hlive)
  · intro h p hp row' hrow' hlive'
    rw [hmanager] at hp
    rw [hrows] at hrow'
    refine (hcovers _ _).2 ?_
    rcases List.mem_append.1 hrow' with hold | hnew
    · exact hn p hp row' hold hlive'
    · rw [List.mem_singleton.1 hnew]
      exact h p hp

/-- A handshake is the only step of a handler that may leave pairs uncovered. -/
theorem covered_handler_iff {i : Nat} {inp : HandlerInput} (hn : n.Covered)
    (h : n.step platform (.handler i inp) = some n') :
    n'.Covered ↔ n.KeepsCovered platform (.handler i inp) := by
  obtain ⟨hd, hi, s', hd', hstep, rfl⟩ := DaNode.step_handler_eq_some.1 h
  obtain rfl := Handler.step_shared hstep
  have hkeeps : n.KeepsCovered platform (.handler i inp) ↔ hd.KeepsCovered n := by
    simp [DaNode.KeepsCovered, hi]
  rw [hkeeps]
  by_cases hpeer : ∃ nodeId url, hd.write inp = .addPeer nodeId url
  · obtain ⟨nodeId, url, hw⟩ := hpeer
    obtain rfl : hd = .sync (some (.handshake nodeId url)) := by
      unfold Handler.write at hw
      split at hw <;> cases hw
      rfl
    constructor
    · intro hall
      exact hall nodeId (List.mem_map_of_mem (List.mem_append_right _ (List.mem_singleton_self _)))
    · intro hnew p hp
      rcases Write.mem_peerIds_onManager hp with hold | ⟨url', hw'⟩
      · exact hn p hold
      · cases hw'
        exact hnew
  · have htrue : hd.KeepsCovered n := by
      unfold Handler.KeepsCovered
      split
      · next nodeId url => exact absurd ⟨nodeId, url, rfl⟩ hpeer
      · trivial
    refine iff_of_true ?_ htrue
    refine covered_of_write hn rfl (fun _ => Handler.write_ne_insertBlob inp hd)
      (fun p url hw => hpeer ⟨p, url, hw⟩) ?_
    intro row _ _ p _ hc
    exact covers_apply (Handler.write_not_round inp hd).1 hc

/-- What a task that is to mark its blob comes to, if the blob is there. -/
theorem FetchTask.marks_step {t : FetchTask} {s s' : Shared} {inp : FetchInput} {pc : FetchPc}
    (h : t.step platform s inp = some (s', pc)) (hmarks : t.pc.Marks peerId)
    (hpeer : peerId ∈ s.manager.peerIds)
    (hexists : SyncManager.doesBlobExist t.blobId s.db = true) :
    pc.Marks peerId ∨ s'.db.tracked t.blobId.cell peerId = true := by
  cases FetchTask.next_of_step h with
  | copied hpc horder => exact Or.inl ((horder.map Prod.fst).mem_iff.2 hpeer)
  | found hpc hexists' =>
      rw [hpc] at hmarks
      exact Or.inl hmarks
  | missing hpc hmissing =>
      rw [hexists] at hmissing
      cases hmissing
  | @mark p client rest hpc =>
      rw [hpc] at hmarks
      rcases List.mem_cons.1 hmarks with rfl | hrest
      · exact Or.inr ((Write.tracked_onDb (.startSync inp.now t.blobId _) s.db _ _).2
          (Or.inr ⟨_, _, rfl, rfl⟩))
      · exact Or.inl hrest
  | allMarked hpc =>
      rw [hpc] at hmarks
      cases hmarks
  | stored hpc hstore =>
      rw [hpc] at hmarks
      cases hmarks
  | refused hpc hstore =>
      rw [hpc] at hmarks
      cases hmarks
  | _ hpc =>
      rw [hpc] at hmarks
      cases hmarks

/-- An INSERT is the only step of a task that may leave pairs uncovered. -/
theorem covered_task_iff {i : Nat} {inp : FetchInput} (hn : n.Covered)
    (h : n.step platform (.task i inp) = some n') :
    n'.Covered ↔ n.KeepsCovered platform (.task i inp) := by
  obtain ⟨t, hi, hgo⟩ := DaNode.step_task_eq_some.1 h
  have hlt := (List.getElem?_eq_some_iff.1 hi).1
  have hkeeps : n.KeepsCovered platform (.task i inp) ↔ t.pc.KeepsCovered platform n := by
    simp [DaNode.KeepsCovered, hi]
  rw [hkeeps]
  rcases hgo with ⟨result, hpc, rfl⟩ | ⟨s', pc, hstep, rfl⟩
  · -- the task ends: it does not cover anything any more
    refine iff_of_true ?_ (by rw [hpc]; trivial)
    refine covered_of_write (w := .endTask t.blobId) hn rfl (by simp) (by simp) ?_
    intro row _ _ p _ hc
    rcases (covers_task_iff hi).1 hc with ⟨-, hmarks⟩ | hrest
    · rw [hpc] at hmarks
      cases hmarks
    · exact hrest
  · by_cases hstore : ∃ peerId metadata protoBlob now, t.pc = .store peerId metadata protoBlob now
    · obtain ⟨peerId, metadata, protoBlob, now, hpc⟩ := hstore
      have hidle (pc : FetchPc) (hpc' : ∀ p, ¬ pc.Marks p) (id : Cell) (p : String) :
          DaNode.Covers { n with tasks := n.tasks.set i { t with pc } } id p ↔ n.Covers id p := by
        rw [covers_setTask_iff _ hlt, covers_task_iff hi, hpc]
        refine or_congr_left ?_
        exact iff_of_false (fun hmarks => hpc' p hmarks.2) (fun hmarks => hmarks.2)
      rw [hpc]
      simp only [FetchTask.step, hpc, storeReceivedBlob] at hstep
      rcases hinsert : n.shared.db.blobs.insert (receivedRow platform now metadata protoBlob) with
        _ | blobs
      · rw [hinsert] at hstep
        cases hstep
        refine iff_of_true ?_ (Or.inl (Table.insert_eq_none_iff.1 hinsert))
        intro p hp row hrow hlive
        refine (hidle _ ?_ _ _).2 (hn p hp row hrow hlive)
        exact fun _ => not_false
      · rw [hinsert] at hstep
        cases hstep
        exact covered_insert_iff hn rfl hinsert rfl rfl (hidle _ fun _ => not_false)
    · have htrue : t.pc.KeepsCovered platform n := by
        unfold FetchPc.KeepsCovered
        split
        · next p md pb now hpc => exact absurd ⟨p, md, pb, now, hpc⟩ hstore
        · trivial
      refine iff_of_true ?_ htrue
      refine covered_of_write hn (FetchTask.step_shared hstep) ?_ ?_ ?_
      · intro row hw
        obtain ⟨p, md, pb, now, hpc, -⟩ := FetchTask.write_eq_insertBlob.1 hw
        exact hstore ⟨p, md, pb, now, hpc⟩
      · intro p url hw
        unfold FetchTask.write at hw
        split at hw <;> cases hw
      · intro row hrow hlive p hp hc
        have hround := (FetchTask.write_not_round hstep).1
        rw [FetchTask.step_shared hstep]
        refine (covers_setTask_iff
          (n := { n with shared := (t.write platform inp).apply n.shared }) _ hlt).2 ?_
        rcases (covers_task_iff hi).1 hc with ⟨hid, hmarks⟩ | hrest
        · -- the task was to mark the blob, and the blob is there
          have hexists : SyncManager.doesBlobExist t.blobId n.shared.db = true :=
            blobExists_iff.2 ⟨row, hrow, hlive, hid.symm⟩
          rcases FetchTask.marks_step hstep hmarks hp hexists with hmarks' | htracked
          · exact Or.inl ⟨hid, hmarks'⟩
          · rw [hid, FetchTask.step_shared hstep] at htracked
            exact Or.inr (Or.inl htracked)
        · exact Or.inr (covers_apply hround hrest)

/-- A failing statement leaves covered exactly what is covered without its task. -/
theorem covered_failTask_iff {i : Nat} (h : n.step platform (.failTask i) = some n') :
    n'.Covered ↔ n.KeepsCovered platform (.failTask i) := by
  obtain ⟨t, hi, pc, hfail, rfl⟩ := DaNode.step_failTask_eq_some.1 h
  obtain rfl := FetchTask.fail_eq_some hfail
  have hlt := (List.getElem?_eq_some_iff.1 hi).1
  refine covered_congr rfl ?_
  intro id p
  rw [covers_setTask_iff _ hlt]
  exact or_iff_right (fun hmarks => hmarks.2)

/-- The sync loop keeps all covered: the jobs it takes are those of the tasks it spawns. -/
theorem covered_loop {inp : LoopInput} (hn : n.Covered)
    (h : n.step platform (.loop inp) = some n') : n'.Covered := by
  obtain ⟨s', tasks', l', hstep, rfl⟩ := DaNode.step_loop_eq_some.1 h
  refine covered_of_write hn (SyncLoop.step_shared hstep)
    (fun _ => SyncLoop.write_ne_insertBlob _ _ _) ?_ ?_
  · intro p url hw
    rcases SyncLoop.write_cases n.shared inp n.loop with hw' | ⟨-, hw'⟩ | ⟨_, _, hw'⟩ <;>
      rw [hw'] at hw <;> cases hw
  · intro row _ _ p _ hc
    have hshared := SyncLoop.step_shared hstep
    rcases SyncLoop.step_tasks hstep with ⟨hl, hbatch, rfl, -⟩ | ⟨hbatch, rfl, -, -⟩
    · rw [hl, SyncLoop.write, if_neg hbatch] at hshared
      subst hshared
      rcases hc with htracked | ⟨job, hjob, hid⟩ | ⟨t, ht, hmarks⟩ | hqueues
      · exact Or.inl htracked
      · rw [← List.take_append_drop (min n.shared.manager.config.maxConcurrentSyncs
          n.shared.manager.blobQueue.length) n.shared.manager.blobQueue] at hjob
        rcases List.mem_append.1 hjob with htaken | hleft
        · refine Or.inr (Or.inr (Or.inl ⟨FetchTask.spawn job, ?_, hid, trivial⟩))
          exact List.mem_append_right _ (List.mem_map_of_mem htaken)
        · exact Or.inr (Or.inl ⟨job, hleft, hid⟩)
      · exact Or.inr (Or.inr (Or.inl ⟨t, List.mem_append_left _ ht, hmarks⟩))
      · exact Or.inr (Or.inr (Or.inr hqueues))
    · rw [hshared]
      exact covers_apply (SyncLoop.write_ne_takeBatch hbatch) hc

section

variable {i : Nat} {m m' : Mutation} {s' : Shared} {inp : MutationInput}

/-- What a mutation does not cover stays covered. -/
theorem covers_mutation_step (hi : n.mutations[i]? = some m)
    (hstep : m.step platform inp n.shared = some (s', m')) {id : Cell} {p : String}
    (hm : ¬ m.Queues id) (hc : n.Covers id p) :
    DaNode.Covers { n with shared := s', mutations := n.mutations.set i m' } id p := by
  have hlt := (List.getElem?_eq_some_iff.1 hi).1
  have hrest := ((covers_mutation_iff hi).1 hc).resolve_left hm
  rw [Mutation.step_shared hstep]
  refine (covers_setMutation_iff
    (n := { n with shared := (m.write platform inp).apply n.shared }) _ hlt).2 ?_
  exact Or.inr (covers_apply (Mutation.write_not_round inp m).1 hrest)

/-- The INSERT of `add_blob`: its blob is covered if the row decodes, as the mutation goes on to
    queue it then. -/
theorem covered_addBlob_iff {currentUser : Option User} {blobInput : BlobInput}
    (hn : n.Covered) (hi : n.mutations[i]? = some (.addBlob currentUser blobInput))
    (hstep : Mutation.step platform inp n.shared (.addBlob currentUser blobInput)
      = some (s', m')) :
    DaNode.Covered { n with shared := s', mutations := n.mutations.set i m' } ↔
      Mutation.KeepsCovered platform n i inp (.addBlob currentUser blobInput) := by
  have hlt := (List.getElem?_eq_some_iff.1 hi).1
  have hkept {id : Cell} {p : String} (hc : n.Covers id p) :=
    covers_mutation_step hi hstep not_false hc
  have hcase := addBlob_cases platform inp currentUser blobInput n.shared.db
  simp only [Mutation.step, Option.some.injEq, Prod.mk.injEq] at hstep
  obtain ⟨rfl, rfl⟩ := hstep
  rcases hcase with ⟨result, hadd, htaken⟩ | ⟨row, blobs, hrow, hinsert, hrest⟩
  · -- no row is inserted
    rw [hadd] at hkept ⊢
    refine iff_of_true ?_ ?_
    · intro p hp row hrow hlive
      exact hkept (hn p hp row hrow hlive)
    · intro row hrow
      exact Or.inr (Or.inl (Table.insert_eq_none_iff.1 (htaken row hrow)))
  · obtain ⟨user, content, key, -, rfl⟩ := addBlobRow_eq_some hrow
    have hadded : (addedRow platform inp.now inp.newV4 user blobInput content key).Added :=
      ⟨⟨_, rfl⟩, ⟨_, rfl⟩⟩
    have hfits := hadded.decode_isSome_iff
    rcases hrest with ⟨blob, hdecode, hadd⟩ | ⟨hdecode, result, hadd⟩
    · -- the row decodes, and the mutation will queue its blob
      rw [hdecode] at hfits
      rw [hadd] at hkept ⊢
      refine iff_of_true ?_ ?_
      · intro p hp row hmem hlive
        rw [Table.rows_of_insert hinsert] at hmem
        rcases List.mem_append.1 hmem with hold | hnew
        · exact hkept (hn p hp row hold hlive)
        · have hid := (BlobRow.decode_eq_some hdecode).1
          rw [List.mem_singleton.1 hnew]
          refine Or.inr (Or.inr (Or.inr ⟨_, List.mem_set hlt _, ?_⟩))
          rw [addedRow, Uuid.decodeUuid_cell] at hid
          exact congrArg Uuid.cell (Option.some.inj hid).symm
      · intro row hrow'
        rw [hrow] at hrow'
        obtain rfl := Option.some.inj hrow'
        exact Or.inl (hfits.1 rfl)
    · -- the row does not decode: it is there, and nothing will queue its blob
      rw [hdecode] at hfits
      rw [hadd]
      have hidle (id : Cell) (p : String) :
          DaNode.Covers { n with mutations := n.mutations.set i (.returned result) } id p ↔
            n.Covers id p := by
        rw [covers_setMutation_iff _ hlt, covers_mutation_iff hi]
        rfl
      refine Iff.trans (covered_insert_iff hn rfl hinsert ?_ ?_ ?_) ?_
      · rfl
      · rfl
      · exact hidle
      · simp [Mutation.KeepsCovered, hrow, ← hfits]

/-- `queue_blob_fetch` at the end of `add_blob` keeps the blob covered, unless it drops the job. -/
theorem covered_addBlobSync_iff {blob : Blob} {content : String} (hn : n.Covered)
    (hi : n.mutations[i]? = some (.addBlobSync blob content))
    (hstep : Mutation.step platform inp n.shared (.addBlobSync blob content) = some (s', m')) :
    DaNode.Covered { n with shared := s', mutations := n.mutations.set i m' } ↔
      Mutation.KeepsCovered platform n i inp (.addBlobSync blob content) := by
  have hlt := (List.getElem?_eq_some_iff.1 hi).1
  have hshared := Mutation.step_shared hstep
  have hkept {id : Cell} {p : String} (hm : ¬ blob.id.cell = id) (hc : n.Covers id p) :=
    covers_mutation_step hi hstep hm hc
  cases hstep
  by_cases hbusy : blob.id ∈ n.shared.manager.inProgress
  · -- the job is dropped, and the mutation does not cover its blob any more
    have hsame : syncBlob blob n.shared = n.shared := by
      rw [syncBlob, SyncManager.queueBlobFetch, if_neg (not_not.2 hbusy)]
    have hrest : Mutation.KeepsCovered platform n i inp (.addBlobSync blob content) ↔
        DaNode.Covered { n with mutations := n.mutations.eraseIdx i } :=
      or_iff_right (not_not.2 hbusy)
    rw [hsame, hrest]
    refine covered_congr rfl ?_
    intro id p
    rw [covers_setMutation_iff _ hlt]
    exact or_iff_right not_false
  · refine iff_of_true ?_ (Or.inl hbusy)
    refine covered_of_write hn hshared (by simp [Mutation.write]) (by simp [Mutation.write]) ?_
    intro row _ _ p _ hc
    by_cases hid : blob.id.cell = row.id
    · refine Or.inr (Or.inl ⟨(blob.id, blob.hash.getD ""), ?_, hid⟩)
      simp [syncBlob, SyncManager.queueBlobFetch, hbusy]
    · exact hkept hid hc

/-- An added blob is covered by its mutation until that has queued it. -/
theorem covered_mutation_iff (hn : n.Covered) (h : n.step platform (.mutation i inp) = some n') :
    n'.Covered ↔ n.KeepsCovered platform (.mutation i inp) := by
  obtain ⟨m, hi, s', m', hstep, rfl⟩ := DaNode.step_mutation_eq_some.1 h
  have hkeeps : n.KeepsCovered platform (.mutation i inp) ↔ m.KeepsCovered platform n i inp := by
    simp [DaNode.KeepsCovered, hi]
  rw [hkeeps]
  cases m with
  | addBlob currentUser blobInput => exact covered_addBlob_iff hn hi hstep
  | addBlobSync blob content => exact covered_addBlobSync_iff hn hi hstep
  | _ =>
      refine iff_of_true ?_ trivial
      refine covered_of_write hn (Mutation.step_shared hstep) ?_ ?_ ?_
      · simp [Mutation.write]
      · simp [Mutation.write]
      · intro row _ _ p _ hc
        exact covers_mutation_step hi hstep not_false hc

end

/-- **Which steps keep all blobs covered.** -/
theorem covered_step_iff {e : Event} (hn : n.Covered) (h : n.step platform e = some n') :
    n'.Covered ↔ n.KeepsCovered platform e := by
  cases e with
  | handler i inp => exact covered_handler_iff hn h
  | mutation i inp => exact covered_mutation_iff hn h
  | task i inp => exact covered_task_iff hn h
  | failTask i => exact covered_failTask_iff h
  | loop inp => exact iff_of_true (covered_loop hn h) trivial
  | request request =>
      cases h
      exact iff_of_true hn trivial
  | addBlob currentUser blobInput =>
      cases h
      refine iff_of_true ?_ trivial
      intro p hp row hrow hlive
      exact (hn p hp row hrow hlive).mono id (List.Subset.refl _) (List.Subset.refl _)
        (List.subset_append_left _ _)
  | deleteBlob currentUser blobId =>
      cases h
      refine iff_of_true ?_ trivial
      intro p hp row hrow hlive
      exact (hn p hp row hrow hlive).mono id (List.Subset.refl _) (List.Subset.refl _)
        (List.subset_append_left _ _)

/-! ## Runs -/

/-- All is covered at every moment of a run exactly if it is at first and every step keeps it so. -/
theorem covered_always_iff (platform : Platform) (n : DaNode) (es : List Event) :
    Run.Always (DaNode.step platform) DaNode.Covered n es ↔
      n.Covered ∧ Run.Meets (DaNode.step platform)
        (fun n e => (n.step platform e).isSome → n.KeepsCovered platform e) n es := by
  have hiff := @Run.always_iff_meets _ _ (DaNode.step platform) DaNode.Covered
    (fun n e => ¬ n.KeepsCovered platform e) (fun n e n' hn h => by
      rw [not_not]
      exact covered_step_iff hn h) n es
  simpa only [not_not] using hiff

theorem covered_exec {es : List Event} (hn : n.Covered)
    (hkeeps : Run.Meets (DaNode.step platform) (DaNode.KeepsCovered platform) n es)
    (h : Run.exec (DaNode.step platform) n es = some n') : n'.Covered :=
  Run.exec_invariant_of (fun _ _ _ hn hkeeps h => (covered_step_iff hn h).2 hkeeps) hn hkeeps h

end

/-- Nothing is about to happen to a blob: no job is queued, no `fetch_and_store_blob` is
    unfinished, and no `add_blob` has inserted a row and not come to `sync_blob`. -/
def DaNode.Idle (n : DaNode) : Prop :=
  n.shared.manager.blobQueue = [] ∧ (∀ t ∈ n.tasks, t.unfinished = false) ∧
  ∀ row ∈ n.shared.db.blobs.rows, ∀ m ∈ n.mutations, ¬ m.Queues row.id

instance (n : DaNode) : Decidable n.Idle :=
  inferInstanceAs (Decidable (_ ∧ (∀ t ∈ n.tasks, _) ∧
    ∀ row ∈ n.shared.db.blobs.rows, ∀ m ∈ n.mutations, _))

/-- In an idle node what is covered is tracked. -/
theorem DaNode.Covered.tracked {n : DaNode} (hn : n.Covered) (hidle : n.Idle) : n.Tracked := by
  obtain ⟨hqueue, htasks, hmutations⟩ := hidle
  intro p hp row hrow hlive
  rcases hn p hp row hrow hlive with htracked | ⟨job, hjob, -⟩ | ⟨t, ht, -, hmarks⟩ |
    ⟨m, hm, hqueues⟩
  · exact htracked
  · rw [hqueue] at hjob
    cases hjob
  · have hfinished := htasks t ht
    unfold FetchTask.unfinished at hfinished
    split at hfinished
    · next result hpc =>
        rw [hpc] at hmarks
        cases hmarks
    · cases hfinished
  · exact absurd hqueues (hmutations row hrow m hm)

/-- **Every known peer is tracked for every blob, under the condition.** In a run whose steps all
    keep the blobs covered, every live blob has in every idle state a row in `sync_status` for
    every known peer; unless that peer has completed the blob, the blob is one to share and the
    peer is pending. -/
theorem blobs_tracked (platform : Platform) (config : P2PConfig) (peers : Peers) (db : Db)
    (es : List Event) (n : DaNode) (hstart : (DaNode.start config peers db).Tracked)
    (hkeeps : Run.Meets (DaNode.step platform) (DaNode.KeepsCovered platform)
      (DaNode.start config peers db) es)
    (hrun : Run.exec (DaNode.step platform) (DaNode.start config peers db) es = some n)
    (hidle : n.Idle) :
    ∀ row ∈ n.shared.db.blobs.rows, row.live = true → ∀ peerId ∈ n.shared.manager.peerIds,
      ∃ r ∈ n.shared.db.syncStatus.rows, r.blobId = row.id ∧ r.peerNodeId = peerId ∧
        (r.syncStatus ≠ .completed → n.shared.db.shared row = true ∧
          ∀ u : Uuid, row.id = u.cell → ∀ scan, scan.Perm n.shared.db.syncStatus.rows →
            peerId ∈ getPendingPeers u scan) := by
  have hcovered : (DaNode.start config peers db).Covered :=
    fun p hp row hrow hlive => Or.inl (hstart p hp row hrow hlive)
  have htracked := (covered_exec hcovered hkeeps hrun).tracked hidle
  intro row hrow hlive peerId hp
  obtain ⟨r, hr, hid, hpeer⟩ := tracked_iff.1 (htracked peerId hp row hrow hlive)
  refine ⟨r, hr, hid, hpeer, ?_⟩
  intro hpending
  constructor
  · simp only [Db.shared, hlive, Bool.true_and, List.any_eq_true]
    exact ⟨r, hr, by simp [hid, hpending]⟩
  · intro u hu scan hscan
    refine List.mem_map.2 ⟨r, List.mem_filter.2 ⟨hscan.mem_iff.2 hr, ?_⟩, hpeer⟩
    simp [hid, hu, hpending]

/-- The sample node meets its peer before it adds its blob. -/
theorem blobs_tracked_sample :
    ∃ n : DaNode,
      Run.exec (DaNode.step Platform.sample) DaNode.sample Event.sampleAdd = some n ∧
      n.shared.db.blobs.rows.length = 1 ∧ n.shared.manager.peerIds = ["peer"] ∧
      ∀ row ∈ n.shared.db.blobs.rows, row.live = true → ∀ peerId ∈ n.shared.manager.peerIds,
        ∃ r ∈ n.shared.db.syncStatus.rows, r.blobId = row.id ∧ r.peerNodeId = peerId := by
  have hstart : DaNode.sample.Tracked := by decide +kernel
  have hkeeps : Run.Meets (DaNode.step Platform.sample) (DaNode.KeepsCovered Platform.sample)
      DaNode.sample Event.sampleAdd := by decide +kernel
  have hrun : (Run.exec (DaNode.step Platform.sample) DaNode.sample Event.sampleAdd).any
      (fun n => n.Idle ∧ n.shared.db.blobs.rows.length = 1 ∧
        n.shared.manager.peerIds = ["peer"]) = true := by decide +kernel
  obtain ⟨n, hn, hany⟩ := (Option.any_eq_true _ _).1 hrun
  obtain ⟨hidle, hrows, hpeers⟩ : _ ∧ _ ∧ _ := of_decide_eq_true hany
  refine ⟨n, hn, hrows, hpeers, ?_⟩
  intro row hrow hlive peerId hp
  obtain ⟨r, hr, hid, hpeer, -⟩ :=
    blobs_tracked Platform.sample _ _ _ _ n hstart hkeeps hn hidle row hrow hlive peerId hp
  exact ⟨r, hr, hid, hpeer⟩

/-- The sample node adds its blob first, and works off the queue before it meets its peer. -/
def Event.sampleLate : List Event :=
  [.addBlob (some User.sample) ⟨"", none, none⟩, .mutation 0 MutationInput.sample,
   .mutation 0 MutationInput.sample, .loop LoopInput.sample] ++
    List.replicate 4 (.task 0 ⟨0, [], .error .unavailable⟩) ++
  [.request (some (.handshake "peer" "http://peer")), .handler 0 HandlerInput.sample]

/-- A peer that shakes hands after a blob was added is not tracked for it. -/
theorem blob_untracked :
    ∃ n : DaNode,
      Run.exec (DaNode.step Platform.sample) DaNode.sample Event.sampleLate = some n ∧
      n.Idle ∧ ∃ row ∈ n.shared.db.blobs.rows, row.live = true ∧
        "peer" ∈ n.shared.manager.peerIds ∧ n.shared.db.syncStatus.rows = [] := by
  have hrun : (Run.exec (DaNode.step Platform.sample) DaNode.sample Event.sampleLate).any
      (fun n => n.Idle ∧ ∃ row ∈ n.shared.db.blobs.rows, row.live = true ∧
        "peer" ∈ n.shared.manager.peerIds ∧ n.shared.db.syncStatus.rows = []) = true := by
    decide +kernel
  obtain ⟨n, hn, hany⟩ := (Option.any_eq_true _ _).1 hrun
  exact ⟨n, hn, of_decide_eq_true hany⟩

end DaConcept.Node
