import DaConcept.Node.Queue

set_option autoImplicit false

/-! # How a node comes to rest

Handlers, mutations and fetch tasks all end, and so does every round of the sync loop: each has a
number of steps left, and every step of one takes at least one off the sum. What a fetch task has
left depends on the handlers, since it goes over the peers that the node has when it copies them,
and a handshake adds one; what a round has left depends on the fetch tasks, since it goes over rows
of `sync_status`, and the tasks insert these. Nothing waits but the loop for the tasks, so a node on
which nothing more can happen has finished everything. The queue is served in order, so a job waits
for no more rounds than its position and `max_concurrent_syncs` tell. -/

namespace DaConcept.Node

/-! ## The steps that are left -/

/-- How many steps a fetch task has left at most, if the node has that many peers. -/
def FetchPc.work (peers : Nat) : FetchPc → Nat
  | .start => 3 * peers + 4
  | .checkExists ps => 3 * ps.length + 3
  | .markPeers ps => ps.length + 2
  | .tryPeer ps => 3 * ps.length + 2
  | .awaitReply _ _ rest => 3 * rest.length + 4
  | .markFailed _ rest => 3 * rest.length + 3
  | .store .. => 3
  | .markCompleted .. => 2
  | .finished _ => 1

def Handler.work : Handler → Nat
  | .sync _ => 2
  | .replied _ => 0
  | _ => 1

/-- The peers that the handler will add. -/
def Handler.newPeers : Handler → Nat
  | .sync (some (.handshake _ _)) => 1
  | _ => 0

def Mutation.work : Mutation → Nat
  | .addBlob .. => 2
  | .addBlobSync .. => 1
  | .deleteBlob .. => 4
  | .deleteBlobUpdate .. => 3
  | .deleteBlobSync .. => 2
  | .deleteBlobPending _ => 1
  | .returned _ => 0

/-- How many peers the node can have by the time a task copies them. -/
def DaNode.peersAhead (n : DaNode) : Nat :=
  n.shared.manager.peers.rows.length + (n.handlers.map Handler.newPeers).sum

/-- How many steps the fetch tasks of a node have left at most. -/
def DaNode.fetchWork (n : DaNode) : Nat := (n.tasks.map (fun t => t.pc.work n.peersAhead)).sum

/-- How many rows `sync_status` can have by the time the sync loop reads them. -/
def DaNode.statusesAhead (n : DaNode) : Nat := n.shared.db.syncStatus.rows.length + n.fetchWork

/-- How many steps a blob takes in `announce_blobs`, if `sync_status` has that many rows. -/
def announceWork (statuses : Nat) : Nat := 3 * statuses + 2

/-- How many steps the sync loop has left at most in its round, if `sync_status` has that many rows;
    `get_blobs_to_share` returns at most 100 blobs. -/
def SyncLoop.work (statuses : Nat) : SyncLoop → Nat
  | .process => 0
  | .join => 100 * announceWork statuses + 4
  | .announce => 100 * announceWork statuses + 3
  | .selectBlobs _ => 100 * announceWork statuses + 2
  | .nextBlob _ blobs => blobs.length * announceWork statuses + 1
  | .nextPeer _ _ pending blobs => blobs.length * announceWork statuses + 3 * pending.length + 2
  | .awaitReply _ _ _ _ pending blobs =>
      blobs.length * announceWork statuses + 3 * pending.length + 4
  | .markPending _ _ _ pending blobs =>
      blobs.length * announceWork statuses + 3 * pending.length + 3
  | .stopped _ => 0

def SyncLoop.processing : SyncLoop → Bool
  | .process => true
  | _ => false

/-- How many steps the activities of a node have left at most. -/
def DaNode.work (n : DaNode) : Nat :=
  (n.handlers.map Handler.work).sum + (n.mutations.map Mutation.work).sum + n.fetchWork +
    n.loop.work n.statusesAhead

/-- Something goes on that has begun: an activity, but for the sync loop a new round. -/
def DaNode.GoesOn (n : DaNode) : Event → Prop
  | .handler .. | .mutation .. | .task .. | .failTask _ => True
  | .loop _ => n.loop.processing = false
  | _ => False

instance (n : DaNode) : ∀ e : Event, Decidable (n.GoesOn e)
  | .handler .. | .mutation .. | .task .. | .failTask .. => inferInstanceAs (Decidable True)
  | .loop _ => inferInstanceAs (Decidable (n.loop.processing = false))
  | .request .. | .addBlob .. | .deleteBlob .. => inferInstanceAs (Decidable False)

/-! ## Each step is one less -/

section

variable {platform : Platform}

theorem FetchPc.work_mono {peers peers' : Nat} (h : peers ≤ peers') (pc : FetchPc) :
    pc.work peers ≤ pc.work peers' := by
  cases pc <;> simp only [FetchPc.work] <;> omega

theorem FetchPc.one_le_work (peers : Nat) (pc : FetchPc) : 1 ≤ pc.work peers := by
  cases pc <;> simp only [FetchPc.work] <;> omega

theorem FetchTask.work_step {s s' : Shared} {t : FetchTask} {inp : FetchInput} {pc : FetchPc}
    {peers : Nat} (hpeers : s.manager.peers.rows.length ≤ peers)
    (h : t.step platform s inp = some (s', pc)) : pc.work peers < t.pc.work peers := by
  cases FetchTask.next_of_step h with
  | copied hpc horder =>
      rw [hpc, FetchPc.work, FetchPc.work, horder.length_eq]
      omega
  | @received peerId client rest hpc =>
      rw [hpc]
      unfold FetchTask.receive
      split
      · split
        · simp only [FetchPc.work]
          omega
        · split <;> simp only [FetchPc.work] <;> omega
      · simp only [FetchPc.work]
        omega
      · simp only [FetchPc.work]
        omega
  | found hpc hexists =>
      rw [hpc]
      simp only [FetchPc.work]
      omega
  | missing hpc hexists =>
      rw [hpc]
      simp only [FetchPc.work]
      omega
  | _ hpc =>
      rw [hpc]
      simp only [FetchPc.work, List.length_cons, List.length_nil]
      omega

theorem FetchTask.work_fail {t : FetchTask} {pc : FetchPc} (peers : Nat) (h : t.fail = some pc) :
    pc.work peers < t.pc.work peers := by
  obtain rfl := FetchTask.fail_eq_some h
  unfold FetchTask.fail at h
  split at h
  case h_7 => cases h
  all_goals
    next hpc =>
      rw [hpc]
      simp only [FetchPc.work, List.length_cons]
      omega

theorem Handler.work_step {inp : HandlerInput} {s s' : Shared} {hd hd' : Handler}
    (h : hd.step platform inp s = some (s', hd')) :
    hd'.work < hd.work ∧ hd'.newPeers = 0 := by
  cases Handler.next_of_step h with
  | reply hreply =>
      refine ⟨?_, rfl⟩
      cases hd with
      | replied reply => cases h
      | _ => simp [Handler.work]
  | _ => simp [Handler.work, Handler.newPeers]

theorem Mutation.work_step {inp : MutationInput} {s s' : Shared} {m m' : Mutation}
    (h : m.step platform inp s = some (s', m')) : m'.work < m.work := by
  cases Mutation.next_of_step h with
  | returned m result =>
      cases m with
      | returned result => cases h
      | _ => simp [Mutation.work]
  | _ => simp [Mutation.work]

theorem SyncLoop.work_mono {statuses statuses' : Nat} (h : statuses ≤ statuses') (l : SyncLoop) :
    l.work statuses ≤ l.work statuses' := by
  have hannounce : announceWork statuses ≤ announceWork statuses' := by
    rw [announceWork, announceWork]
    omega
  have hmul (k : Nat) : k * announceWork statuses ≤ k * announceWork statuses' :=
    Nat.mul_le_mul_left k hannounce
  cases l with
  | nextBlob peers blobs =>
      simp only [SyncLoop.work]
      have := hmul blobs.length
      omega
  | nextPeer peers blob pending blobs =>
      simp only [SyncLoop.work]
      have := hmul blobs.length
      omega
  | awaitReply peers blob peerId client pending blobs =>
      simp only [SyncLoop.work]
      have := hmul blobs.length
      omega
  | markPending peers blob peerId pending blobs =>
      simp only [SyncLoop.work]
      have := hmul blobs.length
      omega
  | _ =>
      simp only [SyncLoop.work]
      omega

theorem length_getBlobsToShare {db : Db} {scan : List BlobRow} {blobs : List Blob}
    (h : getBlobsToShare db scan = .ok blobs) : blobs.length ≤ 100 := by
  unfold getBlobsToShare at h
  split at h
  · next blobs' hdecode =>
      obtain rfl := Except.ok.inj h
      have hlength := congrArg List.length (map_eq_of_mapM_eq_some hdecode)
      rw [List.length_map, List.length_map] at hlength
      rw [← hlength]
      exact List.length_take_le _ _
  · cases h

/-- A step of a round is one less to do, whatever tasks run. -/
theorem SyncLoop.work_step {s s' : Shared} {tasks tasks' : List FetchTask} {inp : LoopInput}
    {l l' : SyncLoop} {statuses : Nat} (hstatuses : s.db.syncStatus.rows.length ≤ statuses)
    (hl : l.processing = false) (h : l.step s tasks inp = some (s', tasks', l')) :
    l'.work statuses < l.work statuses ∧ tasks' = tasks ∧
      s'.manager = s.manager ∧ s'.db.syncStatus.rows.length = s.db.syncStatus.rows.length := by
  cases SyncLoop.next_of_step h with
  | spawned => cases hl
  | noJobs => cases hl
  | joined hidle => exact ⟨by simp [SyncLoop.work], rfl, rfl, rfl⟩
  | copied => exact ⟨by simp [SyncLoop.work], rfl, rfl, rfl⟩
  | @selected peers blobs hscan hblobs =>
      refine ⟨?_, rfl, rfl, rfl⟩
      have hmul := Nat.mul_le_mul_right (announceWork statuses) (length_getBlobsToShare hblobs)
      simp only [SyncLoop.work]
      omega
  | stopped hscan hblobs => exact ⟨by simp [SyncLoop.work], rfl, rfl, rfl⟩
  | allAnnounced => exact ⟨by simp [SyncLoop.work], rfl, rfl, rfl⟩
  | @pending peers blob blobs hscan =>
      refine ⟨?_, rfl, rfl, rfl⟩
      have hpending : (getPendingPeers blob.id inp.statusScan).length ≤ statuses := by
        rw [getPendingPeers, List.length_map]
        exact (List.length_filter_le _ _).trans (hscan.length_eq.trans_le hstatuses)
      simp only [SyncLoop.work, List.length_cons, announceWork, Nat.add_mul, Nat.one_mul]
      omega
  | marked =>
      refine ⟨by simp [SyncLoop.work], rfl, rfl, ?_⟩
      simp [setBlobStatusAsPending, Db.setStatus]
  | announced =>
      refine ⟨?_, rfl, rfl, rfl⟩
      simp only [SyncLoop.work, List.length_nil]
      omega
  | _ =>
      refine ⟨?_, rfl, rfl, rfl⟩
      simp only [SyncLoop.work, List.length_cons]
      omega

end

/-! ## The sum over the activities -/

section

variable {α : Type} {f : α → Nat} {l : List α} {i : Nat} {a : α}

theorem sum_map_set (hi : l[i]? = some a) (f : α → Nat) (a' : α) :
    ((l.set i a').map f).sum + f a = (l.map f).sum + f a' := by
  induction l generalizing i with
  | nil => cases hi
  | cons b l ih =>
      cases i with
      | zero =>
          obtain rfl := Option.some.inj hi
          simp only [List.set_cons_zero, List.map_cons, List.sum_cons]
          omega
      | succ i =>
          have hrest := ih (i := i) hi
          simp only [List.set_cons_succ, List.map_cons, List.sum_cons]
          omega

theorem sum_map_eraseIdx (hi : l[i]? = some a) (f : α → Nat) :
    ((l.eraseIdx i).map f).sum + f a = (l.map f).sum := by
  induction l generalizing i with
  | nil => cases hi
  | cons b l ih =>
      cases i with
      | zero =>
          obtain rfl := Option.some.inj hi
          simp only [List.eraseIdx_cons_zero, List.map_cons, List.sum_cons]
          omega
      | succ i =>
          have hrest := ih (i := i) hi
          simp only [List.eraseIdx_cons_succ, List.map_cons, List.sum_cons]
          omega

end

section

variable {platform : Platform} {n n' : DaNode} {e : Event}

/-- Whom a handshake adds has been counted. -/
theorem DaNode.peersAhead_step (he : n.GoesOn e) (h : n.step platform e = some n') :
    n'.peersAhead ≤ n.peersAhead := by
  have hpeers : (∀ peerId peerUrl, n.write platform e ≠ .addPeer peerId peerUrl) →
      n'.shared.manager.peers = n.shared.manager.peers := by
    intro hne
    rw [DaNode.step_shared h]
    rcases hwrite : n.write platform e with _ | _ | _ | _ | _ | _ | ⟨blobId, hash⟩ | _ | _ |
      ⟨peerId, peerUrl⟩
    case addPeer => exact absurd hwrite (hne peerId peerUrl)
    case queue =>
      simp only [Write.apply, Write.onManager, SyncManager.queueBlobFetch]
      split <;> rfl
    all_goals rfl
  by_cases hhandler : ∃ i inp, e = .handler i inp
  · obtain ⟨i, inp, rfl⟩ := hhandler
    obtain ⟨hd, hi, s', hd', hstep, rfl⟩ := DaNode.step_handler_eq_some.1 h
    have hsum := sum_map_set hi Handler.newPeers hd'
    rw [(Handler.work_step hstep).2] at hsum
    simp only [DaNode.peersAhead]
    by_cases hshake : ∃ peerId peerUrl,
        n.write platform (.handler i inp) = .addPeer peerId peerUrl
    · obtain ⟨peerId, peerUrl, hwrite⟩ := hshake
      obtain ⟨j, inp', heq, hj⟩ := DaNode.write_eq_addPeer hwrite
      cases heq
      obtain rfl := Option.some.inj (hi.symm.trans hj)
      cases hstep
      have hlength := Table.length_put_le n.shared.manager.peers (peerId, ⟨peerUrl⟩)
      simp only [SyncManager.addPeer, Handler.newPeers] at hsum ⊢
      omega
    · rw [hpeers fun peerId peerUrl hwrite => hshake ⟨peerId, peerUrl, hwrite⟩]
      omega
  · have hsame := hpeers fun peerId peerUrl hwrite => by
      obtain ⟨i, inp, rfl, -⟩ := DaNode.write_eq_addPeer hwrite
      exact hhandler ⟨i, inp, rfl⟩
    have hhandlers : n'.handlers = n.handlers := by
      cases e with
      | handler i inp => exact absurd ⟨i, inp, rfl⟩ hhandler
      | mutation i inp =>
          obtain ⟨m, hi, s', m', hstep, rfl⟩ := DaNode.step_mutation_eq_some.1 h
          rfl
      | task i inp =>
          obtain ⟨t, hi, ⟨result, hpc, rfl⟩ | ⟨s', pc, hstep, rfl⟩⟩ := DaNode.step_task_eq_some.1 h
          · rfl
          · rfl
      | failTask i =>
          obtain ⟨t, hi, pc, hpc, rfl⟩ := DaNode.step_failTask_eq_some.1 h
          rfl
      | loop inp =>
          obtain ⟨s', tasks', l', hstep, rfl⟩ := DaNode.step_loop_eq_some.1 h
          rfl
      | _ => exact he.elim
    rw [DaNode.peersAhead, DaNode.peersAhead, hsame, hhandlers]

/-- Only a step of a fetch task inserts a row into `sync_status`. -/
theorem Write.length_statuses (w : Write) (db : Db) :
    (w.onDb db).syncStatus.rows.length ≤ db.syncStatus.rows.length + 1 ∧
      ((∀ now blobId peerId, w ≠ .startSync now blobId peerId) →
        (w.onDb db).syncStatus.rows.length = db.syncStatus.rows.length) := by
  cases w with
  | startSync now blobId peerId =>
      refine ⟨?_, fun hne => absurd rfl (hne now blobId peerId)⟩
      exact Table.length_upsert_le _ _ _ _
  | setStatus blobId peerId status attempt success =>
      simp [Write.onDb, Db.setStatus]
  | insertPending blobId =>
      rw [Write.onDb_insertPending]
      simp
  | _ => exact ⟨Nat.le_succ _, fun _ => rfl⟩

/-- What the fetch tasks can still do, if none of them does a step. -/
theorem DaNode.fetchWork_mono (hpeers : n'.peersAhead ≤ n.peersAhead)
    (htasks : n'.tasks = n.tasks) : n'.fetchWork ≤ n.fetchWork := by
  rw [DaNode.fetchWork, DaNode.fetchWork, htasks]
  exact List.sum_le_sum fun t _ => t.pc.work_mono hpeers

/-- A step of a fetch task is one less for it. -/
theorem DaNode.fetchWork_step (h : n.step platform e = some n')
    (he : (∃ i inp, e = .task i inp) ∨ ∃ i, e = .failTask i) : n'.fetchWork < n.fetchWork := by
  have hpeers : n'.peersAhead ≤ n.peersAhead := by
    refine DaNode.peersAhead_step ?_ h
    rcases he with ⟨i, inp, rfl⟩ | ⟨i, rfl⟩ <;> trivial
  have hmono (tasks : List FetchTask) : (tasks.map (fun t => t.pc.work n'.peersAhead)).sum ≤
      (tasks.map (fun t => t.pc.work n.peersAhead)).sum :=
    List.sum_le_sum fun t _ => t.pc.work_mono hpeers
  rcases he with ⟨i, inp, rfl⟩ | ⟨i, rfl⟩
  · obtain ⟨t, hi, ⟨result, hpc, rfl⟩ | ⟨s', pc, hstep, rfl⟩⟩ := DaNode.step_task_eq_some.1 h
    · have hsum := sum_map_eraseIdx hi (fun t => t.pc.work n.peersAhead)
      have hone := t.pc.one_le_work n.peersAhead
      have htasks := hmono (n.tasks.eraseIdx i)
      simp only [DaNode.fetchWork] at hsum hone htasks ⊢
      omega
    · have hsum := sum_map_set hi (fun t => t.pc.work n.peersAhead) { t with pc }
      have hlt : pc.work n.peersAhead < t.pc.work n.peersAhead :=
        FetchTask.work_step (Nat.le_add_right _ _) hstep
      have htasks := hmono (n.tasks.set i { t with pc })
      simp only [DaNode.fetchWork] at hsum hlt htasks ⊢
      omega
  · obtain ⟨t, hi, pc, hpc, rfl⟩ := DaNode.step_failTask_eq_some.1 h
    have hsum := sum_map_set hi (fun t => t.pc.work n.peersAhead) { t with pc }
    have hlt := FetchTask.work_fail n.peersAhead hpc
    have htasks := hmono (n.tasks.set i { t with pc })
    simp only [DaNode.fetchWork] at hsum hlt htasks ⊢
    omega

/-- **Every step of what has begun is one less to do.** -/
theorem DaNode.work_step (he : n.GoesOn e) (h : n.step platform e = some n') :
    n'.work < n.work := by
  have hpeers := DaNode.peersAhead_step he h
  have hstatuses := Write.length_statuses (n.write platform e) n.shared.db
  have hdb : n'.shared.db = (n.write platform e).onDb n.shared.db := by
    rw [DaNode.step_shared h]
    rfl
  -- what is neither a fetch task nor the loop leaves what they have left
  have hrest (htasks : n'.tasks = n.tasks) (hloop : n'.loop = n.loop)
      (hwrite : ∀ now blobId peerId, n.write platform e ≠ .startSync now blobId peerId) :
      n'.fetchWork + n'.loop.work n'.statusesAhead ≤ n.fetchWork + n.loop.work n.statusesAhead := by
    have hfetch := DaNode.fetchWork_mono hpeers htasks
    have hmono : n'.loop.work n'.statusesAhead ≤ n'.loop.work n.statusesAhead := by
      refine SyncLoop.work_mono ?_ _
      rw [DaNode.statusesAhead, DaNode.statusesAhead, hdb, hstatuses.2 hwrite]
      omega
    rw [hloop] at hmono ⊢
    omega
  -- a step of a fetch task takes more off than the row that it inserts adds
  have htask (he : (∃ i inp, e = .task i inp) ∨ ∃ i, e = .failTask i)
      (hhandlers : n'.handlers = n.handlers) (hmutations : n'.mutations = n.mutations)
      (hloop : n'.loop = n.loop) : n'.work < n.work := by
    have hfetch := DaNode.fetchWork_step h he
    have hmono : n'.loop.work n'.statusesAhead ≤ n'.loop.work n.statusesAhead := by
      refine SyncLoop.work_mono ?_ _
      rw [DaNode.statusesAhead, DaNode.statusesAhead, hdb]
      have hone := hstatuses.1
      omega
    rw [hloop] at hmono
    rw [DaNode.work, DaNode.work, hhandlers, hmutations, hloop]
    omega
  cases e with
  | handler i inp =>
      have hwrite : ∀ now blobId peerId,
          n.write platform (.handler i inp) ≠ .startSync now blobId peerId := by
        intro now blobId peerId hw
        obtain ⟨hd, hi, -⟩ := DaNode.step_handler_eq_some.1 h
        simp only [DaNode.write, hi, Option.elim_some] at hw
        unfold Handler.write at hw
        split at hw <;> cases hw
      obtain ⟨hd, hi, s', hd', hstep, rfl⟩ := DaNode.step_handler_eq_some.1 h
      have hsum := sum_map_set hi Handler.work hd'
      have hlt := (Handler.work_step hstep).1
      have hle := hrest rfl rfl hwrite
      simp only [DaNode.work] at hsum hle ⊢
      omega
  | mutation i inp =>
      have hwrite : ∀ now blobId peerId,
          n.write platform (.mutation i inp) ≠ .startSync now blobId peerId := by
        intro now blobId peerId hw
        obtain ⟨m, hi, -⟩ := DaNode.step_mutation_eq_some.1 h
        simp only [DaNode.write, hi, Option.elim_some] at hw
        unfold Mutation.write at hw
        split at hw
        · split at hw <;> cases hw
        all_goals cases hw
      obtain ⟨m, hi, s', m', hstep, rfl⟩ := DaNode.step_mutation_eq_some.1 h
      have hsum := sum_map_set hi Mutation.work m'
      have hlt := Mutation.work_step hstep
      have hle := hrest rfl rfl hwrite
      simp only [DaNode.work] at hsum hle ⊢
      omega
  | task i inp =>
      have hgo := htask (Or.inl ⟨i, inp, rfl⟩)
      obtain ⟨t, hi, ⟨result, hpc, rfl⟩ | ⟨s', pc, hstep, rfl⟩⟩ := DaNode.step_task_eq_some.1 h
      · exact hgo rfl rfl rfl
      · exact hgo rfl rfl rfl
  | failTask i =>
      have hgo := htask (Or.inr ⟨i, rfl⟩)
      obtain ⟨t, hi, pc, hpc, rfl⟩ := DaNode.step_failTask_eq_some.1 h
      exact hgo rfl rfl rfl
  | loop inp =>
      obtain ⟨s', tasks', l', hstep, rfl⟩ := DaNode.step_loop_eq_some.1 h
      have hahead : n.shared.db.syncStatus.rows.length ≤ n.statusesAhead := Nat.le_add_right _ _
      obtain ⟨hlt, rfl, hmanager, hlength⟩ := SyncLoop.work_step hahead he hstep
      have hfetch : DaNode.fetchWork { n with shared := s', loop := l' } = n.fetchWork := by
        rw [DaNode.fetchWork, DaNode.fetchWork, DaNode.peersAhead, DaNode.peersAhead, hmanager]
      have hsame : DaNode.statusesAhead { n with shared := s', loop := l' } = n.statusesAhead := by
        rw [DaNode.statusesAhead, DaNode.statusesAhead, hfetch, hlength]
      rw [DaNode.work, DaNode.work, hfetch, hsame]
      simp only
      omega
  | _ => exact he.elim

end

/-! ## Nothing waits for anything else -/

section

variable (platform : Platform)

theorem Handler.exists_step (s : Shared) {hd : Handler} (h : ∀ reply, hd ≠ .replied reply) :
    ∃ inp s' hd', hd.step platform inp s = some (s', hd') := by
  refine ⟨⟨0, s.db.syncStatus.rows⟩, ?_⟩
  cases hd with
  | sync request =>
      rcases request with _ | request
      · exact ⟨_, _, rfl⟩
      · cases request with
        | status blobId =>
            refine ⟨s, .replied (.ok (handleSyncStatus platform blobId s.db.syncStatus.rows)), ?_⟩
            simp only [Handler.step, List.Perm.refl, if_true]
        | _ => exact ⟨_, _, rfl⟩
  | replied reply => exact absurd rfl (h reply)
  | _ => exact ⟨_, _, rfl⟩

theorem Mutation.exists_step (inp : MutationInput) (s : Shared) {m : Mutation}
    (h : ∀ result, m ≠ .returned result) : ∃ s' m', m.step platform inp s = some (s', m') := by
  cases m with
  | deleteBlobPending blobId =>
      simp only [Mutation.step]
      split <;> exact ⟨_, _, rfl⟩
  | returned result => exact absurd rfl (h result)
  | _ => exact ⟨_, _, rfl⟩

theorem FetchTask.exists_step (s : Shared) {t : FetchTask}
    (h : ∀ result, t.pc ≠ .finished result) :
    ∃ inp s' pc, t.step platform s inp = some (s', pc) := by
  refine ⟨⟨0, s.manager.peers.rows, .error .unavailable⟩, ?_⟩
  rcases hpc : t.pc with _ | peers | peers | peers | _ | _ | _ | _ | result <;>
    simp only [FetchTask.step, hpc]
  case start => simp
  case checkExists => split <;> exact ⟨_, _, rfl⟩
  case markPeers => rcases peers with _ | ⟨⟨_, _⟩, _⟩ <;> exact ⟨_, _, rfl⟩
  case tryPeer => rcases peers with _ | ⟨⟨_, _⟩, _⟩ <;> exact ⟨_, _, rfl⟩
  case store => split <;> exact ⟨_, _, rfl⟩
  case finished => exact absurd hpc (h result)
  all_goals exact ⟨_, _, rfl⟩

/-- The loop waits for nothing but the tasks. -/
theorem SyncLoop.exists_step (s : Shared) {l : SyncLoop} (hstopped : ∀ e, l ≠ .stopped e) :
    ∃ inp s' tasks' l', l.step s [] inp = some (s', tasks', l') := by
  refine ⟨⟨0, s.db.blobs.rows, s.db.syncStatus.rows, .error .unavailable⟩, ?_⟩
  cases l with
  | process =>
      simp only [SyncLoop.step]
      split <;> exact ⟨_, _, _, rfl⟩
  | selectBlobs peers =>
      simp only [SyncLoop.step, List.Perm.refl, if_true]
      split <;> exact ⟨_, _, _, rfl⟩
  | nextBlob peers blobs =>
      rcases blobs with _ | ⟨blob, blobs⟩
      · exact ⟨_, _, _, rfl⟩
      · simp only [SyncLoop.step, List.Perm.refl, if_true]
        exact ⟨_, _, _, rfl⟩
  | nextPeer peers blob pending blobs =>
      rcases pending with _ | ⟨peerId, pending⟩
      · exact ⟨_, _, _, rfl⟩
      · simp only [SyncLoop.step]
        split <;> exact ⟨_, _, _, rfl⟩
  | awaitReply peers blob peerId client pending blobs =>
      simp only [SyncLoop.step]
      split <;> exact ⟨_, _, _, rfl⟩
  | stopped e => exact absurd rfl (hstopped e)
  | _ => exact ⟨_, _, _, rfl⟩

/-- Everything that has begun is over. -/
structure DaNode.AtRest (n : DaNode) : Prop where
  tasks : n.tasks = []
  handlers : ∀ hd ∈ n.handlers, ∃ reply, hd = .replied reply
  mutations : ∀ m ∈ n.mutations, ∃ result, m = .returned result
  loop : n.loop = .process ∨ ∃ e, n.loop = .stopped e

variable {platform} in
/-- A node on which nothing goes on any more is at rest. -/
theorem DaNode.atRest_of_stuck {n : DaNode}
    (h : ∀ e : Event, n.GoesOn e → n.step platform e = none) : n.AtRest := by
  have htasks : n.tasks = [] := by
    refine List.eq_nil_iff_forall_not_mem.2 fun t ht => ?_
    obtain ⟨i, hi⟩ := List.getElem?_of_mem ht
    by_cases hfinished : ∃ result, t.pc = .finished result
    · obtain ⟨result, hpc⟩ := hfinished
      have hnone := h (.task i ⟨0, [], .error .unavailable⟩) trivial
      rw [DaNode.step_task_eq_some.2 ⟨t, hi, Or.inl ⟨result, hpc, rfl⟩⟩] at hnone
      cases hnone
    · obtain ⟨inp, s', pc, hstep⟩ := FetchTask.exists_step platform n.shared
        fun result hpc => hfinished ⟨result, hpc⟩
      have hnone := h (.task i inp) trivial
      rw [DaNode.step_task_eq_some.2 ⟨t, hi, Or.inr ⟨s', pc, hstep, rfl⟩⟩] at hnone
      cases hnone
  refine ⟨htasks, fun hd hhd => ?_, fun m hm => ?_, ?_⟩
  · by_contra hreplied
    obtain ⟨i, hi⟩ := List.getElem?_of_mem hhd
    obtain ⟨inp, s', hd', hstep⟩ := Handler.exists_step platform n.shared
      fun reply heq => hreplied ⟨reply, heq⟩
    have hnone := h (.handler i inp) trivial
    rw [DaNode.step_handler_eq_some.2 ⟨hd, hi, s', hd', hstep, rfl⟩] at hnone
    cases hnone
  · by_contra hreturned
    obtain ⟨i, hi⟩ := List.getElem?_of_mem hm
    obtain ⟨s', m', hstep⟩ := Mutation.exists_step platform MutationInput.sample
      n.shared fun result heq => hreturned ⟨result, heq⟩
    have hnone := h (.mutation i MutationInput.sample) trivial
    rw [DaNode.step_mutation_eq_some.2 ⟨m, hi, s', m', hstep, rfl⟩] at hnone
    cases hnone
  · by_contra hloop
    obtain ⟨hprocess, hstopped⟩ := not_or.1 hloop
    obtain ⟨inp, s', tasks', l', hstep⟩ := SyncLoop.exists_step n.shared
      fun e heq => hstopped ⟨e, heq⟩
    have hgo : n.GoesOn (.loop inp) := by
      rcases hl : n.loop with _ | _ | _ | _ | _ | _ | _ | _ | _
      case process => exact absurd hl hprocess
      all_goals
        rw [DaNode.GoesOn, hl]
        rfl
    have hnone := h (.loop inp) hgo
    rw [← htasks] at hstep
    rw [DaNode.step_loop_eq_some.2 ⟨s', tasks', l', hstep, rfl⟩] at hnone
    cases hnone

end

/-- No more can happen than is left. -/
theorem DaNode.length_le_work {platform : Platform} {n n' : DaNode} {es : List Event}
    (hes : Run.Meets (DaNode.step platform) DaNode.GoesOn n es)
    (h : Run.exec (DaNode.step platform) n es = some n') : es.length ≤ n.work := by
  have hle := Run.length_le_of_decreases (fun _ _ _ he hstep => DaNode.work_step he hstep) hes h
  omega

theorem DaNode.AtRest.loop_eq {n : DaNode} (hn : n.AtRest) (hstopped : ∀ e, n.loop ≠ .stopped e) :
    n.loop = .process := by
  rcases hn.loop with hprocess | ⟨e, hstop⟩
  · exact hprocess
  · exact absurd hstop (hstopped e)

/-- **A node comes to rest.** From any state, as long as no request arrives, no user calls a
    mutation and no new round begins, at most `DaNode.work` steps can happen, in whatever order and
    whatever fails; and when nothing can happen any more, every handler has replied, every mutation
    has returned, every fetch task has ended, and the sync loop is at the end of its round. -/
theorem activities_end (platform : Platform) (n n' : DaNode) (es : List Event)
    (hes : Run.Meets (DaNode.step platform) DaNode.GoesOn n es)
    (h : Run.exec (DaNode.step platform) n es = some n') :
    es.length ≤ n.work ∧
      ((∀ e : Event, n'.GoesOn e → n'.step platform e = none) → n'.AtRest) :=
  ⟨DaNode.length_le_work hes h, DaNode.atRest_of_stuck⟩

/-- What is left of the sample run after a handshake has arrived and a user has called `addBlob`. -/
theorem activities_end_sample :
    ∃ n n' : DaNode, Run.exec (DaNode.step Platform.sample) DaNode.sample
        [.request (some (.handshake "peer" "http://peer")),
         .addBlob (some User.sample) ⟨"", none, none⟩] = some n ∧
      Run.exec (DaNode.step Platform.sample) n
        [.mutation 0 MutationInput.sample, .handler 0 HandlerInput.sample,
         .mutation 0 MutationInput.sample] = some n' ∧
      3 ≤ n.work ∧ n.work = 4 := by
  have hrun : (Run.exec (DaNode.step Platform.sample) DaNode.sample
      [.request (some (.handshake "peer" "http://peer")),
       .addBlob (some User.sample) ⟨"", none, none⟩]).any (fun n =>
        (Run.exec (DaNode.step Platform.sample) n
          [.mutation 0 MutationInput.sample, .handler 0 HandlerInput.sample,
           .mutation 0 MutationInput.sample]).isSome ∧ n.work = 4) = true := by decide +kernel
  obtain ⟨n, hn, hcond⟩ := (Option.any_eq_true _ _).1 hrun
  obtain ⟨hsome, hwork⟩ : _ ∧ _ := of_decide_eq_true hcond
  obtain ⟨n', hn'⟩ := Option.isSome_iff_exists.1 hsome
  refine ⟨n, n', hn, hn', (activities_end Platform.sample n n' _ ?_ hn').1, hwork⟩
  exact Run.meets_of_forall (by simp [DaNode.GoesOn]) n

/-! ## Rounds of the queue -/

/-- A step in which `process_sync_queue` takes its batch. -/
def DaNode.round (n : DaNode) : Event → List Unit
  | .loop _ => if n.loop.processing then [()] else []
  | _ => []

/-- A round pops a batch, and no other step is one. -/
theorem DaNode.popped_of_round (platform : Platform) {n : DaNode} {e : Event}
    (h : n.round e ≠ []) : n.round e = [()] ∧ n.popped platform e = n.shared.manager.batch := by
  cases e with
  | loop inp =>
      simp only [DaNode.round] at h ⊢
      split at h
      · next hprocessing =>
          refine ⟨if_pos hprocessing, ?_⟩
          rcases hloop : n.loop with _ | _ | _ | _ | _ | _ | _ | _ | _ <;>
            simp only [hloop, SyncLoop.processing] at hprocessing
          case process =>
            simp only [DaNode.popped, DaNode.write, hloop, SyncLoop.write]
            by_cases hbatch : n.shared.manager.batch = []
            · simp [hbatch]
            · simp [hbatch]
          all_goals cases hprocessing
      · exact absurd rfl h
  | _ => exact absurd rfl h

/-- Each round takes a full batch from a queue, unless it empties the queue. -/
theorem rounds_take {platform : Platform} {limit : Nat} {n n' : DaNode} {es : List Event}
    {enqueued : List (Uuid × String)} (hn : QueueInv limit enqueued [] n)
    (h : Run.exec (DaNode.step platform) n es = some n') :
    enqueued.length ≤ (Run.logged (DaNode.step platform) (DaNode.popped platform) n es).length ∨
      (Run.logged (DaNode.step platform) DaNode.round n es).length * limit ≤
        (Run.logged (DaNode.step platform) (DaNode.popped platform) n es).length := by
  have hrun := Run.exec_logged (f := DaNode.round) (g := DaNode.popped platform)
    (I := fun rounds popped s => (∃ more, QueueInv limit (enqueued ++ more) popped s) ∧
      (enqueued.length ≤ popped.length ∨ rounds.length * limit ≤ popped.length))
    (fun rounds popped s e s' ⟨⟨more, hs⟩, hcount⟩ hstep => by
      refine ⟨⟨more ++ s.enqueued platform e, ?_⟩, ?_⟩
      · rw [← List.append_assoc]
        exact queueInv_step hs hstep
      · rcases hcount with hall | hcount
        · exact Or.inl (hall.trans (by simp))
        by_cases hround : s.round e = []
        · right
          rw [hround, List.append_nil, List.length_append]
          omega
        · obtain ⟨hone, hpopped⟩ := DaNode.popped_of_round platform hround
          have haccount := congrArg List.length hs.account
          have hlimit : s.shared.manager.config.maxConcurrentSyncs = limit := hs.limit_eq
          rw [hone, hpopped, SyncManager.batch_eq_take, hlimit]
          simp only [List.length_append, List.length_take, List.length_singleton] at haccount ⊢
          rw [Nat.add_mul, Nat.one_mul]
          omega)
    (s := n) (l := []) (m := []) ⟨⟨[], by simpa using hn⟩, by simp⟩ h
  simpa using hrun.2

/-- **The queue is served.** A job that is queued at position `p` has been popped, as the `p`-th
    from then on, once `process_sync_queue` has taken more than `p / max_concurrent_syncs` batches,
    whatever else is queued or happens. -/
theorem queue_served (platform : Platform) (config : P2PConfig) (peers : Peers) (db : Db)
    (es es' : List Event) (n n' : DaNode)
    (h : Run.exec (DaNode.step platform) (DaNode.start config peers db) es = some n)
    (h' : Run.exec (DaNode.step platform) n es' = some n') (p : Nat) (job : Uuid × String)
    (hjob : n.shared.manager.blobQueue[p]? = some job)
    (hrounds : p < (Run.logged (DaNode.step platform) DaNode.round n es').length *
      config.maxConcurrentSyncs) :
    (Run.logged (DaNode.step platform) (DaNode.popped platform) n es')[p]? = some job := by
  obtain ⟨hjoined, hlimit, hinv, -⟩ := queueInv_exec (queueInv_start config peers db) h
  have hn : QueueInv config.maxConcurrentSyncs n.shared.manager.blobQueue [] n :=
    ⟨hjoined, hlimit, hinv, rfl⟩
  have haccount := (queueInv_exec hn h').account
  rw [List.nil_append] at haccount
  have hlt := (List.getElem?_eq_some_iff.1 hjob).1
  have hpopped : p < (Run.logged (DaNode.step platform) (DaNode.popped platform) n es').length := by
    rcases rounds_take hn h' with hall | hcount <;> omega
  rw [← List.getElem?_append_left hpopped, ← haccount, List.getElem?_append_left hlt, hjob]

/-- The first of three jobs is done, and the loop comes to take the second. -/
def Event.sampleRounds : List Event :=
  let loop : Event := .loop ⟨0, [], [], .error .unavailable⟩
  [loop] ++ List.replicate 4 (.task 0 ⟨0, [], .error .unavailable⟩) ++ List.replicate 5 loop

/-- With one place, the second round takes the job at position 1. -/
theorem queue_served_sample :
    ∃ n n' : DaNode,
      Run.exec (DaNode.step Platform.sample) DaNode.sample Event.sampleJobs = some n ∧
      Run.exec (DaNode.step Platform.sample) n Event.sampleRounds = some n' ∧
      ∃ job, n.shared.manager.blobQueue[1]? = some job ∧ job.1 = Uuid.sample 3 ∧
        (Run.logged (DaNode.step Platform.sample) (DaNode.popped Platform.sample) n
          Event.sampleRounds)[1]? = some job := by
  have hrun : (Run.exec (DaNode.step Platform.sample) DaNode.sample Event.sampleJobs).any
      (fun n => (Run.exec (DaNode.step Platform.sample) n Event.sampleRounds).isSome ∧
        n.shared.manager.blobQueue[1]?.any (fun job => job.1 = Uuid.sample 3) ∧
        (Run.logged (DaNode.step Platform.sample) DaNode.round n Event.sampleRounds).length = 2)
      = true := by decide +kernel
  obtain ⟨n, hn, hcond⟩ := (Option.any_eq_true _ _).1 hrun
  obtain ⟨hsome, hjob, hrounds⟩ : _ ∧ _ ∧ _ := of_decide_eq_true hcond
  obtain ⟨n', hn'⟩ := Option.isSome_iff_exists.1 hsome
  obtain ⟨job, hjob, hid⟩ := (Option.any_eq_true _ _).1 hjob
  exact ⟨n, n', hn, hn', job, hjob, of_decide_eq_true hid, queue_served Platform.sample _ _ _ _ _ n
    n' hn hn' 1 job hjob (by rw [hrounds]; decide)⟩

end DaConcept.Node
