import DaConcept.Lib.WorkQueue
import DaConcept.Node.Write

set_option autoImplicit false

/-! # The sync queue

`blob_queue`, `in_progress` and the tasks of a node are a work queue: `queue_blob_fetch` offers a
job, `process_sync_queue` takes a round, and the write section that ends a task removes it.
`DaNode.step_queue` is this refinement, one step at a time; the invariant of the queue and the
account of what was taken from it then hold in every run. -/

namespace DaConcept.Node

/-- The job of a task. -/
def FetchTask.job (t : FetchTask) : Uuid × String := (t.blobId, t.expectedHash)

/-- The work queue of a node. -/
def DaNode.queue (n : DaNode) : WorkQueue Uuid String where
  waiting := n.shared.manager.blobQueue
  busy := n.shared.manager.inProgress
  running := n.tasks.map FetchTask.job

/-- The number of jobs one round may take. -/
def DaNode.limit (n : DaNode) : Nat := n.shared.manager.config.maxConcurrentSyncs

/-- The queue operation of a write; `i` is the task it comes from. -/
def Write.queueOp (i : Nat) : Write → Option (WorkQueue.Op Uuid String)
  | .queue blobId hash => some (.offer blobId hash)
  | .takeBatch => some .round
  | .endTask _ => some (.done i)
  | _ => none

/-- The queue operation of a step. -/
def DaNode.queueOp (platform : Platform) (n : DaNode) (e : Event) :
    Option (WorkQueue.Op Uuid String) :=
  (n.write platform e).queueOp (match e with | .task i _ => i | _ => 0)

/-- The jobs `queue_blob_fetch` puts into the queue in a step. -/
def DaNode.enqueued (platform : Platform) (n : DaNode) (e : Event) : List (Uuid × String) :=
  match n.write platform e with
  | .queue blobId hash => if blobId ∈ n.shared.manager.inProgress then [] else [(blobId, hash)]
  | _ => []

/-- The jobs `process_sync_queue` pops in a step. -/
def DaNode.popped (platform : Platform) (n : DaNode) (e : Event) : List (Uuid × String) :=
  match n.write platform e with
  | .takeBatch => n.shared.manager.batch
  | _ => []

/-! ## One step -/

theorem SyncManager.batch_eq_take (m : SyncManager) :
    m.batch = m.blobQueue.take m.config.maxConcurrentSyncs := List.take_eq_take_min.symm

theorem SyncManager.takeBatch_blobQueue (m : SyncManager) :
    m.takeBatch.blobQueue = m.blobQueue.drop m.config.maxConcurrentSyncs :=
  List.drop_eq_drop_min.symm

@[simp] theorem Write.onManager_config (w : Write) (m : SyncManager) :
    (w.onManager m).config = m.config := by
  cases w with
  | queue blobId hash =>
      simp only [Write.onManager, SyncManager.queueBlobFetch]
      split <;> rfl
  | _ => rfl

/-- Replacing a task by one with the same job leaves the jobs as they are. -/
theorem map_job_set {tasks : List FetchTask} {i : Nat} {t t' : FetchTask} (hi : tasks[i]? = some t)
    (hjob : t'.job = t.job) : (tasks.set i t').map FetchTask.job = tasks.map FetchTask.job := by
  obtain ⟨hlt, rfl⟩ := List.getElem?_eq_some_iff.1 hi
  rw [List.map_set, hjob, ← List.getElem_map FetchTask.job, List.set_getElem_self]
  simpa using hlt

section

variable {platform : Platform} {n n' : DaNode} {e : Event}

/-- A step that neither starts nor ends a task offers a job or leaves the queue as it is. -/
theorem queue_of_write {w : Write} {i : Nat} (hround : w ≠ .takeBatch)
    (hend : ∀ blobId, w ≠ .endTask blobId) (hshared : n'.shared = w.apply n.shared)
    (htasks : n'.tasks.map FetchTask.job = n.tasks.map FetchTask.job) :
    WorkQueue.stepOrStay n.limit n.queue (w.queueOp i) = some n'.queue := by
  cases w with
  | takeBatch => exact absurd rfl hround
  | endTask blobId => exact absurd rfl (hend blobId)
  | queue blobId hash =>
      simp only [Write.queueOp, WorkQueue.stepOrStay, WorkQueue.step, DaNode.queue, hshared,
        htasks, Write.apply, Write.onManager, SyncManager.queueBlobFetch]
      split
      · next hbusy => simp [hbusy]
      · next hbusy => simp [hbusy]
  | _ =>
      simp only [Write.queueOp, WorkQueue.stepOrStay, DaNode.queue, hshared, htasks]
      simp [Write.apply, Write.onManager, SyncManager.addPeer]

theorem Handler.write_not_round (inp : HandlerInput) (h : Handler) :
    h.write inp ≠ .takeBatch ∧ ∀ blobId, h.write inp ≠ .endTask blobId := by
  unfold Handler.write
  split <;> simp

theorem Mutation.write_not_round (inp : MutationInput) (m : Mutation) :
    m.write platform inp ≠ .takeBatch ∧ ∀ blobId, m.write platform inp ≠ .endTask blobId := by
  cases m with
  | addBlob u input =>
      simp only [Mutation.write]
      split <;> simp
  | _ => simp [Mutation.write]

theorem FetchTask.write_not_round {t : FetchTask} {s s' : Shared} {inp : FetchInput} {pc : FetchPc}
    (h : t.step platform s inp = some (s', pc)) :
    t.write platform inp ≠ .takeBatch ∧ ∀ blobId, t.write platform inp ≠ .endTask blobId := by
  unfold FetchTask.write
  split
  case h_6 result hpc => simp [FetchTask.step, hpc] at h
  all_goals simp

/-- Tasks only run while the sync loop waits for them. -/
def DaNode.Joined (n : DaNode) : Prop := n.loop ≠ .join → n.tasks = []

theorem joined_step (hn : n.Joined) (h : n.step platform e = some n') : n'.Joined := by
  intro hloop
  cases e with
  | handler i inp =>
      obtain ⟨hd, hi, s', hd', hstep, rfl⟩ := DaNode.step_handler_eq_some.1 h
      exact hn hloop
  | mutation i inp =>
      obtain ⟨m, hi, s', m', hstep, rfl⟩ := DaNode.step_mutation_eq_some.1 h
      exact hn hloop
  | task i inp =>
      obtain ⟨t, hi, hend | hgo⟩ := DaNode.step_task_eq_some.1 h
      · obtain ⟨result, hpc, rfl⟩ := hend
        simp [hn hloop] at hi
      · obtain ⟨s', pc, hstep, rfl⟩ := hgo
        simp [hn hloop] at hi
  | failTask i =>
      obtain ⟨t, hi, pc, hpc, rfl⟩ := DaNode.step_failTask_eq_some.1 h
      simp [hn hloop] at hi
  | loop inp =>
      obtain ⟨s', tasks', l', hstep, rfl⟩ := DaNode.step_loop_eq_some.1 h
      rcases SyncLoop.step_tasks hstep with ⟨-, -, -, hl'⟩ | ⟨-, htasks, -, hjoin⟩
      · exact absurd hl' hloop
      · subst htasks
        by_cases hl : n.loop = .join
        · exact hjoin hl
        · exact hn hl
  | _ =>
      cases h
      exact hn hloop

/-- **One step of a node is an operation of its work queue, or leaves it as it is.** -/
theorem DaNode.step_queue (hn : n.Joined) (h : n.step platform e = some n') :
    WorkQueue.stepOrStay n.limit n.queue (n.queueOp platform e) = some n'.queue := by
  have hshared := DaNode.step_shared h
  cases e with
  | handler i inp =>
      obtain ⟨hd, hi, s', hd', hstep, rfl⟩ := DaNode.step_handler_eq_some.1 h
      have hw := Handler.write_not_round inp hd
      simp only [DaNode.queueOp, DaNode.write, hi, Option.elim_some] at hshared ⊢
      exact queue_of_write hw.1 hw.2 hshared rfl
  | mutation i inp =>
      obtain ⟨m, hi, s', m', hstep, rfl⟩ := DaNode.step_mutation_eq_some.1 h
      have hw := @Mutation.write_not_round platform inp m
      simp only [DaNode.queueOp, DaNode.write, hi, Option.elim_some] at hshared ⊢
      exact queue_of_write hw.1 hw.2 hshared rfl
  | task i inp =>
      obtain ⟨t, hi, hend | hgo⟩ := DaNode.step_task_eq_some.1 h
      · -- a task that ends frees its key
        obtain ⟨result, hpc, rfl⟩ := hend
        have hjob : (n.tasks.map FetchTask.job)[i]? = some t.job := by simp [hi]
        simp only [DaNode.queueOp, DaNode.write, hi, Option.elim_some, FetchTask.write, hpc,
          Write.queueOp, WorkQueue.stepOrStay, WorkQueue.step, DaNode.queue, hjob]
        rw [List.eraseIdx_map]
        rfl
      · obtain ⟨s', pc, hstep, rfl⟩ := hgo
        have hw := FetchTask.write_not_round hstep
        simp only [DaNode.queueOp, DaNode.write, hi, Option.elim_some] at hshared ⊢
        exact queue_of_write hw.1 hw.2 hshared (map_job_set hi rfl)
  | failTask i =>
      obtain ⟨t, hi, pc, hpc, rfl⟩ := DaNode.step_failTask_eq_some.1 h
      exact queue_of_write (by simp [DaNode.write]) (by simp [DaNode.write]) hshared
        (map_job_set hi rfl)
  | loop inp =>
      obtain ⟨s', tasks', l', hstep, rfl⟩ := DaNode.step_loop_eq_some.1 h
      rcases SyncLoop.step_tasks hstep with ⟨hl, hbatch, rfl, -⟩ | ⟨hbatch, rfl, -, -⟩
      · -- the round starts with no task running, so the batch is all that runs after it
        have hidle : n.tasks = [] := hn (by simp [hl])
        have hwrite : n.write platform (.loop inp) = .takeBatch := by
          simp [DaNode.write, hl, SyncLoop.write, hbatch]
        have hjobs : (n.shared.manager.batch.map FetchTask.spawn).map FetchTask.job
            = n.shared.manager.batch := by
          rw [List.map_map]
          exact List.map_id _
        rw [hwrite] at hshared
        obtain rfl : s' = Write.takeBatch.apply n.shared := hshared
        simp only [DaNode.queueOp, hwrite, Write.queueOp, WorkQueue.stepOrStay, WorkQueue.step,
          DaNode.queue, DaNode.limit, hidle, Write.apply, Write.onManager, List.map_nil,
          List.nil_append, hjobs, if_true]
        rw [SyncManager.batch_eq_take, SyncManager.takeBatch_blobQueue]
        rfl
      · refine queue_of_write (SyncLoop.write_ne_takeBatch hbatch) ?_ hshared rfl
        intro blobId hw
        rcases SyncLoop.write_cases n.shared inp n.loop with hw' | ⟨-, hw'⟩ | ⟨_, _, hw'⟩ <;>
          rw [DaNode.write, hw'] at hw <;> cases hw
  | _ =>
      cases h
      exact queue_of_write (by simp [DaNode.write]) (by simp [DaNode.write]) hshared rfl

/-- The jobs a step enqueues and pops are those its queue operation accepts and takes. -/
theorem DaNode.enqueued_eq (platform : Platform) (n : DaNode) (e : Event) :
    n.enqueued platform e = (n.queueOp platform e).elim [] (WorkQueue.accepted n.queue) := by
  unfold DaNode.enqueued DaNode.queueOp
  cases n.write platform e <;> rfl

theorem DaNode.popped_eq (platform : Platform) (n : DaNode) (e : Event) :
    n.popped platform e = (n.queueOp platform e).elim [] (WorkQueue.taken n.limit n.queue) := by
  unfold DaNode.popped DaNode.queueOp
  cases n.write platform e with
  | takeBatch => exact SyncManager.batch_eq_take _
  | _ => rfl

theorem config_step (h : n.step platform e = some n') :
    n'.shared.manager.config = n.shared.manager.config := by
  rw [DaNode.step_shared h]
  exact Write.onManager_config _ _

end

/-! ## Runs -/

/-- The queue of a running node, its limit, and the account of its jobs so far. -/
structure QueueInv (limit : Nat) (enqueued popped : List (Uuid × String)) (n : DaNode) : Prop where
  joined : n.Joined
  limit_eq : n.limit = limit
  inv : n.queue.Inv limit
  account : enqueued = popped ++ n.shared.manager.blobQueue

theorem queueInv_step {platform : Platform} {limit : Nat} {enqueued popped : List (Uuid × String)}
    {n n' : DaNode} {e : Event} (hn : QueueInv limit enqueued popped n)
    (h : n.step platform e = some n') :
    QueueInv limit (enqueued ++ n.enqueued platform e) (popped ++ n.popped platform e) n' where
  joined := joined_step hn.joined h
  limit_eq := by
    rw [DaNode.limit, config_step h]
    exact hn.limit_eq
  inv := by
    have hstep := DaNode.step_queue hn.joined h
    rw [hn.limit_eq] at hstep
    exact WorkQueue.inv_stepOrStay hn.inv hstep
  account := by
    have hstep := WorkQueue.accounting_stepOrStay (DaNode.step_queue hn.joined h)
    rw [← DaNode.enqueued_eq, ← DaNode.popped_eq] at hstep
    rw [hn.account, List.append_assoc, List.append_assoc]
    exact congrArg (popped ++ ·) hstep

theorem queueInv_start (config : P2PConfig) (peers : Peers) (db : Db) :
    QueueInv config.maxConcurrentSyncs [] [] (DaNode.start config peers db) where
  joined := fun _ => rfl
  limit_eq := rfl
  inv := WorkQueue.inv_empty _
  account := rfl

theorem queueInv_exec {platform : Platform} {limit : Nat} {n n' : DaNode} {es : List Event}
    {enqueued popped : List (Uuid × String)} (hn : QueueInv limit enqueued popped n)
    (h : Run.exec (DaNode.step platform) n es = some n') :
    QueueInv limit (enqueued ++ Run.logged (DaNode.step platform) (DaNode.enqueued platform) n es)
      (popped ++ Run.logged (DaNode.step platform) (DaNode.popped platform) n es) n' :=
  Run.exec_logged (I := QueueInv limit) (fun _ _ _ _ _ hn hstep => queueInv_step hn hstep) hn h

/-- The keys of the work queue are the queued ids and the ids of the tasks. -/
theorem DaNode.queue_keys (n : DaNode) :
    n.queue.keys = n.shared.manager.blobQueue.map Prod.fst ++ n.tasks.map FetchTask.blobId := by
  simp only [WorkQueue.keys, DaNode.queue, List.map_append, List.map_map]
  rfl

/-- The ids that are queued or fetched are distinct. -/
theorem QueueInv.nodup {limit : Nat} {enqueued popped : List (Uuid × String)} {n : DaNode}
    (hn : QueueInv limit enqueued popped n) :
    (n.shared.manager.blobQueue.map Prod.fst ++ n.tasks.map FetchTask.blobId).Nodup := by
  rw [← n.queue_keys]
  exact hn.inv.nodup

/-- **In every run of a node the queued ids are distinct, `in_progress` is the disjoint union of
    the queued ids and the ids of the unfinished tasks, there is at most one task for an id and at
    most `max_concurrent_syncs` in all, and what was popped so far is what was enqueued so far,
    in that order, up to what is still queued.** -/
theorem sync_queue_invariant (platform : Platform) (config : P2PConfig) (peers : Peers) (db : Db)
    (es : List Event) (n : DaNode)
    (h : Run.exec (DaNode.step platform) (DaNode.start config peers db) es = some n) :
    (n.shared.manager.blobQueue.map Prod.fst).Nodup ∧
    (∀ blobId, blobId ∈ n.shared.manager.inProgress ↔
      blobId ∈ n.shared.manager.blobQueue.map Prod.fst ∨
        blobId ∈ n.tasks.map FetchTask.blobId) ∧
    (n.shared.manager.blobQueue.map Prod.fst).Disjoint (n.tasks.map FetchTask.blobId) ∧
    (n.tasks.map FetchTask.blobId).Nodup ∧
    n.tasks.length ≤ config.maxConcurrentSyncs ∧
    Run.logged (DaNode.step platform) (DaNode.enqueued platform) (DaNode.start config peers db) es
      = Run.logged (DaNode.step platform) (DaNode.popped platform) (DaNode.start config peers db) es
        ++ n.shared.manager.blobQueue := by
  have hn := queueInv_exec (queueInv_start config peers db) h
  have hnodup := hn.nodup
  obtain ⟨-, -, hinv, haccount⟩ := hn
  obtain ⟨hqueue, htasks, hdisjoint⟩ := List.nodup_append'.1 hnodup
  refine ⟨hqueue, fun blobId => ?_, hdisjoint, htasks, ?_, haccount⟩
  · have hbusy := hinv.busy_iff blobId
    rwa [n.queue_keys, List.mem_append] at hbusy
  · have hle := hinv.running_le
    rwa [DaNode.queue, List.length_map] at hle

/-- Three blobs are announced to the sample node. -/
def Event.sampleJobs : List Event :=
  ([2, 3, 4] : List UInt8).zipIdx.flatMap (fun p =>
    [.request (some (.announce (some { Blob.sample.announcement Platform.sample with
      id := (Uuid.sample p.1).toString }))),
     .handler p.2 HandlerInput.sample, .handler p.2 HandlerInput.sample])

/-- The task for the first of them holds the only place there is, and the others wait. -/
theorem sync_queue_invariant_sample :
    ∃ n : DaNode,
      Run.exec (DaNode.step Platform.sample) DaNode.sample
        (Event.sampleJobs ++ [.loop LoopInput.sample]) = some n ∧
      n.tasks.length = 1 ∧ n.tasks.length ≤ 1 ∧ n.shared.manager.blobQueue.length = 2 ∧
      (n.shared.manager.blobQueue.map Prod.fst).Nodup ∧
      (n.shared.manager.blobQueue.map Prod.fst).Disjoint (n.tasks.map FetchTask.blobId) ∧
      Run.logged (DaNode.step Platform.sample) (DaNode.enqueued Platform.sample) DaNode.sample
          (Event.sampleJobs ++ [.loop LoopInput.sample])
        = Run.logged (DaNode.step Platform.sample) (DaNode.popped Platform.sample) DaNode.sample
            (Event.sampleJobs ++ [.loop LoopInput.sample]) ++ n.shared.manager.blobQueue := by
  have hrun : (Run.exec (DaNode.step Platform.sample) DaNode.sample
      (Event.sampleJobs ++ [.loop LoopInput.sample])).any (fun n =>
        n.tasks.length = 1 ∧ n.shared.manager.blobQueue.length = 2) = true := by decide +kernel
  obtain ⟨n, hn, hcond⟩ := (Option.any_eq_true _ _).1 hrun
  obtain ⟨htasks, hqueue⟩ : _ ∧ _ := of_decide_eq_true hcond
  obtain ⟨hnodup, -, hdisjoint, -, hle, haccount⟩ :=
    sync_queue_invariant Platform.sample _ _ _ _ n hn
  exact ⟨n, hn, htasks, hle, hqueue, hnodup, hdisjoint, haccount⟩

end DaConcept.Node
