import DaConcept.Lib.Run
import DaConcept.Node.UserApi

set_option autoImplicit false

/-! # A running node

A node is the state its activities share together with the activities: the fetch tasks, the sync
loop, the handlers of requests and the mutations. One event is one step of one activity, or the
start of one. Nothing orders the events, so a run of events is any interleaving; what an event
carries is whatever the environment chooses, the replies of peers included. -/

namespace DaConcept.Node

/-- A running node. -/
structure DaNode where
  shared : Shared
  tasks : List FetchTask
  loop : SyncLoop
  handlers : List Handler
  mutations : List Mutation

/-- A node after its start: the queue is empty and nothing runs but the sync loop. -/
def DaNode.start (config : P2PConfig) (peers : Peers) (db : Db) : DaNode where
  shared := ⟨db, { config, peers, blobQueue := [], inProgress := ∅ }⟩
  tasks := []
  loop := .process
  handlers := []
  mutations := []

/-- What can happen to a node. -/
inductive Event where
  /-- A peer's request arrives. -/
  | request (request : Option RequestType)
  /-- A user calls `addBlob`. -/
  | addBlob (currentUser : Option User) (blobInput : BlobInput)
  /-- A user calls `deleteBlob`. -/
  | deleteBlob (currentUser : Option User) (blobId : Uuid)
  /-- The `i`-th handler goes on. -/
  | handler (i : Nat) (inp : HandlerInput)
  /-- The `i`-th mutation goes on. -/
  | mutation (i : Nat) (inp : MutationInput)
  /-- The `i`-th task goes on. -/
  | task (i : Nat) (inp : FetchInput)
  /-- The statement that the `i`-th task comes to fails. -/
  | failTask (i : Nat)
  /-- The sync loop goes on. -/
  | loop (inp : LoopInput)

/-- The request that an event brings. -/
def Event.request? : Event → Option (Option RequestType)
  | .request r => some r
  | _ => none

/-- The mutation that an event starts. -/
def Event.mutation? : Event → Option Mutation
  | .addBlob currentUser blobInput => some (.addBlob currentUser blobInput)
  | .deleteBlob currentUser blobId => some (.deleteBlob currentUser blobId)
  | _ => none

/-- The write section that ends a task. -/
def SyncManager.endTask (m : SyncManager) (blobId : Uuid) : SyncManager :=
  { m with inProgress := m.inProgress.erase blobId }

/-- `fetch_and_store_blob` returns the error of the statement it comes to; `none` if the task does
    not come to one. -/
def FetchTask.fail (t : FetchTask) : Option FetchPc :=
  match t.pc with
  | .checkExists _ | .markPeers (_ :: _) | .tryPeer (_ :: _) | .markFailed .. | .store ..
  | .markCompleted .. => some (.finished (.error (.databaseConnection .io)))
  | _ => none

theorem FetchTask.fail_eq_some {t : FetchTask} {pc : FetchPc} (h : t.fail = some pc) :
    pc = .finished (.error (.databaseConnection .io)) := by
  unfold FetchTask.fail at h
  split at h <;> cases h <;> rfl

/-- One step of a node; `none` if the event cannot happen. -/
def DaNode.step (platform : Platform) (n : DaNode) : Event → Option DaNode
  | .request request => some { n with handlers := n.handlers ++ [.sync request] }
  | .addBlob currentUser blobInput =>
      some { n with mutations := n.mutations ++ [.addBlob currentUser blobInput] }
  | .deleteBlob currentUser blobId =>
      some { n with mutations := n.mutations ++ [.deleteBlob currentUser blobId] }
  | .handler i inp => do
      let h ← n.handlers[i]?
      let (shared, h') ← h.step platform inp n.shared
      some { n with shared, handlers := n.handlers.set i h' }
  | .mutation i inp => do
      let m ← n.mutations[i]?
      let (shared, m') ← m.step platform inp n.shared
      some { n with shared, mutations := n.mutations.set i m' }
  | .task i inp => do
      let t ← n.tasks[i]?
      match t.pc with
      | .finished _ =>
          some { n with
            shared := { n.shared with manager := n.shared.manager.endTask t.blobId }
            tasks := n.tasks.eraseIdx i }
      | _ =>
          let (shared, pc) ← t.step platform n.shared inp
          some { n with shared, tasks := n.tasks.set i { t with pc } }
  | .failTask i => do
      let t ← n.tasks[i]?
      let pc ← t.fail
      some { n with tasks := n.tasks.set i { t with pc } }
  | .loop inp => do
      let (shared, tasks, loop) ← n.loop.step n.shared n.tasks inp
      some { n with shared, tasks, loop }

/-! ## What each kind of step comes to -/

/-- A step of the sync loop spawns the tasks of a batch and waits for them, or leaves the tasks as
    they are; it stops waiting when there are none. -/
theorem SyncLoop.step_tasks {s s' : Shared} {tasks tasks' : List FetchTask} {inp : LoopInput}
    {l l' : SyncLoop} (h : l.step s tasks inp = some (s', tasks', l')) :
    (l = .process ∧ s.manager.batch ≠ [] ∧ tasks' = tasks ++ s.manager.batch.map FetchTask.spawn
      ∧ l' = .join) ∨
    ((l = .process → s.manager.batch = []) ∧ tasks' = tasks ∧ l' ≠ .join ∧
      (l = .join → tasks = [])) := by
  cases SyncLoop.next_of_step h with
  | spawned hbatch => exact Or.inl ⟨rfl, hbatch, rfl, rfl⟩
  | noJobs hbatch => simp [hbatch]
  | joined hidle => simp [hidle]
  | _ => simp

theorem SyncLoop.mem_tasks_step {s s' : Shared} {tasks tasks' : List FetchTask} {inp : LoopInput}
    {l l' : SyncLoop} {t' : FetchTask} (h : l.step s tasks inp = some (s', tasks', l'))
    (ht' : t' ∈ tasks') :
    t' ∈ tasks ∨ ∃ job ∈ s.manager.batch, t' = FetchTask.spawn job := by
  rcases SyncLoop.step_tasks h with ⟨-, -, rfl, -⟩ | ⟨-, rfl, -, -⟩
  · rcases List.mem_append.1 ht' with hold | hnew
    · exact Or.inl hold
    · obtain ⟨job, hjob, rfl⟩ := List.mem_map.1 hnew
      exact Or.inr ⟨job, hjob, rfl⟩
  · exact Or.inl ht'

section

variable {platform : Platform} {n n' : DaNode}

theorem DaNode.step_handler_eq_some {i : Nat} {inp : HandlerInput} :
    n.step platform (.handler i inp) = some n' ↔ ∃ h, n.handlers[i]? = some h ∧
      ∃ shared h', h.step platform inp n.shared = some (shared, h') ∧
        { n with shared, handlers := n.handlers.set i h' } = n' := by
  simp only [DaNode.step, Option.bind_eq_bind, Option.bind_eq_some_iff, Prod.exists,
    Option.some.injEq]

theorem DaNode.step_mutation_eq_some {i : Nat} {inp : MutationInput} :
    n.step platform (.mutation i inp) = some n' ↔ ∃ m, n.mutations[i]? = some m ∧
      ∃ shared m', m.step platform inp n.shared = some (shared, m') ∧
        { n with shared, mutations := n.mutations.set i m' } = n' := by
  simp only [DaNode.step, Option.bind_eq_bind, Option.bind_eq_some_iff, Prod.exists,
    Option.some.injEq]

/-- The step of a task: the task ends, or `fetch_and_store_blob` goes on. -/
theorem DaNode.step_task_eq_some {i : Nat} {inp : FetchInput} :
    n.step platform (.task i inp) = some n' ↔ ∃ t, n.tasks[i]? = some t ∧
      ((∃ result, t.pc = .finished result ∧
        { n with
          shared := { n.shared with manager := n.shared.manager.endTask t.blobId }
          tasks := n.tasks.eraseIdx i } = n') ∨
      ∃ shared pc, t.step platform n.shared inp = some (shared, pc) ∧
        { n with shared, tasks := n.tasks.set i { t with pc } } = n') := by
  simp only [DaNode.step, Option.bind_eq_bind, Option.bind_eq_some_iff]
  refine exists_congr fun t => and_congr_right fun _ => ?_
  rcases t with ⟨blobId, expectedHash, pc⟩
  cases pc with
  | finished result => simp [FetchTask.step]
  | _ => simp [Option.bind_eq_some_iff]

theorem DaNode.step_failTask_eq_some {i : Nat} :
    n.step platform (.failTask i) = some n' ↔ ∃ t, n.tasks[i]? = some t ∧
      ∃ pc, t.fail = some pc ∧ { n with tasks := n.tasks.set i { t with pc } } = n' := by
  simp only [DaNode.step, Option.bind_eq_bind, Option.bind_eq_some_iff, Option.some.injEq]

theorem DaNode.step_loop_eq_some {inp : LoopInput} :
    n.step platform (.loop inp) = some n' ↔ ∃ shared tasks loop,
      n.loop.step n.shared n.tasks inp = some (shared, tasks, loop) ∧
        { n with shared, tasks, loop } = n' := by
  simp only [DaNode.step, Option.bind_eq_bind, Option.bind_eq_some_iff, Prod.exists,
    Option.some.injEq]

/-- Where the tasks of a node come from: a task was there, was spawned for a queued job, or is one
    that was there and went on. -/
theorem DaNode.mem_tasks_step {e : Event} {t' : FetchTask} (h : n.step platform e = some n')
    (ht' : t' ∈ n'.tasks) :
    t' ∈ n.tasks ∨ (∃ job ∈ n.shared.manager.blobQueue, t' = FetchTask.spawn job) ∨
    ∃ t ∈ n.tasks, t' = { t with pc := t'.pc } ∧
      (t.fail = some t'.pc ∨ ∃ i inp shared, e = .task i inp ∧ n.tasks[i]? = some t ∧
        t.step platform n.shared inp = some (shared, t'.pc)) := by
  cases e with
  | handler i inp =>
      obtain ⟨hd, hi, s', hd', hstep, rfl⟩ := DaNode.step_handler_eq_some.1 h
      exact Or.inl ht'
  | mutation i inp =>
      obtain ⟨m, hi, s', m', hstep, rfl⟩ := DaNode.step_mutation_eq_some.1 h
      exact Or.inl ht'
  | task i inp =>
      obtain ⟨t, hi, hend | hgo⟩ := DaNode.step_task_eq_some.1 h
      · obtain ⟨result, hpc, rfl⟩ := hend
        exact Or.inl (List.mem_of_mem_eraseIdx ht')
      · obtain ⟨s', pc, hstep, rfl⟩ := hgo
        rcases List.mem_or_eq_of_mem_set ht' with hold | rfl
        · exact Or.inl hold
        · exact Or.inr (Or.inr ⟨t, List.mem_of_getElem? hi, rfl,
            Or.inr ⟨i, inp, s', rfl, hi, hstep⟩⟩)
  | failTask i =>
      obtain ⟨t, hi, pc, hpc, rfl⟩ := DaNode.step_failTask_eq_some.1 h
      rcases List.mem_or_eq_of_mem_set ht' with hold | rfl
      · exact Or.inl hold
      · exact Or.inr (Or.inr ⟨t, List.mem_of_getElem? hi, rfl, Or.inl hpc⟩)
  | loop inp =>
      obtain ⟨s', tasks', l', hstep, rfl⟩ := DaNode.step_loop_eq_some.1 h
      rcases SyncLoop.mem_tasks_step hstep ht' with hold | ⟨job, hjob, rfl⟩
      · exact Or.inl hold
      · exact Or.inr (Or.inl ⟨job, List.mem_of_mem_take hjob, rfl⟩)
  | _ =>
      cases h
      exact Or.inl ht'

/-- Where the handlers of a node come from: a handler was there, is that of a new request, or went
    on. -/
theorem DaNode.handlers_step {e : Event} {i : Nat} {hd' : Handler}
    (h : n.step platform e = some n') (hi : n'.handlers[i]? = some hd') :
    n.handlers[i]? = some hd' ∨
    (∃ request, e = .request request ∧ i = n.handlers.length ∧ hd' = .sync request) ∨
    ∃ inp hd shared, e = .handler i inp ∧ n.handlers[i]? = some hd ∧
      hd.step platform inp n.shared = some (shared, hd') := by
  cases e with
  | request request =>
      cases h
      rcases Nat.lt_or_ge i n.handlers.length with hlt | hle
      · exact Or.inl ((List.getElem?_append_left hlt).symm.trans hi)
      · have hnew := (List.getElem?_append_right hle).symm.trans hi
        obtain ⟨hlt, hhd⟩ := List.getElem?_eq_some_iff.1 hnew
        rw [List.length_singleton] at hlt
        refine Or.inr (Or.inl ⟨request, rfl, by omega, ?_⟩)
        rw [← hhd, List.getElem_singleton]
  | handler j inp =>
      obtain ⟨hd, hj, s', hd₁, hstep, rfl⟩ := DaNode.step_handler_eq_some.1 h
      by_cases hij : j = i
      · subst hij
        rw [List.getElem?_set_self (List.getElem?_eq_some_iff.1 hj).1] at hi
        obtain rfl := Option.some.inj hi
        exact Or.inr (Or.inr ⟨inp, hd, s', rfl, hj, hstep⟩)
      · rw [List.getElem?_set_ne hij] at hi
        exact Or.inl hi
  | mutation j inp =>
      obtain ⟨m, hj, s', m', hstep, rfl⟩ := DaNode.step_mutation_eq_some.1 h
      exact Or.inl hi
  | task j inp =>
      obtain ⟨t, hj, ⟨result, hpc, rfl⟩ | ⟨s', pc, hstep, rfl⟩⟩ := DaNode.step_task_eq_some.1 h
      · exact Or.inl hi
      · exact Or.inl hi
  | failTask j =>
      obtain ⟨t, hj, pc, hpc, rfl⟩ := DaNode.step_failTask_eq_some.1 h
      exact Or.inl hi
  | loop inp =>
      obtain ⟨s', tasks', l', hstep, rfl⟩ := DaNode.step_loop_eq_some.1 h
      exact Or.inl hi
  | _ =>
      cases h
      exact Or.inl hi

theorem DaNode.mem_handlers_step {e : Event} {hd' : Handler} (h : n.step platform e = some n')
    (hhd' : hd' ∈ n'.handlers) :
    hd' ∈ n.handlers ∨ (∃ request, e = .request request ∧ hd' = .sync request) ∨
    ∃ i inp hd shared, e = .handler i inp ∧ n.handlers[i]? = some hd ∧
      hd.step platform inp n.shared = some (shared, hd') := by
  obtain ⟨i, hi⟩ := List.getElem?_of_mem hhd'
  rcases DaNode.handlers_step h hi with
    hold | ⟨request, rfl, -, rfl⟩ | ⟨inp, hd, s, rfl, hi', hstep⟩
  · exact Or.inl (List.mem_of_getElem? hold)
  · exact Or.inr (Or.inl ⟨request, rfl, rfl⟩)
  · exact Or.inr (Or.inr ⟨i, inp, hd, s, rfl, hi', hstep⟩)

/-- Where the mutations of a node come from: a mutation was there, was started, or went on. -/
theorem DaNode.mutations_step {e : Event} {i : Nat} {m' : Mutation}
    (h : n.step platform e = some n') (hi : n'.mutations[i]? = some m') :
    n.mutations[i]? = some m' ∨ (e.mutation? = some m' ∧ i = n.mutations.length) ∨
    ∃ inp m shared, e = .mutation i inp ∧ n.mutations[i]? = some m ∧
      m.step platform inp n.shared = some (shared, m') := by
  have hnew {m : Mutation} (hi : (n.mutations ++ [m])[i]? = some m') :
      n.mutations[i]? = some m' ∨ (m = m' ∧ i = n.mutations.length) := by
    rcases Nat.lt_or_ge i n.mutations.length with hlt | hle
    · exact Or.inl ((List.getElem?_append_left hlt).symm.trans hi)
    · have hlast := (List.getElem?_append_right hle).symm.trans hi
      obtain ⟨hlt, hm⟩ := List.getElem?_eq_some_iff.1 hlast
      rw [List.length_singleton] at hlt
      exact Or.inr ⟨by rw [← hm, List.getElem_singleton], by omega⟩
  cases e with
  | addBlob currentUser blobInput =>
      cases h
      rcases hnew hi with hold | ⟨rfl, hlength⟩
      · exact Or.inl hold
      · exact Or.inr (Or.inl ⟨rfl, hlength⟩)
  | deleteBlob currentUser blobId =>
      cases h
      rcases hnew hi with hold | ⟨rfl, hlength⟩
      · exact Or.inl hold
      · exact Or.inr (Or.inl ⟨rfl, hlength⟩)
  | mutation j inp =>
      obtain ⟨m, hj, s', m₁, hstep, rfl⟩ := DaNode.step_mutation_eq_some.1 h
      by_cases hij : j = i
      · subst hij
        rw [List.getElem?_set_self (List.getElem?_eq_some_iff.1 hj).1] at hi
        obtain rfl := Option.some.inj hi
        exact Or.inr (Or.inr ⟨inp, m, s', rfl, hj, hstep⟩)
      · rw [List.getElem?_set_ne hij] at hi
        exact Or.inl hi
  | handler j inp =>
      obtain ⟨hd, hj, s', hd', hstep, rfl⟩ := DaNode.step_handler_eq_some.1 h
      exact Or.inl hi
  | task j inp =>
      obtain ⟨t, hj, ⟨result, hpc, rfl⟩ | ⟨s', pc, hstep, rfl⟩⟩ := DaNode.step_task_eq_some.1 h
      · exact Or.inl hi
      · exact Or.inl hi
  | failTask j =>
      obtain ⟨t, hj, pc, hpc, rfl⟩ := DaNode.step_failTask_eq_some.1 h
      exact Or.inl hi
  | loop inp =>
      obtain ⟨s', tasks', l', hstep, rfl⟩ := DaNode.step_loop_eq_some.1 h
      exact Or.inl hi
  | request request =>
      cases h
      exact Or.inl hi

theorem DaNode.mem_mutations_step {e : Event} {m' : Mutation} (h : n.step platform e = some n')
    (hm' : m' ∈ n'.mutations) :
    m' ∈ n.mutations ∨ (∃ currentUser blobInput, m' = .addBlob currentUser blobInput) ∨
    (∃ currentUser blobId, m' = .deleteBlob currentUser blobId) ∨
    ∃ i inp m shared, e = .mutation i inp ∧ n.mutations[i]? = some m ∧
      m.step platform inp n.shared = some (shared, m') := by
  obtain ⟨i, hi⟩ := List.getElem?_of_mem hm'
  rcases DaNode.mutations_step h hi with hold | ⟨hstart, -⟩ | ⟨inp, m, s, rfl, hi', hstep⟩
  · exact Or.inl (List.mem_of_getElem? hold)
  · cases e with
    | addBlob currentUser blobInput =>
        exact Or.inr (Or.inl ⟨_, _, (Option.some.inj hstart).symm⟩)
    | deleteBlob currentUser blobId =>
        exact Or.inr (Or.inr (Or.inl ⟨_, _, (Option.some.inj hstart).symm⟩))
    | _ => cases hstart
  · exact Or.inr (Or.inr (Or.inr ⟨i, inp, m, s, rfl, hi', hstep⟩))

/-- One handler is there for every request, and one mutation for every one that was started. -/
theorem DaNode.length_step {e : Event} (h : n.step platform e = some n') :
    n'.handlers.length = n.handlers.length + e.request?.toList.length ∧
      n'.mutations.length = n.mutations.length + e.mutation?.toList.length := by
  cases e with
  | handler i inp =>
      obtain ⟨hd, hi, s', hd', hstep, rfl⟩ := DaNode.step_handler_eq_some.1 h
      simp [Event.request?, Event.mutation?]
  | mutation i inp =>
      obtain ⟨m, hi, s', m', hstep, rfl⟩ := DaNode.step_mutation_eq_some.1 h
      simp [Event.request?, Event.mutation?]
  | task i inp =>
      obtain ⟨t, hi, ⟨result, hpc, rfl⟩ | ⟨s', pc, hstep, rfl⟩⟩ := DaNode.step_task_eq_some.1 h
      · simp [Event.request?, Event.mutation?]
      · simp [Event.request?, Event.mutation?]
  | failTask i =>
      obtain ⟨t, hi, pc, hpc, rfl⟩ := DaNode.step_failTask_eq_some.1 h
      simp [Event.request?, Event.mutation?]
  | loop inp =>
      obtain ⟨s', tasks', l', hstep, rfl⟩ := DaNode.step_loop_eq_some.1 h
      simp [Event.request?, Event.mutation?]
  | _ =>
      cases h
      simp [Event.request?, Event.mutation?]

/-- A handler stays as it is, or does a step. -/
theorem DaNode.handler_step {e : Event} {i : Nat} {hd : Handler}
    (h : n.step platform e = some n') (hi : n.handlers[i]? = some hd) :
    n'.handlers[i]? = some hd ∨ ∃ inp shared hd', e = .handler i inp ∧
      hd.step platform inp n.shared = some (shared, hd') ∧ n'.handlers[i]? = some hd' := by
  obtain ⟨hlt, -⟩ := List.getElem?_eq_some_iff.1 hi
  cases e with
  | request request =>
      cases h
      exact Or.inl ((List.getElem?_append_left hlt).trans hi)
  | handler j inp =>
      obtain ⟨hd₁, hj, s', hd', hstep, rfl⟩ := DaNode.step_handler_eq_some.1 h
      by_cases hij : j = i
      · subst hij
        obtain rfl := Option.some.inj (hi.symm.trans hj)
        refine Or.inr ⟨inp, s', hd', rfl, hstep, ?_⟩
        exact List.getElem?_set_self hlt
      · exact Or.inl (by rw [List.getElem?_set_ne hij, hi])
  | mutation j inp =>
      obtain ⟨m, hj, s', m', hstep, rfl⟩ := DaNode.step_mutation_eq_some.1 h
      exact Or.inl hi
  | task j inp =>
      obtain ⟨t, hj, ⟨result, hpc, rfl⟩ | ⟨s', pc, hstep, rfl⟩⟩ := DaNode.step_task_eq_some.1 h
      · exact Or.inl hi
      · exact Or.inl hi
  | failTask j =>
      obtain ⟨t, hj, pc, hpc, rfl⟩ := DaNode.step_failTask_eq_some.1 h
      exact Or.inl hi
  | loop inp =>
      obtain ⟨s', tasks', l', hstep, rfl⟩ := DaNode.step_loop_eq_some.1 h
      exact Or.inl hi
  | _ =>
      cases h
      exact Or.inl hi

/-- A task stays as it is, or does a step. -/
theorem DaNode.task_step {e : Event} {t : FetchTask} (h : n.step platform e = some n')
    (ht : t ∈ n.tasks) :
    t ∈ n'.tasks ∨ (∃ i inp, e = .task i inp ∧ n.tasks[i]? = some t) ∨
      ∃ i, e = .failTask i ∧ n.tasks[i]? = some t := by
  obtain ⟨k, hk⟩ := List.getElem?_of_mem ht
  cases e with
  | handler i inp =>
      obtain ⟨hd, hi, s', hd', hstep, rfl⟩ := DaNode.step_handler_eq_some.1 h
      exact Or.inl ht
  | mutation i inp =>
      obtain ⟨m, hi, s', m', hstep, rfl⟩ := DaNode.step_mutation_eq_some.1 h
      exact Or.inl ht
  | task i inp =>
      by_cases hik : i = k
      · exact Or.inr (Or.inl ⟨i, inp, rfl, by rw [hik, hk]⟩)
      · obtain ⟨t₁, hi, ⟨result, hpc, rfl⟩ | ⟨s', pc, hstep, rfl⟩⟩ :=
          DaNode.step_task_eq_some.1 h
        · exact Or.inl (List.mem_eraseIdx_iff_getElem?.2 ⟨k, Ne.symm hik, hk⟩)
        · exact Or.inl (List.mem_of_getElem? (by rw [List.getElem?_set_ne hik, hk]))
  | failTask i =>
      by_cases hik : i = k
      · exact Or.inr (Or.inr ⟨i, rfl, by rw [hik, hk]⟩)
      · obtain ⟨t₁, hi, pc, hpc, rfl⟩ := DaNode.step_failTask_eq_some.1 h
        exact Or.inl (List.mem_of_getElem? (by rw [List.getElem?_set_ne hik, hk]))
  | loop inp =>
      obtain ⟨s', tasks', l', hstep, rfl⟩ := DaNode.step_loop_eq_some.1 h
      rcases SyncLoop.step_tasks hstep with ⟨-, -, rfl, -⟩ | ⟨-, rfl, -, -⟩
      · exact Or.inl (List.mem_append_left _ ht)
      · exact Or.inl ht
  | _ =>
      cases h
      exact Or.inl ht

/-- The sync loop moves in its own steps only. -/
theorem DaNode.loop_step {e : Event} (h : n.step platform e = some n') :
    n'.loop = n.loop ∨ ∃ inp, e = .loop inp ∧ ∃ shared tasks,
      n.loop.step n.shared n.tasks inp = some (shared, tasks, n'.loop) := by
  cases e with
  | loop inp =>
      obtain ⟨s', tasks', l', hstep, rfl⟩ := DaNode.step_loop_eq_some.1 h
      exact Or.inr ⟨inp, rfl, s', tasks', hstep⟩
  | handler i inp =>
      obtain ⟨hd, hi, s', hd', hstep, rfl⟩ := DaNode.step_handler_eq_some.1 h
      exact Or.inl rfl
  | mutation i inp =>
      obtain ⟨m, hi, s', m', hstep, rfl⟩ := DaNode.step_mutation_eq_some.1 h
      exact Or.inl rfl
  | task i inp =>
      obtain ⟨t, hi, ⟨result, hpc, rfl⟩ | ⟨s', pc, hstep, rfl⟩⟩ := DaNode.step_task_eq_some.1 h
      · exact Or.inl rfl
      · exact Or.inl rfl
  | failTask i =>
      obtain ⟨t, hi, pc, hpc, rfl⟩ := DaNode.step_failTask_eq_some.1 h
      exact Or.inl rfl
  | _ =>
      cases h
      exact Or.inl rfl

end

/-! ## A sample run

A node that has met one peer, to which a user adds an empty blob and which then announces it, for
the examples. The libraries answer as the real ones do on the inputs that occur. -/

/-- The digests of the empty string and of four zero bytes, and the base64 texts of 0 and 1. -/
def Platform.sample : Platform where
  sha256 content :=
    if content = [] then
      [0xe3, 0xb0, 0xc4, 0x42, 0x98, 0xfc, 0x1c, 0x14, 0x9a, 0xfb, 0xf4,
       0xc8, 0x99, 0x6f, 0xb9, 0x24, 0x27, 0xae, 0x41, 0xe4, 0x64, 0x9b,
       0x93, 0x4c, 0xa4, 0x95, 0x99, 0x1b, 0x78, 0x52, 0xb8, 0x55]
    else
      [0xdf, 0x3f, 0x61, 0x98, 0x04, 0xa9, 0x2f, 0xdb, 0x40, 0x57, 0x19,
       0x2d, 0xc4, 0x3d, 0xd7, 0x48, 0xea, 0x77, 0x8a, 0xdc, 0x52, 0xbc,
       0x49, 0x8c, 0xe8, 0x05, 0x24, 0xc0, 0x14, 0xb8, 0x11, 0x19]
  base64 := { encode := fun bs => if bs = [0] then "AA==" else "AQ==", decode := fun _ => .ok [0] }
  toRfc3339 _ := "1970-01-01T00:00:00+00:00"
  parseFromRfc3339 _ := some 0

/-- A UUID all of whose bytes are the same. -/
def Uuid.sample (byte : UInt8) : Uuid := ⟨List.replicate 16 byte, by simp⟩

/-- A user whose private key is zero. -/
def User.sample : User where
  id := Uuid.sample 1
  username := "alice"
  passwordHash := "hash"
  privateKey := "AA=="
  email := none
  createdAt := 0

/-- The row of the blob that the sample user adds. -/
def BlobRow.sample : BlobRow :=
  addedRow Platform.sample 0 (Uuid.sample 2) User.sample ⟨"", none, none⟩ [0, 0, 0, 0] "AQ=="

/-- That blob, decoded. -/
def Blob.sample : Blob where
  id := Uuid.sample 2
  content := [0, 0, 0, 0]
  metadata := none
  contentType := none
  size := 4
  hash := some (Platform.sample.contentHash [0, 0, 0, 0])
  ownerId := Uuid.sample 1
  publicKey := "AQ=="
  createdAt := 0
  deletedAt := none

/-- What an honest peer that has the sample blob replies to the sample node. -/
def SyncResponse.sample : SyncResponse :=
  fetchedReply Platform.sample ⟨(Uuid.sample 2).toString, "node", true⟩ Blob.sample

/-- The row of the blob on a node that has fetched it. -/
def BlobRow.sampleCopy : BlobRow :=
  receivedRow Platform.sample 0 (Blob.sample.protoMetadata Platform.sample)
    (Blob.sample.protoBlob Platform.sample true)

/-- The sample node at its start. -/
def DaNode.sample : DaNode :=
  DaNode.start { nodeId := "node", listenAddr := "127.0.0.1:1", maxConcurrentSyncs := 1 }
    .empty .empty

def HandlerInput.sample : HandlerInput := ⟨0, []⟩

def MutationInput.sample : MutationInput :=
  ⟨0, Uuid.sample 2, fun _ => ⟨List.replicate 32 0, by simp⟩⟩

/-- The task meets its only peer, which replies `reply`. -/
def FetchInput.sample (reply : RpcReply) : FetchInput :=
  ⟨0, [("peer", ⟨"http://peer"⟩)], reply⟩

/-- The loop finds the sample blob, pending at the only peer, which accepts the announcement. -/
def LoopInput.sample : LoopInput where
  now := 0
  blobScan := [BlobRow.sample]
  statusScan := [⟨(Uuid.sample 2).cell, "peer", .pending, some 0, none⟩]
  reply := .ok ⟨.success, "Blob announcement accepted", some (.announce true)⟩

/-- A peer shakes hands and the sample user adds a blob, which is queued. -/
def Event.sampleQueue : List Event :=
  [.request (some (.handshake "peer" "http://peer")), .handler 0 HandlerInput.sample,
   .addBlob (some User.sample) ⟨"", none, none⟩, .mutation 0 MutationInput.sample,
   .mutation 0 MutationInput.sample]

/-- After that, the task for the blob marks it as pending for the peer. -/
def Event.sampleAdd : List Event :=
  Event.sampleQueue ++ [Event.loop LoopInput.sample] ++
    List.replicate 5 (Event.task 0 (FetchInput.sample (.error .unavailable)))

/-- The node announces the blob, and the peer accepts. -/
def Event.sampleAnnounce : List Event := List.replicate 6 (.loop LoopInput.sample)

/-- The peer announces the blob to the sample node, and the task queued for it gets a reply, up to
    the INSERT. -/
def Event.sampleReceive (reply : RpcReply) : List Event :=
  [Event.request (some (.handshake "peer" "http://peer")), Event.handler 0 HandlerInput.sample,
   Event.request (some (.announce (some (Blob.sample.announcement Platform.sample)))),
   Event.handler 1 HandlerInput.sample, Event.handler 1 HandlerInput.sample,
   Event.loop LoopInput.sample] ++
    List.replicate 4 (Event.task 0 (FetchInput.sample reply))

/-- The sample node stores the blob that the peer has announced. -/
def Event.sampleStore : List Event :=
  Event.sampleReceive (.ok SyncResponse.sample) ++
    List.replicate 3 (Event.task 0 (FetchInput.sample (.error .unavailable)))

/-- The peer fetches the blob. -/
def Event.sampleFetch : List Event :=
  [.request (some (.fetch ⟨(Uuid.sample 2).toString, "peer", true⟩)),
   .handler 1 HandlerInput.sample, .handler 1 HandlerInput.sample]

end DaConcept.Node
