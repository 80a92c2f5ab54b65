import DaConcept.Node.Queue

set_option autoImplicit false

/-! # Accepted announcements

`handle_announce` answers that it accepts an announcement without asking `queue_blob_fetch` what it
did with it, and that drops the announcement if the id is in progress, under whatever hash. So an
accepted announcement is kept exactly if no other hash of its id, and no task that has already
returned, is in its way. -/

namespace DaConcept.Node

/-! ## What a handler serves -/

/-- The requests that arrive in a run, in order: the `i`-th is the one that the `i`-th handler
    serves. -/
def Event.requests (es : List Event) : List (Option RequestType) := es.filterMap Event.request?

/-- The handlers of a node serve `requests`: one that has not begun has its request before it, and
    one that comes to `queue_blob_fetch` has parsed the id of an announcement. -/
structure DaNode.Serves (requests : List (Option RequestType)) (n : DaNode) : Prop where
  length_eq : n.handlers.length = requests.length
  sync : ∀ (i : Nat) request, n.handlers[i]? = some (.sync request) → requests[i]? = some request
  announce : ∀ (i : Nat) blobId hash, n.handlers[i]? = some (.announceQueue blobId hash) →
    ∃ metadata, requests[i]? = some (some (.announce (some metadata))) ∧
      Uuid.parse metadata.id = some blobId ∧ metadata.hash = hash

section

variable {platform : Platform} {n n' : DaNode}

theorem serves_start (config : P2PConfig) (peers : Peers) (db : Db) :
    (DaNode.start config peers db).Serves [] where
  length_eq := rfl
  sync := by simp [DaNode.start]
  announce := by simp [DaNode.start]

theorem serves_step {requests : List (Option RequestType)} {e : Event} (hn : n.Serves requests)
    (h : n.step platform e = some n') : n'.Serves (requests ++ e.request?.toList) where
  length_eq := by
    rw [(DaNode.length_step h).1, hn.length_eq, List.length_append]
  sync := by
    intro i request hi
    rcases DaNode.handlers_step h hi with hold | ⟨r, rfl, rfl, hnew⟩ | ⟨inp, hd, s, rfl, -, hstep⟩
    · have hreq := hn.sync i request hold
      rwa [List.getElem?_append_left (List.getElem?_eq_some_iff.1 hreq).1]
    · cases hnew
      rw [hn.length_eq, List.getElem?_append_right le_rfl, Nat.sub_self]
      rfl
    · cases Handler.next_of_step hstep
  announce := by
    intro i blobId hash hi
    rcases DaNode.handlers_step h hi with hold | ⟨r, rfl, rfl, hnew⟩ |
      ⟨inp, hd, s, rfl, hd_at, hstep⟩
    · obtain ⟨metadata, hreq, hmetadata⟩ := hn.announce i blobId hash hold
      refine ⟨metadata, ?_, hmetadata⟩
      rwa [List.getElem?_append_left (List.getElem?_eq_some_iff.1 hreq).1]
    · cases hnew
    · cases Handler.next_of_step hstep with
      | @queue metadata _ hparse =>
          have hreq := hn.sync i _ hd_at
          refine ⟨metadata, ?_, hparse, rfl⟩
          rwa [List.getElem?_append_left (List.getElem?_eq_some_iff.1 hreq).1]

theorem serves_exec {requests : List (Option RequestType)} {es : List Event}
    (hn : n.Serves requests) (h : Run.exec (DaNode.step platform) n es = some n') :
    n'.Serves (requests ++ Event.requests es) :=
  Run.exec_collected (I := fun requests n => n.Serves requests)
    (fun _ _ _ _ hn hstep => serves_step hn hstep) hn h

/-! ## Kept or lost -/

/-- `fetch_and_store_blob` has not returned yet. -/
def FetchTask.unfinished (t : FetchTask) : Bool :=
  match t.pc with
  | .finished _ => false
  | _ => true

/-- The job waits in the queue, or an unfinished task works on it. -/
def DaNode.Keeps (n : DaNode) (job : Uuid × String) : Prop :=
  job ∈ n.shared.manager.blobQueue ∨ ∃ t ∈ n.tasks, t.job = job ∧ t.unfinished

instance (n : DaNode) (job : Uuid × String) : Decidable (n.Keeps job) :=
  inferInstanceAs (Decidable (_ ∨ ∃ t ∈ n.tasks, _))

/-- Every job and every task for the id has this hash, and no such task has returned. -/
def DaNode.Undisputed (n : DaNode) (blobId : Uuid) (hash : String) : Prop :=
  (∀ job ∈ n.shared.manager.blobQueue, job.1 = blobId → job.2 = hash) ∧
  ∀ t ∈ n.tasks, t.blobId = blobId → t.expectedHash = hash ∧ t.unfinished

/-- **What `queue_blob_fetch` does with a job**: it is kept exactly if it is undisputed. -/
theorem keeps_queueBlobFetch_iff {limit : Nat} {enqueued popped : List (Uuid × String)}
    (hn : QueueInv limit enqueued popped n) (blobId : Uuid) (hash : String)
    (hqueue : n'.shared.manager = n.shared.manager.queueBlobFetch blobId hash)
    (htasks : n'.tasks = n.tasks) :
    n'.Keeps (blobId, hash) ↔ n.Undisputed blobId hash := by
  have hbusy := hn.inv.busy_iff blobId
  rw [n.queue_keys, List.mem_append] at hbusy
  rw [DaNode.Keeps, hqueue, htasks, SyncManager.queueBlobFetch]
  by_cases hfree : blobId ∉ n.shared.manager.inProgress
  · -- the id is free: the job is queued, and there is nothing to dispute it
    have hnone := not_or.1 (mt hbusy.2 hfree)
    rw [if_pos hfree]
    refine iff_of_true (Or.inl (List.mem_append_right _ (List.mem_singleton_self _))) ⟨?_, ?_⟩
    · intro job hjob hid
      exact absurd (List.mem_map.2 ⟨job, hjob, hid⟩) hnone.1
    · intro t ht hid
      exact absurd (List.mem_map.2 ⟨t, ht, hid⟩) hnone.2
  · -- the id is in progress: the job is dropped, and kept only if it is the one that is there
    rw [if_neg hfree]
    obtain ⟨hqueued, hrunning, hdisjoint⟩ := List.nodup_append'.1 hn.nodup
    constructor
    · rintro (hjob | ⟨t, ht, hjob, hunfinished⟩)
      · have hkey := List.mem_map_of_mem (f := Prod.fst) hjob
        refine ⟨?_, ?_⟩
        · intro job' hjob' hid
          exact congrArg Prod.snd (List.inj_on_of_nodup_map hqueued hjob' hjob hid)
        · intro t ht hid
          exact absurd (List.mem_map.2 ⟨t, ht, hid⟩) (hdisjoint hkey)
      · obtain ⟨rfl, rfl⟩ := Prod.mk.inj hjob
        have hkey := List.mem_map_of_mem (f := FetchTask.blobId) ht
        refine ⟨?_, ?_⟩
        · intro job' hjob' hid
          exact absurd hkey (hdisjoint (List.mem_map.2 ⟨job', hjob', hid⟩))
        · intro t' ht' hid
          rw [List.inj_on_of_nodup_map hrunning ht' ht hid]
          exact ⟨rfl, hunfinished⟩
    · rintro ⟨hjobs, htasks⟩
      rcases hbusy.1 (not_not.1 hfree) with hkey | hkey
      · obtain ⟨⟨id, hash'⟩, hjob, rfl⟩ := List.mem_map.1 hkey
        obtain rfl : hash' = hash := hjobs _ hjob rfl
        exact Or.inl hjob
      · obtain ⟨t, ht, rfl⟩ := List.mem_map.1 hkey
        obtain ⟨rfl, hunfinished⟩ := htasks t ht rfl
        exact Or.inr ⟨t, ht, rfl, hunfinished⟩

/-- The handler has replied that it accepts an announcement. -/
def Handler.accepted : Handler → Bool
  | .replied reply =>
      match PeerClient.announceBlob reply with
      | .ok accepted => accepted
      | .error _ => false
  | _ => false

theorem Handler.Next.of_accepted {db : Db} {h h' : Handler} (hnext : h.Next db h')
    (haccepted : h'.accepted = true) : ∃ blobId hash, h = .announceQueue blobId hash := by
  cases hnext with
  | accept blobId hash reply => exact ⟨blobId, hash, rfl⟩
  | @reply _ reply hne =>
      simp only [Handler.accepted] at haccepted
      split at haccepted
      · next hok => exact absurd (haccepted ▸ hok) hne
      · cases haccepted
  | _ => cases haccepted

/-- **Which accepted announcements are kept.** When the handler of an announcement answers that it
    accepts it, the announced job is in the queue or with an unfinished task right after exactly if
    every job and every task for its id had the announced hash, and no such task had returned. -/
theorem accepted_kept_iff (platform : Platform) (config : P2PConfig) (peers : Peers) (db : Db)
    (es : List Event) (n n' : DaNode) (i : Nat) (inp : HandlerInput) (metadata : BlobMetadata)
    (hrun : Run.exec (DaNode.step platform) (DaNode.start config peers db) es = some n)
    (hrequest : (Event.requests es)[i]? = some (some (.announce (some metadata))))
    (hstep : n.step platform (.handler i inp) = some n')
    (haccepted : (n'.handlers[i]?).any Handler.accepted = true) :
    ∃ blobId, Uuid.parse metadata.id = some blobId ∧
      (n'.Keeps (blobId, metadata.hash) ↔ n.Undisputed blobId metadata.hash) := by
  have hqueue := queueInv_exec (queueInv_start config peers db) hrun
  have hserves := serves_exec (serves_start config peers db) hrun
  obtain ⟨hd, hi, s', hd', hgo, rfl⟩ := DaNode.step_handler_eq_some.1 hstep
  rw [List.getElem?_set_self (List.getElem?_eq_some_iff.1 hi).1, Option.any_some] at haccepted
  -- only the handler at `queue_blob_fetch` accepts, and it serves the announcement
  obtain ⟨blobId, hash, rfl⟩ := (Handler.next_of_step hgo).of_accepted haccepted
  obtain ⟨md, hreq, hparse, rfl⟩ := hserves.announce i blobId hash hi
  rw [List.nil_append] at hreq
  rw [hrequest] at hreq
  cases hreq
  refine ⟨blobId, hparse, keeps_queueBlobFetch_iff hqueue blobId metadata.hash ?_ rfl⟩
  cases hgo
  rfl

end

/-- A peer announces the sample blob with this hash, and its handler comes to `queue_blob_fetch`. -/
def Event.sampleAnnouncement (i : Nat) (hash : String) : List Event :=
  [.request (some (.announce (some { Blob.sample.announcement Platform.sample with hash }))),
   .handler i HandlerInput.sample]

/-- The first announcement of the sample blob is kept. -/
theorem accepted_kept_sample :
    ∃ n n' : DaNode,
      Run.exec (DaNode.step Platform.sample) DaNode.sample (Event.sampleAnnouncement 0 "right")
        = some n ∧
      n.step Platform.sample (.handler 0 HandlerInput.sample) = some n' ∧
      ∃ blobId, n'.Keeps (blobId, "right") := by
  have hrun : (Run.exec (DaNode.step Platform.sample) DaNode.sample
      (Event.sampleAnnouncement 0 "right")).any (fun n =>
        (n.step Platform.sample (.handler 0 HandlerInput.sample)).any (fun n' =>
          n.shared.manager.blobQueue = [] ∧ n.tasks.length = 0 ∧
          (n'.handlers[0]?).any Handler.accepted = true)) = true := by decide +kernel
  obtain ⟨n, hn, hany⟩ := (Option.any_eq_true _ _).1 hrun
  obtain ⟨n', hn', hcond⟩ := (Option.any_eq_true _ _).1 hany
  obtain ⟨hqueue, htasks, haccepted⟩ : _ ∧ _ ∧ _ := by simpa using hcond
  obtain ⟨blobId, -, hkeeps⟩ := accepted_kept_iff Platform.sample _ _ _ _ n n' 0 _ _ hn rfl hn'
    (by simpa using haccepted)
  exact ⟨n, n', hn, hn', blobId, hkeeps.2 ⟨by simp [hqueue], by simp [htasks]⟩⟩

/-- A peer announces the sample blob under another hash first. The announcement of the next peer
    is accepted and lost. -/
theorem accepted_lost :
    ∃ n n' : DaNode,
      Run.exec (DaNode.step Platform.sample) DaNode.sample
        (Event.sampleAnnouncement 0 "wrong" ++ [.handler 0 HandlerInput.sample] ++
          Event.sampleAnnouncement 1 "right") = some n ∧
      n.step Platform.sample (.handler 1 HandlerInput.sample) = some n' ∧
      (n'.handlers[1]?).any Handler.accepted = true ∧
      ¬ n'.Keeps (Uuid.sample 2, "right") := by
  have hrun : (Run.exec (DaNode.step Platform.sample) DaNode.sample
      (Event.sampleAnnouncement 0 "wrong" ++ [.handler 0 HandlerInput.sample] ++
        Event.sampleAnnouncement 1 "right")).any (fun n =>
        (n.step Platform.sample (.handler 1 HandlerInput.sample)).any (fun n' =>
          (n'.handlers[1]?).any Handler.accepted = true ∧
          ¬ n'.Keeps (Uuid.sample 2, "right"))) = true := by decide +kernel
  obtain ⟨n, hn, hany⟩ := (Option.any_eq_true _ _).1 hrun
  obtain ⟨n', hn', hcond⟩ := (Option.any_eq_true _ _).1 hany
  exact ⟨n, n', hn, hn', of_decide_eq_true hcond⟩

end DaConcept.Node
