import DaConcept.Node.Integrity
import DaConcept.Node.Links

set_option autoImplicit false

/-! # What `completed` means

`fetch_and_store_blob` records that a peer has completed a blob after it got the blob from there.
`handle_fetch` records it while it builds the reply, before the peer has anything: the row is a
promise, which comes true if the task that asked gets this reply and stores what it carries. As long
as no step breaks a promise, every completed row is a fact, a reply on its way to a task that waits,
or a task at its INSERT. -/

namespace DaConcept.Node

/-! ## Blobs on their way -/

/-- The task comes to `store_received_blob`. -/
def FetchTask.storing (t : FetchTask) : Bool :=
  match t.pc with
  | .store .. => true
  | _ => false

/-- A task of the node holds the blob and comes to the INSERT. -/
def DaNode.Storing (n : DaNode) (blobId : Uuid) : Prop :=
  ∃ t ∈ n.tasks, t.blobId = blobId ∧ t.storing = true

/-- The handler has replied with a blob. -/
def Handler.delivers : Handler → Bool
  | .replied reply =>
      match PeerClient.fetchBlob reply with
      | .ok (some _) => true
      | _ => false
  | _ => false

instance (n : DaNode) (blobId : Uuid) : Decidable (n.Storing blobId) :=
  inferInstanceAs (Decidable (∃ t ∈ n.tasks, t.blobId = blobId ∧ t.storing = true))

section

variable {platform : Platform} {n n' : DaNode} {e : Event} {blobId : Uuid}

theorem FetchTask.storing_eq_true_iff {t : FetchTask} : t.storing = true ↔
    ∃ peerId metadata protoBlob now, t.pc = .store peerId metadata protoBlob now := by
  obtain ⟨b, hash, pc⟩ := t
  cases pc <;> simp [FetchTask.storing]

theorem Handler.delivers_eq_true_iff {hd : Handler} : hd.delivers = true ↔
    ∃ reply protoBlob, hd = .replied reply ∧ PeerClient.fetchBlob reply = .ok (some protoBlob) := by
  cases hd with
  | replied reply =>
      simp only [Handler.delivers]
      split
      · next protoBlob hfetch => simp [hfetch]
      · next hne => simpa using hne
  | _ => simp [Handler.delivers]

/-- A task at the INSERT leaves its blob on the node, or fails there. -/
theorem DaNode.Storing.step (hn : n.Storing blobId)
    (hstore : ∀ t ∈ n.tasks, ∀ peerId metadata protoBlob now,
      t.pc = .store peerId metadata protoBlob now → Uuid.parse metadata.id = some t.blobId)
    (h : n.step platform e = some n') :
    n'.Has blobId ∨ n'.Storing blobId ∨ ∃ k t, e = .failTask k ∧ n.tasks[k]? = some t ∧
      t.blobId = blobId ∧ t.storing = true := by
  obtain ⟨t, ht, rfl, hstoring⟩ := hn
  obtain ⟨peerId, metadata, protoBlob, now, hpc⟩ := FetchTask.storing_eq_true_iff.1 hstoring
  rcases DaNode.task_step h ht with hsame | ⟨k, inp, rfl, hk⟩ | ⟨k, rfl, hk⟩
  · exact Or.inr (Or.inl ⟨t, hsame, rfl, hstoring⟩)
  · exact Or.inl (DaNode.has_of_store h hk hpc (hstore t ht _ _ _ _ hpc))
  · exact Or.inr (Or.inr ⟨k, t, rfl, hk, rfl, hstoring⟩)

/-- A reply with the expected hash brings the task that waits for it to the INSERT. -/
theorem DaNode.storing_of_reply (hqueued : n.Queued) {t : FetchTask} (ht : t ∈ n.tasks)
    {peerId : String} {peer : PeerClient} {rest : List (String × PeerClient)}
    (hpc : t.pc = .awaitReply peerId peer rest) {reply : RpcReply} {now : Timestamp}
    {protoBlob : ProtoBlob} {metadata : BlobMetadata}
    (hfetch : PeerClient.fetchBlob reply = .ok (some protoBlob))
    (hmetadata : protoBlob.metadata = some metadata) (hhash : metadata.hash = t.expectedHash)
    (h : n.step platform ((Client.task t.blobId).event n now reply) = some n') :
    n'.Storing t.blobId := by
  have hk := hqueued.getElem?_findIdx ht
  obtain ⟨t', hk', hend | hgo⟩ := DaNode.step_task_eq_some.1 h
  · obtain ⟨result, hfinished, -⟩ := hend
    obtain rfl := Option.some.inj (hk.symm.trans hk')
    rw [hpc] at hfinished
    cases hfinished
  · obtain ⟨s', pc, hstep, rfl⟩ := hgo
    obtain rfl := Option.some.inj (hk.symm.trans hk')
    have hverify : verifyReceivedBlob platform metadata protoBlob t.expectedHash = true :=
      verifyReceivedBlob_eq_true_iff.2 (Or.inr hhash)
    simp only [FetchTask.step, hpc, FetchTask.receive, hfetch, hmetadata, hverify, if_true,
      Option.some.injEq, Prod.mk.injEq] at hstep
    obtain ⟨-, rfl⟩ := hstep
    refine ⟨_, List.mem_of_getElem? (List.getElem?_set_self (List.getElem?_eq_some_iff.1 hk).1),
      rfl, rfl⟩

/-- Only `handle_fetch` and a task that has stored its blob complete a pair. -/
theorem DaNode.write_eq_completed {peerId : String} {attempt : Timestamp}
    {success : Option Timestamp}
    (h : n.write platform e = .setStatus blobId peerId .completed attempt success) :
    (∃ i inp request blob, e = .handler i inp ∧
      n.handlers[i]? = some (.fetchMark request blob) ∧ blob.id = blobId ∧
      request.peerId = peerId) ∨
    ∃ i inp t metadata protoBlob now, e = .task i inp ∧ n.tasks[i]? = some t ∧
      t.blobId = blobId ∧ t.pc = .markCompleted peerId metadata protoBlob now := by
  rcases DaNode.write_cases h (by simp) with ⟨i, inp, hd, rfl, hi, hw⟩ | ⟨i, inp, m, rfl, hi, hw⟩ |
    ⟨i, inp, t, rfl, hi, hw⟩ | ⟨inp, rfl, hw⟩
  · unfold Handler.write at hw
    split at hw <;> cases hw
    exact Or.inl ⟨i, inp, _, _, rfl, hi, rfl, rfl⟩
  · unfold Mutation.write at hw
    split at hw
    · split at hw <;> cases hw
    all_goals cases hw
  · obtain ⟨hblob, metadata, protoBlob, now, hpc⟩ := FetchTask.write_eq_completed hw
    exact Or.inr ⟨i, inp, t, metadata, protoBlob, now, rfl, hi, hblob, hpc⟩
  · rcases SyncLoop.write_cases n.shared inp n.loop with hw' | ⟨-, hw'⟩ | ⟨_, _, hw'⟩ <;>
      rw [hw'] at hw <;> cases hw

end

/-! ## Promises -/

section

variable {ι : Type}

/-- The fetch task of the node `j` for the blob waits for the reply of the handler `h` of `i`. -/
def Network.Awaited (net : Network ι) (i j : ι) (blobId : Uuid) (h : Nat) : Prop :=
  ∃ c ∈ net.calls, c.caller = j ∧ c.client = .task blobId ∧ c.callee = i ∧ c.waiting = true ∧
    h ∈ c.handlers

/-- A handler of the node `i` has replied with the blob to a task of `j` that waits. -/
def Network.Promised (net : Network ι) (i j : ι) (blobId : Uuid) : Prop :=
  ∃ h hd, net.Awaited i j blobId h ∧ (net.nodes i).handlers[h]? = some hd ∧ hd.delivers = true

/-- The node `j` has the blob, comes to the INSERT, or is to get it in a reply of `i`. -/
def Network.Due (net : Network ι) (i j : ι) (blobId : Uuid) : Prop :=
  (net.nodes j).Has blobId ∨ (net.nodes j).Storing blobId ∨ net.Promised i j blobId

/-- Every completed row of a node is due. -/
def Delivered (d : Deployment ι) (net : Network ι) : Prop :=
  ∀ i j blobId, (net.nodes i).Completed blobId (d.config j).nodeId → net.Due i j blobId

/-- A handler of the node `i` may come to complete a pair: the row is not there or completed
    already, or the peer has the blob, comes to its INSERT, or waits for this reply. -/
def Network.MayComplete (d : Deployment ι) (net : Network ι) (i : ι) (h : Nat) : Handler → Prop
  | .fetchMark request blob =>
      (net.nodes i).shared.db.status blob.id request.peerId = none ∨
      (net.nodes i).Completed blob.id request.peerId ∨
      ∀ j, (d.config j).nodeId = request.peerId →
        (net.nodes j).Has blob.id ∨ (net.nodes j).Storing blob.id ∨ net.Awaited i j blob.id h
  | _ => True

/-- The client of the call may give it up: the node has the blob already, no reply to the call
    carries the blob, or the callee has not completed the pair. -/
def Network.MayEnd (d : Deployment ι) (net : Network ι) (c : Call ι) : Client → Prop
  | .task blobId =>
      (net.nodes c.caller).Has blobId ∨
      (∀ h ∈ c.handlers, ((net.nodes c.callee).handlers[h]?).any (·.delivers) = false) ∨
      ¬ (net.nodes c.callee).Completed blobId (d.config c.caller).nodeId
  | .loop => True

/-- The step breaks no promise and makes none in vain: it completes a pair only if the blob is there
    or on its way, it ends a call with the blob or one that may end, and a task fails at its INSERT
    only if the node has the blob or nobody has completed the pair. -/
def Network.KeepsPromises (d : Deployment ι) (net : Network ι) : Label ι → Prop
  | .node i (.handler h _) => ∀ hd ∈ (net.nodes i).handlers[h]?, net.MayComplete d i h hd
  | .node i (.failTask k) => ∀ t ∈ (net.nodes i).tasks[k]?, t.storing = true →
      (net.nodes i).Has t.blobId ∨ ∀ j, ¬ (net.nodes j).Completed t.blobId (d.config i).nodeId
  | .reply k h _ => ∀ c ∈ net.calls[k]?,
      ((net.nodes c.callee).handlers[h]?).any (·.delivers) = true ∨ net.MayEnd d c c.client
  | .fail k _ => ∀ c ∈ net.calls[k]?, net.MayEnd d c c.client
  | _ => True

section

variable [DecidableEq ι] [Fintype ι] (d : Deployment ι) (net : Network ι)

instance (i j : ι) (blobId : Uuid) (h : Nat) : Decidable (net.Awaited i j blobId h) :=
  inferInstanceAs (Decidable (∃ c ∈ net.calls, c.caller = j ∧ c.client = .task blobId ∧
    c.callee = i ∧ c.waiting = true ∧ h ∈ c.handlers))

instance decidableMayComplete (i : ι) (h : Nat) :
    ∀ hd, Decidable (net.MayComplete d i h hd)
  | .fetchMark _ _ => inferInstanceAs (Decidable (_ ∨ _ ∨ ∀ _, _ → _ ∨ _ ∨ _))
  | .sync _ | .announceQueue _ _ | .deleteMark _ | .nodeInfoStorage _ | .replied _ =>
      .isTrue trivial

instance decidableMayEnd (c : Call ι) : ∀ client, Decidable (net.MayEnd d c client)
  | .task _ => inferInstanceAs (Decidable (_ ∨ (∀ _ ∈ c.handlers, _) ∨ ¬ _))
  | .loop => .isTrue trivial

instance decidableKeepsPromises : ∀ l, Decidable (net.KeepsPromises d l)
  | .node i (.handler h _) =>
      inferInstanceAs (Decidable (∀ hd ∈ (net.nodes i).handlers[h]?, net.MayComplete d i h hd))
  | .node i (.failTask k) =>
      inferInstanceAs (Decidable (∀ t ∈ (net.nodes i).tasks[k]?, _ → _ ∨ ∀ _, ¬ _))
  | .reply k _ _ => inferInstanceAs (Decidable (∀ c ∈ net.calls[k]?, _ ∨ net.MayEnd d c c.client))
  | .fail k _ => inferInstanceAs (Decidable (∀ c ∈ net.calls[k]?, net.MayEnd d c c.client))
  | .node _ (.request _) | .node _ (.addBlob _ _) | .node _ (.deleteBlob _ _)
  | .node _ (.mutation _ _) | .node _ (.task _ _) | .node _ (.loop _) | .other _ _ | .send _ _
  | .unsent _ _ _ | .arrive _ _ | .lose _ => .isTrue trivial

end

/-! ## A step keeps what is due -/

variable [DecidableEq ι] {platform : Platform} {d : Deployment ι} {net net' : Network ι}
  {l : Label ι} {i j : ι} {blobId : Uuid}

theorem Network.has_step (h : net.step platform d l = some net') (hj : (net.nodes j).Has blobId) :
    (net'.nodes j).Has blobId :=
  Network.node_invariant (I := fun n => n.Has blobId) (fun _ _ _ hn hstep => hn.step hstep) hj h

theorem Network.replied_step (h : net.step platform d l = some net') {k : Nat} {reply : RpcReply}
    (hi : (net.nodes i).handlers[k]? = some (.replied reply)) :
    (net'.nodes i).handlers[k]? = some (.replied reply) :=
  Network.node_invariant (I := fun n => n.handlers[k]? = some (.replied reply))
    (fun _ _ _ hn hstep => DaNode.replied_step hstep hn) hi h

/-- A task at the INSERT comes to the end of it, unless the step is its failure. -/
theorem Linked.storing_step (hnet : Linked d net) (h : net.step platform d l = some net')
    (hj : (net.nodes j).Storing blobId) :
    (net'.nodes j).Has blobId ∨ (net'.nodes j).Storing blobId ∨
      ∃ k t, l = .node j (.failTask k) ∧ (net.nodes j).tasks[k]? = some t ∧ t.blobId = blobId ∧
        t.storing = true := by
  rcases Network.step_nodes h j with hsame | ⟨e, he, hoccurs⟩
  · rw [hsame]
    exact Or.inr (Or.inl hj)
  · have hstore : ∀ t ∈ (net.nodes j).tasks, ∀ peerId metadata protoBlob now,
        t.pc = .store peerId metadata protoBlob now → Uuid.parse metadata.id = some t.blobId :=
      fun t ht peerId metadata protoBlob now hpc =>
        ((hnet.tasks j t ht).store peerId metadata protoBlob now hpc).1
    rcases hj.step hstore he with hhas | hstoring | ⟨k, t, rfl, hk, hblob, hstoring⟩
    · exact Or.inl hhas
    · exact Or.inr (Or.inl hstoring)
    · have hl : l = .node j (.failTask k) :=
        hoccurs.eq_node (by simp) fun client _ _ => by cases client <;> simp [Client.event]
      exact Or.inr (Or.inr ⟨k, t, hl, hk, hblob, hstoring⟩)

/-- A task goes on waiting for the reply of a handler, unless the step ends its call. -/
theorem Network.awaited_step (h : net.step platform d l = some net') {h₀ : Nat}
    (hawaited : net.Awaited i j blobId h₀) :
    net'.Awaited i j blobId h₀ ∨
      ∃ k c, net.calls[k]? = some c ∧ c.caller = j ∧ c.client = .task blobId ∧ c.callee = i ∧
        h₀ ∈ c.handlers ∧ ((∃ h' now, l = .reply k h' now) ∨ ∃ now, l = .fail k now) := by
  obtain ⟨c, hc, rfl, hclient, rfl, hwaiting, hh⟩ := hawaited
  obtain ⟨k, hk⟩ := List.getElem?_of_mem hc
  obtain ⟨c', hk', hcaller, hclient', hcallee, hhandlers, hsame | hend⟩ := Network.call_step h hk
  · exact Or.inl ⟨c', List.mem_of_getElem? hk', hcaller, hclient'.trans hclient, hcallee,
      hsame.trans hwaiting, hhandlers hh⟩
  · exact Or.inr ⟨k, c, hk, rfl, hclient, rfl, hh, hend⟩

omit [DecidableEq ι] in
/-- If a call may end and its callee has completed the pair in a reply to it, the task has the
    blob. -/
theorem Network.MayEnd.has {c : Call ι} (hend : net.MayEnd d c c.client)
    (hclient : c.client = .task blobId)
    {h : Nat} {hd : Handler} (hh : h ∈ c.handlers)
    (hi : (net.nodes c.callee).handlers[h]? = some hd) (hdelivers : hd.delivers = true)
    (hcompleted : (net.nodes c.callee).Completed blobId (d.config c.caller).nodeId) :
    (net.nodes c.caller).Has blobId := by
  rw [hclient] at hend
  rcases hend with hhas | hnone | hnot
  · exact hhas
  · have hquiet := hnone h hh
    simp [hi, hdelivers] at hquiet
  · exact absurd hcompleted hnot

/-- A task that takes a reply with its blob comes to the INSERT: in a network of these nodes, the
    reply names the hash that the task expects. -/
theorem Linked.storing_of_reply (hwired : Wired d net) (hnet : Linked d net)
    {origin : Registry Uuid Facts} (hsound : SoundNetwork platform origin net) {k h' : Nat}
    {now : Timestamp} (h : net.step platform d (.reply k h' now) = some net') {c : Call ι}
    (hk : net.calls[k]? = some c) (hclient : c.client = .task blobId)
    (hdelivers : ((net.nodes c.callee).handlers[h']?).any (·.delivers) = true) :
    (net'.nodes c.caller).Storing blobId := by
  obtain ⟨c', reply, hk', hwaiting, hh', hreply, n, hn, rfl⟩ := Network.step_reply_eq_some.1 h
  obtain rfl := Option.some.inj (hk.symm.trans hk')
  obtain ⟨reply', protoBlob, heq, hfetch⟩ :=
    Handler.delivers_eq_true_iff.1 (by simpa [hreply] using hdelivers)
  cases heq
  obtain ⟨htask, hserved⟩ := hnet.calls c (List.mem_of_getElem? hk) blobId hclient
  obtain ⟨t, ht, rfl, peer, rest, hpc⟩ := htask hwaiting
  obtain ⟨hd, hi, hserves⟩ := hserved h' hh'
  obtain rfl := Option.some.inj (hreply.symm.trans hi)
  obtain ⟨⟨metadata, hmetadata, hparse⟩, -⟩ := hserves protoBlob hfetch
  -- both hashes were fixed when the blob was added
  have hhash : metadata.hash = t.expectedHash := by
    have hreceived : SoundReceived platform origin metadata protoBlob :=
      (hsound.nodes c.callee).handlers _ (List.mem_of_getElem? hreply) protoBlob metadata hfetch
        hmetadata
    obtain ⟨u, f, hid, hknows, hshows⟩ := hreceived now
    obtain rfl : t.blobId = u := Option.some.inj (hparse.symm.trans hid)
    obtain ⟨f', hknows', hexpected⟩ := (hsound.nodes c.caller).jobs t ht
    obtain rfl := hknows.unique hknows'
    exact (Option.some.inj hshows.hash).trans hexpected.symm
  rw [hclient] at hn
  simp only [Function.update_self]
  exact DaNode.storing_of_reply (hwired.queued c.caller) ht hpc hfetch hmetadata hhash hn

/-- A completed row that is due stays due in a step that keeps its promises. -/
theorem due_step (hwired : Wired d net) (hnet : Linked d net) {origin : Registry Uuid Facts}
    (hsound : SoundNetwork platform origin net) (hkeeps : net.KeepsPromises d l)
    (h : net.step platform d l = some net')
    (hcompleted : (net.nodes i).Completed blobId (d.config j).nodeId) (hdue : net.Due i j blobId) :
    net'.Due i j blobId := by
  rcases hdue with hhas | hstoring | ⟨h₀, hd, hawaited, hi, hdelivers⟩
  · exact Or.inl (Network.has_step h hhas)
  · rcases hnet.storing_step h hstoring with hhas | hstoring' | ⟨k, t, rfl, hk, rfl, hstore⟩
    · exact Or.inl hhas
    · exact Or.inr (Or.inl hstoring')
    · rcases hkeeps t hk hstore with hhas | hnot
      · exact Or.inl (Network.has_step h hhas)
      · exact absurd hcompleted (hnot i)
  · -- the call goes on, or ends with a reply or a failure that the promises speak of
    rcases Network.awaited_step h hawaited with
      hawaited' | ⟨k, c, hk, rfl, hclient, rfl, hh, ⟨h', now, rfl⟩ | ⟨now, rfl⟩⟩
    · obtain ⟨reply, protoBlob, rfl, -⟩ := Handler.delivers_eq_true_iff.1 hdelivers
      exact Or.inr (Or.inr ⟨h₀, _, hawaited', Network.replied_step h hi, hdelivers⟩)
    · rcases hkeeps c hk with hcarries | hend
      · exact Or.inr (Or.inl (hnet.storing_of_reply hwired hsound h hk hclient hcarries))
      · exact Or.inl (Network.has_step h (hend.has hclient hh hi hdelivers hcompleted))
    · exact Or.inl (Network.has_step h ((hkeeps c hk).has hclient hh hi hdelivers hcompleted))

/-- The UPDATE of `handle_fetch` makes a row completed that is due, if the step keeps its
    promises. -/
theorem due_of_fetchMark (hnet : Linked d net) {h : Nat} {inp : HandlerInput}
    {request : FetchBlobRequest} {blob : Blob}
    (hi : (net.nodes i).handlers[h]? = some (.fetchMark request blob))
    (hkeeps : net.KeepsPromises d (.node i (.handler h inp)))
    (hstep : net.step platform d (.node i (.handler h inp)) = some net')
    (hrow : (net.nodes i).shared.db.status blob.id request.peerId ≠ none)
    (hbefore : ¬ (net.nodes i).Completed blob.id request.peerId)
    (hj : (d.config j).nodeId = request.peerId) : net'.Due i j blob.id := by
  have hmay : net.MayComplete d i h (.fetchMark request blob) := hkeeps _ hi
  rcases (hmay.resolve_left hrow).resolve_left hbefore j hj with hhas | hstoring | hawaited
  · exact Or.inl (Network.has_step hstep hhas)
  · rcases hnet.storing_step hstep hstoring with hhas | hstoring' | ⟨k, t, hl, -⟩
    · exact Or.inl hhas
    · exact Or.inr (Or.inl hstoring')
    · cases hl
  · -- the handler has its reply now, and the task still waits for it
    obtain ⟨-, -, n, hn, rfl⟩ := Network.step_node_eq_some.1 hstep
    have hreplied :
        n.handlers[h]? = some (.replied (.ok (fetchedReply platform request blob))) := by
      obtain ⟨hd, hi', s', hd', hgo, rfl⟩ := DaNode.step_handler_eq_some.1 hn
      obtain rfl := Option.some.inj (hi.symm.trans hi')
      cases hgo
      exact List.getElem?_set_self (List.getElem?_eq_some_iff.1 hi).1
    refine Or.inr (Or.inr
      ⟨h, .replied (.ok (fetchedReply platform request blob)), hawaited, ?_, rfl⟩)
    simp only [Function.update_self, hreplied]

/-- **A step that keeps its promises leaves every completed row due.** -/
theorem delivered_step (hwired : Wired d net) (hnet : Linked d net) {origin : Registry Uuid Facts}
    (hsound : SoundNetwork platform origin net) (hdelivered : Delivered d net)
    (hkeeps : net.KeepsPromises d l) (h : net.step platform d l = some net') :
    Delivered d net' := by
  intro i j blobId hafter
  by_cases hbefore : (net.nodes i).Completed blobId (d.config j).nodeId
  · exact due_step hwired hnet hsound hkeeps h hbefore (hdelivered i j blobId hbefore)
  · rcases Network.step_nodes h i with hsame | ⟨e, he, hoccurs⟩
    · rw [hsame] at hafter
      exact absurd hafter hbefore
    · -- the row was completed by this step: by a handler of a fetch, or by a fetch task
      rw [DaNode.Completed, DaNode.step_shared he] at hafter
      obtain ⟨attempt, success, hwrite⟩ := Write.completes hbefore hafter
      rcases DaNode.write_eq_completed hwrite with
        ⟨h₀, inp, request, blob, rfl, hi, rfl, hpeer⟩ |
        ⟨k, inp, t, metadata, protoBlob, now, rfl, hi, rfl, hpc⟩
      · obtain rfl : l = .node i (.handler h₀ inp) :=
          hoccurs.eq_node (by simp) fun client _ _ => by cases client <;> simp [Client.event]
        have hrow : (net.nodes i).shared.db.status blob.id request.peerId ≠ none := by
          intro hnone
          rw [hwrite] at hafter
          simp [Write.apply, Write.status_onDb, ← hpeer, hnone] at hafter
        exact due_of_fetchMark hnet hi hkeeps h hrow (by rwa [hpeer]) hpeer.symm
      · have hhas := (hnet.tasks i t (List.mem_of_getElem? hi)).markCompleted _ _ _ _ hpc j rfl
        exact Or.inl (Network.has_step h hhas)

/-! ## Runs -/

/-- No request is in flight and no fetch task is unfinished. -/
structure Network.Quiet (net : Network ι) : Prop where
  requests : ∀ c ∈ net.calls, c.inFlight = false
  tasks : ∀ i, ∀ t ∈ (net.nodes i).tasks, ∃ result, t.pc = .finished result

omit [DecidableEq ι] in
/-- In a quiet network nothing is on its way any more. -/
theorem Linked.has_of_due (hnet : Linked d net) (hquiet : net.Quiet) (hdue : net.Due i j blobId) :
    (net.nodes j).Has blobId := by
  rcases hdue with hhas | ⟨t, ht, -, hstoring⟩ | ⟨h, hd, ⟨c, hc, rfl, hclient, -, hwaiting, -⟩, -⟩
  · exact hhas
  · obtain ⟨result, hpc⟩ := hquiet.tasks j t ht
    simp [FetchTask.storing, hpc] at hstoring
  · obtain ⟨t, ht, -, peer, rest, hpc⟩ := (hnet.calls c hc blobId hclient).task hwaiting
    obtain ⟨result, hfinished⟩ := hquiet.tasks _ t ht
    rw [hpc] at hfinished
    cases hfinished

omit [DecidableEq ι] in
theorem delivered_start (d : Deployment ι) : Delivered d (Network.start d) := by
  intro i j blobId hcompleted
  cases hcompleted

theorem delivered_exec {ls : List (Label ι)}
    (hkeeps : Run.Meets (Network.step platform d) (Network.KeepsPromises d) (Network.start d) ls)
    (h : Run.exec (Network.step platform d) (Network.start d) ls = some net) :
    Linked d net ∧ Delivered d net := by
  have hinv := Run.exec_invariant_of
    (I := fun net => Wired d net ∧ Linked d net ∧ (∃ origin, SoundNetwork platform origin net) ∧
      Delivered d net)
    (fun net l net' ⟨hwired, hnet, ⟨origin, hsound⟩, hdelivered⟩ hkeeps hstep =>
      ⟨wired_step hwired hstep, linked_step hwired hnet hstep, soundNetwork_step hsound hstep,
        delivered_step hwired hnet hsound hdelivered hkeeps hstep⟩)
    ⟨wired_start d, linked_start d, ⟨.empty, soundNetwork_start platform d.toTopology⟩,
      delivered_start d⟩ hkeeps h
  exact ⟨hinv.2.1, hinv.2.2.2⟩

end

/-- **In every run of a network whose steps keep their promises, whenever no request is in flight
    and no fetch task unfinished, a peer for which a blob is completed has a row for it.** -/
theorem completed_delivered {ι : Type} [DecidableEq ι] (platform : Platform) (d : Deployment ι)
    (ls : List (Label ι)) (net : Network ι)
    (h : Run.exec (Network.step platform d) (Network.start d) ls = some net)
    (hkeeps : Run.Meets (Network.step platform d) (Network.KeepsPromises d) (Network.start d) ls)
    (hquiet : net.Quiet) (i j : ι) (blobId : Uuid)
    (hcompleted : (net.nodes i).Completed blobId (d.config j).nodeId) :
    (net.nodes j).Has blobId := by
  obtain ⟨hnet, hdelivered⟩ := delivered_exec hkeeps h
  exact hnet.has_of_due hquiet (hdelivered i j blobId hcompleted)

/-- The second node has stored the sample blob, which the first has completed. -/
theorem completed_delivered_sample :
    ∃ net : Network Bool, Run.exec (Network.step Platform.sample Deployment.sample)
      (Network.start Deployment.sample) Label.sampleStore = some net ∧ net.Quiet ∧
      (net.nodes false).Completed (Uuid.sample 2) "peer" ∧
      (net.nodes true).Has (Uuid.sample 2) := by
  have hrun : (Run.exec (Network.step Platform.sample Deployment.sample)
      (Network.start Deployment.sample) Label.sampleStore).any (fun net =>
        (∀ c ∈ net.calls, c.inFlight = false) ∧ (∀ i, (net.nodes i).tasks.isEmpty) ∧
          (net.nodes false).Completed (Uuid.sample 2) "peer") = true := by decide +kernel
  have hkeeps : Run.Meets (Network.step Platform.sample Deployment.sample)
      (Network.KeepsPromises Deployment.sample) (Network.start Deployment.sample)
      Label.sampleStore := by decide +kernel
  obtain ⟨net, hnet, hcond⟩ := (Option.any_eq_true _ _).1 hrun
  obtain ⟨hrequests, htasks, hcompleted⟩ : _ ∧ _ ∧ _ := of_decide_eq_true hcond
  have hquiet : net.Quiet :=
    ⟨hrequests, fun i t ht => by simp [List.isEmpty_iff.1 (htasks i)] at ht⟩
  exact ⟨net, hnet, hquiet, hcompleted, completed_delivered Platform.sample Deployment.sample _ net
    hnet hkeeps hquiet false true (Uuid.sample 2) hcompleted⟩

/-- The reply of the first node is lost, and the task of the second, which knows no other peer,
    ends. -/
def Label.sampleLost : List (Label Bool) :=
  List.flatten [
    Label.sampleFetch, [.fail 1 0],
    List.replicate 3 (.node true (.task 0 (FetchInput.sampleOf true)))]

/-- The first node has completed the blob for the second, which has no row for it, and no call,
    handler or task is left that could bring it one. -/
theorem completed_not_delivered :
    ∃ net : Network Bool, Run.exec (Network.step Platform.sample Deployment.sample)
      (Network.start Deployment.sample) Label.sampleLost = some net ∧ net.Quiet ∧
      (∀ c ∈ net.calls, c.waiting = false) ∧
      (∀ i, ∀ hd ∈ (net.nodes i).handlers, ∃ reply, hd = .replied reply) ∧
      (net.nodes false).Completed (Uuid.sample 2) (Deployment.sample.config true).nodeId ∧
      ¬ (net.nodes true).Has (Uuid.sample 2) := by
  have hrun : (Run.exec (Network.step Platform.sample Deployment.sample)
      (Network.start Deployment.sample) Label.sampleLost).any (fun net =>
        (∀ c ∈ net.calls, c.inFlight = false ∧ c.waiting = false) ∧
          (∀ i, (net.nodes i).tasks.isEmpty) ∧
          (∀ i, ∀ hd ∈ (net.nodes i).handlers, hd matches .replied _) ∧
          (net.nodes false).Completed (Uuid.sample 2) (Deployment.sample.config true).nodeId ∧
          ¬ (net.nodes true).Has (Uuid.sample 2)) = true := by decide +kernel
  obtain ⟨net, hnet, hcond⟩ := (Option.any_eq_true _ _).1 hrun
  obtain ⟨hcalls, htasks, hhandlers, hcompleted, hhas⟩ := of_decide_eq_true hcond
  refine ⟨net, hnet, ⟨fun c hc => (hcalls c hc).1, fun i t ht => ?_⟩, fun c hc => (hcalls c hc).2,
    fun i hd hhd => ?_, hcompleted, hhas⟩
  · simp [List.isEmpty_iff.1 (htasks i)] at ht
  · have hreplied := hhandlers i hd hhd
    cases hd with
    | replied reply => exact ⟨reply, rfl⟩
    | _ => cases hreplied

end DaConcept.Node
