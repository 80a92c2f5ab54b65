import DaConcept.Node.Calls

set_option autoImplicit false

/-! # From a fetch task to its blob

A task that waits for a reply is connected with its call, the call with the handlers that serve it,
and what the task holds in the end with the peer it came from: that peer has a row for the blob. No
step of a network breaks any of these links, whatever is lost. -/

namespace DaConcept.Node

/-! ## Serving a fetch request -/

/-- What the handler of a fetch request for a blob comes to on the node `n`. -/
def Handler.Serves (n : DaNode) (request : FetchBlobRequest) (blobId : Uuid) : Handler → Prop
  | .sync request' => request' = some (.fetch request)
  | .fetchMark request' blob => request' = request ∧ blob.id = blobId ∧ n.Has blobId
  | .replied reply => ∀ protoBlob, PeerClient.fetchBlob reply = .ok (some protoBlob) →
      (∃ metadata, protoBlob.metadata = some metadata ∧ Uuid.parse metadata.id = some blobId) ∧
        n.Has blobId
  | _ => False

section

variable {platform : Platform} {n n' : DaNode} {e : Event} {request : FetchBlobRequest}
  {blobId : Uuid}

theorem Handler.Serves.mono {hd : Handler} (hmono : n.Has blobId → n'.Has blobId)
    (h : hd.Serves n request blobId) : hd.Serves n' request blobId := by
  cases hd with
  | sync request' => exact h
  | fetchMark request' blob => exact ⟨h.1, h.2.1, hmono h.2.2⟩
  | replied reply =>
      intro protoBlob hfetch
      obtain ⟨hmetadata, hhas⟩ := h protoBlob hfetch
      exact ⟨hmetadata, hmono hhas⟩
  | _ => exact h.elim

/-- A step of the handler: it finds the row of the blob and comes to the UPDATE, or replies that it
    has none; after the UPDATE it replies with the blob. -/
theorem Handler.Serves.step {inp : HandlerInput} {s' : Shared} {hd hd' : Handler}
    (h : hd.Serves n request blobId) (hrequest : request.blobId = blobId.toString)
    (hstep : hd.step platform inp n.shared = some (s', hd')) : hd'.Serves n request blobId := by
  cases hd with
  | sync request' =>
      obtain rfl : request' = some (.fetch request) := h
      simp only [Handler.step, Option.some.injEq, Prod.mk.injEq] at hstep
      obtain ⟨-, rfl⟩ := hstep
      have hparse : Uuid.parse request.blobId = some blobId := by
        rw [hrequest, Uuid.parse_toString]
      rcases hfetch : fetchBlobById blobId n.shared.db with status | found
      · simp only [handleFetch, hparse, hfetch]
        intro protoBlob hreply
        cases hreply
      · rcases found with _ | blob
        · simp only [handleFetch, hparse, hfetch]
          intro protoBlob hreply
          cases hreply
        · have hmark : handleFetch request n.shared.db = .fetchMark request blob := by
            simp only [handleFetch, hparse, hfetch]
          obtain ⟨blobId', row, hparse', hrow, -, hdecode⟩ := handleFetch_eq_fetchMark hmark
          obtain rfl := Option.some.inj (hparse.symm.trans hparse')
          obtain ⟨hmem, hid⟩ := Table.lookup_eq_some_iff.1 hrow
          have hdecoded := (BlobRow.decode_eq_some hdecode).1
          rw [hid, Uuid.decodeUuid_cell] at hdecoded
          rw [hmark]
          exact ⟨rfl, (Option.some.inj hdecoded).symm, row, hmem, by rw [hid, Uuid.denotes_cell]⟩
  | fetchMark request' blob =>
      obtain ⟨rfl, rfl, hhas⟩ := h
      cases hstep
      intro protoBlob hfetch
      simp only [PeerClient.fetchBlob, fetchedReply, Except.ok.injEq, Option.some.injEq] at hfetch
      subst hfetch
      exact ⟨⟨_, rfl, blob.id.parse_toString⟩, hhas⟩
  | replied reply => cases hstep
  | _ => exact h.elim

/-- A reply, once made, stays. -/
theorem DaNode.replied_step {i : Nat} {reply : RpcReply} (h : n.step platform e = some n')
    (hi : n.handlers[i]? = some (.replied reply)) : n'.handlers[i]? = some (.replied reply) := by
  rcases DaNode.handler_step h hi with hsame | ⟨inp, s, hd', -, hstep, -⟩
  · exact hsame
  · cases hstep

end

/-! ## The links -/

section

variable {ι : Type}

/-- The call of the fetch task of a blob: while it waits, the task waits at this callee; every
    handler of the call serves its request. -/
structure CallSound (d : Deployment ι) (nodes : ι → DaNode) (c : Call ι) (blobId : Uuid) :
    Prop where
  task : c.waiting = true → ∃ t ∈ (nodes c.caller).tasks, t.blobId = blobId ∧
    ∃ client rest, t.pc = .awaitReply (d.config c.callee).nodeId client rest
  served : ∀ h ∈ c.handlers, ∃ hd, (nodes c.callee).handlers[h]? = some hd ∧
    hd.Serves (nodes c.callee) ⟨blobId.toString, (d.config c.caller).nodeId, true⟩ blobId

/-- The peer from which a task has its blob has a row for it. -/
structure TaskSound (d : Deployment ι) (nodes : ι → DaNode) (t : FetchTask) : Prop where
  store : ∀ peerId metadata protoBlob now, t.pc = .store peerId metadata protoBlob now →
    Uuid.parse metadata.id = some t.blobId ∧
      ∀ j, (d.config j).nodeId = peerId → (nodes j).Has t.blobId
  markCompleted : ∀ peerId metadata protoBlob now,
    t.pc = .markCompleted peerId metadata protoBlob now →
      ∀ j, (d.config j).nodeId = peerId → (nodes j).Has t.blobId

/-- Every call of a task is sound, a client waits in one call at a time, and every task is sound. -/
structure Linked (d : Deployment ι) (net : Network ι) : Prop where
  calls : ∀ c ∈ net.calls, ∀ blobId, c.client = .task blobId → CallSound d net.nodes c blobId
  unique : ∀ (k k' : Nat) (c c' : Call ι), net.calls[k]? = some c → net.calls[k']? = some c' →
    c.waiting = true → c'.waiting = true → c.caller = c'.caller → c.client = c'.client → k = k'
  tasks : ∀ i, ∀ t ∈ (net.nodes i).tasks, TaskSound d net.nodes t

variable {platform : Platform} {d : Deployment ι} {net net' : Network ι}

theorem linked_start (d : Deployment ι) : Linked d (Network.start d) where
  calls := List.forall_mem_nil _
  unique k k' c c' hc := by simp [Network.start] at hc
  tasks i := List.forall_mem_nil _

variable [DecidableEq ι]

theorem Network.waits_eq_true {i : ι} {client : Client} :
    net.Waits i client = true ↔
      ∃ c ∈ net.calls, c.caller = i ∧ c.client = client ∧ c.waiting = true := by
  simp [Network.Waits, and_assoc]

/-! ## A step of one node -/

/-- The event brings no task that waits in an open call any further. -/
def LeavesWaiting (net : Network ι) (i : ι) (e : Event) : Prop :=
  ∀ k inp t peerId client rest, e = .task k inp → (net.nodes i).tasks[k]? = some t →
    t.pc = .awaitReply peerId client rest → net.Waits i (.task t.blobId) = false

/-- A reply in which the event brings a task its blob comes from a peer that has it. -/
def BringsBlob (d : Deployment ι) (net : Network ι) (i : ι) (e : Event) : Prop :=
  ∀ k inp t peerId client rest protoBlob metadata, e = .task k inp →
    (net.nodes i).tasks[k]? = some t → t.pc = .awaitReply peerId client rest →
    PeerClient.fetchBlob inp.reply = .ok (some protoBlob) → protoBlob.metadata = some metadata →
    Uuid.parse metadata.id = some t.blobId ∧
      ∀ j, (d.config j).nodeId = peerId → (net.nodes j).Has t.blobId

variable {i : ι} {e : Event} {n : DaNode}

theorem has_update (hn : (net.nodes i).step platform e = some n) {j : ι} {blobId : Uuid}
    (h : (net.nodes j).Has blobId) : (Function.update net.nodes i n j).Has blobId := by
  by_cases hij : j = i
  · subst hij
    rw [Function.update_self]
    exact h.step hn
  · rwa [Function.update_of_ne hij]

theorem CallSound.node_step {c : Call ι} {blobId : Uuid} (hc : CallSound d net.nodes c blobId)
    (hmem : c ∈ net.calls) (hclient : c.client = .task blobId) (hwaits : LeavesWaiting net i e)
    (hn : (net.nodes i).step platform e = some n) :
    CallSound d (Function.update net.nodes i n) c blobId where
  task hwaiting := by
    obtain ⟨t, ht, hblob, client, rest, hpc⟩ := hc.task hwaiting
    refine ⟨t, ?_, hblob, client, rest, hpc⟩
    by_cases hij : c.caller = i
    · subst hij
      rw [Function.update_self]
      rcases DaNode.task_step hn ht with hsame | ⟨k, inp, rfl, hk⟩ | ⟨k, rfl, hk⟩
      · exact hsame
      · have hidle := hwaits k inp t _ client rest rfl hk hpc
        have hopen : net.Waits c.caller (.task t.blobId) = true :=
          Network.waits_eq_true.2 ⟨c, hmem, rfl, by rw [hclient, hblob], hwaiting⟩
        rw [hidle] at hopen
        cases hopen
      · obtain ⟨t', hk', pc, hfail, -⟩ := DaNode.step_failTask_eq_some.1 hn
        obtain rfl := Option.some.inj (hk.symm.trans hk')
        simp [FetchTask.fail, hpc] at hfail
    · rw [Function.update_of_ne hij]
      exact ht
  served h hh := by
    obtain ⟨hd, hi, hserves⟩ := hc.served h hh
    by_cases hij : c.callee = i
    · subst hij
      rw [Function.update_self]
      have hmono : (net.nodes c.callee).Has blobId → n.Has blobId := fun hhas => hhas.step hn
      rcases DaNode.handler_step hn hi with hsame | ⟨inp, s, hd', -, hstep, hi'⟩
      · exact ⟨hd, hsame, hserves.mono hmono⟩
      · exact ⟨hd', hi', (hserves.step rfl hstep).mono hmono⟩
    · rw [Function.update_of_ne hij]
      exact ⟨hd, hi, hserves⟩

theorem TaskSound.node_step {t : FetchTask} (hnet : Linked d net) (hbrings : BringsBlob d net i e)
    (hn : (net.nodes i).step platform e = some n) {j : ι}
    (ht : t ∈ (Function.update net.nodes i n j).tasks) :
    TaskSound d (Function.update net.nodes i n) t := by
  have hmono {t : FetchTask} (hsound : TaskSound d net.nodes t) :
      TaskSound d (Function.update net.nodes i n) t :=
    { store := fun peerId metadata protoBlob now hpc =>
        have h := hsound.store peerId metadata protoBlob now hpc
        ⟨h.1, fun j hj => has_update hn (h.2 j hj)⟩
      markCompleted := fun peerId metadata protoBlob now hpc j hj =>
        has_update hn (hsound.markCompleted peerId metadata protoBlob now hpc j hj) }
  by_cases hij : j = i
  · subst hij
    rw [Function.update_self] at ht
    rcases DaNode.mem_tasks_step hn ht with hold | ⟨job, -, rfl⟩ | ⟨t₀, ht₀, heq, hfail | hgo⟩
    · exact hmono (hnet.tasks j t hold)
    · exact ⟨by simp [FetchTask.spawn], by simp [FetchTask.spawn]⟩
    · have hpc := FetchTask.fail_eq_some hfail
      exact ⟨by simp [hpc], by simp [hpc]⟩
    · obtain ⟨k, inp, s, rfl, hk, hstep⟩ := hgo
      have hblob : t.blobId = t₀.blobId := by rw [heq]
      refine ⟨?_, ?_⟩
      · intro peerId metadata protoBlob now hpc
        rw [hpc] at hstep
        obtain ⟨client, rest, hawait, hfetch, hmetadata, -, -⟩ := FetchTask.step_to_store hstep
        obtain ⟨hparse, hpeer⟩ :=
          hbrings k inp t₀ peerId client rest protoBlob metadata rfl hk hawait hfetch hmetadata
        rw [hblob]
        exact ⟨hparse, fun j' hj' => has_update hn (hpeer j' hj')⟩
      · intro peerId metadata protoBlob now hpc j' hj'
        rw [hpc] at hstep
        have hstore := (FetchTask.step_to_markCompleted hstep).1
        rw [hblob]
        exact has_update hn (((hnet.tasks j t₀ ht₀).store _ _ _ _ hstore).2 j' hj')
  · rw [Function.update_of_ne hij] at ht
    exact hmono (hnet.tasks j t ht)

/-- A step of a node in which no task that waits in an open call goes on leaves the links in
    place. -/
theorem Linked.node_step (hnet : Linked d net) (hwaits : LeavesWaiting net i e)
    (hbrings : BringsBlob d net i e) (hn : (net.nodes i).step platform e = some n)
    (drawn : List Uuid) :
    Linked d { net with nodes := Function.update net.nodes i n, drawn } where
  calls c hc blobId hclient := (hnet.calls c hc blobId hclient).node_step hc hclient hwaits hn
  unique := hnet.unique
  tasks _ _ ht := TaskSound.node_step hnet hbrings hn ht

theorem Linked.request_step (hnet : Linked d net) {request : Option RequestType}
    (hn : (net.nodes i).step platform (.request request) = some n) :
    Linked d { net with nodes := Function.update net.nodes i n } := by
  refine hnet.node_step ?_ ?_ hn net.drawn
  · intro k inp t peerId client rest he
    cases he
  · intro k inp t peerId client rest protoBlob metadata he
    cases he

/-! ## A step of one call -/

/-- A new call of a client that waits in no other. -/
theorem Linked.add_call (hnet : Linked d net) {c : Call ι}
    (hidle : net.Waits c.caller c.client = false)
    (hc : ∀ blobId, c.client = .task blobId → CallSound d net.nodes c blobId) :
    Linked d { net with calls := net.calls ++ [c] } where
  calls c₁ hc₁ blobId hclient := by
    rcases List.mem_append.1 hc₁ with hold | hnew
    · exact hnet.calls c₁ hold blobId hclient
    · obtain rfl := List.mem_singleton.1 hnew
      exact hc blobId hclient
  unique k k' c₁ c₂ hk hk' hw hw' hcaller hclient := by
    have hcases {k : Nat} {c₁ : Call ι} (hk : (net.calls ++ [c])[k]? = some c₁)
        (hw : c₁.waiting = true) :
        (net.calls[k]? = some c₁ ∧ ¬ (c₁.caller = c.caller ∧ c₁.client = c.client)) ∨
          k = net.calls.length ∧ c₁ = c := by
      rcases Nat.lt_trichotomy k net.calls.length with hlt | rfl | hgt
      · rw [List.getElem?_append_left hlt] at hk
        refine Or.inl ⟨hk, fun hsame => ?_⟩
        have hopen := Network.waits_eq_true.2 ⟨c₁, List.mem_of_getElem? hk, hsame.1, hsame.2, hw⟩
        rw [hidle] at hopen
        cases hopen
      · rw [List.getElem?_concat_length] at hk
        exact Or.inr ⟨rfl, (Option.some.inj hk).symm⟩
      · rw [List.getElem?_eq_none (by simp; omega)] at hk
        cases hk
    rcases hcases hk hw with ⟨hold, hne⟩ | ⟨rfl, rfl⟩
    · rcases hcases hk' hw' with ⟨hold', -⟩ | ⟨-, rfl⟩
      · exact hnet.unique k k' c₁ c₂ hold hold' hw hw' hcaller hclient
      · exact absurd ⟨hcaller, hclient⟩ hne
    · rcases hcases hk' hw' with ⟨-, hne'⟩ | ⟨rfl, -⟩
      · exact absurd ⟨hcaller.symm, hclient.symm⟩ hne'
      · rfl
  tasks := hnet.tasks

omit [DecidableEq ι] in
/-- New bookkeeping for a call, which does not wait again. -/
theorem Linked.set_call (hnet : Linked d net) {k : Nat} {c c' : Call ι}
    (hk : net.calls[k]? = some c) (hcaller : c'.caller = c.caller) (hclient : c'.client = c.client)
    (hwaiting : c'.waiting = true → c.waiting = true)
    (hc' : ∀ blobId, c'.client = .task blobId → CallSound d net.nodes c' blobId) :
    Linked d { net with calls := net.calls.set k c' } where
  calls c₁ hc₁ blobId hclient₁ := by
    rcases List.mem_or_eq_of_mem_set hc₁ with hold | rfl
    · exact hnet.calls c₁ hold blobId hclient₁
    · exact hc' blobId hclient₁
  unique k₁ k₂ c₁ c₂ hk₁ hk₂ hw₁ hw₂ hcallers hclients := by
    have hold {k₁ : Nat} {c₁ : Call ι} (hk₁ : (net.calls.set k c')[k₁]? = some c₁)
        (hw₁ : c₁.waiting = true) : ∃ c₀, net.calls[k₁]? = some c₀ ∧ c₀.waiting = true ∧
          c₀.caller = c₁.caller ∧ c₀.client = c₁.client := by
      by_cases hkk : k = k₁
      · subst hkk
        rw [List.getElem?_set_self (List.getElem?_eq_some_iff.1 hk).1] at hk₁
        obtain rfl := Option.some.inj hk₁
        exact ⟨c, hk, hwaiting hw₁, hcaller.symm, hclient.symm⟩
      · rw [List.getElem?_set_ne hkk] at hk₁
        exact ⟨c₁, hk₁, hw₁, rfl, rfl⟩
    obtain ⟨c₁', hk₁', hw₁', hcaller₁, hclient₁⟩ := hold hk₁ hw₁
    obtain ⟨c₂', hk₂', hw₂', hcaller₂, hclient₂⟩ := hold hk₂ hw₂
    exact hnet.unique k₁ k₂ c₁' c₂' hk₁' hk₂' hw₁' hw₂'
      (by rw [hcaller₁, hcaller₂, hcallers]) (by rw [hclient₁, hclient₂, hclients])
  tasks := hnet.tasks

omit [DecidableEq ι] in
/-- The client of a call stops waiting. -/
theorem Linked.close (hnet : Linked d net) {k : Nat} {c : Call ι} (hk : net.calls[k]? = some c) :
    Linked d { net with calls := net.calls.set k { c with waiting := false } } := by
  refine hnet.set_call hk rfl rfl (by simp) fun blobId hclient => ?_
  exact ⟨by simp, (hnet.calls c (List.mem_of_getElem? hk) blobId hclient).served⟩

/-- Then it waits in no call. -/
theorem Linked.not_waits_close (hnet : Linked d net) {k : Nat} {c : Call ι}
    (hk : net.calls[k]? = some c) (hwaiting : c.waiting = true) :
    { net with calls := net.calls.set k { c with waiting := false } }.Waits c.caller c.client
      = false := by
  rw [Bool.eq_false_iff, ne_eq, Network.waits_eq_true]
  rintro ⟨c', hc', hcaller, hclient, hwaiting'⟩
  obtain ⟨k', hk'⟩ := List.getElem?_of_mem hc'
  by_cases hkk : k = k'
  · subst hkk
    rw [List.getElem?_set_self (List.getElem?_eq_some_iff.1 hk).1] at hk'
    obtain rfl := Option.some.inj hk'
    cases hwaiting'
  · rw [List.getElem?_set_ne hkk] at hk'
    exact hkk (hnet.unique k k' c c' hk hk' hwaiting hwaiting' hcaller.symm hclient.symm)

/-! ## A client takes a reply -/

theorem Client.eq_of_event_eq_task {m : DaNode} {client : Client} {now : Timestamp}
    {reply : RpcReply} {k : Nat} {inp : FetchInput} {t : FetchTask}
    (h : client.event m now reply = .task k inp) (hk : m.tasks[k]? = some t) :
    client = .task t.blobId ∧ inp.reply = reply := by
  cases client with
  | loop => cases h
  | task blobId =>
      cases h
      obtain ⟨hlt, ht⟩ := List.getElem?_eq_some_iff.1 hk
      have hblob := List.findIdx_getElem (w := hlt)
      rw [ht, decide_eq_true_eq] at hblob
      exact ⟨by rw [hblob], rfl⟩

/-- A client that waits in no call takes a reply, which for a task that awaits a peer carries no
    blob but the one it waits for, from a peer that has it. -/
theorem Linked.client_step (hnet : Linked d net) {client : Client} {now : Timestamp}
    {reply : RpcReply} (hidle : net.Waits i client = false)
    (hreply : ∀ t ∈ (net.nodes i).tasks, client = .task t.blobId →
      ∀ peerId peer rest protoBlob metadata, t.pc = .awaitReply peerId peer rest →
      PeerClient.fetchBlob reply = .ok (some protoBlob) → protoBlob.metadata = some metadata →
      Uuid.parse metadata.id = some t.blobId ∧
        ∀ j, (d.config j).nodeId = peerId → (net.nodes j).Has t.blobId)
    (hn : (net.nodes i).step platform (client.event (net.nodes i) now reply) = some n) :
    Linked d { net with nodes := Function.update net.nodes i n } := by
  refine hnet.node_step ?_ ?_ hn net.drawn
  · intro k inp t peerId peer rest he hk hpc
    obtain ⟨rfl, -⟩ := Client.eq_of_event_eq_task he hk
    exact hidle
  · intro k inp t peerId peer rest protoBlob metadata he hk hpc hfetch hmetadata
    obtain ⟨hclient, hinp⟩ := Client.eq_of_event_eq_task he hk
    rw [hinp] at hfetch
    exact hreply t (List.mem_of_getElem? hk) hclient peerId peer rest protoBlob metadata hpc hfetch
      hmetadata

omit [DecidableEq ι] in
/-- What the reply of a handler of a call brings the task of the call. -/
theorem Linked.reply_brings (hnet : Linked d net) (hqueued : ∀ i, (net.nodes i).Queued) {c : Call ι}
    (hc : c ∈ net.calls) (hwaiting : c.waiting = true) {h : Nat} (hh : h ∈ c.handlers)
    {reply : RpcReply} (hreply : (net.nodes c.callee).handlers[h]? = some (.replied reply))
    {t : FetchTask} (ht : t ∈ (net.nodes c.caller).tasks) (hclient : c.client = .task t.blobId)
    {peerId : String} {peer : PeerClient} {rest : List (String × PeerClient)}
    (hpc : t.pc = .awaitReply peerId peer rest) {protoBlob : ProtoBlob} {metadata : BlobMetadata}
    (hfetch : PeerClient.fetchBlob reply = .ok (some protoBlob))
    (hmetadata : protoBlob.metadata = some metadata) :
    Uuid.parse metadata.id = some t.blobId ∧
      ∀ j, (d.config j).nodeId = peerId → (net.nodes j).Has t.blobId := by
  obtain ⟨htask, hserved⟩ := hnet.calls c hc t.blobId hclient
  obtain ⟨hd, hi, hserves⟩ := hserved h hh
  obtain rfl := Option.some.inj (hreply.symm.trans hi)
  obtain ⟨⟨metadata', hmetadata', hparse⟩, hhas⟩ := hserves protoBlob hfetch
  obtain rfl := Option.some.inj (hmetadata.symm.trans hmetadata')
  refine ⟨hparse, fun j hj => ?_⟩
  obtain ⟨t', ht', hblob, peer', rest', hpc'⟩ := htask hwaiting
  obtain rfl := (hqueued c.caller).task_unique ht ht' hblob.symm
  rw [hpc] at hpc'
  cases hpc'
  obtain rfl := d.nodeId_injective hj
  exact hhas

/-! ## A step of the network -/

/-- The request of a task that asks a peer. -/
theorem linked_send (hwired : Wired d net) (hnet : Linked d net) {i : ι} {client : Client}
    (h : net.step platform d (.send i client) = some net') : Linked d net' := by
  obtain ⟨hidle, peer, request, callee, hout, hroute, rfl⟩ := Network.step_send_eq_some.1 h
  refine hnet.add_call hidle fun blobId hclient => ?_
  obtain rfl : client = .task blobId := hclient
  refine ⟨fun _ => ?_, List.forall_mem_nil _⟩
  simp only [DaNode.outgoing, Option.bind_eq_some_iff] at hout
  obtain ⟨t, ht, hout⟩ := hout
  have hmem := List.mem_of_find?_eq_some ht
  unfold FetchTask.outgoing at hout
  split at hout
  · next peerId peer' rest hpc =>
      cases hout
      obtain ⟨j, hj, hname⟩ := (hwired.truthful i).tasks t hmem (peerId, peer)
        (by simp [hpc, FetchPc.peers])
      obtain rfl := Option.some.inj (hroute.symm.trans hj)
      obtain rfl : (d.config callee).nodeId = peerId := hname
      exact ⟨t, hmem, by simpa using List.find?_some ht, peer, rest, hpc⟩
  · cases hout

/-- The request of a call comes to a handler of its callee. -/
theorem linked_arrive (hwired : Wired d net) (hnet : Linked d net) {k : Nat} {again : Bool}
    (h : net.step platform d (.arrive k again) = some net') : Linked d net' := by
  obtain ⟨c, hk, -, n, hn, rfl⟩ := Network.step_arrive_eq_some.1 h
  have hnode := hnet.request_step hn
  refine hnode.set_call hk rfl rfl id fun blobId hclient => ?_
  have hmem := List.mem_of_getElem? hk
  obtain ⟨htask, hserved⟩ := hnode.calls c hmem blobId hclient
  refine ⟨htask, fun h' hh' => ?_⟩
  rcases List.mem_append.1 hh' with hold | hnew
  · exact hserved h' hold
  · obtain rfl := List.mem_singleton.1 hnew
    have hproper := hwired.proper c hmem
    unfold Call.Proper at hproper
    simp only at hclient
    rw [hclient] at hproper
    obtain rfl : { net.nodes c.callee with
        handlers := (net.nodes c.callee).handlers ++ [.sync (some c.request)] } = n :=
      Option.some.inj hn
    refine ⟨.sync (some c.request), ?_, ?_⟩
    · simp
    · simp only [Handler.Serves, hproper, PeerClient.fetchRequest]

/-- **No step of a network breaks a link.** -/
theorem linked_step (hwired : Wired d net) (hnet : Linked d net) {l : Label ι}
    (h : net.step platform d l = some net') : Linked d net' := by
  cases l with
  | node i e =>
      obtain ⟨hinternal, -, n, hn, rfl⟩ := Network.step_node_eq_some.1 h
      -- a task that waits for a reply does not go on by itself
      have hidle {k : Nat} {inp : FetchInput} {t : FetchTask} {peerId : String}
          {client : PeerClient} {rest : List (String × PeerClient)} (he : e = .task k inp)
          (hk : (net.nodes i).tasks[k]? = some t) (hpc : t.pc = .awaitReply peerId client rest) :
          False := by
        subst he
        simp [DaNode.internal, hk, FetchTask.outgoing, hpc] at hinternal
      exact hnet.node_step (fun _ _ _ _ _ _ he hk hpc => (hidle he hk hpc).elim)
        (fun _ _ _ _ _ _ _ _ he hk hpc => (hidle he hk hpc).elim) hn _
  | other i request =>
      obtain ⟨n, hn, rfl⟩ := Network.step_other_eq_some.1 h
      exact hnet.request_step hn
  | send i client => exact linked_send hwired hnet h
  | unsent i client now =>
      obtain ⟨hidle, -, n, hn, rfl⟩ := Network.step_unsent_eq_some.1 h
      refine hnet.client_step hidle ?_ hn
      intro t ht hclient peerId peer rest protoBlob metadata hpc hfetch
      cases hfetch
  | arrive k again => exact linked_arrive hwired hnet h
  | lose k =>
      obtain ⟨c, hk, rfl⟩ := Network.step_lose_eq_some.1 h
      refine hnet.set_call hk rfl rfl id fun blobId hclient => ?_
      obtain ⟨htask, hserved⟩ := hnet.calls c (List.mem_of_getElem? hk) blobId hclient
      exact ⟨htask, hserved⟩
  | reply k h' now =>
      obtain ⟨c, reply, hk, hwaiting, hh', hreply, n, hn, rfl⟩ := Network.step_reply_eq_some.1 h
      refine (hnet.close hk).client_step (hnet.not_waits_close hk hwaiting) ?_ hn
      intro t ht hclient peerId peer rest protoBlob metadata hpc hfetch hmetadata
      exact hnet.reply_brings hwired.queued (List.mem_of_getElem? hk) hwaiting hh' hreply ht hclient
        hpc hfetch hmetadata
  | fail k now =>
      obtain ⟨c, hk, hwaiting, n, hn, rfl⟩ := Network.step_fail_eq_some.1 h
      refine (hnet.close hk).client_step (hnet.not_waits_close hk hwaiting) ?_ hn
      intro t ht hclient peerId peer rest protoBlob metadata hpc hfetch
      cases hfetch

end

end DaConcept.Node
