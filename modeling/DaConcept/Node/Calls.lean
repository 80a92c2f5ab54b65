import DaConcept.Node.Agreement
import DaConcept.Node.Queue

set_option autoImplicit false

/-! # The calls of a network

Which activity a call belongs to, on either side. On the caller, the client of an open call is a
fetch task that waits for the reply of this callee, or the sync loop; on the callee, every handler
of a fetch request serves a call. The names under which a node knows its peers are theirs, so the
caller also knows whom it called. -/

namespace DaConcept.Node

/-! ## Rows persist -/

/-- The node has a row for the blob, live or soft-deleted. -/
def DaNode.Has (n : DaNode) (blobId : Uuid) : Prop :=
  ∃ row ∈ n.shared.db.blobs.rows, row.id.denotes = some blobId

instance (n : DaNode) (blobId : Uuid) : Decidable (n.Has blobId) :=
  inferInstanceAs (Decidable (∃ row ∈ n.shared.db.blobs.rows, row.id.denotes = some blobId))

section

variable {platform : Platform} {n n' : DaNode} {e : Event} {blobId : Uuid}

theorem DaNode.Has.step (hn : n.Has blobId) (h : n.step platform e = some n') : n'.Has blobId := by
  obtain ⟨row, hrow, hid⟩ := hn
  rw [DaNode.Has, DaNode.step_shared h]
  rcases Write.blobs_onDb_of_mem (n.write platform e) hrow with hkept | ⟨now, -, hdeleted⟩
  · exact ⟨row, hkept, hid⟩
  · exact ⟨_, hdeleted, hid⟩

/-- After an INSERT there is a row with the id, the inserted one or the one that was there. -/
theorem Write.exists_row_of_insertBlob (row : BlobRow) (db : Db) :
    ∃ row' ∈ ((Write.insertBlob row).onDb db).blobs.rows, row'.id = row.id := by
  simp only [Write.onDb]
  rcases hinsert : db.blobs.insert row with _ | blobs
  · obtain ⟨row', hrow'⟩ := Option.isSome_iff_exists.1 (Table.insert_eq_none_iff.1 hinsert)
    obtain ⟨hmem, hid⟩ := Table.lookup_eq_some_iff.1 hrow'
    exact ⟨row', hmem, hid⟩
  · rw [Option.getD_some, Table.rows_of_insert hinsert]
    exact ⟨row, List.mem_append_right _ (List.mem_singleton_self _), rfl⟩

/-- A task that comes to the INSERT leaves the node with a row for the blob, even if the INSERT
    violates the key. -/
theorem DaNode.has_of_store {i : Nat} {inp : FetchInput} {t : FetchTask} {peerId : String}
    {metadata : BlobMetadata} {protoBlob : ProtoBlob} {now : Timestamp}
    (h : n.step platform (.task i inp) = some n') (hi : n.tasks[i]? = some t)
    (hpc : t.pc = .store peerId metadata protoBlob now)
    (hid : Uuid.parse metadata.id = some blobId) : n'.Has blobId := by
  have hwrite : n.write platform (.task i inp)
      = .insertBlob (receivedRow platform now metadata protoBlob) := by
    simp only [DaNode.write, hi, Option.elim_some, FetchTask.write, hpc]
  rw [DaNode.Has, DaNode.step_shared h, hwrite]
  obtain ⟨row, hrow, hrowId⟩ :=
    Write.exists_row_of_insertBlob (receivedRow platform now metadata protoBlob) n.shared.db
  exact ⟨row, hrow, by rw [hrowId]; exact hid⟩

end

/-! ## Names of peers -/

section

variable {ι : Type} {platform : Platform} {d : Deployment ι}

/-- The address of the peer leads to the node of that name. -/
def Deployment.LeadsTo (d : Deployment ι) (peer : String × PeerClient) : Prop :=
  ∃ j, d.route peer.2.peerUrl = some j ∧ (d.config j).nodeId = peer.1

/-- The peers a task still has to do with. -/
def FetchPc.peers : FetchPc → List (String × PeerClient)
  | .checkExists peers | .markPeers peers | .tryPeer peers => peers
  | .awaitReply peerId client rest => (peerId, client) :: rest
  | .markFailed _ rest => rest
  | _ => []

theorem FetchTask.peers_step {s s' : Shared} {t : FetchTask} {inp : FetchInput} {pc : FetchPc}
    (h : t.step platform s inp = some (s', pc)) :
    ∀ peer ∈ pc.peers, peer ∈ t.pc.peers ∨ peer ∈ s.manager.peers.rows := by
  intro peer hpeer
  cases FetchTask.next_of_step h with
  | copied hpc horder => exact Or.inr (horder.mem_iff.1 hpeer)
  | found hpc hexists => exact Or.inl (hpc ▸ hpeer)
  | missing hpc hexists => exact Or.inl (hpc ▸ hpeer)
  | mark hpc => exact Or.inl (hpc ▸ List.mem_cons_of_mem _ hpeer)
  | ask hpc => exact Or.inl (hpc ▸ hpeer)
  | @received p client rest hpc =>
      refine Or.inl (hpc ▸ List.mem_cons_of_mem _ ?_)
      unfold FetchTask.receive at hpeer
      split at hpeer
      · split at hpeer
        · exact hpeer
        · split at hpeer
          · cases hpeer
          · exact hpeer
      · exact hpeer
      · exact hpeer
  | markFailed hpc => exact Or.inl (hpc ▸ hpeer)
  | _ => cases hpeer

/-- The peers a node knows, and those its handlers and tasks deal with, have their own names. -/
structure Truthful (d : Deployment ι) (n : DaNode) : Prop where
  peers : ∀ peer ∈ n.shared.manager.peers.rows, d.LeadsTo peer
  tasks : ∀ t ∈ n.tasks, ∀ peer ∈ t.pc.peers, d.LeadsTo peer
  handlers : ∀ nodeId nodeUrl, .sync (some (.handshake nodeId nodeUrl)) ∈ n.handlers →
    d.LeadsTo (nodeId, ⟨nodeUrl⟩)

/-- No handler goes back to `sync`. -/
theorem Handler.step_ne_sync {inp : HandlerInput} {s s' : Shared} {h : Handler}
    {request : Option RequestType} : h.step platform inp s ≠ some (s', .sync request) := by
  intro hstep
  cases Handler.next_of_step hstep

theorem Truthful.step {n n' : DaNode} {e : Event} (hn : Truthful d n)
    (hrequest : ∀ nodeId nodeUrl, e = .request (some (.handshake nodeId nodeUrl)) →
      d.LeadsTo (nodeId, ⟨nodeUrl⟩))
    (h : n.step platform e = some n') : Truthful d n' where
  peers peer hpeer := by
    rw [DaNode.step_shared h] at hpeer
    rcases Write.mem_peers_onManager hpeer with hold | hwrite
    · exact hn.peers peer hold
    · obtain ⟨i, inp, -, hi⟩ := DaNode.write_eq_addPeer hwrite
      exact hn.handlers _ _ (List.mem_of_getElem? hi)
  tasks t' ht' peer hpeer := by
    rcases DaNode.mem_tasks_step h ht' with hold | ⟨job, -, rfl⟩ | ⟨t, ht, -, hfail | hgo⟩
    · exact hn.tasks t' hold peer hpeer
    · cases hpeer
    · rw [FetchTask.fail_eq_some hfail] at hpeer
      cases hpeer
    · obtain ⟨i, inp, s, -, -, hstep⟩ := hgo
      rcases FetchTask.peers_step hstep peer hpeer with hold | hknown
      · exact hn.tasks t ht peer hold
      · exact hn.peers peer hknown
  handlers nodeId nodeUrl hmem := by
    rcases DaNode.mem_handlers_step h hmem with
      hold | ⟨request, rfl, heq⟩ | ⟨i, inp, hd, s, -, -, hstep⟩
    · exact hn.handlers nodeId nodeUrl hold
    · cases heq
      exact hrequest nodeId nodeUrl rfl
    · exact absurd hstep Handler.step_ne_sync

end

/-! ## Tasks are told apart by their blobs -/

section

variable {platform : Platform} {n n' : DaNode} {e : Event}

/-- A node whose queue invariant holds, with whatever account. -/
def DaNode.Queued (n : DaNode) : Prop := ∃ limit enqueued popped, QueueInv limit enqueued popped n

theorem DaNode.Queued.step (hn : n.Queued) (h : n.step platform e = some n') : n'.Queued := by
  obtain ⟨limit, enqueued, popped, hinv⟩ := hn
  exact ⟨limit, _, _, queueInv_step hinv h⟩

theorem DaNode.Queued.task_unique (hn : n.Queued) {t t' : FetchTask} (ht : t ∈ n.tasks)
    (ht' : t' ∈ n.tasks) (hblob : t.blobId = t'.blobId) : t = t' := by
  obtain ⟨limit, enqueued, popped, hinv⟩ := hn
  have hnodup := (List.nodup_append'.1 hinv.nodup).2.1
  exact List.inj_on_of_nodup_map hnodup ht ht' hblob

/-- The client of a task is that task. -/
theorem DaNode.Queued.getElem?_findIdx (hn : n.Queued) {t : FetchTask} (ht : t ∈ n.tasks) :
    n.tasks[n.tasks.findIdx (·.blobId = t.blobId)]? = some t := by
  have hlt : n.tasks.findIdx (·.blobId = t.blobId) < n.tasks.length :=
    List.findIdx_lt_length_of_exists ⟨t, ht, by simp⟩
  have hblob := List.findIdx_getElem (w := hlt)
  rw [List.getElem?_eq_getElem hlt, hn.task_unique (List.getElem_mem hlt) ht (by simpa using hblob)]

end

/-! ## Who is connected with whom -/

section

variable {ι : Type} {platform : Platform} {d : Deployment ι} {net net' : Network ι}

/-- A call carries the request of its client. -/
def Call.Proper (d : Deployment ι) (c : Call ι) : Prop :=
  match c.client with
  | .task blobId => c.request = PeerClient.fetchRequest (d.config c.caller).nodeId blobId
  | .loop => ∃ metadata, c.request = .announce metadata

/-- What holds in a network however its messages fare. -/
structure Wired (d : Deployment ι) (net : Network ι) : Prop where
  config : ∀ i, (net.nodes i).shared.manager.config = d.config i
  queued : ∀ i, (net.nodes i).Queued
  truthful : ∀ i, Truthful d (net.nodes i)
  proper : ∀ c ∈ net.calls, c.Proper d

theorem wired_start (d : Deployment ι) : Wired d (Network.start d) where
  config _ := rfl
  queued i := ⟨_, _, _, queueInv_start (d.config i) (d.peers i) _⟩
  truthful i :=
    { peers := d.peers_route i
      tasks := List.forall_mem_nil _
      handlers := fun _ _ hmem => absurd hmem List.not_mem_nil }
  proper := List.forall_mem_nil _

/-- What a client sends is its request. -/
theorem Wired.proper_of_outgoing (hnet : Wired d net) {c : Call ι} {peer : PeerClient}
    (h : (net.nodes c.caller).outgoing platform c.client = some (peer, c.request)) :
    c.Proper d := by
  unfold Call.Proper
  rcases hclient : c.client with blobId | _
  · rw [hclient] at h
    simp only [DaNode.outgoing, Option.bind_eq_some_iff] at h
    obtain ⟨t, ht, hout⟩ := h
    have hblob := List.find?_some ht
    simp only [decide_eq_true_eq] at hblob
    unfold FetchTask.outgoing at hout
    split at hout
    · rw [hnet.config, hblob] at hout
      exact (congrArg Prod.snd (Option.some.inj hout)).symm
    · cases hout
  · rw [hclient] at h
    simp only [DaNode.outgoing] at h
    unfold SyncLoop.outgoing at h
    split at h
    · exact ⟨_, (congrArg Prod.snd (Option.some.inj h)).symm⟩
    · cases h

variable [DecidableEq ι]

theorem wired_step (hnet : Wired d net) {l : Label ι} (h : net.step platform d l = some net') :
    Wired d net' where
  config i := Network.node_invariant
    (I := fun n => n.shared.manager.config = d.config i)
    (fun _ _ _ hn hstep => (config_step hstep).trans hn) (hnet.config i) h
  queued i := Network.node_invariant (fun _ _ _ hn hstep => hn.step hstep) (hnet.queued i) h
  truthful i := by
    rcases Network.step_nodes h i with hsame | ⟨e, he, hoccurs⟩
    · rw [hsame]
      exact hnet.truthful i
    · refine (hnet.truthful i).step ?_ he
      rintro nodeId nodeUrl rfl
      generalize heq : Event.request (some (.handshake nodeId nodeUrl)) = e at hoccurs
      cases hoccurs with
      | internal hl hinternal => exact absurd heq.symm (hinternal _)
      | other request =>
          cases request with
          | handshake j =>
              cases heq
              exact ⟨j, d.route_listenAddr j, rfl⟩
          | _ => cases heq
      | request hc =>
          have hproper := hnet.proper _ hc
          unfold Call.Proper at hproper
          rw [← Option.some.inj (Event.request.inj heq)] at hproper
          split at hproper
          · cases hproper
          · obtain ⟨metadata, hannounce⟩ := hproper
            cases hannounce
      | reply client now reply =>
          exact absurd heq.symm (Client.event_ne_request _ _ _ _ _)
  proper c' hc' := by
    rcases Network.mem_calls_step h hc' with
      ⟨c, hc, hcaller, hclient, -, hrequest⟩ | ⟨peer, hout, -⟩
    · have hproper := hnet.proper c hc
      unfold Call.Proper at hproper ⊢
      rwa [hcaller, hclient, hrequest]
    · exact hnet.proper_of_outgoing hout

end

end DaConcept.Node
