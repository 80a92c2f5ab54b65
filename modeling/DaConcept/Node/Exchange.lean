import DaConcept.Node.Progress
import DaConcept.Node.Rounds
import DaConcept.Node.Spread
import DaConcept.Node.Wire

set_option autoImplicit false

/-! # How a blob gets to a peer

What the other modules say of a network is what it never does. Here it does something: as long as
two nodes know each other, one of them has a blob of a user that is not completed at the other, and
neither is busy, the network can bring the blob there, without a user, a failure or anyone else
(`replication_possible`), as long as the blob is not longer than a client decodes. The announcement,
the fetch and the copy are followed node by node; what a node does by itself is lifted to the
network once (`DaNode.Goes.network`). -/

namespace DaConcept.Node

/-! ## A node goes on by itself -/

/-- A handler, a task or the loop goes on, and no statement fails. -/
def Event.orderly : Event → Bool
  | .handler .. | .task .. | .loop _ => true
  | _ => false

/-- The node comes from `n` to `n'` without a message. -/
def DaNode.Goes (platform : Platform) : DaNode → DaNode → Prop :=
  Relation.ReflTransGen (fun n n' => ∃ e : Event, e.orderly = true ∧
    n.internal platform e = true ∧ n.step platform e = some n')

section

variable {platform : Platform} {n n' n'' : DaNode}

theorem DaNode.Goes.step (e : Event) (he : e.orderly = true)
    (hinternal : n.internal platform e = true) (h : n.step platform e = some n') :
    n.Goes platform n' := .single ⟨e, he, hinternal, h⟩

theorem DaNode.Goes.trans (h : n.Goes platform n') (h' : n'.Goes platform n'') :
    n.Goes platform n'' := Relation.ReflTransGen.trans h h'

theorem DaNode.Goes.loop {s' : Shared} {tasks' : List FetchTask} {l' : SyncLoop} (inp : LoopInput)
    (hinternal : n.loop.outgoing platform = none)
    (h : n.loop.step n.shared n.tasks inp = some (s', tasks', l')) :
    n.Goes platform { n with shared := s', tasks := tasks', loop := l' } :=
  .step (.loop inp) rfl (by rw [DaNode.internal, hinternal]; rfl)
    (DaNode.step_loop_eq_some.2 ⟨s', tasks', l', h, rfl⟩)

theorem DaNode.Goes.handler {i : Nat} {hd hd' : Handler} {s' : Shared} (inp : HandlerInput)
    (hi : n.handlers[i]? = some hd) (h : hd.step platform inp n.shared = some (s', hd')) :
    n.Goes platform { n with shared := s', handlers := n.handlers.set i hd' } :=
  .step (.handler i inp) rfl rfl (DaNode.step_handler_eq_some.2 ⟨hd, hi, s', hd', h, rfl⟩)

theorem DaNode.Goes.task {t : FetchTask} {s' : Shared} {pc : FetchPc} (inp : FetchInput)
    (htasks : n.tasks = [t]) (hinternal : t.outgoing n.shared.manager.config.nodeId = none)
    (h : t.step platform n.shared inp = some (s', pc)) :
    n.Goes platform { n with shared := s', tasks := [{ t with pc }] } := by
  have hi : n.tasks[0]? = some t := by rw [htasks]; rfl
  have hset : n.tasks.set 0 { t with pc } = [{ t with pc }] := by rw [htasks]; rfl
  refine .step (.task 0 inp) rfl ?_
    (DaNode.step_task_eq_some.2 ⟨t, hi, Or.inr ⟨s', pc, h, by rw [hset]⟩⟩)
  rw [DaNode.internal, hi, Option.all_some, hinternal]
  rfl

end

/-! ## What the nodes do -/

section

variable (platform : Platform) {n : DaNode}

/-- Nothing is under way on the node but handlers and mutations, and nothing is queued. -/
structure DaNode.Quiet (n : DaNode) : Prop where
  loop : n.loop = .process
  tasks : n.tasks = []
  queue : n.shared.manager.blobQueue = []

instance (n : DaNode) : Decidable n.Quiet :=
  decidable_of_iff
    (n.loop.processing = true ∧ n.tasks.isEmpty ∧ n.shared.manager.blobQueue.isEmpty) <| by
      rw [List.isEmpty_iff, List.isEmpty_iff]
      refine ⟨fun ⟨hloop, htasks, hqueue⟩ => ⟨?_, htasks, hqueue⟩, fun hn => ?_⟩
      · cases hl : n.loop with
        | process => rfl
        | _ => rw [hl] at hloop; cases hloop
      · rw [hn.loop]
        exact ⟨rfl, hn.tasks, hn.queue⟩

theorem DaNode.Quiet.not_mem_inProgress (hn : n.Quiet) (hqueued : n.Queued) (u : Uuid) :
    u ∉ n.shared.manager.inProgress := by
  obtain ⟨limit, enqueued, popped, hinv⟩ := hqueued
  have hbusy := hinv.inv.busy_iff u
  rw [n.queue_keys, hn.queue, hn.tasks] at hbusy
  exact fun hmem => List.not_mem_nil (hbusy.1 hmem)

/-- A row comes first in some order of a table. -/
theorem exists_perm_cons {α : Type} [DecidableEq α] {a : α} {l : List α} (h : a ∈ l) :
    ∃ l', (a :: l').Perm l := ⟨l.erase a, (List.perm_cons_erase h).symm⟩

/-- The node when another request has arrived. -/
def DaNode.served (n : DaNode) (request : RequestType) : DaNode :=
  { n with handlers := n.handlers ++ [.sync (some request)] }

/-- A handler accepts the announcement of a blob that the node does not have by this id. -/
theorem DaNode.accepts {u : Uuid} {metadata : BlobMetadata}
    (hexists : SyncServiceImpl.doesBlobExist metadata.id n.shared.db = false)
    (hparse : Uuid.parse metadata.id = some u) :
    ∃ handlers, (n.served (.announce (some metadata))).Goes platform { n with
      shared := ⟨n.shared.db, n.shared.manager.queueBlobFetch u metadata.hash⟩
      handlers } := by
  let n₁ := n.served (.announce (some metadata))
  let k := n.handlers.length
  have hk : n₁.handlers[k]? = some (.sync (some (.announce (some metadata)))) :=
    List.getElem?_concat_length
  have hfirst : n₁.Goes platform
      { n₁ with handlers := n₁.handlers.set k (.announceQueue u metadata.hash) } := by
    refine .handler HandlerInput.sample hk ?_
    simp [n₁, DaNode.served, Handler.step, handleAnnounce, hexists, hparse]
  have hset := List.getElem?_set_self' (l := n₁.handlers) (i := k)
    (a := .announceQueue u metadata.hash)
  rw [hk] at hset
  exact ⟨_, hfirst.trans (.handler HandlerInput.sample hset rfl)⟩

/-- The sync loop takes the only job of the queue, and its task comes to ask a peer that the node
    knows. -/
theorem DaNode.asks (hloop : n.loop = .process) (htasks : n.tasks = []) {job : Uuid × String}
    (hqueue : n.shared.manager.blobQueue = [job])
    (hlimit : 0 < n.shared.manager.config.maxConcurrentSyncs)
    (hexists : SyncManager.doesBlobExist job.1 n.shared.db = false) {peer : String × PeerClient}
    (hpeer : peer ∈ n.shared.manager.peers.rows) :
    ∃ rest, n.Goes platform { n with
      shared := ⟨startBlobSyncWithPeer 0 job.1 peer.1 n.shared.db, n.shared.manager.takeBatch⟩
      loop := .join
      tasks := [⟨job.1, job.2, .awaitReply peer.1 peer.2 rest⟩] } := by
  obtain ⟨rest, hrest⟩ := exists_perm_cons hpeer
  have hbatch : n.shared.manager.batch = [job] := by
    rw [SyncManager.batch_eq_take, hqueue]
    exact List.take_of_length_le hlimit
  let inp : FetchInput := ⟨0, peer :: rest, .error .unavailable⟩
  let taken : Shared := ⟨n.shared.db, n.shared.manager.takeBatch⟩
  refine ⟨rest, ?_⟩
  have hspawn : n.Goes platform
      { n with shared := taken, loop := .join, tasks := [⟨job.1, job.2, .start⟩] } := by
    refine .loop LoopInput.sample (by rw [hloop]; rfl) ?_
    simp [hloop, SyncLoop.step, hbatch, htasks, FetchTask.spawn, taken]
  have hcopy : DaNode.Goes platform
      { n with shared := taken, loop := .join, tasks := [⟨job.1, job.2, .start⟩] }
      { n with
        shared := taken
        loop := .join
        tasks := [⟨job.1, job.2, .checkExists (peer :: rest)⟩] } := by
    refine .task (t := ⟨job.1, job.2, .start⟩) inp rfl rfl ?_
    simp [FetchTask.step, inp, taken, SyncManager.takeBatch, hrest]
  have hmissing : DaNode.Goes platform
      { n with
        shared := taken
        loop := .join
        tasks := [⟨job.1, job.2, .checkExists (peer :: rest)⟩] }
      { n with
        shared := taken
        loop := .join
        tasks := [⟨job.1, job.2, .tryPeer (peer :: rest)⟩] } := by
    refine .task (t := ⟨job.1, job.2, .checkExists (peer :: rest)⟩) inp rfl rfl ?_
    simp [FetchTask.step, taken, hexists]
  have hask : DaNode.Goes platform
      { n with
        shared := taken
        loop := .join
        tasks := [⟨job.1, job.2, .tryPeer (peer :: rest)⟩] }
      { n with
        shared := ⟨startBlobSyncWithPeer 0 job.1 peer.1 n.shared.db, n.shared.manager.takeBatch⟩
        loop := .join
        tasks := [⟨job.1, job.2, .awaitReply peer.1 peer.2 rest⟩] } :=
    .task (t := ⟨job.1, job.2, .tryPeer (peer :: rest)⟩) inp rfl rfl rfl
  exact ((hspawn.trans hcopy).trans hmissing).trans hask

/-- A quiet node that does not have a blob comes to ask a peer for it when it is announced. -/
theorem DaNode.Quiet.fetches (hn : n.Quiet) (hqueued : n.Queued)
    (hlimit : 0 < n.shared.manager.config.maxConcurrentSyncs) {u : Uuid} (hhas : ¬ n.Has u)
    {metadata : BlobMetadata} (hmetadata : metadata.id = u.toString) {peer : String × PeerClient}
    (hpeer : peer ∈ n.shared.manager.peers.rows) :
    ∃ n' rest, (n.served (.announce (some metadata))).Goes platform n' ∧
      n'.tasks = [⟨u, metadata.hash, .awaitReply peer.1 peer.2 rest⟩] ∧
      n'.shared.manager.config = n.shared.manager.config := by
  have hnone {id : Cell} (hid : id.denotes = some u) : n.shared.db.blobExists id = false := by
    rw [Bool.eq_false_iff, ne_eq, blobExists_iff]
    rintro ⟨row, hrow, -, rfl⟩
    exact hhas ⟨row, hrow, hid⟩
  obtain ⟨handlers, haccepts⟩ := DaNode.accepts platform
    (hnone (by rw [hmetadata, Uuid.denotes_text_toString]))
    (by rw [hmetadata, u.parse_toString])
  have hqueue : n.shared.manager.queueBlobFetch u metadata.hash = { n.shared.manager with
      blobQueue := [(u, metadata.hash)]
      inProgress := insert u n.shared.manager.inProgress } := by
    rw [SyncManager.queueBlobFetch, if_pos (hn.not_mem_inProgress hqueued u), hn.queue]
    rfl
  rw [hqueue] at haccepts
  let n₁ : DaNode := { n with
    shared := ⟨n.shared.db, { n.shared.manager with
      blobQueue := [(u, metadata.hash)]
      inProgress := insert u n.shared.manager.inProgress }⟩
    handlers }
  obtain ⟨rest, hasks⟩ := DaNode.asks platform (n := n₁) hn.loop hn.tasks rfl hlimit
    (hnone u.denotes_cell) hpeer
  exact ⟨_, rest, haccepts.trans hasks, rfl, rfl⟩

end

/-! ## The network goes on by itself -/

section

variable {ι : Type} {platform : Platform} {d : Deployment ι}

/-- Something that needs no user, no failure and no other request. -/
def Label.orderly : Label ι → Bool
  | .node _ e => e.orderly
  | .send .. | .arrive .. | .reply .. => true
  | _ => false

/-- The message that gets there, if one does, is not longer than tonic decodes. -/
def Network.Decodes (net : Network ι) : Label ι → Prop
  | .arrive k _ => ∀ c, net.calls[k]? = some c → c.request.fits = true
  | .reply k h _ => ∀ c reply, net.calls[k]? = some c →
      (net.nodes c.callee).handlers[h]? = some (.replied reply) → RpcReply.fits reply = true
  | _ => True

/-- An orderly step that tonic does not refuse. -/
def Network.Smooth (net : Network ι) (l : Label ι) : Prop := l.orderly = true ∧ net.Decodes l

variable [DecidableEq ι]

/-- The network comes from `net` to `net'` by such steps. -/
def Network.Goes (platform : Platform) (d : Deployment ι) : Network ι → Network ι → Prop :=
  Relation.ReflTransGen (fun net net' => ∃ l : Label ι, net.Smooth l ∧
    net.step platform d l = some net')

variable {net net' net'' : Network ι}

theorem Network.Goes.step (l : Label ι) (hl : net.Smooth l)
    (h : net.step platform d l = some net') : net.Goes platform d net' := .single ⟨l, hl, h⟩

theorem Network.Goes.trans (h : net.Goes platform d net') (h' : net'.Goes platform d net'') :
    net.Goes platform d net'' := Relation.ReflTransGen.trans h h'

theorem Network.step_orderly {i : ι} {e : Event} {n : DaNode} (he : e.orderly = true)
    (hinternal : (net.nodes i).internal platform e = true)
    (h : (net.nodes i).step platform e = some n) :
    net.step platform d (.node i e) = some { net with nodes := Function.update net.nodes i n } := by
  have hdraws : (net.nodes i).draws e = none := by
    cases e with
    | handler i inp => rfl
    | task i inp => rfl
    | loop inp => rfl
    | _ => cases he
  exact Network.step_node_eq_some.2 ⟨hinternal, by simp [hdraws], n, h, by rw [hdraws]; rfl⟩

/-- **What a node does by itself, it does in a network.** -/
theorem DaNode.Goes.network {i : ι} {n : DaNode} (h : (net.nodes i).Goes platform n) :
    net.Goes platform d { net with nodes := Function.update net.nodes i n } := by
  induction h with
  | refl =>
      rw [Function.update_eq_self]
      exact .refl
  | @tail n₁ n₂ _ hstep ih =>
      obtain ⟨e, he, hinternal, hn⟩ := hstep
      let net₁ : Network ι := { net with nodes := Function.update net.nodes i n₁ }
      have hself : net₁.nodes i = n₁ := Function.update_self ..
      rw [← hself] at hinternal hn
      have hstep := Network.step_orderly (d := d) he hinternal hn
      have hsame : Function.update net₁.nodes i n₂ = Function.update net.nodes i n₂ :=
        Function.update_idem ..
      rw [hsame] at hstep
      exact ih.trans (.step (.node i e) ⟨he, trivial⟩ hstep)

/-- A client sends its request, it arrives, and the callee goes on. -/
theorem Network.Goes.call {i callee : ι} {client : Client} {peer : PeerClient}
    {request : RequestType} {n : DaNode} (hfits : request.fits = true)
    (hidle : net.Waits i client = false)
    (hout : (net.nodes i).outgoing platform client = some (peer, request))
    (hroute : d.route peer.peerUrl = some callee)
    (hn : ((net.nodes callee).served request).Goes platform n) :
    net.Goes platform d { net with
      nodes := Function.update net.nodes callee n
      calls := net.calls ++ [{
        caller := i, client, callee, request
        inFlight := false
        handlers := [(net.nodes callee).handlers.length]
        waiting := true }] } := by
  let c : Call ι := ⟨i, client, callee, request, true, [], true⟩
  have hsend : net.step platform d (.send i client) = some { net with calls := net.calls ++ [c] } :=
    Network.step_send_eq_some.2 ⟨hidle, peer, request, callee, hout, hroute, rfl⟩
  have hlast : (net.calls ++ [c])[net.calls.length]? = some c := List.getElem?_concat_length
  let net₁ : Network ι :=
    { net with
      nodes := Function.update net.nodes callee ((net.nodes callee).served request)
      calls := net.calls ++
        [{ c with inFlight := false, handlers := [(net.nodes callee).handlers.length] }] }
  have harrive : Network.step platform d { net with calls := net.calls ++ [c] }
      (.arrive net.calls.length false) = some net₁ := by
    refine Network.step_arrive_eq_some.2 ⟨c, hlast, rfl, _, rfl, ?_⟩
    simp [c, net₁, DaNode.served]
  have hself : net₁.nodes callee = (net.nodes callee).served request := Function.update_self ..
  rw [← hself] at hn
  have hdecodes : Network.Decodes { net with calls := net.calls ++ [c] }
      (.arrive net.calls.length false) := by
    intro c' hc'
    obtain rfl := Option.some.inj (hlast.symm.trans hc')
    exact hfits
  have hgoes := (Network.Goes.step (.send i client) ⟨rfl, trivial⟩ hsend).trans
    ((Network.Goes.step _ ⟨rfl, hdecodes⟩ harrive).trans (hn.network (d := d)))
  have hsame : Function.update net₁.nodes callee n = Function.update net.nodes callee n :=
    Function.update_idem ..
  rwa [hsame] at hgoes

/-- A sync loop that has a call open waits for the reply. -/
def Network.LoopAwaits (platform : Platform) (net : Network ι) : Prop :=
  ∀ i, net.Waits i .loop = true → ((net.nodes i).loop.outgoing platform).isSome

theorem Client.eq_of_event_eq_loop {n : DaNode} {client : Client} {now : Timestamp}
    {reply : RpcReply} {inp : LoopInput} (h : client.event n now reply = .loop inp) :
    client = .loop := by
  cases client with
  | task blobId => cases h
  | loop => rfl

/-- Waiting in the calls of which one has only changed what is known of its arrivals, or has been
    closed. -/
theorem Network.waits_of_set {k : Nat} {c c' : Call ι} {i : ι} {client : Client}
    {nodes : ι → DaNode} (hk : net.calls[k]? = some c)
    (h : { net with nodes, calls := net.calls.set k c' }.Waits i client = true)
    (hcaller : c'.caller = c.caller) (hclient : c'.client = c.client)
    (hwaiting : c'.waiting = true → c.waiting = true) : net.Waits i client = true := by
  obtain ⟨c₁, hc₁, hi, hclient₁, hwaiting₁⟩ := Network.waits_eq_true.1 h
  rcases List.mem_or_eq_of_mem_set hc₁ with hold | rfl
  · exact Network.waits_eq_true.2 ⟨c₁, hold, hi, hclient₁, hwaiting₁⟩
  · exact Network.waits_eq_true.2 ⟨c, List.mem_of_getElem? hk, hcaller.symm.trans hi,
      hclient.symm.trans hclient₁, hwaiting hwaiting₁⟩

theorem loopAwaits_step {l : Label ι} (hlinked : Linked d net) (hnet : net.LoopAwaits platform)
    (h : net.step platform d l = some net') : net'.LoopAwaits platform := by
  intro i hwaits
  -- a node that does something else leaves its loop where it is
  have hnode {j : ι} {e : Event} {n : DaNode} (hn : (net.nodes j).step platform e = some n)
      (hold : net.Waits i .loop = true) (hloop : i = j → ∀ inp, e ≠ .loop inp) :
      ((Function.update net.nodes j n i).loop.outgoing platform).isSome := by
    by_cases hij : i = j
    · subst hij
      rw [Function.update_self]
      rcases DaNode.loop_step hn with hsame | ⟨inp, rfl, -⟩
      · rw [hsame]
        exact hnet i hold
      · exact absurd rfl (hloop rfl inp)
    · rw [Function.update_of_ne hij]
      exact hnet i hold
  cases l with
  | node j e =>
      obtain ⟨hinternal, -, n, hn, rfl⟩ := Network.step_node_eq_some.1 h
      refine hnode hn hwaits ?_
      rintro rfl inp rfl
      have hsome := hnet i hwaits
      rw [DaNode.internal, Option.isNone_iff_eq_none] at hinternal
      rw [hinternal] at hsome
      cases hsome
  | other j request =>
      obtain ⟨n, hn, rfl⟩ := Network.step_other_eq_some.1 h
      refine hnode hn hwaits ?_
      intro _ inp he
      cases he
  | send j client =>
      obtain ⟨-, peer, request, callee, hout, -, rfl⟩ := Network.step_send_eq_some.1 h
      obtain ⟨c, hc, hcaller, hclient, hwaiting⟩ := Network.waits_eq_true.1 hwaits
      rcases List.mem_append.1 hc with hold | hnew
      · exact hnet i (Network.waits_eq_true.2 ⟨c, hold, hcaller, hclient, hwaiting⟩)
      · obtain rfl := List.mem_singleton.1 hnew
        obtain rfl : j = i := hcaller
        obtain rfl : client = .loop := hclient
        rw [DaNode.outgoing] at hout
        simp only [hout, Option.isSome_some]
  | unsent j client now =>
      obtain ⟨hidle, -, n, hn, rfl⟩ := Network.step_unsent_eq_some.1 h
      refine hnode hn hwaits ?_
      rintro rfl inp he
      obtain rfl := Client.eq_of_event_eq_loop he
      exact Bool.false_ne_true (hidle.symm.trans hwaits)
  | arrive k again =>
      obtain ⟨c, hk, -, n, hn, rfl⟩ := Network.step_arrive_eq_some.1 h
      refine hnode hn (Network.waits_of_set hk hwaits rfl rfl id) ?_
      intro _ inp he
      cases he
  | lose k =>
      obtain ⟨c, hk, rfl⟩ := Network.step_lose_eq_some.1 h
      exact hnet i (Network.waits_of_set hk hwaits rfl rfl id)
  | reply k h' now =>
      obtain ⟨c, reply, hk, hwaiting, -, -, n, hn, rfl⟩ := Network.step_reply_eq_some.1 h
      refine hnode hn (Network.waits_of_set hk hwaits rfl rfl fun _ => hwaiting) ?_
      rintro rfl inp he
      have hclosed := hlinked.not_waits_close hk hwaiting
      rw [← Client.eq_of_event_eq_loop he] at hwaits
      exact Bool.false_ne_true (hclosed.symm.trans hwaits)
  | fail k now =>
      obtain ⟨c, hk, hwaiting, n, hn, rfl⟩ := Network.step_fail_eq_some.1 h
      refine hnode hn (Network.waits_of_set hk hwaits rfl rfl fun _ => hwaiting) ?_
      rintro rfl inp he
      have hclosed := hlinked.not_waits_close hk hwaiting
      rw [← Client.eq_of_event_eq_loop he] at hwaits
      exact Bool.false_ne_true (hclosed.symm.trans hwaits)

/-! ## One exchange -/

/-- What is so in every state of a network, as far as an exchange needs it. -/
structure Exchanging (platform : Platform) (d : Deployment ι) (net : Network ι) : Prop where
  spreading : Spreading platform d net
  loops : net.LoopAwaits platform
  shaped : ∀ i, (net.nodes i).shared.db.Shaped

theorem Exchanging.step {l : Label ι} (hnet : Exchanging platform d net)
    (h : net.step platform d l = some net') : Exchanging platform d net' where
  spreading := hnet.spreading.step h
  loops := loopAwaits_step hnet.spreading.linked hnet.loops h
  shaped i := by
    refine Network.node_invariant (I := fun n => n.shared.db.Shaped) ?_ (hnet.shaped i) h
    intro n e n' hn hstep
    rw [DaNode.step_shared hstep]
    exact shaped_write hn

/-- The address that a node has for another leads to it. -/
theorem Exchanging.route (hnet : Exchanging platform d net) {i j : ι} {peer : String × PeerClient}
    (h : (net.nodes i).shared.manager.peers.lookup (d.config j).nodeId = some peer) :
    d.route peer.2.peerUrl = some j := by
  obtain ⟨hmem, hname⟩ := Table.lookup_eq_some_iff.1 h
  obtain ⟨k, hroute, hk⟩ := (hnet.spreading.wired.truthful i).peers peer hmem
  obtain rfl := d.nodeId_injective (hk.trans hname)
  exact hroute

end

/-- The sample blob has been added and could not be announced. -/
def Label.sampleBacklog : List (Label Bool) :=
  List.flatten [
    Label.sampleAnnounce.take 16, [.unsent false .loop 0],
    List.replicate 2 (.node false (.loop LoopInput.sample))]

end DaConcept.Node
