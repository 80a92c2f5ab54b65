import DaConcept.Node.Write

set_option autoImplicit false

/-! # A network of nodes

Nodes that all run this code and call each other's `sync`. A call is the request of one activity of
its caller; the request arrives at the callee, later or again or never, each arrival is served by a
handler of its own, and the activity waits until it gets a reply of one of them, or gives up. A
reply that nobody waits for any more does nothing. The steps of the nodes between their messages are
those of `DaNode.step`, so a run of labels is any interleaving over the whole network. -/

namespace DaConcept.Node

/-! ## What a node sends -/

/-- The activity of a node that makes a call: the fetch task of a blob, or the sync loop. -/
inductive Client where
  | task (blobId : Uuid)
  | loop
deriving DecidableEq

/-- The request a task waits for the reply to, and where it goes. -/
def FetchTask.outgoing (nodeId : String) (t : FetchTask) : Option (PeerClient × RequestType) :=
  match t.pc with
  | .awaitReply _ client _ => some (client, PeerClient.fetchRequest nodeId t.blobId)
  | _ => none

/-- The request the sync loop waits for the reply to. -/
def SyncLoop.outgoing (platform : Platform) : SyncLoop → Option (PeerClient × RequestType)
  | .awaitReply _ blob _ client _ _ => some (client, .announce (some (blob.announcement platform)))
  | _ => none

def DaNode.outgoing (platform : Platform) (n : DaNode) : Client → Option (PeerClient × RequestType)
  | .task blobId =>
      (n.tasks.find? (·.blobId = blobId)).bind (·.outgoing n.shared.manager.config.nodeId)
  | .loop => n.loop.outgoing platform

/-- The step in which a client takes a reply. -/
def Client.event (n : DaNode) (now : Timestamp) (reply : RpcReply) : Client → Event
  | .task blobId => .task (n.tasks.findIdx (·.blobId = blobId)) ⟨now, [], reply⟩
  | .loop => .loop ⟨now, [], [], reply⟩

theorem Client.event_ne_request (n : DaNode) (now : Timestamp) (reply : RpcReply) (client : Client)
    (request : Option RequestType) : client.event n now reply ≠ .request request := by
  cases client <;> exact nofun

/-- The activity goes on by itself: it does not wait for a reply. -/
def DaNode.internal (platform : Platform) (n : DaNode) : Event → Bool
  | .request _ => false
  | .task i _ => (n.tasks[i]?).all (fun t => (t.outgoing n.shared.manager.config.nodeId).isNone)
  | .loop _ => (n.loop.outgoing platform).isNone
  | _ => true

/-- The UUID that `Uuid::new_v4` draws in a step. -/
def DaNode.draws (n : DaNode) : Event → Option Uuid
  | .mutation i inp =>
      match n.mutations[i]? with
      | some (.addBlob _ _) => some inp.newV4
      | _ => none
  | _ => none

/-! ## The network -/

section

variable {ι : Type}

/-- A call. -/
structure Call (ι : Type) where
  caller : ι
  client : Client
  callee : ι
  request : RequestType
  /-- The request may still arrive. -/
  inFlight : Bool
  /-- The handlers of the callee that serve the request, one for each time it arrived. -/
  handlers : List Nat
  /-- The client waits for the reply. -/
  waiting : Bool

/-- The nodes as they are configured and started, and where their addresses lead. -/
structure Topology (ι : Type) where
  config : ι → P2PConfig
  users : ι → Table UserRow.id
  peers : ι → Peers
  route : String → Option ι

/-- Nodes that are set up as they should be: their ids differ, what they listen on leads to them,
    and the peers a node starts with are those whose handshakes `SyncManager::new` got through. -/
structure Deployment (ι : Type) extends Topology ι where
  nodeId_injective : Function.Injective (fun i => (config i).nodeId)
  route_listenAddr : ∀ i, route ("http://" ++ (config i).listenAddr) = some i
  peers_route : ∀ i, ∀ peer ∈ (peers i).rows,
    ∃ j, route peer.2.peerUrl = some j ∧ (config j).nodeId = peer.1

instance {ι : Type} : Coe (Deployment ι) (Topology ι) := ⟨Deployment.toTopology⟩

/-- The state of a network: the nodes, the calls so far, and the UUIDs drawn so far. -/
structure Network (ι : Type) where
  nodes : ι → DaNode
  calls : List (Call ι)
  drawn : List Uuid

/-- The network at its start: no node has a blob. -/
def Network.start (d : Topology ι) : Network ι where
  nodes i := DaNode.start (d.config i) (d.peers i) { Db.empty with users := d.users i }
  calls := []
  drawn := []

/-- The requests that do not come from a fetch task or the sync loop: the handshake of a node that
    starts, and what `PeerClient` has methods for without a caller. -/
inductive OtherRequest (ι : Type) where
  | handshake (i : ι)
  | delete (blobId : String)
  | status (blobId : String)
  | nodeInfo

def OtherRequest.request (d : Topology ι) : OtherRequest ι → RequestType
  | .handshake i => .handshake (d.config i).nodeId ("http://" ++ (d.config i).listenAddr)
  | .delete blobId => .delete blobId
  | .status blobId => .status blobId
  | .nodeInfo => .nodeInfo

/-- What can happen in a network. -/
inductive Label (ι : Type) where
  /-- An activity of a node goes on by itself, or a user calls a mutation. -/
  | node (i : ι) (e : Event)
  /-- Another request arrives at a node. -/
  | other (i : ι) (request : OtherRequest ι)
  /-- A client sends the request it is to wait for. -/
  | send (i : ι) (client : Client)
  /-- A client cannot send its request. -/
  | unsent (i : ι) (client : Client) (now : Timestamp)
  /-- The request of the `k`-th call arrives, and may arrive `again`. -/
  | arrive (k : Nat) (again : Bool)
  /-- The request of the `k`-th call is lost. -/
  | lose (k : Nat)
  /-- The client of the `k`-th call gets the reply of the handler `h`. -/
  | reply (k h : Nat) (now : Timestamp)
  /-- The client of the `k`-th call gets no reply. -/
  | fail (k : Nat) (now : Timestamp)

/-- The node that a label is a step of. -/
def Label.stepsAt (net : Network ι) : Label ι → Option ι
  | .node i _ | .other i _ | .send i _ | .unsent i _ _ => some i
  | .arrive k _ => (net.calls[k]?).map (·.callee)
  | .lose _ => none
  | .reply k _ _ | .fail k _ => (net.calls[k]?).map (·.caller)

variable [DecidableEq ι]

/-- A step of one node. -/
def Network.at (platform : Platform) (net : Network ι) (i : ι) (e : Event) : Option (Network ι) :=
  ((net.nodes i).step platform e).map
    (fun n => { net with nodes := Function.update net.nodes i n })

/-- The client waits for the reply to a call. -/
def Network.Waits (net : Network ι) (i : ι) (client : Client) : Bool :=
  net.calls.any (fun c => c.caller = i && c.client = client && c.waiting)

/-- One step of a network; `none` if the label cannot happen. -/
def Network.step (platform : Platform) (d : Topology ι) (net : Network ι) :
    Label ι → Option (Network ι)
  | .node i e =>
      -- `Uuid::new_v4` never repeats
      if (net.nodes i).internal platform e && ((net.nodes i).draws e).all (· ∉ net.drawn) then
        (net.at platform i e).map
          (fun net' => { net' with drawn := ((net.nodes i).draws e).toList ++ net.drawn })
      else none
  | .other i request => net.at platform i (.request (some (request.request d)))
  | .send i client =>
      if net.Waits i client then none
      else do
        let (peer, request) ← (net.nodes i).outgoing platform client
        let callee ← d.route peer.peerUrl
        some { net with
          calls := net.calls ++ [{
            caller := i, client, callee, request
            inFlight := true
            handlers := []
            waiting := true }] }
  | .unsent i client now =>
      if net.Waits i client || ((net.nodes i).outgoing platform client).isNone then none
      else net.at platform i (client.event (net.nodes i) now (.error .unavailable))
  | .arrive k again => do
      let c ← net.calls[k]?
      if c.inFlight then
        let net' ← net.at platform c.callee (.request (some c.request))
        some { net' with
          calls := net.calls.set k
            { c with
              inFlight := again
              handlers := c.handlers ++ [(net.nodes c.callee).handlers.length] } }
      else none
  | .lose k => do
      let c ← net.calls[k]?
      some { net with calls := net.calls.set k { c with inFlight := false } }
  | .reply k h now => do
      let c ← net.calls[k]?
      match (net.nodes c.callee).handlers[h]? with
      | some (.replied reply) =>
          if c.waiting && h ∈ c.handlers then
            let net' ← net.at platform c.caller (c.client.event (net.nodes c.caller) now reply)
            some { net' with calls := net.calls.set k { c with waiting := false } }
          else none
      | _ => none
  | .fail k now => do
      let c ← net.calls[k]?
      if c.waiting then
        let net' ← net.at platform c.caller
          (c.client.event (net.nodes c.caller) now (.error .unavailable))
        some { net' with calls := net.calls.set k { c with waiting := false } }
      else none

/-! ## What each kind of step comes to -/

variable {platform : Platform} {d : Topology ι} {net net' : Network ι}

theorem Network.at_eq_some {i : ι} {e : Event} :
    net.at platform i e = some net' ↔ ∃ n, (net.nodes i).step platform e = some n ∧
      { net with nodes := Function.update net.nodes i n } = net' := by
  rw [Network.at, Option.map_eq_some_iff]

theorem Network.step_node_eq_some {i : ι} {e : Event} :
    net.step platform d (.node i e) = some net' ↔
      (net.nodes i).internal platform e = true ∧ (∀ u ∈ (net.nodes i).draws e, u ∉ net.drawn) ∧
      ∃ n, (net.nodes i).step platform e = some n ∧
        { net with
          nodes := Function.update net.nodes i n
          drawn := ((net.nodes i).draws e).toList ++ net.drawn } = net' := by
  simp only [Network.step, Network.at, Option.map_map, Option.ite_none_right_eq_some,
    Option.map_eq_some_iff, Bool.and_eq_true, Option.all_eq_true, decide_eq_true_eq,
    Function.comp_apply, and_assoc]
  rfl

theorem Network.step_other_eq_some {i : ι} {request : OtherRequest ι} :
    net.step platform d (.other i request) = some net' ↔
      ∃ n, (net.nodes i).step platform (.request (some (request.request d))) = some n ∧
        { net with nodes := Function.update net.nodes i n } = net' := Network.at_eq_some

theorem Network.step_send_eq_some {i : ι} {client : Client} :
    net.step platform d (.send i client) = some net' ↔
      net.Waits i client = false ∧ ∃ peer request callee,
        (net.nodes i).outgoing platform client = some (peer, request) ∧
        d.route peer.peerUrl = some callee ∧
        { net with
          calls := net.calls ++ [{
            caller := i, client, callee, request
            inFlight := true
            handlers := []
            waiting := true }] } = net' := by
  simp only [Network.step, Option.ite_none_left_eq_some, Option.bind_eq_bind,
    Option.bind_eq_some_iff, Option.some.injEq, Bool.not_eq_true, Prod.exists]
  simp only [exists_and_left]

theorem Network.step_unsent_eq_some {i : ι} {client : Client} {now : Timestamp} :
    net.step platform d (.unsent i client now) = some net' ↔
      net.Waits i client = false ∧ ((net.nodes i).outgoing platform client).isSome = true ∧
      ∃ n, (net.nodes i).step platform
          (client.event (net.nodes i) now (.error .unavailable)) = some n ∧
        { net with nodes := Function.update net.nodes i n } = net' := by
  simp only [Network.step, Option.ite_none_left_eq_some, Network.at_eq_some, Bool.not_eq_true,
    Bool.or_eq_false_iff, Option.isNone_eq_false_iff, and_assoc]

theorem Network.step_arrive_eq_some {k : Nat} {again : Bool} :
    net.step platform d (.arrive k again) = some net' ↔
      ∃ c, net.calls[k]? = some c ∧ c.inFlight = true ∧
      ∃ n, (net.nodes c.callee).step platform (.request (some c.request)) = some n ∧
        { net with
          nodes := Function.update net.nodes c.callee n
          calls := net.calls.set k
            { c with
              inFlight := again
              handlers := c.handlers ++ [(net.nodes c.callee).handlers.length] } } = net' := by
  simp only [Network.step, Option.bind_eq_bind, Option.bind_eq_some_iff,
    Option.ite_none_right_eq_some, Network.at_eq_some, Option.some.injEq]
  refine exists_congr fun c => and_congr_right fun _ => and_congr_right fun _ => ?_
  constructor
  · rintro ⟨_, ⟨n, hn, rfl⟩, rfl⟩
    exact ⟨n, hn, rfl⟩
  · rintro ⟨n, hn, rfl⟩
    exact ⟨_, ⟨n, hn, rfl⟩, rfl⟩

theorem Network.step_lose_eq_some {k : Nat} :
    net.step platform d (.lose k) = some net' ↔ ∃ c, net.calls[k]? = some c ∧
      { net with calls := net.calls.set k { c with inFlight := false } } = net' := by
  simp only [Network.step, Option.bind_eq_bind, Option.bind_eq_some_iff, Option.some.injEq]

theorem Network.step_reply_eq_some {k h : Nat} {now : Timestamp} :
    net.step platform d (.reply k h now) = some net' ↔
      ∃ c reply, net.calls[k]? = some c ∧ c.waiting = true ∧ h ∈ c.handlers ∧
        (net.nodes c.callee).handlers[h]? = some (.replied reply) ∧
      ∃ n, (net.nodes c.caller).step platform
          (c.client.event (net.nodes c.caller) now reply) = some n ∧
        { net with
          nodes := Function.update net.nodes c.caller n
          calls := net.calls.set k { c with waiting := false } } = net' := by
  simp only [Network.step, Option.bind_eq_bind, Option.bind_eq_some_iff]
  refine exists_congr fun c => ?_
  constructor
  · rintro ⟨hc, hstep⟩
    split at hstep
    · next reply hreply =>
        simp only [Option.ite_none_right_eq_some, Option.bind_eq_some_iff, Network.at_eq_some,
          Bool.and_eq_true, decide_eq_true_eq, Option.some.injEq] at hstep
        obtain ⟨⟨hwaiting, hmem⟩, _, ⟨n, hn, rfl⟩, rfl⟩ := hstep
        exact ⟨reply, hc, hwaiting, hmem, hreply, n, hn, rfl⟩
    · cases hstep
  · rintro ⟨reply, hc, hwaiting, hmem, hreply, n, hn, rfl⟩
    refine ⟨hc, ?_⟩
    simp only [hreply, hwaiting, hmem, decide_true, Bool.and_self, if_true,
      Option.bind_eq_some_iff, Network.at_eq_some]
    exact ⟨_, ⟨n, hn, rfl⟩, rfl⟩

theorem Network.step_fail_eq_some {k : Nat} {now : Timestamp} :
    net.step platform d (.fail k now) = some net' ↔
      ∃ c, net.calls[k]? = some c ∧ c.waiting = true ∧
      ∃ n, (net.nodes c.caller).step platform
          (c.client.event (net.nodes c.caller) now (.error .unavailable)) = some n ∧
        { net with
          nodes := Function.update net.nodes c.caller n
          calls := net.calls.set k { c with waiting := false } } = net' := by
  simp only [Network.step, Option.bind_eq_bind, Option.bind_eq_some_iff,
    Option.ite_none_right_eq_some, Network.at_eq_some, Option.some.injEq]
  refine exists_congr fun c => and_congr_right fun _ => and_congr_right fun _ => ?_
  constructor
  · rintro ⟨_, ⟨n, hn, rfl⟩, rfl⟩
    exact ⟨n, hn, rfl⟩
  · rintro ⟨n, hn, rfl⟩
    exact ⟨_, ⟨n, hn, rfl⟩, rfl⟩

/-- How the event of a node comes about in a step of the network: the activities of the node go on
    by themselves, a request reaches it, or a client takes a reply. -/
inductive Network.Occurs (d : Topology ι) (net : Network ι) (l : Label ι) (i : ι) : Event → Prop
  | internal {e : Event} (h : l = .node i e) (hinternal : ∀ request, e ≠ .request request) :
      Occurs d net l i e
  | other (request : OtherRequest ι) : Occurs d net l i (.request (some (request.request d)))
  | request {c : Call ι} (hc : c ∈ net.calls) : Occurs d net l i (.request (some c.request))
  | reply (client : Client) (now : Timestamp) (reply : RpcReply) :
      Occurs d net l i (client.event (net.nodes i) now reply)

omit [DecidableEq ι] in
/-- An event that is neither a request nor a reply taken by a client is one of the node itself. -/
theorem Network.Occurs.eq_node {l : Label ι} {i : ι} {e : Event} (h : net.Occurs d l i e)
    (hrequest : ∀ request, e ≠ .request request)
    (hreply : ∀ client now reply, e ≠ Client.event (net.nodes i) now reply client) :
    l = .node i e := by
  cases h with
  | internal hl hinternal => exact hl
  | other request => exact absurd rfl (hrequest _)
  | request hc => exact absurd rfl (hrequest _)
  | reply client now reply => exact absurd rfl (hreply client now reply)

/-- Whatever happens in a network, a node does one of its steps or stays as it is. -/
theorem Network.step_nodes {l : Label ι} (h : net.step platform d l = some net') (i : ι) :
    net'.nodes i = net.nodes i ∨
      ∃ e, (net.nodes i).step platform e = some (net'.nodes i) ∧ net.Occurs d l i e := by
  have hupdate {j : ι} {e : Event} {n : DaNode} (hn : (net.nodes j).step platform e = some n)
      (hoccurs : net.Occurs d l j e) :
      Function.update net.nodes j n i = net.nodes i ∨
        ∃ e, (net.nodes i).step platform e = some (Function.update net.nodes j n i) ∧
          net.Occurs d l i e := by
    by_cases hij : i = j
    · subst hij
      rw [Function.update_self]
      exact Or.inr ⟨e, hn, hoccurs⟩
    · exact Or.inl (Function.update_of_ne hij ..)
  cases l with
  | node j e =>
      obtain ⟨hinternal, -, n, hn, rfl⟩ := Network.step_node_eq_some.1 h
      refine hupdate hn (.internal rfl ?_)
      rintro request rfl
      cases hinternal
  | other j request =>
      obtain ⟨n, hn, rfl⟩ := Network.step_other_eq_some.1 h
      exact hupdate hn (.other request)
  | send j client =>
      obtain ⟨-, peer, request, callee, -, -, rfl⟩ := Network.step_send_eq_some.1 h
      exact Or.inl rfl
  | unsent j client now =>
      obtain ⟨-, -, n, hn, rfl⟩ := Network.step_unsent_eq_some.1 h
      exact hupdate hn (.reply client now _)
  | arrive k again =>
      obtain ⟨c, hc, -, n, hn, rfl⟩ := Network.step_arrive_eq_some.1 h
      exact hupdate hn (.request (List.mem_of_getElem? hc))
  | lose k =>
      obtain ⟨c, -, rfl⟩ := Network.step_lose_eq_some.1 h
      exact Or.inl rfl
  | reply k h' now =>
      obtain ⟨c, reply, -, -, -, -, n, hn, rfl⟩ := Network.step_reply_eq_some.1 h
      exact hupdate hn (.reply c.client now reply)
  | fail k now =>
      obtain ⟨c, -, -, n, hn, rfl⟩ := Network.step_fail_eq_some.1 h
      exact hupdate hn (.reply c.client now _)

/-- A label leaves the nodes alone that it is not a step of. -/
theorem Network.nodes_of_stepsAt_ne {d : Topology ι} {l : Label ι} {i : ι}
    (h : net.step platform d l = some net') (hne : l.stepsAt net ≠ some i) :
    net'.nodes i = net.nodes i := by
  have hupdate {j : ι} {n : DaNode} (hj : l.stepsAt net = some j) :
      Function.update net.nodes j n i = net.nodes i :=
    Function.update_of_ne (fun hij : i = j => hne (by rw [hj, hij])) _ _
  cases l with
  | node j e =>
      obtain ⟨-, -, n, -, rfl⟩ := Network.step_node_eq_some.1 h
      exact hupdate rfl
  | other j request =>
      obtain ⟨n, -, rfl⟩ := Network.step_other_eq_some.1 h
      exact hupdate rfl
  | send j client =>
      obtain ⟨-, peer, request, callee, -, -, rfl⟩ := Network.step_send_eq_some.1 h
      rfl
  | unsent j client now =>
      obtain ⟨-, -, n, -, rfl⟩ := Network.step_unsent_eq_some.1 h
      exact hupdate rfl
  | arrive k again =>
      obtain ⟨c, hc, -, n, -, rfl⟩ := Network.step_arrive_eq_some.1 h
      exact hupdate (by rw [Label.stepsAt, hc]; rfl)
  | lose k =>
      obtain ⟨c, -, rfl⟩ := Network.step_lose_eq_some.1 h
      rfl
  | reply k h' now =>
      obtain ⟨c, reply, hc, -, -, -, n, -, rfl⟩ := Network.step_reply_eq_some.1 h
      exact hupdate (by rw [Label.stepsAt, hc]; rfl)
  | fail k now =>
      obtain ⟨c, hc, -, n, -, rfl⟩ := Network.step_fail_eq_some.1 h
      exact hupdate (by rw [Label.stepsAt, hc]; rfl)

/-- What every step of a node preserves, every node of a network keeps. -/
theorem Network.node_invariant {I : DaNode → Prop}
    (hstep : ∀ n e n', I n → n.step platform e = some n' → I n') {l : Label ι} {i : ι}
    (hi : I (net.nodes i)) (h : net.step platform d l = some net') : I (net'.nodes i) := by
  rcases Network.step_nodes h i with hsame | ⟨e, he, -⟩
  · rwa [hsame]
  · exact hstep _ e _ hi he

/-- Where the calls of a network come from: a call was there, with other bookkeeping, or is new. -/
theorem Network.mem_calls_step {l : Label ι} {c' : Call ι} (h : net.step platform d l = some net')
    (hc' : c' ∈ net'.calls) :
    (∃ c ∈ net.calls, c'.caller = c.caller ∧ c'.client = c.client ∧ c'.callee = c.callee ∧
      c'.request = c.request) ∨
    ∃ peer, (net.nodes c'.caller).outgoing platform c'.client = some (peer, c'.request) ∧
      d.route peer.peerUrl = some c'.callee := by
  have hset {k : Nat} {c c₁ : Call ι} (hc : net.calls[k]? = some c)
      (hmem : c' ∈ net.calls.set k c₁) (hsame : c₁.caller = c.caller ∧ c₁.client = c.client ∧
        c₁.callee = c.callee ∧ c₁.request = c.request) :
      ∃ c ∈ net.calls, c'.caller = c.caller ∧ c'.client = c.client ∧ c'.callee = c.callee ∧
        c'.request = c.request := by
    rcases List.mem_or_eq_of_mem_set hmem with hold | rfl
    · exact ⟨c', hold, rfl, rfl, rfl, rfl⟩
    · exact ⟨c, List.mem_of_getElem? hc, hsame⟩
  cases l with
  | node j e =>
      obtain ⟨-, -, n, -, rfl⟩ := Network.step_node_eq_some.1 h
      exact Or.inl ⟨c', hc', rfl, rfl, rfl, rfl⟩
  | other j request =>
      obtain ⟨n, -, rfl⟩ := Network.step_other_eq_some.1 h
      exact Or.inl ⟨c', hc', rfl, rfl, rfl, rfl⟩
  | send j client =>
      obtain ⟨-, peer, request, callee, hout, hroute, rfl⟩ := Network.step_send_eq_some.1 h
      rcases List.mem_append.1 hc' with hold | hnew
      · exact Or.inl ⟨c', hold, rfl, rfl, rfl, rfl⟩
      · obtain rfl := List.mem_singleton.1 hnew
        exact Or.inr ⟨peer, hout, hroute⟩
  | unsent j client now =>
      obtain ⟨-, -, n, -, rfl⟩ := Network.step_unsent_eq_some.1 h
      exact Or.inl ⟨c', hc', rfl, rfl, rfl, rfl⟩
  | arrive k again =>
      obtain ⟨c, hc, -, n, -, rfl⟩ := Network.step_arrive_eq_some.1 h
      exact Or.inl (hset hc hc' ⟨rfl, rfl, rfl, rfl⟩)
  | lose k =>
      obtain ⟨c, hc, rfl⟩ := Network.step_lose_eq_some.1 h
      exact Or.inl (hset hc hc' ⟨rfl, rfl, rfl, rfl⟩)
  | reply k h' now =>
      obtain ⟨c, reply, hc, -, -, -, n, -, rfl⟩ := Network.step_reply_eq_some.1 h
      exact Or.inl (hset hc hc' ⟨rfl, rfl, rfl, rfl⟩)
  | fail k now =>
      obtain ⟨c, hc, -, n, -, rfl⟩ := Network.step_fail_eq_some.1 h
      exact Or.inl (hset hc hc' ⟨rfl, rfl, rfl, rfl⟩)

/-- What becomes of a call: its handlers grow, and its client waits until it takes a reply or gives
    up. -/
theorem Network.call_step {l : Label ι} {k : Nat} {c : Call ι}
    (h : net.step platform d l = some net') (hk : net.calls[k]? = some c) :
    ∃ c', net'.calls[k]? = some c' ∧ c'.caller = c.caller ∧ c'.client = c.client ∧
      c'.callee = c.callee ∧ c.handlers ⊆ c'.handlers ∧
      (c'.waiting = c.waiting ∨ (∃ h now, l = .reply k h now) ∨ ∃ now, l = .fail k now) := by
  have hset {k' : Nat} {c₀ c₁ : Call ι} (hk' : net.calls[k']? = some c₀)
      (hsame : c₁.caller = c₀.caller ∧ c₁.client = c₀.client ∧ c₁.callee = c₀.callee ∧
        c₀.handlers ⊆ c₁.handlers)
      (hwaiting : k' = k → c₁.waiting = c₀.waiting ∨ (∃ h now, l = .reply k h now) ∨
        ∃ now, l = .fail k now) :
      ∃ c', (net.calls.set k' c₁)[k]? = some c' ∧ c'.caller = c.caller ∧ c'.client = c.client ∧
        c'.callee = c.callee ∧ c.handlers ⊆ c'.handlers ∧
        (c'.waiting = c.waiting ∨ (∃ h now, l = .reply k h now) ∨ ∃ now, l = .fail k now) := by
    by_cases hkk : k' = k
    · subst hkk
      obtain rfl := Option.some.inj (hk.symm.trans hk')
      exact ⟨c₁, List.getElem?_set_self (List.getElem?_eq_some_iff.1 hk).1, hsame.1, hsame.2.1,
        hsame.2.2.1, hsame.2.2.2, hwaiting rfl⟩
    · exact ⟨c, by rw [List.getElem?_set_ne hkk, hk], rfl, rfl, rfl, List.Subset.refl _, Or.inl rfl⟩
  cases l with
  | node j e =>
      obtain ⟨-, -, n, -, rfl⟩ := Network.step_node_eq_some.1 h
      exact ⟨c, hk, rfl, rfl, rfl, List.Subset.refl _, Or.inl rfl⟩
  | other j request =>
      obtain ⟨n, -, rfl⟩ := Network.step_other_eq_some.1 h
      exact ⟨c, hk, rfl, rfl, rfl, List.Subset.refl _, Or.inl rfl⟩
  | send j client =>
      obtain ⟨-, peer, request, callee, -, -, rfl⟩ := Network.step_send_eq_some.1 h
      refine ⟨c, ?_, rfl, rfl, rfl, List.Subset.refl _, Or.inl rfl⟩
      rw [List.getElem?_append_left (List.getElem?_eq_some_iff.1 hk).1, hk]
  | unsent j client now =>
      obtain ⟨-, -, n, -, rfl⟩ := Network.step_unsent_eq_some.1 h
      exact ⟨c, hk, rfl, rfl, rfl, List.Subset.refl _, Or.inl rfl⟩
  | arrive k' again =>
      obtain ⟨c₀, hk', -, n, -, rfl⟩ := Network.step_arrive_eq_some.1 h
      exact hset hk' ⟨rfl, rfl, rfl, List.subset_append_left ..⟩ fun _ => Or.inl rfl
  | lose k' =>
      obtain ⟨c₀, hk', rfl⟩ := Network.step_lose_eq_some.1 h
      exact hset hk' ⟨rfl, rfl, rfl, List.Subset.refl _⟩ fun _ => Or.inl rfl
  | reply k' h' now =>
      obtain ⟨c₀, reply, hk', -, -, -, n, -, rfl⟩ := Network.step_reply_eq_some.1 h
      refine hset hk' ⟨rfl, rfl, rfl, List.Subset.refl _⟩ ?_
      rintro rfl
      exact Or.inr (Or.inl ⟨h', now, rfl⟩)
  | fail k' now =>
      obtain ⟨c₀, hk', -, n, -, rfl⟩ := Network.step_fail_eq_some.1 h
      refine hset hk' ⟨rfl, rfl, rfl, List.Subset.refl _⟩ ?_
      rintro rfl
      exact Or.inr (Or.inr ⟨now, rfl⟩)

end

/-! ## A sample network

Two nodes, `false` and `true`. The first is called "node"; the second, called "peer", starts with
the address of the first and shakes hands with it. A user adds the sample blob to the first node,
which announces it to the second. -/

def P2PConfig.sample (i : Bool) : P2PConfig where
  nodeId := if i then "peer" else "node"
  listenAddr := if i then "127.0.0.1:2" else "127.0.0.1:1"
  maxConcurrentSyncs := 1

def Deployment.sample : Deployment Bool where
  config := P2PConfig.sample
  users _ := .empty
  peers i := if i then ⟨[("node", ⟨"http://127.0.0.1:1"⟩)], by decide⟩ else .empty
  route url :=
    if url = "http://127.0.0.1:1" then some false
    else if url = "http://127.0.0.1:2" then some true else none
  nodeId_injective := by decide +kernel
  route_listenAddr := by decide +kernel
  peers_route := by decide +kernel

/-- A task of a node with one peer goes on. -/
def FetchInput.sampleOf (i : Bool) : FetchInput where
  now := 0
  order := if i then [("node", ⟨"http://127.0.0.1:1"⟩)] else [("peer", ⟨"http://127.0.0.1:2"⟩)]
  reply := .error .unavailable

/-- Up to the announcement of the sample blob. -/
def Label.sampleAnnounce : List (Label Bool) :=
  List.flatten [
    [.other false (.handshake true), .node false (.handler 0 HandlerInput.sample),
     .node false (.addBlob (some User.sample) ⟨"", none, none⟩),
     .node false (.mutation 0 MutationInput.sample), .node false (.mutation 0 MutationInput.sample),
     .node false (.loop LoopInput.sample)],
    List.replicate 5 (.node false (.task 0 (FetchInput.sampleOf false))),
    List.replicate 5 (.node false (.loop LoopInput.sample)),
    [.send false .loop, .arrive 0 false, .node true (.handler 0 HandlerInput.sample),
     .node true (.handler 0 HandlerInput.sample), .reply 0 0 0,
     .node false (.loop LoopInput.sample)]]

/-- After that, the second node fetches the blob, up to the reply of the first. -/
def Label.sampleFetch : List (Label Bool) :=
  List.flatten [
    Label.sampleAnnounce,
    [.node true (.loop LoopInput.sample)],
    List.replicate 3 (.node true (.task 0 (FetchInput.sampleOf true))),
    [.send true (.task (Uuid.sample 2)), .arrive 1 false,
     .node false (.handler 1 HandlerInput.sample), .node false (.handler 1 HandlerInput.sample)]]

/-- The second node stores the blob. -/
def Label.sampleStore : List (Label Bool) :=
  List.flatten [
    Label.sampleFetch, [.reply 1 1 0],
    List.replicate 3 (.node true (.task 0 (FetchInput.sampleOf true)))]

end DaConcept.Node
