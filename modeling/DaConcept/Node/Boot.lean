import DaConcept.Node.Calls

set_option autoImplicit false

/-! # How a network comes up (`sync.rs`, `client.rs`, `startup.rs`)

Before a node does anything else, `SyncManager::new` calls `handshake` at each of its configured
addresses and makes the map of its peers from the replies. Other nodes run meanwhile, as far as they
have come up, and serve the handshakes.

A network that comes up so does what a `Network` does whose nodes all run from the start, with the
peers they are going to have met (`boot_refines`). So what holds of every run of such a network
holds while nodes still come up, and what a `Deployment` takes for granted, that the peers a node
starts with have their own names, is what the handshakes make sure of. They also introduce the nodes
to each other: whom a node has met at its start has met the node (`boot_mutual`). -/

namespace DaConcept.Node

/-! ## `SyncManager::new` -/

/-- The request of `PeerClient::handshake`. -/
def PeerClient.handshakeRequest (nodeId nodeUrl : String) : RequestType :=
  .handshake nodeId ("http://" ++ nodeUrl)

/-- What `PeerClient::handshake` makes of the reply. -/
def PeerClient.handshake (reply : RpcReply) :
    Except DANodeError (HandshakeStatus × Option String) :=
  match reply with
  | .error status => .error (.grpc status)
  | .ok response =>
      match response.responseData with
      | some (.handshake status peerId) => .ok (status, peerId)
      | _ => .error (.invalidResponse "Invalid response from handshake")

/-- The id that a reply to a handshake gives. -/
def PeerClient.metId (reply : RpcReply) : Option String :=
  match PeerClient.handshake reply with
  | .error _ => none
  | .ok (_, peerId) => peerId

/-- One turn of the loop of `SyncManager::new`: the address and the reply it gave. -/
def Peers.meet (peers : Peers) (answer : String × RpcReply) : Peers :=
  match PeerClient.metId answer.2 with
  | none => peers
  | some nodeId => peers.put (nodeId, ⟨answer.1⟩)

/-- `SyncManager::new`, with the reply at each configured address. -/
def SyncManager.new (config : P2PConfig) (answers : List (String × RpcReply)) : SyncManager where
  config := config
  peers := answers.foldl Peers.meet .empty
  blobQueue := []
  inProgress := ∅

/-- **Whom `SyncManager::new` knows**: under each id the last address that replied with the id.
    Errors, replies to something else and replies without an id are passed over. -/
theorem lookup_new (config : P2PConfig) (answers : List (String × RpcReply)) (nodeId : String) :
    (SyncManager.new config answers).peers.lookup nodeId =
      (answers.reverse.find? (fun a => PeerClient.metId a.2 = some nodeId)).map
        (fun a => (nodeId, ⟨a.1⟩)) := by
  rw [SyncManager.new]
  induction answers using List.reverseRecOn with
  | nil => rfl
  | append_singleton answers answer ih =>
      rw [List.foldl_append, List.foldl_cons, List.foldl_nil, List.reverse_append,
        List.reverse_singleton, List.singleton_append, Peers.meet]
      simp only at ih ⊢
      cases hmet : PeerClient.metId answer.2 with
      | none =>
          rw [List.find?_cons_of_neg (by simp [hmet]), ← ih]
      | some nodeId' =>
          by_cases hid : nodeId = nodeId'
          · rw [List.find?_cons_of_pos (by simp [hmet, hid])]
            simp [Table.lookup_put, hid]
          · rw [List.find?_cons_of_neg (by simpa [hmet] using Ne.symm hid), ← ih]
            simp [Table.lookup_put, hid]

/-- A peer of `SyncManager::new` has replied at its address with its id. -/
theorem SyncManager.mem_new {config : P2PConfig} {answers : List (String × RpcReply)}
    {peer : String × PeerClient} (h : peer ∈ (SyncManager.new config answers).peers.rows) :
    ∃ a ∈ answers, a.1 = peer.2.peerUrl ∧ PeerClient.metId a.2 = some peer.1 := by
  rw [Table.mem_rows_iff, lookup_new, Option.map_eq_some_iff] at h
  obtain ⟨a, ha, hpeer⟩ := h
  refine ⟨a, List.mem_reverse.1 (List.mem_of_find?_eq_some ha), ?_, ?_⟩
  · rw [← hpeer]
  · simpa using List.find?_some ha

/-! ## A network whose nodes come up one by one -/

section

variable {ι : Type}

/-- The nodes as they are configured, and where their addresses lead. -/
structure Setup (ι : Type) where
  config : ι → P2PConfig
  /-- `P2PConfig::peers`. -/
  addresses : ι → List String
  users : ι → Table UserRow.id
  route : String → Option ι
  nodeId_injective : Function.Injective (fun i => (config i).nodeId)
  route_listenAddr : ∀ i, route ("http://" ++ (config i).listenAddr) = some i

/-- The network of these nodes, with the peers that each starts with. -/
def Setup.deployment (s : Setup ι) (peers : ι → Peers)
    (h : ∀ i, ∀ peer ∈ (peers i).rows,
      ∃ j, s.route peer.2.peerUrl = some j ∧ (s.config j).nodeId = peer.1) : Deployment ι :=
  { s with peers, peers_route := h }

/-- The nodes, knowing nobody. -/
def Setup.apart (s : Setup ι) : Deployment ι :=
  s.deployment (fun _ => .empty) (fun _ => List.forall_mem_nil _)

/-- How far a node has come with its start. -/
structure Boot where
  /-- The addresses that `SyncManager::new` is done with, and their replies. -/
  answers : List (String × RpcReply)
  /-- The other configured addresses. -/
  rest : List String
  /-- The handler that serves the handshake at the first of them. -/
  asked : Option Nat
  /-- The node is up. -/
  up : Bool

/-- A network and the starts of its nodes. A node that is not up is a placeholder. -/
structure BootNetwork (ι : Type) where
  net : Network ι
  boots : ι → Boot

def BootNetwork.start (s : Setup ι) : BootNetwork ι where
  net := .start s.apart
  boots i := ⟨[], s.addresses i, none, false⟩

/-- What can happen. -/
inductive BootLabel (ι : Type) where
  /-- Something happens among the nodes that are up. -/
  | run (l : Label ι)
  /-- The handshake of a node arrives at the next of its addresses. -/
  | ask (i : ι)
  /-- The node gets the reply to it. -/
  | answer (i : ι)
  /-- The node gets no reply. -/
  | skip (i : ι)
  /-- `SyncManager::new` is done: the node comes up. -/
  | up (i : ι)

variable [DecidableEq ι]

/-- The start of one node goes on. -/
def BootNetwork.setBoot (b : BootNetwork ι) (i : ι) (boot : Boot) : BootNetwork ι :=
  { b with boots := Function.update b.boots i boot }

@[simp] theorem BootNetwork.setBoot_net (b : BootNetwork ι) (i : ι) (boot : Boot) :
    (b.setBoot i boot).net = b.net := rfl

@[simp] theorem BootNetwork.setBoot_self (b : BootNetwork ι) (i : ι) (boot : Boot) :
    (b.setBoot i boot).boots i = boot := Function.update_self ..

@[simp] theorem BootNetwork.setBoot_of_ne (b : BootNetwork ι) {i j : ι} (hij : j ≠ i)
    (boot : Boot) : (b.setBoot i boot).boots j = b.boots j := Function.update_of_ne hij ..

/-- One step; `none` if the label cannot happen. -/
def BootNetwork.step (platform : Platform) (s : Setup ι) (b : BootNetwork ι) :
    BootLabel ι → Option (BootNetwork ι)
  | .run l =>
      if (l.stepsAt b.net).all (fun i => (b.boots i).up) then
        (b.net.step platform s.apart l).map (fun net => { b with net })
      else none
  | .ask i =>
      match (b.boots i).asked, (b.boots i).rest with
      | none, address :: _ => do
          let j ← s.route address
          if (b.boots j).up then
            let net ← b.net.at platform j (.request (some
              (PeerClient.handshakeRequest (s.config i).nodeId (s.config i).listenAddr)))
            some ({ b with net }.setBoot i
              { b.boots i with asked := some (b.net.nodes j).handlers.length })
          else none
      | _, _ => none
  | .answer i =>
      match (b.boots i).asked, (b.boots i).rest with
      | some h, address :: rest => do
          let j ← s.route address
          match (b.net.nodes j).handlers[h]? with
          | some (.replied reply) =>
              some (b.setBoot i
                { b.boots i with
                  answers := (b.boots i).answers ++ [(address, reply)], rest, asked := none })
          | _ => none
      | _, _ => none
  | .skip i =>
      match (b.boots i).rest with
      | address :: rest =>
          some (b.setBoot i
            { b.boots i with
              answers := (b.boots i).answers ++ [(address, .error .unavailable)]
              rest
              asked := none })
      | [] => none
  | .up i =>
      if (b.boots i).rest = [] ∧ (b.boots i).up = false then
        some ({ b with
          net := { b.net with
            nodes := Function.update b.net.nodes i
              (.start (s.config i) (SyncManager.new (s.config i) (b.boots i).answers).peers
                { Db.empty with users := s.users i }) } }.setBoot i { b.boots i with up := true })
      else none

/-! ## Who has met whom -/

/-- The node has a peer of this name. -/
def DaNode.Knows (n : DaNode) (nodeId : String) : Prop :=
  (n.shared.manager.peers.lookup nodeId).isSome

/-- The `h`-th handler serves a handshake of the node with this configuration. -/
def DaNode.Shakes (n : DaNode) (config : P2PConfig) (h : Nat) : Prop :=
  n.handlers[h]? = some (.sync (some
    (PeerClient.handshakeRequest config.nodeId config.listenAddr))) ∨
  n.handlers[h]? = some (.replied (.ok (handshakeReply n.shared.manager.config))) ∧
    n.Knows config.nodeId

section

variable {platform : Platform} {n n' : DaNode} {e : Event}

theorem Write.isSome_peers_onManager (w : Write) {m : SyncManager} {nodeId : String}
    (h : (m.peers.lookup nodeId).isSome) : ((w.onManager m).peers.lookup nodeId).isSome := by
  cases w with
  | addPeer peerId peerUrl =>
      simp only [Write.onManager, SyncManager.addPeer, Table.lookup_put]
      split
      · rfl
      · exact h
  | queue blobId hash =>
      simp only [Write.onManager, SyncManager.queueBlobFetch]
      split <;> exact h
  | _ => exact h

theorem DaNode.Knows.step {nodeId : String} (hn : n.Knows nodeId)
    (h : n.step platform e = some n') : n'.Knows nodeId := by
  rw [DaNode.Knows, DaNode.step_shared h]
  exact Write.isSome_peers_onManager _ hn

/-- A handshake is served, and then its node is known. -/
theorem DaNode.Shakes.step {config : P2PConfig} {i : Nat} (hn : n.Shakes config i)
    (h : n.step platform e = some n') : n'.Shakes config i := by
  rcases hn with hasked | ⟨hreplied, hknows⟩
  · rcases DaNode.handler_step h hasked with hsame | ⟨inp, shared, hd', rfl, hstep, hi⟩
    · exact Or.inl hsame
    · right
      cases hstep
      refine ⟨by rw [hi, config_step h], ?_⟩
      have hwrite : n.write platform (.handler i inp)
          = .addPeer config.nodeId ("http://" ++ config.listenAddr) := by
        simp only [DaNode.write, hasked]
        rfl
      rw [DaNode.Knows, DaNode.step_shared h, hwrite]
      simp [Write.apply, Write.onManager, SyncManager.addPeer, Table.lookup_put]
  · right
    rcases DaNode.handler_step h hreplied with hsame | ⟨inp, shared, hd', rfl, hstep, -⟩
    · exact ⟨by rw [hsame, config_step h], hknows.step h⟩
    · cases hstep

end

/-! ## What holds while a network comes up -/

variable {platform : Platform} {s : Setup ι} {b b' : BootNetwork ι} {net net' : Network ι}

/-- What a step comes to. -/
inductive BootNetwork.Next (platform : Platform) (s : Setup ι) (b : BootNetwork ι) :
    BootLabel ι → BootNetwork ι → Prop
  | run {l : Label ι} {net : Network ι} (hup : ∀ i, l.stepsAt b.net = some i → (b.boots i).up)
      (hstep : b.net.step platform s.apart l = some net) : Next platform s b (.run l) { b with net }
  | asked {i j : ι} {address : String} {rest : List String} {n : DaNode}
      (hrest : (b.boots i).rest = address :: rest) (hroute : s.route address = some j)
      (hup : (b.boots j).up)
      (hstep : (b.net.nodes j).step platform (.request (some
        (PeerClient.handshakeRequest (s.config i).nodeId (s.config i).listenAddr))) = some n) :
      Next platform s b (.ask i)
        ({ b with net := { b.net with nodes := Function.update b.net.nodes j n } }.setBoot i
          { b.boots i with asked := some (b.net.nodes j).handlers.length })
  | answered {i j : ι} {h : Nat} {address : String} {rest : List String} {reply : RpcReply}
      (hasked : (b.boots i).asked = some h) (hrest : (b.boots i).rest = address :: rest)
      (hroute : s.route address = some j)
      (hreply : (b.net.nodes j).handlers[h]? = some (.replied reply)) :
      Next platform s b (.answer i)
        (b.setBoot i
          { b.boots i with
            answers := (b.boots i).answers ++ [(address, reply)], rest, asked := none })
  | skipped {i : ι} {address : String} {rest : List String}
      (hrest : (b.boots i).rest = address :: rest) :
      Next platform s b (.skip i)
        (b.setBoot i
          { b.boots i with
            answers := (b.boots i).answers ++ [(address, .error .unavailable)]
            rest
            asked := none })
  | up {i : ι} (hrest : (b.boots i).rest = []) (hdown : (b.boots i).up = false) :
      Next platform s b (.up i)
        ({ b with
          net := { b.net with
            nodes := Function.update b.net.nodes i
              (.start (s.config i) (SyncManager.new (s.config i) (b.boots i).answers).peers
                { Db.empty with users := s.users i }) } }.setBoot i { b.boots i with up := true })

/-- **What a step of a network that comes up comes to.** -/
theorem BootNetwork.next_of_step {l : BootLabel ι} (h : b.step platform s l = some b') :
    b.Next platform s l b' := by
  cases l with
  | run l =>
      simp only [BootNetwork.step, Option.ite_none_right_eq_some, Option.all_eq_true,
        Option.map_eq_some_iff] at h
      obtain ⟨hup, net, hstep, rfl⟩ := h
      exact .run hup hstep
  | ask i =>
      simp only [BootNetwork.step] at h
      split at h
      · next address rest hasked hrest =>
          simp only [Option.bind_eq_bind, Option.bind_eq_some_iff, Option.ite_none_right_eq_some,
            Network.at_eq_some, Option.some.injEq] at h
          obtain ⟨j, hroute, hup, net, ⟨n, hstep, rfl⟩, rfl⟩ := h
          exact .asked hrest hroute hup hstep
      · cases h
  | answer i =>
      simp only [BootNetwork.step] at h
      split at h
      · next h' address rest hasked hrest =>
          simp only [Option.bind_eq_bind, Option.bind_eq_some_iff] at h
          obtain ⟨j, hroute, hstep⟩ := h
          split at hstep
          · next reply hreply =>
              obtain rfl := Option.some.inj hstep
              exact .answered hasked hrest hroute hreply
          · cases hstep
      · cases h
  | skip i =>
      simp only [BootNetwork.step] at h
      split at h
      · next address rest hrest =>
          obtain rfl := Option.some.inj h
          exact .skipped hrest
      · cases h
  | up i =>
      simp only [BootNetwork.step, Option.ite_none_right_eq_some, Option.some.injEq] at h
      obtain ⟨⟨hrest, hdown⟩, rfl⟩ := h
      exact .up hrest hdown

/-- What holds while a network comes up: whatever a node has been told at an address, the node there
    has told it, and knows the node that asked. -/
structure Introduced (s : Setup ι) (b : BootNetwork ι) : Prop where
  config : ∀ i, (b.net.nodes i).shared.manager.config = s.config i
  down : ∀ i, (b.boots i).up = false → b.net.nodes i = (Network.start s.apart).nodes i
  done : ∀ i, (b.boots i).up = true → (b.boots i).rest = []
  answers : ∀ i, ∀ a ∈ (b.boots i).answers, ∀ nodeId, PeerClient.metId a.2 = some nodeId →
    ∃ j, s.route a.1 = some j ∧ (s.config j).nodeId = nodeId ∧ (b.boots j).up ∧
      (b.net.nodes j).Knows (s.config i).nodeId
  asked : ∀ i h, (b.boots i).asked = some h → ∃ address rest j, (b.boots i).rest = address :: rest ∧
    s.route address = some j ∧ (b.boots j).up ∧ (b.net.nodes j).Shakes (s.config i) h

omit [DecidableEq ι] in
theorem introduced_start : Introduced s (BootNetwork.start s) where
  config _ := rfl
  down _ _ := rfl
  done _ h := nomatch h
  answers _ := List.forall_mem_nil _
  asked _ _ h := nomatch h

omit [DecidableEq ι] in
/-- Nodes that are up do steps. -/
theorem Introduced.of_nodes (platform : Platform) (hb : Introduced s b)
    (hnodes : ∀ i, net.nodes i = b.net.nodes i ∨
      (b.boots i).up ∧ ∃ e, (b.net.nodes i).step platform e = some (net.nodes i)) :
    Introduced s { b with net } where
  config i := by
    rcases hnodes i with hsame | ⟨-, e, he⟩
    · rw [hsame, hb.config i]
    · rw [config_step he, hb.config i]
  down i hdown := by
    rcases hnodes i with hsame | ⟨hup, -⟩
    · rw [hsame, hb.down i hdown]
    · rw [show (b.boots i).up = false from hdown] at hup
      cases hup
  done := hb.done
  answers i a ha nodeId hmet := by
    obtain ⟨j, hroute, hid, hup, hknows⟩ := hb.answers i a ha nodeId hmet
    refine ⟨j, hroute, hid, hup, ?_⟩
    rcases hnodes j with hsame | ⟨-, e, he⟩
    · rwa [hsame]
    · exact hknows.step he
  asked i h hasked := by
    obtain ⟨address, rest, j, hrest, hroute, hup, hshakes⟩ := hb.asked i h hasked
    refine ⟨address, rest, j, hrest, hroute, hup, ?_⟩
    rcases hnodes j with hsame | ⟨-, e, he⟩
    · rwa [hsame]
    · exact hshakes.step he

/-- The start of a node that is not up yet goes on. -/
theorem Introduced.setBoot (hb : Introduced s b) {i : ι} {boot : Boot}
    (hup : boot.up = (b.boots i).up) (hdone : boot.up = true → boot.rest = [])
    (hanswers : ∀ a ∈ boot.answers, a ∈ (b.boots i).answers ∨
      ∀ nodeId, PeerClient.metId a.2 = some nodeId → ∃ j, s.route a.1 = some j ∧
        (s.config j).nodeId = nodeId ∧ (b.boots j).up ∧
        (b.net.nodes j).Knows (s.config i).nodeId)
    (hasked : ∀ h, boot.asked = some h → ∃ address rest j, boot.rest = address :: rest ∧
      s.route address = some j ∧ (b.boots j).up ∧ (b.net.nodes j).Shakes (s.config i) h) :
    Introduced s (b.setBoot i boot) := by
  have hups (j : ι) : ((b.setBoot i boot).boots j).up = (b.boots j).up := by
    by_cases hij : j = i
    · subst hij
      rw [BootNetwork.setBoot_self, hup]
    · rw [BootNetwork.setBoot_of_ne b hij]
  refine ⟨hb.config, fun j hdown => hb.down j (hups j ▸ hdown), fun j hj => ?_,
    fun k a ha nodeId hmet => ?_, fun k h hask => ?_⟩
  · by_cases hji : j = i
    · subst hji
      rw [BootNetwork.setBoot_self] at hj ⊢
      exact hdone hj
    · rw [BootNetwork.setBoot_of_ne b hji] at hj ⊢
      exact hb.done j hj
  · simp only [hups]
    by_cases hk : k = i
    · subst hk
      rw [BootNetwork.setBoot_self] at ha
      rcases hanswers a ha with hold | hnew
      · exact hb.answers k a hold nodeId hmet
      · exact hnew nodeId hmet
    · rw [BootNetwork.setBoot_of_ne b hk] at ha
      exact hb.answers k a ha nodeId hmet
  · simp only [hups]
    by_cases hk : k = i
    · subst hk
      rw [BootNetwork.setBoot_self] at hask ⊢
      exact hasked h hask
    · rw [BootNetwork.setBoot_of_ne b hk] at hask ⊢
      exact hb.asked k h hask

/-- **Every step keeps the introductions.** -/
theorem introduced_step (hb : Introduced s b) {l : BootLabel ι}
    (h : b.step platform s l = some b') : Introduced s b' := by
  cases BootNetwork.next_of_step h with
  | @run l net hup hstep =>
      refine hb.of_nodes platform fun i => ?_
      by_cases hi : l.stepsAt b.net = some i
      · rcases Network.step_nodes hstep i with hsame | ⟨e, he, -⟩
        · exact Or.inl hsame
        · exact Or.inr ⟨hup i hi, e, he⟩
      · exact Or.inl (Network.nodes_of_stepsAt_ne hstep hi)
  | @asked i j address rest n hrest hroute hup hstep =>
      have hnode : Introduced s
          { b with net := { b.net with nodes := Function.update b.net.nodes j n } } := by
        refine hb.of_nodes platform fun k => ?_
        by_cases hk : k = j
        · subst hk
          refine Or.inr ⟨hup, _, hstep.trans ?_⟩
          simp only [Function.update_self]
        · exact Or.inl (Function.update_of_ne hk _ _)
      refine hnode.setBoot rfl (hb.done i) (fun a ha => Or.inl ha) fun h hask => ?_
      refine ⟨address, rest, j, hrest, hroute, hup, Or.inl ?_⟩
      obtain rfl := Option.some.inj hask
      obtain rfl := Option.some.inj hstep
      simp only [Function.update_self]
      exact List.getElem?_concat_length
  | @answered i j k address rest reply hask hrest hroute hreply =>
      refine hb.setBoot rfl (fun hup => absurd (hb.done i hup) (by simp [hrest]))
        (fun a ha => ?_) nofun
      rcases List.mem_append.1 ha with hold | hnew
      · exact Or.inl hold
      · obtain rfl := List.mem_singleton.1 hnew
        refine Or.inr fun nodeId hmet => ?_
        obtain ⟨address', rest', j', hrest', hroute', hup, hshakes⟩ := hb.asked i k hask
        rw [hrest, List.cons.injEq] at hrest'
        obtain rfl := hrest'.1
        obtain rfl := Option.some.inj (hroute.symm.trans hroute')
        rcases hshakes with hpending | ⟨hreplied, hknows⟩
        · rw [hreply] at hpending
          cases hpending
        · rw [hreply] at hreplied
          cases hreplied
          rw [hb.config] at hmet
          exact ⟨j, hroute, Option.some.inj hmet, hup, hknows⟩
  | @skipped i address rest hrest =>
      refine hb.setBoot rfl (fun hup => absurd (hb.done i hup) (by simp [hrest]))
        (fun a ha => ?_) nofun
      rcases List.mem_append.1 ha with hold | hnew
      · exact Or.inl hold
      · obtain rfl := List.mem_singleton.1 hnew
        exact Or.inr nofun
  | @up i hrest hdown =>
      -- only the placeholder changes, and nobody has been told anything there
      have hne {j : ι} (hup : (b.boots j).up = true) : j ≠ i := by
        rintro rfl
        rw [hdown] at hup
        cases hup
      refine ⟨fun j => ?_, fun j hj => ?_, fun j hj => ?_, fun k a ha nodeId hmet => ?_,
        fun k h hask => ?_⟩
      · by_cases hj : j = i
        · subst hj
          simp [DaNode.start]
        · simpa [hj] using hb.config j
      · by_cases hj' : j = i
        · subst hj'
          simp at hj
        · simpa [hj'] using hb.down j (by simpa [hj'] using hj)
      · by_cases hj' : j = i
        · subst hj'
          simpa using hrest
        · simpa [hj'] using hb.done j (by simpa [hj'] using hj)
      · have ha : a ∈ (b.boots k).answers := by
          by_cases hk : k = i
          · subst hk
            simpa using ha
          · simpa [hk] using ha
        obtain ⟨j, hroute, hid, hup, hknows⟩ := hb.answers k a ha nodeId hmet
        exact ⟨j, hroute, hid, by simpa [hne hup] using hup, by simpa [hne hup] using hknows⟩
      · have hk : (b.boots k).asked = some h := by
          by_cases hk : k = i
          · subst hk
            simpa using hask
          · simpa [hk] using hask
        obtain ⟨address, rest, j, hrest', hroute, hup, hshakes⟩ := hb.asked k h hk
        have hki : k ≠ i := by
          rintro rfl
          rw [hrest] at hrest'
          cases hrest'
        exact ⟨address, rest, j, by simpa [hki] using hrest', hroute, by simpa [hne hup] using hup,
          by simpa [hne hup] using hshakes⟩

theorem introduced_exec {ls : List (BootLabel ι)}
    (h : Run.exec (BootNetwork.step platform s) (.start s) ls = some b) : Introduced s b :=
  Run.exec_invariant (I := fun b => Introduced s b) (fun _ _ _ hb hstep => introduced_step hb hstep)
    introduced_start h

/-! ## A network that comes up is a network -/

/-- The peers that a node has met. -/
def BootNetwork.met (s : Setup ι) (b : BootNetwork ι) (i : ι) : Peers :=
  (SyncManager.new (s.config i) (b.boots i).answers).peers

omit [DecidableEq ι] in
/-- The peers that a node has met have their own names. -/
theorem Introduced.met_route (hb : Introduced s b) (i : ι) : ∀ peer ∈ (b.met s i).rows,
    ∃ j, s.route peer.2.peerUrl = some j ∧ (s.config j).nodeId = peer.1 := by
  intro peer hpeer
  obtain ⟨a, ha, hurl, hmet⟩ := SyncManager.mem_new hpeer
  obtain ⟨j, hroute, hid, -⟩ := hb.answers i a ha peer.1 hmet
  exact ⟨j, hurl ▸ hroute, hid⟩

/-- The start of a node that is up is over. -/
theorem Introduced.boot_step (hb : Introduced s b) {l : BootLabel ι}
    (h : b.step platform s l = some b') {i : ι} (hup : (b.boots i).up = true) :
    (b'.boots i).up = true ∧ (b'.boots i).answers = (b.boots i).answers := by
  have hset {j : ι} {boot : Boot} {net : Network ι} (hsame : j = i → boot.up = true ∧
      boot.answers = (b.boots i).answers) :
      (({ b with net }.setBoot j boot).boots i).up = true ∧
        (({ b with net }.setBoot j boot).boots i).answers = (b.boots i).answers := by
    by_cases hij : i = j
    · subst hij
      rw [BootNetwork.setBoot_self]
      exact hsame rfl
    · rw [BootNetwork.setBoot_of_ne _ hij]
      exact ⟨hup, rfl⟩
  cases BootNetwork.next_of_step h with
  | run => exact ⟨hup, rfl⟩
  | asked =>
      refine hset fun hij => ?_
      subst hij
      exact ⟨hup, rfl⟩
  | answered hasked hrest =>
      refine hset fun hij => absurd (hb.done i hup) ?_
      rw [← hij, hrest]
      exact List.cons_ne_nil _ _
  | skipped hrest =>
      refine hset fun hij => absurd (hb.done i hup) ?_
      rw [← hij, hrest]
      exact List.cons_ne_nil _ _
  | up hrest hdown => exact hset fun hij => ⟨rfl, hij ▸ rfl⟩

theorem Introduced.met_exec (hb : Introduced s b) {ls : List (BootLabel ι)}
    (h : Run.exec (BootNetwork.step platform s) b ls = some b') {i : ι}
    (hup : (b.boots i).up = true) : b'.met s i = b.met s i := by
  have hkept : Introduced s b' ∧ (b'.boots i).up = true ∧
      (b'.boots i).answers = (b.boots i).answers := by
    refine Run.exec_invariant (I := fun b' => Introduced s b' ∧ (b'.boots i).up = true ∧
      (b'.boots i).answers = (b.boots i).answers) ?_ ⟨hb, hup, rfl⟩ h
    rintro b₁ l b₂ ⟨hb₁, hup₁, hanswers⟩ hstep
    obtain ⟨hup₂, hsame⟩ := hb₁.boot_step hstep hup₁
    exact ⟨introduced_step hb₁ hstep, hup₂, hsame.trans hanswers⟩
  rw [BootNetwork.met, hkept.2.2, BootNetwork.met]

omit [DecidableEq ι] in
/-- A node with a handler is up. -/
theorem Introduced.up_of_handler (hb : Introduced s b) {i : ι} {h : Nat} {handler : Handler}
    (hi : (b.net.nodes i).handlers[h]? = some handler) : (b.boots i).up = true := by
  by_contra hup
  rw [hb.down i (Bool.eq_false_of_not_eq_true hup)] at hi
  cases hi

/-- Who waits for a reply is a matter of the calls. -/
theorem Network.waits_congr (h : net.calls = net'.calls) {i : ι} {client : Client} :
    net.Waits i client = net'.Waits i client := by
  rw [Network.Waits, Network.Waits, h]

/-- The network in which all nodes run from the start: it has the nodes that are up, and those that
    are not stand still. -/
structure Shadows (d : Deployment ι) (b : BootNetwork ι) (net : Network ι) : Prop where
  calls : net.calls = b.net.calls
  drawn : net.drawn = b.net.drawn
  up : ∀ i, (b.boots i).up = true → net.nodes i = b.net.nodes i
  down : ∀ i, (b.boots i).up = false → net.nodes i = (Network.start d).nodes i

/-- A node that is up does a step in both networks. -/
theorem Shadows.update {d : Deployment ι} (h : Shadows d b net) {i : ι}
    (hup : (b.boots i).up = true) (n : DaNode) (calls : List (Call ι)) (drawn : List Uuid) :
    Shadows d { b with net := ⟨Function.update b.net.nodes i n, calls, drawn⟩ }
      ⟨Function.update net.nodes i n, calls, drawn⟩ := by
  refine ⟨rfl, rfl, fun j hj => ?_, fun j hj => ?_⟩
  · by_cases hij : j = i
    · subst hij
      simp only [Function.update_self]
    · simp only [Function.update_of_ne hij]
      exact h.up j hj
  · have hij : j ≠ i := by
      rintro rfl
      rw [show (b.boots j).up = false from hj] at hup
      cases hup
    simp only [Function.update_of_ne hij]
    exact h.down j hj

/-- **A label that is a step of nodes that are up** is one in both networks, and leads to the same
    nodes and calls. -/
theorem Shadows.step (hb : Introduced s b) {d : Deployment ι} (hconfig : d.config = s.config)
    (hroute : d.route = s.route) (h : Shadows d b net) {l : Label ι}
    (hup : ∀ i, l.stepsAt b.net = some i → (b.boots i).up = true)
    (hstep : b.net.step platform s.apart l = some net') :
    ∃ net₁, net.step platform d l = some net₁ ∧ Shadows d { b with net := net' } net₁ := by
  cases l with
  | node i e =>
      have hi := hup i rfl
      obtain ⟨hinternal, hdraws, n, hn, rfl⟩ := Network.step_node_eq_some.1 hstep
      rw [← h.up i hi] at hinternal hdraws hn
      rw [← h.drawn] at hdraws
      refine ⟨_, Network.step_node_eq_some.2 ⟨hinternal, hdraws, n, hn, rfl⟩, ?_⟩
      rw [← h.up i hi, ← h.calls, ← h.drawn]
      exact h.update hi n _ _
  | other i request =>
      have hi := hup i rfl
      obtain ⟨n, hn, rfl⟩ := Network.step_other_eq_some.1 hstep
      have hsame : request.request s.apart = request.request d := by
        cases request with
        | handshake j =>
            rw [OtherRequest.request, OtherRequest.request, hconfig]
            rfl
        | _ => rfl
      rw [← h.up i hi, hsame] at hn
      refine ⟨_, Network.step_other_eq_some.2 ⟨n, hn, rfl⟩, ?_⟩
      rw [← h.calls, ← h.drawn]
      exact h.update hi n _ _
  | send i client =>
      have hi := hup i rfl
      obtain ⟨hwaits, peer, request, callee, hout, hcallee, rfl⟩ :=
        Network.step_send_eq_some.1 hstep
      rw [Network.waits_congr h.calls.symm] at hwaits
      rw [← h.up i hi] at hout
      have hcallee : d.route peer.peerUrl = some callee := hroute ▸ hcallee
      refine ⟨_, Network.step_send_eq_some.2
        ⟨hwaits, peer, request, callee, hout, hcallee, rfl⟩, ?_⟩
      rw [← h.calls]
      exact ⟨rfl, h.drawn, h.up, h.down⟩
  | unsent i client now =>
      have hi := hup i rfl
      obtain ⟨hwaits, hout, n, hn, rfl⟩ := Network.step_unsent_eq_some.1 hstep
      rw [Network.waits_congr h.calls.symm] at hwaits
      rw [← h.up i hi] at hout hn
      refine ⟨_, Network.step_unsent_eq_some.2 ⟨hwaits, hout, n, hn, rfl⟩, ?_⟩
      rw [← h.calls, ← h.drawn]
      exact h.update hi n _ _
  | arrive k again =>
      obtain ⟨c, hc, hflight, n, hn, rfl⟩ := Network.step_arrive_eq_some.1 hstep
      have hi := hup c.callee (by rw [Label.stepsAt, hc]; rfl)
      rw [← h.calls] at hc
      rw [← h.up _ hi] at hn
      refine ⟨_, Network.step_arrive_eq_some.2 ⟨c, hc, hflight, n, hn, rfl⟩, ?_⟩
      rw [← h.up _ hi, ← h.calls, ← h.drawn]
      exact h.update hi n _ _
  | lose k =>
      obtain ⟨c, hc, rfl⟩ := Network.step_lose_eq_some.1 hstep
      rw [← h.calls] at hc
      refine ⟨_, Network.step_lose_eq_some.2 ⟨c, hc, rfl⟩, ?_⟩
      rw [← h.calls]
      exact ⟨rfl, h.drawn, h.up, h.down⟩
  | reply k h' now =>
      obtain ⟨c, reply, hc, hwaiting, hmem, hreply, n, hn, rfl⟩ :=
        Network.step_reply_eq_some.1 hstep
      have hi := hup c.caller (by rw [Label.stepsAt, hc]; rfl)
      have hcallee : (b.boots c.callee).up = true := hb.up_of_handler hreply
      rw [← h.calls] at hc
      rw [← h.up _ hcallee] at hreply
      rw [← h.up _ hi] at hn
      refine ⟨_, Network.step_reply_eq_some.2
        ⟨c, reply, hc, hwaiting, hmem, hreply, n, hn, rfl⟩, ?_⟩
      rw [← h.calls, ← h.drawn]
      exact h.update hi n _ _
  | fail k now =>
      obtain ⟨c, hc, hwaiting, n, hn, rfl⟩ := Network.step_fail_eq_some.1 hstep
      have hi := hup c.caller (by rw [Label.stepsAt, hc]; rfl)
      rw [← h.calls] at hc
      rw [← h.up _ hi] at hn
      refine ⟨_, Network.step_fail_eq_some.2 ⟨c, hc, hwaiting, n, hn, rfl⟩, ?_⟩
      rw [← h.calls, ← h.drawn]
      exact h.update hi n _ _

/-- The start of one node does not matter to the other network, unless the node comes up. -/
theorem Shadows.setBoot {d : Deployment ι} (h : Shadows d b net) {i : ι} {boot : Boot}
    (hup : boot.up = (b.boots i).up) : Shadows d (b.setBoot i boot) net := by
  have hups (j : ι) : ((b.setBoot i boot).boots j).up = (b.boots j).up := by
    by_cases hij : j = i
    · subst hij
      rw [BootNetwork.setBoot_self, hup]
    · rw [BootNetwork.setBoot_of_ne b hij]
  exact ⟨h.calls, h.drawn, fun j hj => h.up j (hups j ▸ hj), fun j hj => h.down j (hups j ▸ hj)⟩

/-- A step of a network that comes up is a step of the other network or none. -/
theorem Shadows.boot_step {s : Setup ι} {d : Deployment ι} (hd : d.config = s.config)
    (husers : d.users = s.users) (hroute : d.route = s.route) (h : Shadows d b net)
    (hb : Introduced s b) {l : BootLabel ι} (hmet : ∀ i, l = .up i → d.peers i = b.met s i)
    (hstep : b.step platform s l = some b') :
    Shadows d b' net ∨
      ∃ l' net', net.step platform d l' = some net' ∧ Shadows d b' net' := by
  cases BootNetwork.next_of_step hstep with
  | @run l net' hup hrun =>
      obtain ⟨net₁, hrun₁, hnet₁⟩ := Shadows.step hb hd hroute h hup hrun
      exact Or.inr ⟨l, net₁, hrun₁, hnet₁⟩
  | @asked i j address rest n hrest hroute' hup hserve =>
      -- a handshake is another request there
      right
      refine ⟨.other j (.handshake i), _, Network.step_other_eq_some.2 ⟨n, ?_, rfl⟩, ?_⟩
      · rw [h.up j hup, OtherRequest.request, hd]
        exact hserve
      · rw [h.calls, h.drawn]
        exact (h.update hup n _ _).setBoot rfl
  | answered => exact Or.inl (h.setBoot rfl)
  | skipped => exact Or.inl (h.setBoot rfl)
  | @up i hrest hdown =>
      left
      refine ⟨h.calls, h.drawn, fun j hj => ?_, fun j hj => ?_⟩
      · by_cases hij : j = i
        · subst hij
          rw [h.down j hdown]
          simp [Network.start, hd, husers, hmet j rfl, BootNetwork.met]
        · simpa [hij] using h.up j (by simpa [hij] using hj)
      · have hij : j ≠ i := by
          rintro rfl
          simp at hj
        simpa using h.down j (by simpa [hij] using hj)

omit [DecidableEq ι] in
theorem shadows_start (d : Deployment ι) :
    Shadows d (BootNetwork.start s) (Network.start d) where
  calls := rfl
  drawn := rfl
  up _ h := nomatch h
  down _ _ := rfl

/-- A node comes up with what it has met. -/
theorem BootNetwork.step_up {i : ι} (h : b.step platform s (.up i) = some b') :
    (b'.boots i).up = true ∧ (b'.boots i).answers = (b.boots i).answers := by
  cases BootNetwork.next_of_step h with
  | up => simp

/-- The network whose nodes start with the peers that they are going to have met. -/
theorem Introduced.exists_shadow (hend : Introduced s b) {ls : List (BootLabel ι)}
    (h : Run.exec (BootNetwork.step platform s) (.start s) ls = some b) :
    ∃ ls' net, Run.exec (Network.step platform (s.deployment (b.met s) hend.met_route))
        (.start (s.deployment (b.met s) hend.met_route)) ls' = some net ∧
      Shadows (s.deployment (b.met s) hend.met_route) b net := by
  -- what a node has met when it comes up is what it has met in the end
  have hmeets : Run.Meets (BootNetwork.step platform s)
      (fun b₁ l => Introduced s b₁ → ∀ i, l = .up i → b₁.met s i = b.met s i) (.start s) ls := by
    refine Run.meets_of_end (fun b₁ l b₂ ls' hstep hrest hb₁ i hl => ?_) h
    subst hl
    obtain ⟨hup, hsame⟩ := BootNetwork.step_up hstep
    rw [(introduced_step hb₁ hstep).met_exec hrest hup, BootNetwork.met, BootNetwork.met, hsame]
  obtain ⟨ls', net, hrun, -, hshadows⟩ := Run.exec_simulates
    (R := fun b₁ net => Introduced s b₁ ∧
      Shadows (s.deployment (b.met s) hend.met_route) b₁ net)
    (fun b₁ l b₂ net ⟨hb₁, hnet⟩ hC hstep => by
      have hb₂ := introduced_step hb₁ hstep
      rcases Shadows.boot_step rfl rfl rfl hnet hb₁ (fun i hl => (hC hb₁ i hl).symm) hstep with
        hsame | ⟨l', net', hstep', hnet'⟩
      · exact Or.inl ⟨hb₂, hsame⟩
      · exact Or.inr ⟨l', net', hstep', hb₂, hnet'⟩)
    ⟨introduced_start, shadows_start _⟩ hmeets h
  exact ⟨ls', net, hrun, hshadows⟩

/-- **A network that comes up does what a network does** whose nodes run from the start, with the
    peers that they are going to have met: the nodes that are up are in the same state there, and
    the calls are the same. -/
theorem boot_refines {ls : List (BootLabel ι)}
    (h : Run.exec (BootNetwork.step platform s) (.start s) ls = some b) :
    ∃ d : Deployment ι, d.config = s.config ∧ d.users = s.users ∧ d.route = s.route ∧
      d.peers = b.met s ∧
      ∃ ls' net, Run.exec (Network.step platform d) (.start d) ls' = some net ∧
        Shadows d b net := by
  have hend := introduced_exec h
  exact ⟨s.deployment (b.met s) hend.met_route, rfl, rfl, rfl, rfl, hend.exists_shadow h⟩

/-- **Introductions are mutual.** A node that is up knows its peers under their own names, and whom
    it has met at its start is up and knows the node, at its address. -/
theorem boot_mutual {ls : List (BootLabel ι)}
    (h : Run.exec (BootNetwork.step platform s) (.start s) ls = some b) {i : ι}
    (hup : (b.boots i).up = true) :
    (∀ peer ∈ (b.net.nodes i).shared.manager.peers.rows,
      ∃ j, s.route peer.2.peerUrl = some j ∧ (s.config j).nodeId = peer.1) ∧
    ∀ peer ∈ (b.met s i).rows, ∃ j, s.route peer.2.peerUrl = some j ∧
      (s.config j).nodeId = peer.1 ∧ (b.boots j).up = true ∧
      ∃ client, ((s.config i).nodeId, client) ∈ (b.net.nodes j).shared.manager.peers.rows ∧
        s.route client.peerUrl = some i := by
  have hend := introduced_exec h
  obtain ⟨ls', net, hrun, hshadows⟩ := hend.exists_shadow h
  have hwired := Run.exec_invariant
    (I := fun net => Wired (s.deployment (b.met s) hend.met_route) net)
    (fun _ _ _ hnet hstep => wired_step hnet hstep) (wired_start _) hrun
  have htruthful {j : ι} (hj : (b.boots j).up = true) :
      ∀ peer ∈ (b.net.nodes j).shared.manager.peers.rows,
        ∃ k, s.route peer.2.peerUrl = some k ∧ (s.config k).nodeId = peer.1 := by
    rw [← hshadows.up j hj]
    exact (hwired.truthful j).peers
  refine ⟨htruthful hup, fun peer hpeer => ?_⟩
  obtain ⟨a, ha, hurl, hmet⟩ := SyncManager.mem_new hpeer
  obtain ⟨j, hroute, hid, hj, hknows⟩ := hend.answers i a ha peer.1 hmet
  obtain ⟨⟨nodeId, client⟩, hlookup⟩ := Option.isSome_iff_exists.1 hknows
  obtain ⟨hrow, rfl⟩ := Table.lookup_eq_some_iff.1 hlookup
  obtain ⟨k, hk, hname⟩ := htruthful hj _ hrow
  obtain rfl := s.nodeId_injective hname
  exact ⟨j, hurl ▸ hroute, hid, hj, client, hrow, hk⟩

/-! ## Two nodes that come up -/

/-- The nodes of the sample network; one has the address of the other. -/
def Setup.sample : Setup Bool where
  config := P2PConfig.sample
  addresses i := if i then ["http://127.0.0.1:1"] else []
  users _ := .empty
  route := Deployment.sample.route
  nodeId_injective := Deployment.sample.nodeId_injective
  route_listenAddr := Deployment.sample.route_listenAddr

/-- The first node comes up and serves the handshake of the second. -/
def BootLabel.sample : List (BootLabel Bool) :=
  [.up false, .ask true, .run (.node false (.handler 0 HandlerInput.sample)), .answer true,
    .up true]

/-- The two nodes, up. -/
def BootNetwork.sample : BootNetwork Bool :=
  (Run.exec (BootNetwork.step Platform.sample Setup.sample) (.start Setup.sample)
    BootLabel.sample).getD (.start Setup.sample)

theorem BootNetwork.sample_reached :
    Run.exec (BootNetwork.step Platform.sample Setup.sample) (.start Setup.sample)
      BootLabel.sample = some BootNetwork.sample := by
  rfl

theorem boot_refines_sample : ∃ d : Deployment Bool, d.config = P2PConfig.sample ∧
    d.users = Setup.sample.users ∧ d.route = Deployment.sample.route ∧
    d.peers = BootNetwork.sample.met Setup.sample ∧
    ∃ ls' net, Run.exec (Network.step Platform.sample d) (.start d) ls' = some net ∧
      Shadows d BootNetwork.sample net :=
  boot_refines BootNetwork.sample_reached

theorem boot_mutual_sample :
    (BootNetwork.sample.met Setup.sample true).rows = [("node", ⟨"http://127.0.0.1:1"⟩)] ∧
    ∃ client, ("peer", client) ∈
      (BootNetwork.sample.net.nodes false).shared.manager.peers.rows ∧
      Deployment.sample.route client.peerUrl = some true := by
  have hmet : (BootNetwork.sample.met Setup.sample true).rows
      = [("node", ⟨"http://127.0.0.1:1"⟩)] := by decide +kernel
  obtain ⟨j, -, hid, -, client, hclient, hroute⟩ :=
    (boot_mutual BootNetwork.sample_reached (i := true) (by decide +kernel)).2
      ("node", ⟨"http://127.0.0.1:1"⟩) (by rw [hmet]; exact List.mem_singleton_self _)
  obtain rfl : j = false := by
    revert hid
    cases j <;> decide +kernel
  exact ⟨hmet, client, hclient, hroute⟩

end

end DaConcept.Node
