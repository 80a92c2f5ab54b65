import DaConcept.Node.Announce
import DaConcept.Node.Boot
import DaConcept.Node.Reach
import DaConcept.Node.Replica
import DaConcept.Node.Wire

set_option autoImplicit false

/-! # The peer-facing client (`da-node/src/node_api/client.rs`)

All clones of a `PeerClient` share one cell for the connection, so the loop, the fetch tasks and
`SyncManager::new` may call `connect` and `get_client` at the same time. Whatever they do between
two lock sections, a call returns a connection that one of them has dialed or the error of its own
dial, and a connection that is there is used (`get_client_returns`, `get_client_reuses`).

The methods send a request and pick their data out of the reply, with a fallback for a reply that
has other data. A node never replies with other data, so the fallbacks are not for nodes; what can
come in between is a reply that is longer than the client decodes (`requests_answered`). -/

namespace DaConcept.Node

/-! ## The connection -/

section

variable {χ ε : Type}

/-- Where a call of `connect` stands. -/
inductive Connect (χ ε : Type) where
  /-- It comes to `SyncServiceClient::connect`. -/
  | dial
  /-- It comes to the lock with what it has dialed. -/
  | write (client : Except ε χ)
  | returned (result : Except ε Unit)
deriving DecidableEq

/-- `DANodeError`, as far as `get_client` meets it. -/
inductive GetClientError (ε : Type) where
  | grpcClient (e : ε)
  | clientNotConnected (peerUrl : String)
deriving DecidableEq

/-- Where a call of `get_client` stands. -/
inductive GetClient (χ ε : Type) where
  /-- It comes to read the cell. -/
  | read
  /-- It has called `connect`. -/
  | connect (c : Connect χ ε)
  /-- It comes to read the cell again. -/
  | reread
  | returned (result : Except (GetClientError ε) χ)
deriving DecidableEq

/-- One step of `connect`, with what a dial gives; `none` if it has returned. -/
def Connect.step (dialed : Except ε χ) (client : Option χ) :
    Connect χ ε → Option (Option χ × Connect χ ε)
  | .dial => some (client, .write dialed)
  | .write (.ok c) => some (some c, .returned (.ok ()))
  | .write (.error e) => some (client, .returned (.error e))
  | .returned _ => none

/-- `get_client` goes on when `connect` has returned. -/
def GetClient.resume : Connect χ ε → GetClient χ ε
  | .returned (.ok ()) => .reread
  | .returned (.error e) => .returned (.error (.grpcClient e))
  | c => .connect c

/-- One step of `get_client`; `none` if it has returned. -/
def GetClient.step (peerUrl : String) (dialed : Except ε χ) (client : Option χ) :
    GetClient χ ε → Option (Option χ × GetClient χ ε)
  | .read =>
      match client with
      | some c => some (client, .returned (.ok c))
      | none => some (client, .connect .dial)
  | .connect c => (c.step dialed client).map (fun p => (p.1, .resume p.2))
  | .reread =>
      match client with
      | some c => some (client, .returned (.ok c))
      | none => some (client, .returned (.error (.clientNotConnected peerUrl)))
  | .returned _ => none

/-- A call at one of the clones of a `PeerClient`. -/
inductive ClientCall (χ ε : Type) where
  | connect (c : Connect χ ε)
  | getClient (g : GetClient χ ε)
deriving DecidableEq

def ClientCall.step (peerUrl : String) (dialed : Except ε χ) (client : Option χ) :
    ClientCall χ ε → Option (Option χ × ClientCall χ ε)
  | .connect c => (c.step dialed client).map (fun p => (p.1, .connect p.2))
  | .getClient g => (g.step peerUrl dialed client).map (fun p => (p.1, .getClient p.2))

/-- The call comes to `SyncServiceClient::connect`. -/
def ClientCall.dialing : ClientCall χ ε → Bool
  | .connect .dial => true
  | .getClient (.connect .dial) => true
  | _ => false

/-- The cell that the clones of a `PeerClient` share, and the calls at them. -/
structure PeerConnection (χ ε : Type) where
  client : Option χ
  calls : List (ClientCall χ ε)

inductive ConnectionEvent (χ ε : Type) where
  /-- `connect` is called. -/
  | connect
  /-- `get_client` is called. -/
  | getClient
  /-- The `i`-th call does a step; `dialed` is what it gives if it comes to dial. -/
  | step (i : Nat) (dialed : Except ε χ)

/-- `PeerClient::new`. -/
def PeerConnection.new : PeerConnection χ ε := ⟨none, []⟩

def PeerConnection.step (peerUrl : String) (s : PeerConnection χ ε) :
    ConnectionEvent χ ε → Option (PeerConnection χ ε)
  | .connect => some { s with calls := s.calls ++ [.connect .dial] }
  | .getClient => some { s with calls := s.calls ++ [.getClient .read] }
  | .step i dialed => do
      let call ← s.calls[i]?
      let (client, call') ← call.step peerUrl dialed s.client
      some ⟨client, s.calls.set i call'⟩

/-- What a step dials, and for which call. -/
def PeerConnection.dialed (s : PeerConnection χ ε) :
    ConnectionEvent χ ε → List (Nat × Except ε χ)
  | .step i dialed => if (s.calls[i]?).any (·.dialing) then [(i, dialed)] else []
  | _ => []

/-- **What a step of a call comes to**: it returns the connection that is there, comes to dial
    because there is none, has dialed, stores what it has dialed, or fails as its dial did. -/
inductive ClientCall.Next (peerUrl : String) (dialed : Except ε χ) :
    Option χ → ClientCall χ ε → Option χ → ClientCall χ ε → Prop
  | reused (c : χ) :
      Next peerUrl dialed (some c) (.getClient .read) (some c) (.getClient (.returned (.ok c)))
  | missing : Next peerUrl dialed none (.getClient .read) none (.getClient (.connect .dial))
  | dialedConnect (client : Option χ) :
      Next peerUrl dialed client (.connect .dial) client (.connect (.write dialed))
  | dialed (client : Option χ) : Next peerUrl dialed client (.getClient (.connect .dial)) client
      (.getClient (.connect (.write dialed)))
  | storedConnect (client : Option χ) (c : χ) : Next peerUrl dialed client
      (.connect (.write (.ok c))) (some c) (.connect (.returned (.ok ())))
  | stored (client : Option χ) (c : χ) : Next peerUrl dialed client
      (.getClient (.connect (.write (.ok c)))) (some c) (.getClient .reread)
  | failedConnect (client : Option χ) (e : ε) : Next peerUrl dialed client
      (.connect (.write (.error e))) client (.connect (.returned (.error e)))
  | failed (client : Option χ) (e : ε) : Next peerUrl dialed client
      (.getClient (.connect (.write (.error e)))) client
      (.getClient (.returned (.error (.grpcClient e))))
  | reread (c : χ) :
      Next peerUrl dialed (some c) (.getClient .reread) (some c) (.getClient (.returned (.ok c)))
  | notConnected : Next peerUrl dialed none (.getClient .reread) none
      (.getClient (.returned (.error (.clientNotConnected peerUrl))))

variable {peerUrl : String} {s s' : PeerConnection χ ε}

theorem ClientCall.next_of_step {dialed : Except ε χ} {client client' : Option χ}
    {call call' : ClientCall χ ε} (h : call.step peerUrl dialed client = some (client', call')) :
    ClientCall.Next peerUrl dialed client call client' call' := by
  cases call with
  | connect c =>
      rcases c with _ | (e | c) | _ <;> cases h
      · exact .dialedConnect client
      · exact .failedConnect client e
      · exact .storedConnect client c
  | getClient g =>
      rcases g with _ | (_ | (e | c) | _) | _ | _
      · cases client <;> cases h
        · exact .missing
        · exact .reused _
      · cases h
        exact .dialed client
      · cases h
        exact .failed client e
      · cases h
        exact .stored client c
      · cases h
      · cases client <;> cases h
        · exact .notConnected
        · exact .reread _
      · cases h

theorem PeerConnection.step_step_eq_some {i : Nat} {dialed : Except ε χ} :
    s.step peerUrl (.step i dialed) = some s' ↔ ∃ call client call', s.calls[i]? = some call ∧
      call.step peerUrl dialed s.client = some (client, call') ∧
      s' = ⟨client, s.calls.set i call'⟩ := by
  simp only [PeerConnection.step, Option.bind_eq_bind, Option.bind_eq_some_iff, Prod.exists,
    Option.some.injEq]
  constructor
  · rintro ⟨call, hcall, client, call', hstep, heq⟩
    exact ⟨call, client, call', hcall, hstep, heq.symm⟩
  · rintro ⟨call, client, call', hcall, hstep, heq⟩
    exact ⟨call, hcall, client, call', hstep, heq.symm⟩

/-- No step takes the connection away. -/
theorem ClientCall.Next.isSome {dialed : Except ε χ} {client client' : Option χ}
    {call call' : ClientCall χ ε} (h : ClientCall.Next peerUrl dialed client call client' call')
    (hclient : client.isSome) : client'.isSome := by
  cases h with
  | missing => exact hclient
  | notConnected => exact hclient
  | _ => first | rfl | exact hclient

/-! ### What a call returns -/

/-- What is so of the `i`-th call, if `dials` has been dialed so far, for which call each. -/
def ClientCall.Sound (dials : List (Nat × Except ε χ)) (client : Option χ) (i : Nat) :
    ClientCall χ ε → Prop
  | .connect (.write dialed) => (i, dialed) ∈ dials
  | .getClient (.connect (.write dialed)) => (i, dialed) ∈ dials
  | .getClient .reread => client.isSome
  | .getClient (.returned (.ok c)) => ∃ j, (j, .ok c) ∈ dials
  | .getClient (.returned (.error e)) => ∃ e', e = .grpcClient e' ∧ (i, .error e') ∈ dials
  | _ => True

structure PeerConnection.Sound (dials : List (Nat × Except ε χ))
    (s : PeerConnection χ ε) : Prop where
  client : ∀ c, s.client = some c → ∃ j, (j, .ok c) ∈ dials
  calls : ∀ (i : Nat) (call : ClientCall χ ε), s.calls[i]? = some call → call.Sound dials s.client i

theorem ClientCall.Sound.mono {dials : List (Nat × Except ε χ)} {client client' : Option χ}
    {i : Nat} {call : ClientCall χ ε} (h : call.Sound dials client i)
    (more : List (Nat × Except ε χ)) (hclient : client.isSome → client'.isSome) :
    call.Sound (dials ++ more) client' i := by
  rcases call with (_ | _ | _) | (_ | (_ | _ | _) | _ | (e | c))
  case getClient.reread => exact hclient h
  case getClient.returned.ok =>
    obtain ⟨j, hj⟩ := h
    exact ⟨j, List.mem_append_left _ hj⟩
  case getClient.returned.error =>
    obtain ⟨e', he', hi⟩ := h
    exact ⟨e', he', List.mem_append_left _ hi⟩
  case connect.write => exact List.mem_append_left _ h
  case getClient.connect.write => exact List.mem_append_left _ h
  all_goals trivial

/-- What a step comes to is sound if the call was. -/
theorem ClientCall.Sound.step {dials : List (Nat × Except ε χ)} {dialed : Except ε χ}
    {client client' : Option χ} {i : Nat} {call call' : ClientCall χ ε}
    (hclient : ∀ c, client = some c → ∃ j, (j, .ok c) ∈ dials)
    (hcall : call.Sound dials client i)
    (h : ClientCall.Next peerUrl dialed client call client' call') :
    (∀ c, client' = some c → ∃ j, (j, .ok c) ∈ dials) ∧
      call'.Sound (dials ++ if call.dialing then [(i, dialed)] else []) client' i := by
  cases h with
  | reused c => exact ⟨hclient, (hclient c rfl).imp fun j hj => List.mem_append_left _ hj⟩
  | missing => exact ⟨hclient, trivial⟩
  | dialedConnect => exact ⟨hclient, List.mem_append_right _ (List.mem_singleton_self _)⟩
  | dialed => exact ⟨hclient, List.mem_append_right _ (List.mem_singleton_self _)⟩
  | storedConnect client c =>
      refine ⟨?_, trivial⟩
      rintro _ ⟨⟩
      exact ⟨i, hcall⟩
  | stored client c =>
      refine ⟨?_, rfl⟩
      rintro _ ⟨⟩
      exact ⟨i, hcall⟩
  | failedConnect => exact ⟨hclient, trivial⟩
  | failed client e => exact ⟨hclient, e, rfl, List.mem_append_left _ hcall⟩
  | reread c => exact ⟨hclient, (hclient c rfl).imp fun j hj => List.mem_append_left _ hj⟩
  | notConnected => cases hcall

/-- A call that has only begun adds nothing. -/
theorem PeerConnection.Sound.call {dials : List (Nat × Except ε χ)} (hs : s.Sound dials)
    {call : ClientCall χ ε} (hcall : ∀ i, call.Sound dials s.client i) :
    PeerConnection.Sound dials { s with calls := s.calls ++ [call] } := by
  refine ⟨hs.client, fun i call' hi => ?_⟩
  rcases Nat.lt_or_ge i s.calls.length with hlt | hle
  · exact hs.calls i call' ((List.getElem?_append_left hlt).symm.trans hi)
  · rw [List.getElem?_append_right hle] at hi
    obtain rfl := List.mem_singleton.1 (List.mem_of_getElem? hi)
    exact hcall i

theorem PeerConnection.Sound.step {dials : List (Nat × Except ε χ)}
    {e : ConnectionEvent χ ε} (hs : s.Sound dials) (h : s.step peerUrl e = some s') :
    s'.Sound (dials ++ s.dialed e) := by
  cases e with
  | connect =>
      cases h
      have hnone : s.dialed .connect = [] := rfl
      rw [hnone, List.append_nil]
      exact hs.call fun _ => trivial
  | getClient =>
      cases h
      have hnone : s.dialed .getClient = [] := rfl
      rw [hnone, List.append_nil]
      exact hs.call fun _ => trivial
  | step i dialed =>
      obtain ⟨call, client, call', hi, hstep, rfl⟩ := PeerConnection.step_step_eq_some.1 h
      have hnext := ClientCall.next_of_step hstep
      obtain ⟨hclient, hcall'⟩ := ClientCall.Sound.step hs.client (hs.calls i call hi) hnext
      have hdialed : s.dialed (.step i dialed) = if call.dialing then [(i, dialed)] else [] := by
        rw [PeerConnection.dialed, hi, Option.any_some]
      rw [hdialed]
      refine ⟨fun c hc => (hclient c hc).imp fun j hj => List.mem_append_left _ hj, ?_⟩
      intro j call₁ hj
      rw [List.getElem?_set] at hj
      split at hj
      · next hij =>
          subst hij
          split at hj <;> cases hj
          exact hcall'
      · exact (hs.calls j call₁ hj).mono _ hnext.isSome

/-- **What `get_client` returns.** However the calls of `connect` and `get_client` at the clones of
    a `PeerClient` interleave, and whatever the dials give: a call of `get_client` returns a
    connection that one of the calls has dialed, or the error of its own dial; it never returns
    `ClientNotConnected`. -/
theorem get_client_returns (peerUrl : String) (s : PeerConnection χ ε)
    (es : List (ConnectionEvent χ ε))
    (h : Run.exec (PeerConnection.step peerUrl) .new es = some s) (i : Nat)
    (result : Except (GetClientError ε) χ)
    (hi : s.calls[i]? = some (.getClient (.returned result))) :
    (∃ c j, result = .ok c ∧
      (j, .ok c) ∈ Run.logged (PeerConnection.step peerUrl) PeerConnection.dialed .new es) ∨
    ∃ e, result = .error (.grpcClient e) ∧
      (i, .error e) ∈ Run.logged (PeerConnection.step peerUrl) PeerConnection.dialed .new es := by
  have hsound := Run.exec_logged (f := PeerConnection.dialed)
    (g := PeerConnection.dialed)
    (I := fun dials (_ : List (Nat × Except ε χ)) s => s.Sound dials)
    (fun _ _ _ _ _ hs hstep => hs.step hstep) (l := []) (m := [])
    ⟨by simp [PeerConnection.new], by simp [PeerConnection.new]⟩ h
  have hcall := hsound.calls i _ hi
  rw [List.nil_append] at hcall
  cases result with
  | ok c =>
      obtain ⟨j, hj⟩ := hcall
      exact Or.inl ⟨c, j, rfl, hj⟩
  | error e =>
      obtain ⟨e', rfl, hdial⟩ := hcall
      exact Or.inr ⟨e', rfl, hdial⟩

/-! ### Calls that find a connection -/

/-- A call of `get_client` that has not had to connect, or any of `connect`. -/
def ClientCall.Reuses : ClientCall χ ε → Prop
  | .connect _ => True
  | .getClient .read => True
  | .getClient (.returned (.ok _)) => True
  | _ => False

/-- There is a connection, and of the calls from the `base`-th on only those of `connect` dial. -/
structure PeerConnection.Reuses (base : Nat) (dials : List (Nat × Except ε χ))
    (s : PeerConnection χ ε) : Prop where
  client : s.client.isSome
  length : base ≤ s.calls.length
  calls : ∀ (i : Nat) (call : ClientCall χ ε), base ≤ i → s.calls[i]? = some call → call.Reuses
  dials : ∀ d ∈ dials, base ≤ d.1 → ∃ c, s.calls[d.1]? = some (.connect c)

theorem ClientCall.Reuses.step {dialed : Except ε χ} {client client' : Option χ}
    {call call' : ClientCall χ ε} (hclient : client.isSome) (hcall : call.Reuses)
    (h : ClientCall.Next peerUrl dialed client call client' call') :
    call'.Reuses ∧ (call.dialing → ∃ c, call' = .connect c) := by
  cases h with
  | missing => cases hclient
  | reused c => exact ⟨trivial, nofun⟩
  | dialedConnect client => exact ⟨trivial, fun _ => ⟨_, rfl⟩⟩
  | storedConnect client c => exact ⟨trivial, nofun⟩
  | failedConnect client e => exact ⟨trivial, nofun⟩
  | _ => exact hcall.elim

theorem ClientCall.Next.connect {dialed : Except ε χ} {client client' : Option χ}
    {c : Connect χ ε} {call' : ClientCall χ ε}
    (h : ClientCall.Next peerUrl dialed client (.connect c) client' call') :
    ∃ c', call' = .connect c' := by
  cases h <;> exact ⟨_, rfl⟩

theorem PeerConnection.Reuses.call {base : Nat} {dials : List (Nat × Except ε χ)}
    (hs : s.Reuses base dials) {call : ClientCall χ ε} (hcall : call.Reuses) :
    PeerConnection.Reuses base dials { s with calls := s.calls ++ [call] } where
  client := hs.client
  length := hs.length.trans (by simp)
  calls := by
    intro i call' hbase hi
    rcases Nat.lt_or_ge i s.calls.length with hlt | hle
    · exact hs.calls i call' hbase ((List.getElem?_append_left hlt).symm.trans hi)
    · rw [List.getElem?_append_right hle] at hi
      obtain rfl := List.mem_singleton.1 (List.mem_of_getElem? hi)
      exact hcall
  dials := by
    intro d hd hbase
    obtain ⟨c, hc⟩ := hs.dials d hd hbase
    exact ⟨c, (List.getElem?_append_left (List.getElem?_eq_some_iff.1 hc).1).trans hc⟩

theorem PeerConnection.Reuses.step {base : Nat} {dials : List (Nat × Except ε χ)}
    {e : ConnectionEvent χ ε} (hs : s.Reuses base dials) (h : s.step peerUrl e = some s') :
    s'.Reuses base (dials ++ s.dialed e) := by
  cases e with
  | connect =>
      cases h
      have hnone : s.dialed .connect = [] := rfl
      rw [hnone, List.append_nil]
      exact hs.call trivial
  | getClient =>
      cases h
      have hnone : s.dialed .getClient = [] := rfl
      rw [hnone, List.append_nil]
      exact hs.call trivial
  | step i dialed =>
      obtain ⟨call, client, call', hi, hstep, rfl⟩ := PeerConnection.step_step_eq_some.1 h
      have hnext := ClientCall.next_of_step hstep
      have hlt := (List.getElem?_eq_some_iff.1 hi).1
      refine ⟨hnext.isSome hs.client, by simpa using hs.length, ?_, ?_⟩
      · intro j call₁ hbase hj
        rw [List.getElem?_set] at hj
        split at hj
        · next hij =>
            subst hij
            obtain rfl := Option.some.inj hj
            exact (ClientCall.Reuses.step hs.client (hs.calls i call hbase hi) hnext).1
        · exact hs.calls j call₁ hbase hj
      · intro d hd hbase
        rw [List.getElem?_set]
        rcases List.mem_append.1 hd with hold | hnew
        · obtain ⟨c, hc⟩ := hs.dials d hold hbase
          split
          · next hid =>
              rw [hid] at hi
              obtain rfl := Option.some.inj (hc.symm.trans hi)
              obtain ⟨c', rfl⟩ := hnext.connect
              exact ⟨c', rfl⟩
          · exact ⟨c, hc⟩
        · rw [PeerConnection.dialed, hi, Option.any_some] at hnew
          split at hnew
          · next hdialing =>
              obtain rfl := List.mem_singleton.1 hnew
              have hcall := hs.calls i call hbase hi
              obtain ⟨c, rfl⟩ := (ClientCall.Reuses.step hs.client hcall hnext).2 hdialing
              exact ⟨c, by simp [hlt]⟩
          · cases hnew

/-- **A connection is used.** Once a call has stored a connection, whatever calls are still under
    way or fail: there is one from then on, and a call of `get_client` that begins then does not
    dial and returns a connection. -/
theorem get_client_reuses (peerUrl : String) (s s' : PeerConnection χ ε)
    (es : List (ConnectionEvent χ ε)) (hclient : s.client.isSome)
    (h : Run.exec (PeerConnection.step peerUrl) s es = some s') :
    s'.client.isSome ∧ ∀ i g, s.calls.length ≤ i → s'.calls[i]? = some (.getClient g) →
      (g = .read ∨ ∃ c, g = .returned (.ok c)) ∧ ∀ dialed, (i, dialed) ∉
        Run.logged (PeerConnection.step peerUrl) PeerConnection.dialed s es := by
  have hreuses := Run.exec_logged (f := PeerConnection.dialed) (g := PeerConnection.dialed)
    (I := fun dials (_ : List (Nat × Except ε χ)) t => t.Reuses s.calls.length dials)
    (fun _ _ _ _ _ hs hstep => hs.step hstep) (l := []) (m := [])
    ⟨hclient, le_rfl, fun i call hbase hi =>
      absurd (List.getElem?_eq_some_iff.1 hi).1 (Nat.not_lt.2 hbase), by simp⟩ h
  rw [List.nil_append] at hreuses
  refine ⟨hreuses.client, fun i g hbase hi => ⟨?_, fun dialed hdialed => ?_⟩⟩
  · have hcall := hreuses.calls i _ hbase hi
    rcases g with _ | _ | _ | (e | c)
    · exact Or.inl rfl
    · exact hcall.elim
    · exact hcall.elim
    · exact hcall.elim
    · exact Or.inr ⟨c, rfl⟩
  · obtain ⟨c, hc⟩ := hreuses.dials _ hdialed hbase
    rw [hi] at hc
    cases hc

end

/-- Two calls dial at the same time: the dial of the first fails, the second stores its
    connection and returns it. -/
def ConnectionEvent.sample : List (ConnectionEvent Nat String) :=
  [.getClient, .getClient, .step 0 (.ok 0), .step 1 (.ok 0), .step 0 (.error "refused"),
   .step 1 (.ok 1), .step 1 (.ok 0), .step 0 (.ok 0), .step 1 (.ok 0)]

/-- The first call returns the error of its own dial, though there is a connection by then. -/
theorem get_client_returns_sample :
    ∃ s : PeerConnection Nat String,
      Run.exec (PeerConnection.step "http://peer") .new ConnectionEvent.sample = some s ∧
      ∃ result, s.calls[0]? = some (.getClient (.returned result)) ∧
        ((∃ c j, result = .ok c ∧ (j, .ok c) ∈ Run.logged (PeerConnection.step "http://peer")
          PeerConnection.dialed .new ConnectionEvent.sample) ∨
        ∃ e, result = .error (.grpcClient e) ∧ (0, .error e) ∈ Run.logged
          (PeerConnection.step "http://peer") PeerConnection.dialed .new
          ConnectionEvent.sample) := by
  have hrun : (Run.exec (PeerConnection.step "http://peer") .new ConnectionEvent.sample).any
      (fun s => s.calls[0]? = some (.getClient (.returned (.error (.grpcClient "refused")))))
        = true := by decide +kernel
  obtain ⟨s, hs, hcall⟩ := (Option.any_eq_true _ _).1 hrun
  have hi := of_decide_eq_true hcall
  exact ⟨s, hs, _, hi, get_client_returns "http://peer" s _ hs 0 _ hi⟩

/-- A call that begins afterwards returns the connection, though a dial would fail. -/
theorem get_client_reuses_sample :
    ∃ s s' : PeerConnection Nat String,
      Run.exec (PeerConnection.step "http://peer") .new ConnectionEvent.sample = some s ∧
      Run.exec (PeerConnection.step "http://peer") s
        [.getClient, .step 2 (.error "refused")] = some s' ∧
      ∃ g, s'.calls[2]? = some (.getClient g) ∧ (g = .read ∨ ∃ c, g = .returned (.ok c)) := by
  have hrun : (Run.exec (PeerConnection.step "http://peer") .new ConnectionEvent.sample).any
      (fun s => s.client.isSome ∧ s.calls.length = 2 ∧
        (Run.exec (PeerConnection.step "http://peer") s
          [.getClient, .step 2 (.error "refused")]).any (fun s' =>
            s'.calls[2]? = some (.getClient (.returned (.ok 1))))) = true := by decide +kernel
  obtain ⟨s, hs, hcond⟩ := (Option.any_eq_true _ _).1 hrun
  obtain ⟨hclient, hlength, hthen⟩ : _ ∧ _ ∧ _ := of_decide_eq_true hcond
  obtain ⟨s', hs', hcall⟩ := (Option.any_eq_true _ _).1 hthen
  have hi := of_decide_eq_true hcall
  refine ⟨s, s', hs, hs', _, hi, ?_⟩
  exact ((get_client_reuses "http://peer" s s' _ hclient hs').2 2 _ hlength.le hi).1

/-! ## The methods -/

/-- The methods of `PeerClient` differ in the data that they pick out of the reply, and in what they
    return if it has other data. -/
def PeerClient.call {α : Type} (pick : ResponseData → Option α)
    (otherwise : Except DANodeError α) (reply : RpcReply) : Except DANodeError α :=
  match reply with
  | .error status => .error (.grpc status)
  | .ok response =>
      match response.responseData.bind pick with
      | some data => .ok data
      | none => otherwise

def ResponseData.deleted : ResponseData → Option Bool
  | .delete deleted => some deleted
  | _ => none

def ResponseData.info : ResponseData → Option NodeInfoResponse
  | .nodeInfo info => some info
  | _ => none

def ResponseData.peerStatuses : ResponseData → Option (List PeerSyncStatus)
  | .statusResp peerStatuses => some peerStatuses
  | _ => none

/-- What `PeerClient::delete_blob` makes of the reply. -/
def PeerClient.deleteBlob : RpcReply → Except DANodeError Bool :=
  PeerClient.call ResponseData.deleted (.ok false)

/-- What `PeerClient::get_node_info` makes of the reply. -/
def PeerClient.getNodeInfo : RpcReply → Except DANodeError (Option NodeInfoResponse) :=
  PeerClient.call (fun data => data.info.map some) (.ok none)

/-- What `PeerClient::check_sync_status` makes of the reply. -/
def PeerClient.checkSyncStatus : RpcReply → Except DANodeError (Option (List PeerSyncStatus)) :=
  PeerClient.call (fun data => data.peerStatuses.map some) (.ok none)

/-- The data is of the kind that the request asks for. -/
def RequestType.asksFor : RequestType → ResponseData → Bool
  | .announce (some _), .announce _ => true
  | .fetch _, .fetch _ => true
  | .delete _, .delete _ => true
  | .status _, .statusResp _ => true
  | .nodeInfo, .nodeInfo _ => true
  | .handshake _ _, .handshake _ _ => true
  | _, _ => false

/-- What the methods of `PeerClient` make of the replies of a node with this configuration. -/
def RequestType.Answered (config : P2PConfig) (reply : RpcReply) : RequestType → Prop
  | .handshake _ _ => PeerClient.handshake reply = .ok (.acknowledged, some config.nodeId)
  | .announce none => PeerClient.announceBlob reply = .ok false
  | .announce (some metadata) =>
      PeerClient.announceBlob reply = .ok false ∨
      (PeerClient.announceBlob reply = .ok true ∧ (Uuid.parse metadata.id).isSome) ∨
      (PeerClient.announceBlob reply = .error (.grpc (.invalidArgument "Invalid uuid")) ∧
        Uuid.parse metadata.id = none)
  | .fetch request =>
      (PeerClient.fetchBlob reply = .error (.grpc (.invalidArgument "Invalid uuid")) ∧
        Uuid.parse request.blobId = none) ∨
      ∃ u, Uuid.parse request.blobId = some u ∧
        (PeerClient.fetchBlob reply = .ok none ∨
        PeerClient.fetchBlob reply = .error (.grpc (.internal .columnDecode)) ∨
        ∃ protoBlob metadata, PeerClient.fetchBlob reply = .ok (some protoBlob) ∧
          protoBlob.metadata = some metadata ∧ metadata.id = u.toString ∧
          (request.includeContent = false → protoBlob.content = []))
  | .delete _ => ∃ deleted, PeerClient.deleteBlob reply = .ok deleted
  | .nodeInfo =>
      (∃ info, PeerClient.getNodeInfo reply = .ok (some info) ∧ info.nodeId = config.nodeId) ∨
      ∃ e, PeerClient.getNodeInfo reply = .error (.grpc (.internal e))
  | .status _ => PeerClient.checkSyncStatus reply = .ok (some [])

/-- The method of `PeerClient` that sends the request returns this error status. -/
def RequestType.Fails (status : GrpcStatus) (reply : RpcReply) : RequestType → Prop
  | .handshake _ _ => PeerClient.handshake reply = .error (.grpc status)
  | .announce _ => PeerClient.announceBlob reply = .error (.grpc status)
  | .fetch _ => PeerClient.fetchBlob reply = .error (.grpc status)
  | .delete _ => PeerClient.deleteBlob reply = .error (.grpc status)
  | .nodeInfo => PeerClient.getNodeInfo reply = .error (.grpc status)
  | .status _ => PeerClient.checkSyncStatus reply = .error (.grpc status)

/-- No method has an answer to an error status but the error. -/
theorem RequestType.fails_error (status : GrpcStatus) (request : RequestType) :
    request.Fails status (.error status) := by
  cases request <;> rfl

/-- A handler of a request that replies what it should, or is on its way there. -/
def Handler.Answers (config : P2PConfig) (request : RequestType) : Handler → Prop
  | .sync request' => request' = some request
  | .announceQueue blobId _ =>
      ∃ metadata, request = .announce (some metadata) ∧ Uuid.parse metadata.id = some blobId
  | .fetchMark request' blob =>
      request = .fetch request' ∧ Uuid.parse request'.blobId = some blob.id
  | .deleteMark blobId => request = .delete blobId
  | .nodeInfoStorage _ => request = .nodeInfo
  | .replied reply => request.Answered config reply ∧
      ∀ response, reply = .ok response → request ≠ .announce none →
        ∃ data, response.responseData = some data ∧ request.asksFor data

/-- What a handler has replied. -/
def Handler.reply? : Handler → Option RpcReply
  | .replied reply => some reply
  | _ => none

theorem Handler.reply?_eq_some {hd : Handler} {reply : RpcReply} :
    hd.reply? = some reply ↔ hd = .replied reply := by
  cases hd <;> simp [Handler.reply?]

section

variable {platform : Platform} {config : P2PConfig} {n n' : DaNode}

/-- An error carries no data. -/
theorem RequestType.Answered.error {request : RequestType} {e : GrpcStatus}
    (h : request.Answered config (.error e)) :
    Handler.Answers config request (.replied (.error e)) := by
  refine ⟨h, ?_⟩
  intro response hreply
  cases hreply

theorem handleAnnounce_answers (metadata : Option BlobMetadata) (db : Db) :
    (handleAnnounce metadata db).Answers config (.announce metadata) := by
  cases metadata with
  | none => exact ⟨rfl, fun _ _ h => absurd rfl h⟩
  | some metadata =>
      rw [handleAnnounce]
      split
      · refine ⟨Or.inl rfl, ?_⟩
        rintro _ ⟨⟩ -
        exact ⟨_, rfl, rfl⟩
      · split
        · next blobId hparse => exact ⟨metadata, rfl, hparse⟩
        · next hparse => exact RequestType.Answered.error (Or.inr (Or.inr ⟨rfl, hparse⟩))

theorem fetchBlobById_ok {u : Uuid} {db : Db} {blob : Blob}
    (h : fetchBlobById u db = .ok (some blob)) : blob.id = u := by
  have hselect : db.selectBlob u = .ok (some blob) := by
    rw [fetchBlobById] at h
    rcases hs : db.selectBlob u with e | blob'
    · rw [hs] at h
      cases h
    · rw [hs] at h
      cases h
      rfl
  obtain ⟨row, -, -, hid, hdecode⟩ := selectBlob_eq_some_iff.1 hselect
  have hblob := (BlobRow.decode_eq_some hdecode).1
  rw [hid, Uuid.decodeUuid_cell] at hblob
  exact (Option.some.inj hblob).symm

/-- The only error of the SELECT is a row that does not decode. -/
theorem fetchBlobById_error {u : Uuid} {db : Db} {e : GrpcStatus}
    (h : fetchBlobById u db = .error e) : e = .internal .columnDecode := by
  rw [fetchBlobById, Db.selectBlob_eq] at h
  split at h
  · cases h
  · split at h <;> cases h
    rfl

theorem handleFetch_answers (request : FetchBlobRequest) (db : Db) :
    (handleFetch request db).Answers config (.fetch request) := by
  rw [handleFetch]
  split
  · next hparse => exact RequestType.Answered.error (Or.inl ⟨rfl, hparse⟩)
  · next u hparse =>
      split
      · next e he =>
          obtain rfl := fetchBlobById_error he
          exact RequestType.Answered.error (Or.inr ⟨u, hparse, Or.inr (Or.inl rfl)⟩)
      · refine ⟨Or.inr ⟨u, hparse, Or.inl rfl⟩, ?_⟩
        rintro _ ⟨⟩ -
        exact ⟨_, rfl, rfl⟩
      · next blob hblob => exact ⟨rfl, hparse.trans (congrArg some (fetchBlobById_ok hblob).symm)⟩

theorem handleDelete_answers (blobId : String) (db : Db) :
    (handleDelete blobId db).Answers config (.delete blobId) := by
  rw [handleDelete]
  split
  · rfl
  · refine ⟨⟨false, rfl⟩, ?_⟩
    rintro _ ⟨⟩ -
    exact ⟨_, rfl, rfl⟩

theorem handleNodeInfo_answers (db : Db) : (handleNodeInfo db).Answers config .nodeInfo := by
  rw [handleNodeInfo]
  split
  · rfl
  · exact RequestType.Answered.error (Or.inr ⟨_, rfl⟩)

theorem nodeInfoReply_answered (blobCount : Int) (db : Db) :
    Handler.Answers config .nodeInfo (.replied (nodeInfoReply config blobCount db)) := by
  rw [nodeInfoReply]
  split
  · refine ⟨Or.inl ⟨_, rfl, rfl⟩, ?_⟩
    rintro _ ⟨⟩ -
    exact ⟨_, rfl, rfl⟩
  · exact RequestType.Answered.error (Or.inr ⟨_, rfl⟩)

/-- `handle_sync_status` never finds a row: it asks for the text of an id, and the rows have the
    bytes. -/
theorem handleSyncStatus_answered {db : Db} (hdb : db.Shaped) {scan : List SyncStatusRow}
    (hscan : scan.Perm db.syncStatus.rows) (blobId : String) :
    Handler.Answers config (.status blobId)
      (.replied (.ok (handleSyncStatus platform blobId scan))) := by
  rw [handleSyncStatus, hdb.filter_text hscan]
  refine ⟨rfl, ?_⟩
  rintro _ ⟨⟩ -
  exact ⟨_, rfl, rfl⟩

/-- **A handler does not lose its request.** -/
theorem Handler.Answers.step {request : RequestType} {inp : HandlerInput} {s s' : Shared}
    {hd hd' : Handler} (hdb : s.db.Shaped) (hhd : hd.Answers s.manager.config request)
    (h : hd.step platform inp s = some (s', hd')) : hd'.Answers s.manager.config request := by
  cases hd with
  | sync request' =>
      obtain rfl : request' = some request := hhd
      cases request with
      | announce metadata =>
          cases h
          exact handleAnnounce_answers metadata s.db
      | fetch request =>
          cases h
          exact handleFetch_answers request s.db
      | delete blobId =>
          cases h
          exact handleDelete_answers blobId s.db
      | status blobId =>
          simp only [Handler.step] at h
          split at h
          · next hscan =>
              cases h
              exact handleSyncStatus_answered hdb hscan blobId
          · cases h
      | nodeInfo =>
          cases h
          exact handleNodeInfo_answers s.db
      | handshake nodeId nodeUrl =>
          cases h
          refine ⟨rfl, ?_⟩
          rintro _ ⟨⟩ -
          exact ⟨_, rfl, rfl⟩
  | announceQueue blobId hash =>
      obtain ⟨metadata, rfl, hparse⟩ := hhd
      cases h
      refine ⟨Or.inr (Or.inl ⟨rfl, by rw [hparse]; rfl⟩), ?_⟩
      rintro _ ⟨⟩ -
      exact ⟨_, rfl, rfl⟩
  | fetchMark request' blob =>
      obtain ⟨rfl, hparse⟩ := hhd
      cases h
      refine ⟨Or.inr ⟨blob.id, hparse, Or.inr (Or.inr ⟨_, _, rfl, rfl, rfl, ?_⟩)⟩, ?_⟩
      · intro hcontent
        simp [Blob.protoBlob, hcontent]
      · rintro _ ⟨⟩ -
        exact ⟨_, rfl, rfl⟩
  | deleteMark blobId =>
      obtain rfl : request = .delete blobId := hhd
      cases h
      refine ⟨⟨true, rfl⟩, ?_⟩
      rintro _ ⟨⟩ -
      exact ⟨_, rfl, rfl⟩
  | nodeInfoStorage blobCount =>
      obtain rfl : request = .nodeInfo := hhd
      cases h
      exact nodeInfoReply_answered blobCount s.db
  | replied reply => cases h

/-- Every handler is on its way to the reply that its request should have. -/
structure DaNode.Answers (config : P2PConfig) (requests : List (Option RequestType)) (n : DaNode) :
    Prop where
  shaped : n.shared.db.Shaped
  config_eq : n.shared.manager.config = config
  length_eq : n.handlers.length = requests.length
  handlers : ∀ (i : Nat) request hd, requests[i]? = some (some request) →
    n.handlers[i]? = some hd → hd.Answers config request

theorem DaNode.Answers.step {requests : List (Option RequestType)} {e : Event}
    (hn : n.Answers config requests) (h : n.step platform e = some n') :
    n'.Answers config (requests ++ e.request?.toList) where
  shaped := by
    rw [DaNode.step_shared h]
    exact shaped_write hn.shaped
  config_eq := (config_step h).trans hn.config_eq
  length_eq := by rw [(DaNode.length_step h).1, hn.length_eq, List.length_append]
  handlers := by
    have hkept {i : Nat} {request : RequestType} (hlt : i < requests.length)
        (hreq : (requests ++ e.request?.toList)[i]? = some (some request)) :
        requests[i]? = some (some request) := (List.getElem?_append_left hlt).symm.trans hreq
    intro i request hd hreq hi
    rcases DaNode.handlers_step h hi with hold | ⟨request', rfl, hlength, rfl⟩ |
      ⟨inp, hd₁, s, rfl, hold, hstep⟩
    · have hlt := (List.getElem?_eq_some_iff.1 hold).1
      rw [hn.length_eq] at hlt
      exact hn.handlers i request hd (hkept hlt hreq) hold
    · rw [hlength, hn.length_eq, List.getElem?_append_right le_rfl, Nat.sub_self] at hreq
      exact Option.some.inj hreq
    · have hlt := (List.getElem?_eq_some_iff.1 hold).1
      rw [hn.length_eq] at hlt
      have hhd := hn.handlers i request hd₁ (hkept hlt hreq) hold
      rw [← hn.config_eq] at hhd ⊢
      exact hhd.step hn.shaped hstep

theorem DaNode.Answers.exec {requests : List (Option RequestType)} {es : List Event}
    (hn : n.Answers config requests) (h : Run.exec (DaNode.step platform) n es = some n') :
    n'.Answers config (requests ++ Event.requests es) :=
  Run.exec_collected (I := fun requests n => n.Answers config requests)
    (fun _ _ _ _ hn hstep => hn.step hstep) hn h

end

/-- **What `PeerClient` gets from a node.** In every run of a node, over any number of restarts and
    whatever else happens: a reply that the client decodes carries the data that its request asks
    for, so that no method of `PeerClient` falls back; a handshake is acknowledged under the node's
    own id; an announcement is accepted only for a UUID; what is fetched has the id that was asked
    for, and no content unless it was asked for; and `check_sync_status` never learns anything. A
    reply that is too long for the client is an error of the method. -/
theorem requests_answered (platform : Platform) (C : DaNode → Event → Prop) (m n : DaNode)
    (hm : m.Reached platform C) (config : P2PConfig) (peers : Peers) (es : List Event)
    (h : Run.exec (DaNode.step platform) (DaNode.start config peers m.shared.db) es = some n)
    (i : Nat) (request : RequestType) (reply : RpcReply)
    (hrequest : (Event.requests es)[i]? = some (some request))
    (hreply : n.handlers[i]? = some (.replied reply)) :
    (RpcReply.fits reply = true → request.Answered config (received reply) ∧
      ∀ response, received reply = .ok response → request ≠ .announce none →
        ∃ data, response.responseData = some data ∧ request.asksFor data) ∧
    (RpcReply.fits reply = false → ∃ response, reply = .ok response ∧
      request.Fails response.tooLarge (received reply)) := by
  have hstart : (DaNode.start config peers m.shared.db).Answers config [] :=
    ⟨hm.shaped, rfl, rfl, by simp⟩
  have hn := hstart.exec h
  rw [List.nil_append] at hn
  refine ⟨fun hfits => ?_, fun hlong => ?_⟩
  · rw [received_of_fits hfits]
    exact hn.handlers i request _ hrequest hreply
  · obtain ⟨response, rfl, hreceived⟩ := received_of_not_fits hlong
    rw [hreceived]
    exact ⟨response, rfl, request.fails_error _⟩

/-- The sample node tracks its blob for the peer, and does not tell. A node with a very long id is
    not heard. -/
theorem requests_answered_sample :
    (∃ n : DaNode, Run.exec (DaNode.step Platform.sample) (DaNode.start
        DaNode.sample.shared.manager.config .empty DaNode.sample.shared.db) (Event.sampleAdd ++
          [.request (some (.status (Uuid.sample 2).toString)),
           .handler 1 ⟨0, LoopInput.sample.statusScan⟩]) = some n ∧
      n.shared.db.tracked (Uuid.sample 2).cell "peer" = true ∧
      ∃ reply, n.handlers[1]? = some (.replied reply) ∧
        PeerClient.checkSyncStatus (received reply) = .ok (some [])) ∧
    ∃ (config : P2PConfig) (n : DaNode) (reply : RpcReply), Run.exec (DaNode.step Platform.sample)
        (DaNode.start config .empty DaNode.sample.shared.db)
          [.request (some (.handshake "peer" "http://peer")), .handler 0 HandlerInput.sample]
          = some n ∧
      n.handlers[0]? = some (.replied reply) ∧ ∃ response, reply = .ok response ∧
        PeerClient.handshake (received reply) = .error (.grpc response.tooLarge) := by
  have hm : DaNode.sample.Reached Platform.sample (fun _ _ => True) := .start _ _ _ rfl rfl
  constructor
  · have hrun : (Run.exec (DaNode.step Platform.sample) (DaNode.start
        DaNode.sample.shared.manager.config .empty DaNode.sample.shared.db) (Event.sampleAdd ++
          [.request (some (.status (Uuid.sample 2).toString)),
           .handler 1 ⟨0, LoopInput.sample.statusScan⟩])).any (fun n =>
        n.shared.db.tracked (Uuid.sample 2).cell "peer" ∧
          ((n.handlers[1]?).bind Handler.reply?).any RpcReply.fits) = true := by decide +kernel
    obtain ⟨n, hn, hcond⟩ := (Option.any_eq_true _ _).1 hrun
    obtain ⟨htracked, hany⟩ : _ ∧ _ := of_decide_eq_true hcond
    obtain ⟨reply, hbind, hfits⟩ := (Option.any_eq_true _ _).1 hany
    obtain ⟨hd, hhd, hreply⟩ := Option.bind_eq_some_iff.1 hbind
    obtain rfl := Handler.reply?_eq_some.1 hreply
    have hanswers := requests_answered Platform.sample _ _ n hm _ _ _ hn 1 _ reply rfl hhd
    exact ⟨n, hn, htracked, reply, hhd, (hanswers.1 hfits).1⟩
  · obtain ⟨config, hlong⟩ : ∃ config : P2PConfig, decodingLimit ≤ (utf8 config.nodeId).length := by
      let nodeId := String.ofList (List.replicate decodingLimit 'n')
      refine ⟨{ DaNode.sample.shared.manager.config with nodeId }, ?_⟩
      refine le_trans ?_ (length_toList_le_utf8 nodeId)
      rw [String.toList_ofList, List.length_replicate]
    let es : List Event :=
      [.request (some (.handshake "peer" "http://peer")), .handler 0 HandlerInput.sample]
    obtain ⟨n, hn, hreply⟩ : ∃ n, Run.exec (DaNode.step Platform.sample)
        (DaNode.start config .empty DaNode.sample.shared.db) es = some n ∧
          n.handlers[0]? = some (.replied (.ok (handshakeReply config))) := ⟨_, rfl, rfl⟩
    exact ⟨config, n, _, hn, hreply, (requests_answered Platform.sample _ _ n hm config .empty es hn
      0 _ _ rfl hreply).2 (handshakeReply_not_fits hlong)⟩

end DaConcept.Node
