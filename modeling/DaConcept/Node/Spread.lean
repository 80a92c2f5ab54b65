import DaConcept.Lib.Replication
import DaConcept.Node.Delivery

set_option autoImplicit false

/-! # How blobs spread

What a network does with a blob is a `Replication`: `add_blob` puts it on one node, which serves it
to the fetch tasks of the others until it is deleted there, and `store_received_blob` makes a copy.
A copy is never served: `fetch_blob_by_id` looks for the bytes of a UUID, and the id of a copy is a
text. So what a fetch task gets comes from the node where the blob was added, however the nodes are
connected, and its deletion there bounds how far the blob can spread. -/

namespace DaConcept.Node

/-! ## What a handler carries -/

/-- The handler has found the blob it was asked for. -/
def Handler.carries : Handler → Bool
  | .fetchMark _ _ => true
  | hd => hd.delivers

section

variable {platform : Platform} {inp : HandlerInput} {s s' : Shared} {hd hd' : Handler}

theorem handleFetch_carries {request : FetchBlobRequest} {db : Db}
    (h : (handleFetch request db).carries = true) :
    ∃ blob, handleFetch request db = .fetchMark request blob := by
  unfold handleFetch at h ⊢
  split
  · next hparse => simp [hparse, Handler.carries, Handler.delivers, PeerClient.fetchBlob] at h
  · next blobId hparse =>
      simp only [hparse] at h
      split
      · next e hfetch => simp [hfetch, Handler.carries, Handler.delivers, PeerClient.fetchBlob] at h
      · next hfetch => simp [hfetch, Handler.carries, Handler.delivers, PeerClient.fetchBlob] at h
      · next blob hfetch => exact ⟨blob, rfl⟩

/-- A handler that has found its blob replies with it. -/
theorem Handler.carries_of_step (h : hd.carries = true)
    (hstep : hd.step platform inp s = some (s', hd')) : hd'.carries = true := by
  cases hd with
  | fetchMark request blob =>
      cases hstep
      rfl
  | replied reply => cases hstep
  | _ => cases h

/-- The handler of a fetch request finds its blob in `handle_fetch` or never. -/
theorem Handler.Serves.found {n : DaNode} {request : FetchBlobRequest} {blobId : Uuid}
    (hserves : hd.Serves n request blobId) (h : hd.carries = false)
    (hstep : hd.step platform inp s = some (s', hd')) (h' : hd'.carries = true) :
    hd = .sync (some (.fetch request)) ∧
      ∃ blob, handleFetch request s.db = .fetchMark request blob := by
  cases hd with
  | sync request' =>
      obtain rfl : request' = some (.fetch request) := hserves
      cases hstep
      exact ⟨rfl, handleFetch_carries h'⟩
  | fetchMark request' blob => cases h
  | replied reply => cases hstep
  | _ => exact hserves.elim

end

/-! ## What a step of a network comes to -/

section

variable {ι : Type} [DecidableEq ι] {platform : Platform} {d : Deployment ι} {net net' : Network ι}
  {l : Label ι}

/-- A step of a network is a step of one node, or of none. -/
theorem Network.nodes_step (h : net.step platform d l = some net') :
    net'.nodes = net.nodes ∨ ∃ i e n, (net.nodes i).step platform e = some n ∧
      net'.nodes = Function.update net.nodes i n ∧ net.Occurs d l i e := by
  have hothers {i : ι} (hi : l.stepsAt net = some i) :
      net'.nodes = Function.update net.nodes i (net'.nodes i) := by
    funext j
    by_cases hij : j = i
    · subst hij
      rw [Function.update_self]
    · rw [Function.update_of_ne hij]
      refine Network.nodes_of_stepsAt_ne h ?_
      rw [hi, ne_eq, Option.some.injEq]
      exact Ne.symm hij
  rcases hsteps : l.stepsAt net with _ | i
  · refine Or.inl (funext fun j => Network.nodes_of_stepsAt_ne h ?_)
    rw [hsteps]
    exact nofun
  · rcases Network.step_nodes h i with hsame | ⟨e, he, hoccurs⟩
    · left
      rw [hothers hsteps, hsame, Function.update_eq_self]
    · exact Or.inr ⟨i, e, net'.nodes i, he, hothers hsteps, hoccurs⟩

/-- Where the handlers of a call come from: it had the handler, or the request has just arrived. -/
theorem Network.handlers_step {c' : Call ι} (h : net.step platform d l = some net')
    (hc' : c' ∈ net'.calls) {k : Nat} (hk : k ∈ c'.handlers) :
    (∃ c ∈ net.calls, c.caller = c'.caller ∧ c.client = c'.client ∧ c.callee = c'.callee ∧
      k ∈ c.handlers) ∨
    ∃ request, (net'.nodes c'.callee).handlers[k]? = some (.sync request) := by
  have hset {k' : Nat} {c c₁ : Call ι} (hc : net.calls[k']? = some c)
      (hmem : c' ∈ net.calls.set k' c₁) (hsame : c.caller = c₁.caller ∧ c.client = c₁.client ∧
        c.callee = c₁.callee ∧ c₁.handlers = c.handlers) :
      ∃ c ∈ net.calls, c.caller = c'.caller ∧ c.client = c'.client ∧ c.callee = c'.callee ∧
        k ∈ c.handlers := by
    rcases List.mem_or_eq_of_mem_set hmem with hold | rfl
    · exact ⟨c', hold, rfl, rfl, rfl, hk⟩
    · obtain ⟨hcaller, hclient, hcallee, hhandlers⟩ := hsame
      exact ⟨c, List.mem_of_getElem? hc, hcaller, hclient, hcallee, hhandlers ▸ hk⟩
  cases l with
  | node j e =>
      obtain ⟨-, -, n, -, rfl⟩ := Network.step_node_eq_some.1 h
      exact Or.inl ⟨c', hc', rfl, rfl, rfl, hk⟩
  | other j request =>
      obtain ⟨n, -, rfl⟩ := Network.step_other_eq_some.1 h
      exact Or.inl ⟨c', hc', rfl, rfl, rfl, hk⟩
  | send j client =>
      obtain ⟨-, peer, request, callee, -, -, rfl⟩ := Network.step_send_eq_some.1 h
      rcases List.mem_append.1 hc' with hold | hnew
      · exact Or.inl ⟨c', hold, rfl, rfl, rfl, hk⟩
      · obtain rfl := List.mem_singleton.1 hnew
        cases hk
  | unsent j client now =>
      obtain ⟨-, -, n, -, rfl⟩ := Network.step_unsent_eq_some.1 h
      exact Or.inl ⟨c', hc', rfl, rfl, rfl, hk⟩
  | arrive k' again =>
      obtain ⟨c, hc, -, n, hn, rfl⟩ := Network.step_arrive_eq_some.1 h
      rcases List.mem_or_eq_of_mem_set hc' with hold | rfl
      · exact Or.inl ⟨c', hold, rfl, rfl, rfl, hk⟩
      · rcases List.mem_append.1 hk with hold | hnew
        · exact Or.inl ⟨c, List.mem_of_getElem? hc, rfl, rfl, rfl, hold⟩
        · obtain rfl := List.mem_singleton.1 hnew
          obtain rfl := Option.some.inj hn
          exact Or.inr ⟨some c.request, by simp⟩
  | lose k' =>
      obtain ⟨c, hc, rfl⟩ := Network.step_lose_eq_some.1 h
      exact Or.inl (hset hc hc' ⟨rfl, rfl, rfl, rfl⟩)
  | reply k' h' now =>
      obtain ⟨c, reply, hc, -, -, -, n, -, rfl⟩ := Network.step_reply_eq_some.1 h
      exact Or.inl (hset hc hc' ⟨rfl, rfl, rfl, rfl⟩)
  | fail k' now =>
      obtain ⟨c, hc, -, n, -, rfl⟩ := Network.step_fail_eq_some.1 h
      exact Or.inl (hset hc hc' ⟨rfl, rfl, rfl, rfl⟩)

end

/-! ## Offers -/

section

variable {ι : Type}

/-- A handler of the node `i` has found the blob for the fetch task of the node `j`. -/
def Network.OffersAt (net : Network ι) (i j : ι) (u : Uuid) : Prop :=
  ∃ c ∈ net.calls, c.callee = i ∧ c.caller = j ∧ c.client = .task u ∧
    ∃ h ∈ c.handlers, ((net.nodes i).handlers[h]?).any (·.carries) = true

/-- Some node has found the blob for the fetch task of the node. -/
def Network.Offers (net : Network ι) (j : ι) (u : Uuid) : Prop := ∃ i, net.OffersAt i j u

variable [DecidableEq ι] {platform : Platform} {d : Deployment ι} {net net' : Network ι}
  {l : Label ι} {i j : ι} {u : Uuid}

/-- An offer stays. -/
theorem Network.OffersAt.step (hoffers : net.OffersAt i j u)
    (h : net.step platform d l = some net') : net'.OffersAt i j u := by
  obtain ⟨c, hc, rfl, rfl, hclient, k, hk, hcarries⟩ := hoffers
  obtain ⟨m, hm⟩ := List.getElem?_of_mem hc
  obtain ⟨c', hc', hcaller, hclient', hcallee, hhandlers, -⟩ := Network.call_step h hm
  refine ⟨c', List.mem_of_getElem? hc', hcallee, hcaller, hclient'.trans hclient, k,
    hhandlers hk, ?_⟩
  refine Network.node_invariant
    (I := fun n => (n.handlers[k]?).any (·.carries) = true) (fun n e n' hn hstep => ?_) hcarries h
  obtain ⟨hd, hi, hhd⟩ := (Option.any_eq_true _ _).1 hn
  rcases DaNode.handler_step hstep hi with hsame | ⟨inp, s, hd', -, hstep', hi'⟩
  · rw [hsame]
    exact hhd
  · rw [hi']
    exact Handler.carries_of_step hhd hstep'

/-- A new offer comes from a `handle_fetch` that finds the bytes of the UUID in a live row. -/
theorem Network.OffersAt.new (hnet : Linked d net) (h : net.step platform d l = some net')
    (hoffers : net'.OffersAt i j u) (hnew : ¬ net.OffersAt i j u) :
    ∃ k : Nat, (net.nodes i).handlers[k]? = some (.sync (some
        (.fetch ⟨u.toString, (d.config j).nodeId, true⟩))) ∧
      ((net'.nodes i).handlers[k]?).any (·.carries) = true ∧
      ∃ row ∈ (net.nodes i).shared.db.blobs.rows, row.id = u.cell ∧ row.live = true := by
  obtain ⟨c', hc', rfl, rfl, hclient, k, hk, hcarries⟩ := hoffers
  obtain ⟨hd', hi', hhd'⟩ := (Option.any_eq_true _ _).1 hcarries
  rcases Network.handlers_step h hc' hk with
    ⟨c, hc, hcaller, hclient', hcallee, hk'⟩ | ⟨request, hi⟩
  · obtain ⟨hd, hi, hserves⟩ := (hnet.calls c hc u (hclient'.trans hclient)).served k hk'
    rw [hcallee] at hi hserves
    have hnot : hd.carries = false := by
      by_contra hcarries
      refine hnew ⟨c, hc, hcallee, hcaller, hclient'.trans hclient, k, hk', ?_⟩
      rw [hi]
      simpa using hcarries
    rcases Network.step_nodes h c'.callee with hsame | ⟨e, he, -⟩
    · rw [hsame, hi] at hi'
      obtain rfl := Option.some.inj hi'
      rw [hnot] at hhd'
      cases hhd'
    · rcases DaNode.handler_step he hi with hsame | ⟨inp, s, hd'', rfl, hstep, hi''⟩
      · obtain rfl := Option.some.inj (hsame.symm.trans hi')
        rw [hnot] at hhd'
        cases hhd'
      · obtain rfl := Option.some.inj (hi''.symm.trans hi')
        obtain ⟨rfl, blob, hfound⟩ := hserves.found hnot hstep hhd'
        obtain ⟨blobId, row, hparse, hrow, hlive, -⟩ := handleFetch_eq_fetchMark hfound
        obtain rfl := Option.some.inj (u.parse_toString.symm.trans hparse)
        obtain ⟨hmem, hid⟩ := Table.lookup_eq_some_iff.1 hrow
        exact ⟨k, by rw [hi, hcaller], hcarries, row, hmem, hid, hlive⟩
  · obtain rfl := Option.some.inj (hi.symm.trans hi')
    cases hhd'

end

/-! ## A network as a store -/

theorem BlobRow.Shows.unique {platform : Platform} {row : BlobRow} {f g : Facts}
    (hf : row.Shows platform f) (hg : row.Shows platform g) : f = g := by
  obtain ⟨content, metadata, contentType, size, ownerId, publicKey⟩ := f
  obtain ⟨hcontent, hmetadata, htype, hsize, -, howner, hkey⟩ := hf
  have howners := Option.some.inj (howner.symm.trans hg.ownerId)
  simp only at hcontent hmetadata htype hsize howners hkey
  rw [← hcontent, ← hmetadata, ← htype, ← hsize, ← hkey, howners, hg.content, hg.metadata,
    hg.contentType, hg.size, hg.publicKey]

/-- What a step does to the rows of `blobs`. -/
theorem DaNode.rows_step {platform : Platform} {n n' : DaNode} {e : Event}
    (h : n.step platform e = some n') :
    n'.shared.db.blobs.rows = n.shared.db.blobs.rows ∨
    (∃ row, n.write platform e = .insertBlob row ∧
      n'.shared.db.blobs.rows = n.shared.db.blobs.rows ++ [row]) ∨
    ∃ id now, n.write platform e = .setDeletedAt id now ∧
      n'.shared.db.blobs.rows = n.shared.db.blobs.rows.map
        (fun row => if row.id = id then { row with deletedAt := some now } else row) := by
  rw [DaNode.step_shared h]
  rcases hwrite : n.write platform e with _ | row | ⟨id, now⟩ | _ | _ | blobId | _ | _ | _ | _
  case insertBlob =>
    simp only [Write.apply, Write.onDb]
    rcases hinsert : n.shared.db.blobs.insert row with _ | blobs
    · exact Or.inl rfl
    · exact Or.inr (Or.inl ⟨row, rfl, Table.rows_of_insert hinsert⟩)
  case setDeletedAt =>
    refine Or.inr (Or.inr ⟨id, now, rfl, ?_⟩)
    simp only [Write.apply, Write.onDb, Db.setDeletedAt, Table.rows_update, decide_eq_true_eq]
  case insertPending =>
    rw [Write.apply, Write.onDb_insertPending]
    exact Or.inl rfl
  all_goals exact Or.inl rfl

section

variable {ι : Type}

/-- The rows of the nodes are those of the store: the id of the row where a blob was added is the
    bytes of its UUID, and that of a copy is not. -/
structure RowsShow (platform : Platform) (nodes : ι → DaNode) (r : Replication ι Uuid Facts) :
    Prop where
  origin : ∀ i u f, r.origin u = some (i, f) ↔
    ∃ row ∈ (nodes i).shared.db.blobs.rows, row.id = u.cell ∧ row.Shows platform f
  withdrawn : ∀ u, u ∈ r.withdrawn ↔
    ∃ i, ∃ row ∈ (nodes i).shared.db.blobs.rows, row.id = u.cell ∧ row.live = false
  copied : ∀ i u, (i, u) ∈ r.copied ↔
    ∃ row ∈ (nodes i).shared.db.blobs.rows, row.id ≠ u.cell ∧ row.id.denotes = some u
  known : ∀ i, ∀ row ∈ (nodes i).shared.db.blobs.rows,
    ∃ u j f, row.id.denotes = some u ∧ r.origin u = some (j, f) ∧ row.Shows platform f

/-- The network is in this state of the store. Nobody but the origin of a blob offers it. -/
structure Represents (platform : Platform) (net : Network ι) (r : Replication ι Uuid Facts) : Prop
    extends RowsShow platform net.nodes r where
  offered : ∀ i u, (i, u) ∈ r.offered ↔ net.Offers i u
  offerer : ∀ i j u, net.OffersAt i j u → ∃ f, r.origin u = some (i, f)

section

variable {platform : Platform} {nodes nodes' : ι → DaNode} {r : Replication ι Uuid Facts} {i : ι}

theorem RowsShow.congr (h : RowsShow platform nodes r)
    (hrows : ∀ j, (nodes' j).shared.db.blobs.rows = (nodes j).shared.db.blobs.rows) :
    RowsShow platform nodes' r := by
  refine ⟨?_, ?_, ?_, ?_⟩ <;> simp only [hrows]
  exacts [h.origin, h.withdrawn, h.copied, h.known]

/-- The origin of a blob is where the row with the bytes of its UUID is. -/
theorem RowsShow.origin_of_mem (h : RowsShow platform nodes r) {row : BlobRow} {u : Uuid}
    (hrow : row ∈ (nodes i).shared.db.blobs.rows) (hid : row.id = u.cell) :
    ∃ f, r.origin u = some (i, f) ∧ row.Shows platform f := by
  obtain ⟨v, j, f, hdenotes, -, hshows⟩ := h.known i row hrow
  obtain rfl : u = v := by simpa [hid] using hdenotes
  exact ⟨f, (h.origin i u f).2 ⟨row, hrow, hid, hshows⟩, hshows⟩

/-- `add_blob` inserts its row. -/
theorem RowsShow.put (h : RowsShow platform nodes r) {row : BlobRow} {u : Uuid} {f : Facts}
    (hmem : ∀ j row', row' ∈ (nodes' j).shared.db.blobs.rows ↔
      row' ∈ (nodes j).shared.db.blobs.rows ∨ j = i ∧ row' = row)
    (hfresh : r.origin u = none) (hid : row.id = u.cell) (hlive : row.live = true)
    (hshows : row.Shows platform f) :
    RowsShow platform nodes' { r with origin := Function.update r.origin u (some (i, f)) } where
  origin j v g := by
    by_cases hv : v = u
    · subst hv
      simp only [Function.update_self, Option.some.injEq, Prod.mk.injEq, hmem]
      constructor
      · rintro ⟨rfl, rfl⟩
        exact ⟨row, Or.inr ⟨rfl, rfl⟩, hid, hshows⟩
      · rintro ⟨row', hold | ⟨rfl, rfl⟩, hid', hshows'⟩
        · obtain ⟨g', horigin, -⟩ := h.origin_of_mem hold hid'
          rw [hfresh] at horigin
          cases horigin
        · exact ⟨rfl, hshows.unique hshows'⟩
    · simp only [Function.update_of_ne hv, h.origin, hmem]
      constructor
      · rintro ⟨row', hold, hrest⟩
        exact ⟨row', Or.inl hold, hrest⟩
      · rintro ⟨row', hold | ⟨rfl, rfl⟩, hid', hshows'⟩
        · exact ⟨row', hold, hid', hshows'⟩
        · exact absurd (Uuid.cell_inj.1 (hid'.symm.trans hid)) hv
  withdrawn v := by
    simp only [h.withdrawn, hmem]
    constructor
    · rintro ⟨j, row', hold, hrest⟩
      exact ⟨j, row', Or.inl hold, hrest⟩
    · rintro ⟨j, row', hold | ⟨rfl, rfl⟩, hid', hdead⟩
      · exact ⟨j, row', hold, hid', hdead⟩
      · rw [hlive] at hdead
        cases hdead
  copied j v := by
    simp only [h.copied, hmem]
    constructor
    · rintro ⟨row', hold, hrest⟩
      exact ⟨row', Or.inl hold, hrest⟩
    · rintro ⟨row', hold | ⟨rfl, rfl⟩, hne, hdenotes⟩
      · exact ⟨row', hold, hne, hdenotes⟩
      · rw [hid, Uuid.denotes_cell, Option.some.injEq] at hdenotes
        exact absurd (hdenotes ▸ hid) hne
  known j row' hrow' := by
    rcases (hmem j row').1 hrow' with hold | ⟨rfl, rfl⟩
    · obtain ⟨v, k, g, hdenotes, horigin, hshows'⟩ := h.known j row' hold
      refine ⟨v, k, g, hdenotes, ?_, hshows'⟩
      have hv : v ≠ u := by
        rintro rfl
        rw [hfresh] at horigin
        cases horigin
      exact (Function.update_of_ne hv _ _).trans horigin
    · exact ⟨u, j, f, by rw [hid, Uuid.denotes_cell], Function.update_self _ _ _, hshows⟩

/-- `store_received_blob` inserts a row. -/
theorem RowsShow.copy (h : RowsShow platform nodes r) {row : BlobRow} {s : String} {u : Uuid}
    {j : ι} {f : Facts}
    (hmem : ∀ j row', row' ∈ (nodes' j).shared.db.blobs.rows ↔
      row' ∈ (nodes j).shared.db.blobs.rows ∨ j = i ∧ row' = row)
    (hid : row.id = .text s) (hdenotes : row.id.denotes = some u)
    (horigin : r.origin u = some (j, f)) (hshows : row.Shows platform f) :
    RowsShow platform nodes' { r with copied := insert (i, u) r.copied } := by
  have hcell (v : Uuid) : row.id ≠ v.cell := by
    rw [hid]
    exact nofun
  refine ⟨fun k v g => ?_, fun v => ?_, fun k v => ?_, fun k row' hrow' => ?_⟩
  · simp only [h.origin, hmem]
    constructor
    · rintro ⟨row', hold, hrest⟩
      exact ⟨row', Or.inl hold, hrest⟩
    · rintro ⟨row', hold | ⟨rfl, rfl⟩, hid', hshows'⟩
      · exact ⟨row', hold, hid', hshows'⟩
      · exact absurd hid' (hcell v)
  · simp only [h.withdrawn, hmem]
    constructor
    · rintro ⟨k, row', hold, hrest⟩
      exact ⟨k, row', Or.inl hold, hrest⟩
    · rintro ⟨k, row', hold | ⟨rfl, rfl⟩, hid', hdead⟩
      · exact ⟨k, row', hold, hid', hdead⟩
      · exact absurd hid' (hcell v)
  · simp only [Set.mem_insert_iff, Prod.mk.injEq, h.copied, hmem]
    constructor
    · rintro (⟨rfl, rfl⟩ | ⟨row', hold, hrest⟩)
      · exact ⟨row, Or.inr ⟨rfl, rfl⟩, hcell v, hdenotes⟩
      · exact ⟨row', Or.inl hold, hrest⟩
    · rintro ⟨row', hold | ⟨rfl, rfl⟩, hne, hdenotes'⟩
      · exact Or.inr ⟨row', hold, hne, hdenotes'⟩
      · exact Or.inl ⟨rfl, Option.some.inj (hdenotes'.symm.trans hdenotes)⟩
  · rcases (hmem k row').1 hrow' with hold | ⟨rfl, rfl⟩
    · exact h.known k row' hold
    · exact ⟨u, j, f, hdenotes, horigin, hshows⟩

/-- Rows with one id are deleted on a node. -/
theorem RowsShow.delete (h : RowsShow platform nodes r) {id : Cell} {now : Timestamp}
    (hmem : ∀ j row', row' ∈ (nodes' j).shared.db.blobs.rows ↔
      ∃ row ∈ (nodes j).shared.db.blobs.rows,
        row' = row ∧ ¬ (j = i ∧ row.id = id) ∨
          row' = { row with deletedAt := some now } ∧ j = i ∧ row.id = id)
    {withdrawn : Set Uuid}
    (hwithdrawn : ∀ u, u ∈ withdrawn ↔ u ∈ r.withdrawn ∨
      u.cell = id ∧ ∃ row ∈ (nodes i).shared.db.blobs.rows, row.id = id) :
    RowsShow platform nodes' { r with withdrawn } := by
  have hdeleted {row : BlobRow} {f : Facts} :
      BlobRow.Shows platform { row with deletedAt := some now } f ↔ row.Shows platform f :=
    ⟨fun hs => ⟨hs.1, hs.2, hs.3, hs.4, hs.5, hs.6, hs.7⟩,
      fun hs => ⟨hs.1, hs.2, hs.3, hs.4, hs.5, hs.6, hs.7⟩⟩
  -- a property that does not depend on `deleted_at` is one of the old rows
  have hold {P : BlobRow → Prop} (hP : ∀ row, P { row with deletedAt := some now } ↔ P row)
      (j : ι) :
      (∃ row' ∈ (nodes' j).shared.db.blobs.rows, P row') ↔
        ∃ row ∈ (nodes j).shared.db.blobs.rows, P row := by
    simp only [hmem]
    constructor
    · rintro ⟨row', ⟨row, hrow, ⟨rfl, -⟩ | ⟨rfl, -, -⟩⟩, hp⟩
      · exact ⟨row', hrow, hp⟩
      · exact ⟨row, hrow, (hP row).1 hp⟩
    · rintro ⟨row, hrow, hp⟩
      by_cases hid : j = i ∧ row.id = id
      · exact ⟨_, ⟨row, hrow, Or.inr ⟨rfl, hid⟩⟩, (hP row).2 hp⟩
      · exact ⟨row, ⟨row, hrow, Or.inl ⟨rfl, hid⟩⟩, hp⟩
  refine ⟨fun k v g => ?_, fun v => ?_, fun k v => ?_, fun k row' hrow' => ?_⟩
  · rw [hold (P := fun row => row.id = v.cell ∧ row.Shows platform g)
      (fun row => and_congr_right fun _ => hdeleted), h.origin]
  · rw [hwithdrawn, h.withdrawn]
    simp only [hmem]
    constructor
    · rintro (⟨k, row, hrow, hid, hdead⟩ | ⟨rfl, row, hrow, hid⟩)
      · by_cases hhit : k = i ∧ row.id = id
        · exact ⟨k, _, ⟨row, hrow, Or.inr ⟨rfl, hhit⟩⟩, hid, rfl⟩
        · exact ⟨k, row, ⟨row, hrow, Or.inl ⟨rfl, hhit⟩⟩, hid, hdead⟩
      · exact ⟨i, _, ⟨row, hrow, Or.inr ⟨rfl, rfl, hid⟩⟩, hid, rfl⟩
    · rintro ⟨k, row', ⟨row, hrow, ⟨rfl, -⟩ | ⟨rfl, rfl, hhit⟩⟩, hid, hdead⟩
      · exact Or.inl ⟨k, row', hrow, hid, hdead⟩
      · exact Or.inr ⟨hid.symm.trans hhit, row, hrow, hhit⟩
  · rw [hold (P := fun row => row.id ≠ v.cell ∧ row.id.denotes = some v) (fun _ => Iff.rfl),
      h.copied]
  · obtain ⟨row, hrow, ⟨rfl, -⟩ | ⟨rfl, -, -⟩⟩ := (hmem k row').1 hrow'
    · exact h.known k row' hrow
    · obtain ⟨v, j, f, hdenotes, horigin, hshows⟩ := h.known k row hrow
      exact ⟨v, j, f, hdenotes, horigin, hdeleted.2 hshows⟩

/-- A network is in one state of the store at most. -/
theorem Represents.unique {net : Network ι} {r r' : Replication ι Uuid Facts}
    (h : Represents platform net r) (h' : Represents platform net r') : r = r' := by
  ext u
  · rw [h.origin, h'.origin]
  · rw [h.withdrawn, h'.withdrawn]
  · rw [h.offered, h'.offered]
  · rw [h.copied, h'.copied]

end

/-! ## A step of the network is one of the store -/

variable [DecidableEq ι] {platform : Platform} {d : Deployment ι} {net net' : Network ι}
  {l : Label ι} {r : Replication ι Uuid Facts}

/-- A step makes one offer at most. -/
theorem Network.OffersAt.unique (hnet : Linked d net) (h : net.step platform d l = some net')
    {i i' j j' : ι} {u u' : Uuid} (hoffers : net'.OffersAt i j u) (hnew : ¬ net.OffersAt i j u)
    (hoffers' : net'.OffersAt i' j' u') (hnew' : ¬ net.OffersAt i' j' u') :
    i' = i ∧ j' = j ∧ u' = u := by
  -- the handler that finds a blob is the one that takes the step
  have hevent {i j : ι} {u : Uuid} (hoffers : net'.OffersAt i j u) (hnew : ¬ net.OffersAt i j u)
      {i₀ : ι} {e : Event} {n : DaNode} (he : (net.nodes i₀).step platform e = some n)
      (hnodes : net'.nodes = Function.update net.nodes i₀ n) :
      i = i₀ ∧ ∃ k inp, e = .handler k inp ∧ (net.nodes i).handlers[k]? = some (.sync (some
        (.fetch ⟨u.toString, (d.config j).nodeId, true⟩))) := by
    obtain ⟨k, hk, hcarries, -⟩ := hoffers.new hnet h hnew
    have hi : i = i₀ := by
      by_contra hne
      rw [hnodes, Function.update_of_ne hne, hk] at hcarries
      cases hcarries
    subst hi
    rw [hnodes, Function.update_self] at hcarries
    rcases DaNode.handler_step he hk with hsame | ⟨inp, s, hd', rfl, -, -⟩
    · rw [hsame] at hcarries
      cases hcarries
    · exact ⟨rfl, k, inp, rfl, hk⟩
  rcases Network.nodes_step h with hsame | ⟨i₀, e, n, he, hnodes, -⟩
  · obtain ⟨k, hk, hcarries, -⟩ := hoffers.new hnet h hnew
    rw [hsame, hk] at hcarries
    cases hcarries
  · obtain ⟨rfl, k, inp, hk, hi⟩ := hevent hoffers hnew he hnodes
    obtain ⟨rfl, k', inp', hk', hi'⟩ := hevent hoffers' hnew' he hnodes
    rw [hk, Event.handler.injEq] at hk'
    rw [← hk'.1, hi] at hi'
    simp only [Option.some.injEq, Handler.sync.injEq, RequestType.fetch.injEq,
      FetchBlobRequest.mk.injEq, and_true] at hi'
    refine ⟨rfl, (d.nodeId_injective hi'.2).symm, ?_⟩
    have hparse := u.parse_toString
    rw [hi'.1, Uuid.parse_toString] at hparse
    exact Option.some.inj hparse

/-- The offers of a step are offers of the store. -/
theorem Represents.offers_step (hrep : Represents platform net r) (hnet : Linked d net)
    (h : net.step platform d l = some net') :
    ∃ r', r.Leads r' ∧ RowsShow platform net.nodes r' ∧
      (∀ i u, (i, u) ∈ r'.offered ↔ net'.Offers i u) ∧
      ∀ i j u, net'.OffersAt i j u → ∃ f, r'.origin u = some (i, f) := by
  by_cases hnew : ∃ i j u, net'.OffersAt i j u ∧ ¬ net.OffersAt i j u
  · obtain ⟨i, j, u, hoffers, hnew⟩ := hnew
    obtain ⟨k, -, -, row, hrow, hid, hlive⟩ := hoffers.new hnet h hnew
    obtain ⟨f, horigin, -⟩ := hrep.origin_of_mem hrow hid
    have hthere : u ∉ r.withdrawn := by
      intro hwithdrawn
      obtain ⟨i', row', hrow', hid', hdead⟩ := (hrep.withdrawn u).1 hwithdrawn
      obtain ⟨f', horigin', -⟩ := hrep.origin_of_mem hrow' hid'
      obtain ⟨rfl, -⟩ := Prod.mk.inj (Option.some.inj (horigin.symm.trans horigin'))
      obtain rfl := Table.eq_of_mem hrow hrow' (hid.trans hid'.symm)
      rw [hlive] at hdead
      cases hdead
    refine ⟨_, .single (.offer j u (by rw [horigin]; rfl) hthere),
      ⟨hrep.origin, hrep.withdrawn, hrep.copied, hrep.known⟩, fun j' u' => ?_,
      fun i' j' u' hoffers' => ?_⟩
    · rw [Set.mem_insert_iff, hrep.offered, Prod.mk.injEq]
      constructor
      · rintro (⟨rfl, rfl⟩ | ⟨i', hold⟩)
        · exact ⟨i, hoffers⟩
        · exact ⟨i', hold.step h⟩
      · rintro ⟨i', hoffers'⟩
        by_cases hold : net.OffersAt i' j' u'
        · exact Or.inr ⟨i', hold⟩
        · exact Or.inl (Network.OffersAt.unique hnet h hoffers hnew hoffers' hold).2
    · by_cases hold : net.OffersAt i' j' u'
      · exact hrep.offerer i' j' u' hold
      · obtain ⟨rfl, rfl, rfl⟩ := Network.OffersAt.unique hnet h hoffers hnew hoffers' hold
        exact ⟨f, horigin⟩
  · have hsame (i j : ι) (u : Uuid) : net'.OffersAt i j u ↔ net.OffersAt i j u := by
      refine ⟨fun hoffers => ?_, fun hold => hold.step h⟩
      by_contra hold
      exact hnew ⟨i, j, u, hoffers, hold⟩
    refine ⟨r, .refl, hrep.toRowsShow, fun i u => ?_, fun i j u hoffers => ?_⟩
    · rw [hrep.offered]
      exact exists_congr fun i' => (hsame i' i u).symm
    · exact hrep.offerer i j u ((hsame i j u).1 hoffers)

/-- The rows that a step writes are a put, a copy or a withdrawal of the store. -/
theorem RowsShow.step (hrows : RowsShow platform net.nodes r) (hr : r.Sound) (hnet : Linked d net)
    {origin origin' : Registry Uuid Facts} (hsound : SoundNetwork platform origin net)
    (hsound' : SoundNetwork platform origin' net')
    (htasks : ∀ i, ∀ t ∈ (net.nodes i).tasks, t.storing = true → (i, t.blobId) ∈ r.offered)
    (h : net.step platform d l = some net') :
    ∃ r', r.Leads r' ∧ r'.offered = r.offered ∧ RowsShow platform net'.nodes r' := by
  rcases Network.nodes_step h with hsame | ⟨i, e, n, he, hnodes, hoccurs⟩
  · exact ⟨r, .refl, rfl, hsame ▸ hrows⟩
  have hother {j : ι} (hj : j ≠ i) : net'.nodes j = net.nodes j := by
    rw [hnodes, Function.update_of_ne hj]
  have hself : net'.nodes i = n := by rw [hnodes, Function.update_self]
  rcases DaNode.rows_step he with hsame | ⟨row, hwrite, hinsert⟩ | ⟨id, now, hwrite, hdelete⟩
  · refine ⟨r, .refl, rfl, hrows.congr fun j => ?_⟩
    by_cases hj : j = i
    · subst hj
      rw [hself, hsame]
    · rw [hother hj]
  · have hmem (j : ι) (row' : BlobRow) : row' ∈ (net'.nodes j).shared.db.blobs.rows ↔
        row' ∈ (net.nodes j).shared.db.blobs.rows ∨ j = i ∧ row' = row := by
      by_cases hj : j = i
      · subst hj
        simp [hself, hinsert]
      · simp [hother hj, hj]
    rcases DaNode.write_eq_insertBlob.1 hwrite with
      ⟨k, inp, t, peerId, metadata, protoBlob, now, rfl, hk, hpc, rfl⟩ |
      ⟨k, inp, currentUser, blobInput, rfl, hk, hadd⟩
    · -- the copy and the row of the origin agree with the registry
      have ht := List.mem_of_getElem? hk
      have hparse := ((hnet.tasks i t ht).store _ _ _ _ hpc).1
      have hoffered := htasks i t ht (FetchTask.storing_eq_true_iff.2 ⟨_, _, _, _, hpc⟩)
      obtain ⟨⟨j, f⟩, horigin⟩ := Option.isSome_iff_exists.1 (hr.offered i t.blobId hoffered)
      obtain ⟨row, hrow, hid, hshows⟩ := (hrows.origin j t.blobId f).1 horigin
      obtain ⟨u, g, hu, hknows, hshows₁⟩ :=
        (hsound'.nodes j).rows row ((hmem j row).2 (Or.inl hrow))
      obtain ⟨v, g', hv, hknows', hshows'⟩ :=
        (hsound'.nodes i).rows _ ((hmem i _).2 (Or.inr ⟨rfl, rfl⟩))
      obtain rfl : t.blobId = u := by simpa [hid] using hu
      obtain rfl : t.blobId = v := Option.some.inj (hparse.symm.trans hv)
      obtain rfl := hknows.unique hknows'
      obtain rfl := hshows.unique hshows₁
      exact ⟨_, .single (.copy i t.blobId hoffered), rfl,
        hrows.copy hmem rfl hparse horigin hshows'⟩
    · -- the UUID has just been drawn
      obtain ⟨user, content, key, -, rfl⟩ := addBlobRow_eq_some hadd
      have hl : l = .node i (.mutation k inp) :=
        hoccurs.eq_node (by simp) fun client _ _ => by cases client <;> simp [Client.event]
      subst hl
      obtain ⟨-, hdrawn, -⟩ := Network.step_node_eq_some.1 h
      have hfresh : r.origin inp.newV4 = none := by
        by_contra hsome
        obtain ⟨⟨j, f⟩, horigin⟩ := Option.ne_none_iff_exists'.1 hsome
        obtain ⟨row, hrow, hid, -⟩ := (hrows.origin j _ f).1 horigin
        obtain ⟨u, g, hu, hknows, -⟩ := (hsound.nodes j).rows row hrow
        obtain rfl : inp.newV4 = u := by simpa [hid] using hu
        exact hdrawn inp.newV4 (by simp [DaNode.draws, hk]) (hsound.drawn _ g hknows)
      exact ⟨_, .single (.put i inp.newV4 _ hfresh), rfl,
        hrows.put hmem hfresh rfl rfl (addedRow_shows ..)⟩
  · have hmem (j : ι) (row' : BlobRow) : row' ∈ (net'.nodes j).shared.db.blobs.rows ↔
        ∃ row ∈ (net.nodes j).shared.db.blobs.rows, row' = row ∧ ¬ (j = i ∧ row.id = id) ∨
          row' = { row with deletedAt := some now } ∧ j = i ∧ row.id = id := by
      by_cases hj : j = i
      · subst hj
        rw [hself, hdelete, List.mem_map]
        refine exists_congr fun row => and_congr_right fun _ => ?_
        by_cases hid : row.id = id <;> simp [hid, eq_comm]
      · simp [hother hj, hj]
    by_cases hhit : ∃ u : Uuid, u.cell = id ∧
        ∃ row ∈ (net.nodes i).shared.db.blobs.rows, row.id = id
    · obtain ⟨u, rfl, row, hrow, hid⟩ := hhit
      obtain ⟨f, horigin, -⟩ := hrows.origin_of_mem hrow hid
      refine ⟨_, .single (.withdraw u (by rw [horigin]; rfl)), rfl, hrows.delete hmem fun v => ?_⟩
      rw [Set.mem_insert_iff, or_comm, Uuid.cell_inj]
      exact or_congr_right ⟨fun hv => ⟨hv, row, hrow, hid⟩, fun hv => hv.1⟩
    · refine ⟨r, .refl, rfl, hrows.delete hmem fun v => ?_⟩
      exact ⟨Or.inl, fun hv => hv.resolve_right fun hv => hhit ⟨v, hv⟩⟩

/-- A task that comes to the INSERT has been offered its blob. -/
theorem Network.offers_of_storing (h : net.step platform d l = some net') {i : ι} {t' : FetchTask}
    (ht' : t' ∈ (net'.nodes i).tasks) (hstoring : t'.storing = true) :
    t' ∈ (net.nodes i).tasks ∨ net.Offers i t'.blobId := by
  have hupdate {j : ι} {e : Event} {n : DaNode} (hn : (net.nodes j).step platform e = some n)
      (hmem : t' ∈ (Function.update net.nodes j n i).tasks)
      (hoffers : ∀ k inp t peerId client rest protoBlob, e = .task k inp →
        (net.nodes j).tasks[k]? = some t → t.pc = .awaitReply peerId client rest →
        PeerClient.fetchBlob inp.reply = .ok (some protoBlob) → net.Offers j t.blobId) :
      t' ∈ (net.nodes i).tasks ∨ net.Offers i t'.blobId := by
    by_cases hij : i = j
    · subst hij
      rw [Function.update_self] at hmem
      rcases DaNode.mem_tasks_step hn hmem with hold | ⟨job, -, rfl⟩ | ⟨t, ht, heq, hfail | hgo⟩
      · exact Or.inl hold
      · cases hstoring
      · rw [FetchTask.storing, FetchTask.fail_eq_some hfail] at hstoring
        cases hstoring
      · obtain ⟨k, inp, s, rfl, hk, hstep⟩ := hgo
        obtain ⟨peerId, metadata, protoBlob, now, hpc⟩ := FetchTask.storing_eq_true_iff.1 hstoring
        rw [hpc] at hstep
        obtain ⟨client, rest, hawait, hfetch, -⟩ := FetchTask.step_to_store hstep
        rw [heq]
        exact Or.inr (hoffers k inp t peerId client rest protoBlob rfl hk hawait hfetch)
    · rw [Function.update_of_ne hij] at hmem
      exact Or.inl hmem
  -- a client that gets no reply gets no blob
  have hnone {j : ι} {client : Client} {now : Timestamp} {n : DaNode}
      (hn : (net.nodes j).step platform
        (client.event (net.nodes j) now (.error .unavailable)) = some n)
      (hmem : t' ∈ (Function.update net.nodes j n i).tasks) :
      t' ∈ (net.nodes i).tasks ∨ net.Offers i t'.blobId := by
    refine hupdate hn hmem fun k inp t peerId peer rest protoBlob he hk _ hfetch => ?_
    rw [(Client.eq_of_event_eq_task he hk).2] at hfetch
    cases hfetch
  cases l with
  | node j e =>
      obtain ⟨hinternal, -, n, hn, rfl⟩ := Network.step_node_eq_some.1 h
      refine hupdate hn ht' fun k inp t peerId client rest protoBlob he hk hpc _ => ?_
      subst he
      simp [DaNode.internal, hk, FetchTask.outgoing, hpc] at hinternal
  | other j request =>
      obtain ⟨n, hn, rfl⟩ := Network.step_other_eq_some.1 h
      exact hupdate hn ht' fun _ _ _ _ _ _ _ he => by cases he
  | send j client =>
      obtain ⟨-, peer, request, callee, -, -, rfl⟩ := Network.step_send_eq_some.1 h
      exact Or.inl ht'
  | unsent j client now =>
      obtain ⟨-, -, n, hn, rfl⟩ := Network.step_unsent_eq_some.1 h
      exact hnone hn ht'
  | arrive k again =>
      obtain ⟨c, -, -, n, hn, rfl⟩ := Network.step_arrive_eq_some.1 h
      exact hupdate hn ht' fun _ _ _ _ _ _ _ he => by cases he
  | lose k =>
      obtain ⟨c, -, rfl⟩ := Network.step_lose_eq_some.1 h
      exact Or.inl ht'
  | reply k h' now =>
      obtain ⟨c, reply, hc, -, hmem, hreply, n, hn, rfl⟩ := Network.step_reply_eq_some.1 h
      refine hupdate hn ht' fun m inp t peerId peer rest protoBlob he hm _ hfetch => ?_
      obtain ⟨hclient, hinp⟩ := Client.eq_of_event_eq_task he hm
      rw [hinp] at hfetch
      refine ⟨c.callee, c, List.mem_of_getElem? hc, rfl, rfl, hclient, h', hmem, ?_⟩
      rw [hreply, Option.any_some, Handler.carries]
      · exact Handler.delivers_eq_true_iff.2 ⟨reply, protoBlob, rfl, hfetch⟩
      · intro request blob heq
        cases heq
  | fail k now =>
      obtain ⟨c, -, -, n, hn, rfl⟩ := Network.step_fail_eq_some.1 h
      exact hnone hn ht'

/-- What holds in every network: a task that comes to the INSERT has been offered its blob. -/
structure Spreading (platform : Platform) (d : Deployment ι) (net : Network ι) : Prop where
  wired : Wired d net
  linked : Linked d net
  sound : ∃ origin, SoundNetwork platform origin net
  offered : ∀ i, ∀ t ∈ (net.nodes i).tasks, t.storing = true → net.Offers i t.blobId

omit [DecidableEq ι] in
theorem spreading_start (platform : Platform) (d : Deployment ι) :
    Spreading platform d (Network.start d.toTopology) where
  wired := wired_start d
  linked := linked_start d
  sound := ⟨.empty, soundNetwork_start platform d.toTopology⟩
  offered _ := List.forall_mem_nil _

theorem Spreading.step (hnet : Spreading platform d net) (h : net.step platform d l = some net') :
    Spreading platform d net' where
  wired := wired_step hnet.wired h
  linked := linked_step hnet.wired hnet.linked h
  sound := by
    obtain ⟨origin, hsound⟩ := hnet.sound
    exact soundNetwork_step hsound h
  offered i t ht hstoring := by
    rcases Network.offers_of_storing h ht hstoring with hold | ⟨j, hoffers⟩
    · obtain ⟨j, hoffers⟩ := hnet.offered i t hold hstoring
      exact ⟨j, hoffers.step h⟩
    · exact ⟨j, hoffers.step h⟩

/-- **Every step of a network is a step of the store, a few of them or none.** -/
theorem Represents.step (hrep : Represents platform net r) (hr : r.Sound)
    (hnet : Spreading platform d net) (h : net.step platform d l = some net') :
    ∃ r', r.Leads r' ∧ Represents platform net' r' := by
  obtain ⟨r₁, hleads₁, hrows₁, hoffered₁, hofferer₁⟩ := hrep.offers_step hnet.linked h
  obtain ⟨origin, hsound⟩ := hnet.sound
  obtain ⟨origin', hsound'⟩ := soundNetwork_step hsound h
  have htasks (i : ι) (t : FetchTask) (ht : t ∈ (net.nodes i).tasks) (hstoring : t.storing = true) :
      (i, t.blobId) ∈ r₁.offered := by
    obtain ⟨j, hoffers⟩ := hnet.offered i t ht hstoring
    exact (hoffered₁ i t.blobId).2 ⟨j, hoffers.step h⟩
  obtain ⟨r₂, hleads₂, hsame, hrows₂⟩ :=
    hrows₁.step (hr.leads hleads₁) hnet.linked hsound hsound' htasks h
  refine ⟨r₂, hleads₁.trans hleads₂, hrows₂, fun i u => hsame ▸ hoffered₁ i u,
    fun i j u hoffers => ?_⟩
  obtain ⟨f, horigin⟩ := hofferer₁ i j u hoffers
  exact ⟨f, hleads₂.extends.origin u _ horigin⟩

omit [DecidableEq ι] in
theorem represents_start (platform : Platform) (d : Deployment ι) :
    Represents platform (Network.start d.toTopology) .empty where
  origin _ _ _ := ⟨nofun, fun ⟨_, hrow, _⟩ => absurd hrow List.not_mem_nil⟩
  withdrawn _ := ⟨nofun, fun ⟨_, _, hrow, _⟩ => absurd hrow List.not_mem_nil⟩
  copied _ _ := ⟨nofun, fun ⟨_, hrow, _⟩ => absurd hrow List.not_mem_nil⟩
  known _ := List.forall_mem_nil _
  offered _ _ := ⟨nofun, fun ⟨_, _, hc, _⟩ => absurd hc List.not_mem_nil⟩
  offerer _ _ _ hoffers := by
    obtain ⟨c, hc, -⟩ := hoffers
    cases hc

theorem Represents.exec {ls : List (Label ι)} (hrep : Represents platform net r) (hr : r.Sound)
    (hnet : Spreading platform d net) (h : Run.exec (Network.step platform d) net ls = some net') :
    ∃ r', r.Leads r' ∧ r'.Sound ∧ Spreading platform d net' ∧ Represents platform net' r' := by
  obtain ⟨r', hleads, hrest⟩ := Run.exec_refines (S := Replication.Step)
    (R := fun net r => r.Sound ∧ Spreading platform d net ∧ Represents platform net r)
    (fun net l net' r ⟨hr, hnet, hrep⟩ _ hstep => by
      obtain ⟨r', hleads, hrep'⟩ := hrep.step hr hnet hstep
      exact ⟨r', hleads, hr.leads hleads, hnet.step hstep, hrep'⟩)
    ⟨hr, hnet, hrep⟩ (Run.meets_of_forall (C := fun _ _ => True) (fun _ _ _ => trivial) net) h
  exact ⟨r', hleads, hrest⟩

theorem represents_exec {ls : List (Label ι)}
    (h : Run.exec (Network.step platform d) (.start d) ls = some net) :
    ∃ r, Replication.empty.Leads r ∧ r.Sound ∧ Spreading platform d net ∧
      Represents platform net r :=
  (represents_start platform d).exec Replication.sound_empty (spreading_start platform d) h

end

section

variable {ι : Type} [DecidableEq ι]

/-- **A network is a store**: every state that it reaches is one state of the store, and its runs
    are runs of the store. Its blobs are put where they are added, withdrawn where they are deleted,
    offered to the fetch tasks that ask their origin before that, and copied by those. -/
theorem network_replicates (platform : Platform) (d : Deployment ι) (ls ls' : List (Label ι))
    (net net' : Network ι) (h : Run.exec (Network.step platform d) (.start d) ls = some net)
    (h' : Run.exec (Network.step platform d) net ls' = some net') :
    ∃ r r', Replication.empty.Leads r ∧ r.Leads r' ∧
      (∀ q, Represents platform net q ↔ q = r) ∧ ∀ q, Represents platform net' q ↔ q = r' := by
  obtain ⟨r, hleads, hr, hnet, hrep⟩ := represents_exec h
  obtain ⟨r', hleads', -, -, hrep'⟩ := hrep.exec hr hnet h'
  refine ⟨r, r', hleads, hleads', fun q => ⟨fun hq => hq.unique hrep, ?_⟩,
    fun q => ⟨fun hq => hq.unique hrep', ?_⟩⟩
  · rintro rfl
    exact hrep
  · rintro rfl
    exact hrep'

/-- The first node has found the sample blob for the second, and then its owner deletes it. -/
def Label.sampleWithdraw : List (Label Bool) :=
  List.flatten [
    Label.sampleFetch,
    [.node false (.deleteBlob (some User.sample) (Uuid.sample 2)),
     .node false (.mutation 1 MutationInput.sample),
     .node false (.mutation 1 MutationInput.sample)]]

/-- The second node stores the blob that was on its way. -/
def Label.sampleLateStore : List (Label Bool) :=
  .reply 1 1 0 :: List.replicate 3 (.node true (.task 0 (FetchInput.sampleOf true)))

/-- The blob is withdrawn while it is on its way, and its copy is made all the same. -/
theorem network_replicates_sample :
    ∃ net net' : Network Bool, Run.exec (Network.step Platform.sample Deployment.sample)
      (.start Deployment.sample) Label.sampleWithdraw = some net ∧
      Run.exec (Network.step Platform.sample Deployment.sample) net Label.sampleLateStore
        = some net' ∧
      ∃ r r', Replication.empty.Leads r ∧ r.Leads r' ∧ Represents Platform.sample net r ∧
        Represents Platform.sample net' r' ∧ Uuid.sample 2 ∈ r.withdrawn ∧
        (true, Uuid.sample 2) ∉ r.copied ∧ (true, Uuid.sample 2) ∈ r'.copied := by
  have hrun : (Run.exec (Network.step Platform.sample Deployment.sample)
      (.start Deployment.sample) Label.sampleWithdraw).any (fun net =>
        (∃ row ∈ (net.nodes false).shared.db.blobs.rows, row.id = (Uuid.sample 2).cell ∧
          row.live = false) ∧
        (¬ ∃ row ∈ (net.nodes true).shared.db.blobs.rows, row.id ≠ (Uuid.sample 2).cell ∧
          row.id.denotes = some (Uuid.sample 2)) ∧
        (Run.exec (Network.step Platform.sample Deployment.sample) net
          Label.sampleLateStore).any (fun net' =>
            decide (∃ row ∈ (net'.nodes true).shared.db.blobs.rows, row.id ≠ (Uuid.sample 2).cell ∧
              row.id.denotes = some (Uuid.sample 2))) = true) = true := by decide +kernel
  obtain ⟨net, hnet, hcond⟩ := (Option.any_eq_true _ _).1 hrun
  obtain ⟨hdead, hnone, hlate⟩ := of_decide_eq_true hcond
  obtain ⟨net', hnet', hcopy⟩ := (Option.any_eq_true _ _).1 hlate
  obtain ⟨r, r', hleads, hleads', hrep, hrep'⟩ := network_replicates Platform.sample
    Deployment.sample _ _ net net' hnet hnet'
  have hr := (hrep r).2 rfl
  have hr' := (hrep' r').2 rfl
  exact ⟨net, net', hnet, hnet', r, r', hleads, hleads', hr, hr',
    (hr.withdrawn _).2 ⟨false, hdead⟩, fun hcopied => hnone ((hr.copied true _).1 hcopied),
    (hr'.copied true _).2 (of_decide_eq_true hcopy)⟩

/-- **Blobs are not relayed.** The origin of a blob, the one node with the bytes of its UUID in a
    row, has found every copy for the task that stored it, and no other node finds the blob for
    anyone. -/
theorem copies_from_origin (platform : Platform) (d : Deployment ι) (ls : List (Label ι))
    (net : Network ι) (h : Run.exec (Network.step platform d) (.start d) ls = some net) (j : ι)
    (row : BlobRow) (hrow : row ∈ (net.nodes j).shared.db.blobs.rows) (u : Uuid)
    (hdenotes : row.id.denotes = some u) :
    ∃ i, (∃ row₀ ∈ (net.nodes i).shared.db.blobs.rows, row₀.id = u.cell ∧
        ∀ k, ∀ row' ∈ (net.nodes k).shared.db.blobs.rows, row'.id = u.cell → k = i ∧ row' = row₀) ∧
      (row.id ≠ u.cell → net.OffersAt i j u) ∧ ∀ k k', net.OffersAt k k' u → k = i := by
  obtain ⟨r, -, hr, -, hrep⟩ := represents_exec h
  obtain ⟨v, i, f, hv, horigin, -⟩ := hrep.known j row hrow
  obtain rfl := Option.some.inj (hdenotes.symm.trans hv)
  have hofferer {k k' : ι} (hoffers : net.OffersAt k k' u) : k = i := by
    obtain ⟨g, horigin'⟩ := hrep.offerer k k' u hoffers
    exact (Prod.mk.inj (Option.some.inj (horigin'.symm.trans horigin))).1
  obtain ⟨row₀, hrow₀, hid₀, -⟩ := (hrep.origin i u f).1 horigin
  refine ⟨i, ⟨row₀, hrow₀, hid₀, fun k row' hrow' hid' => ?_⟩, fun hne => ?_, fun k k' => hofferer⟩
  · obtain ⟨g, horigin', -⟩ := hrep.origin_of_mem hrow' hid'
    obtain ⟨rfl, -⟩ := Prod.mk.inj (Option.some.inj (horigin'.symm.trans horigin))
    exact ⟨rfl, Table.eq_of_mem hrow' hrow₀ (hid'.trans hid₀.symm)⟩
  · have hcopied : (j, u) ∈ r.copied := (hrep.copied j u).2 ⟨row, hrow, hne, hdenotes⟩
    obtain ⟨k, hoffers⟩ := (hrep.offered j u).1 (hr.copied hcopied)
    obtain rfl := hofferer hoffers
    exact hoffers

theorem copies_from_origin_sample :
    ∃ net : Network Bool, Run.exec (Network.step Platform.sample Deployment.sample)
      (.start Deployment.sample) Label.sampleStore = some net ∧
      (net.nodes true).Has (Uuid.sample 2) ∧ net.OffersAt false true (Uuid.sample 2) := by
  have hrun : (Run.exec (Network.step Platform.sample Deployment.sample)
      (.start Deployment.sample) Label.sampleStore).any (fun net =>
        (∃ row ∈ (net.nodes true).shared.db.blobs.rows, row.id ≠ (Uuid.sample 2).cell ∧
          row.id.denotes = some (Uuid.sample 2)) ∧
        ∃ row ∈ (net.nodes false).shared.db.blobs.rows, row.id = (Uuid.sample 2).cell) = true := by
    decide +kernel
  obtain ⟨net, hnet, hrows⟩ := (Option.any_eq_true _ _).1 hrun
  obtain ⟨⟨row, hrow, hne, hdenotes⟩, row₀, hrow₀, hid₀⟩ := of_decide_eq_true hrows
  obtain ⟨i, ⟨row₁, -, -, hone⟩, hoffers, -⟩ := copies_from_origin Platform.sample
    Deployment.sample _ net hnet true row hrow (Uuid.sample 2) hdenotes
  obtain rfl := (hone false row₀ hrow₀ hid₀).1
  exact ⟨net, hnet, ⟨row, hrow, hdenotes⟩, hoffers hne⟩

/-- **A deletion ends the spread.** After a blob has been deleted where it was added, only those
    nodes ever have a copy for whose tasks it had been found before. -/
theorem deletion_ends_spread (platform : Platform) (d : Deployment ι) (ls ls' : List (Label ι))
    (net net' : Network ι) (h : Run.exec (Network.step platform d) (.start d) ls = some net)
    (h' : Run.exec (Network.step platform d) net ls' = some net') (i : ι) (row : BlobRow)
    (hrow : row ∈ (net.nodes i).shared.db.blobs.rows) (u : Uuid) (hid : row.id = u.cell)
    (hdeleted : row.live = false) (j : ι) (row' : BlobRow)
    (hrow' : row' ∈ (net'.nodes j).shared.db.blobs.rows) (hdenotes : row'.id.denotes = some u)
    (hcopy : row'.id ≠ u.cell) : net.Offers j u := by
  obtain ⟨r, -, hr, hnet, hrep⟩ := represents_exec h
  obtain ⟨r', hleads, -, -, hrep'⟩ := hrep.exec hr hnet h'
  have hwithdrawn : u ∈ r.withdrawn := (hrep.withdrawn u).2 ⟨i, row, hrow, hid, hdeleted⟩
  have hcopied : (j, u) ∈ r'.copied := (hrep'.copied j u).2 ⟨row', hrow', hcopy, hdenotes⟩
  exact (hrep.offered j u).1 (hleads.copied_of_withdrawn hr hwithdrawn hcopied)

theorem deletion_ends_spread_sample :
    ∃ net net' : Network Bool, Run.exec (Network.step Platform.sample Deployment.sample)
      (.start Deployment.sample) Label.sampleWithdraw = some net ∧
      Run.exec (Network.step Platform.sample Deployment.sample) net Label.sampleLateStore
        = some net' ∧
      ¬ (net.nodes true).Has (Uuid.sample 2) ∧ (net'.nodes true).Has (Uuid.sample 2) ∧
      net.Offers true (Uuid.sample 2) := by
  have hrun : (Run.exec (Network.step Platform.sample Deployment.sample)
      (.start Deployment.sample) Label.sampleWithdraw).any (fun net =>
        (∃ row ∈ (net.nodes false).shared.db.blobs.rows, row.id = (Uuid.sample 2).cell ∧
          row.live = false) ∧ ¬ (net.nodes true).Has (Uuid.sample 2) ∧
        (Run.exec (Network.step Platform.sample Deployment.sample) net
          Label.sampleLateStore).any (fun net' =>
            decide (∃ row ∈ (net'.nodes true).shared.db.blobs.rows, row.id ≠ (Uuid.sample 2).cell ∧
              row.id.denotes = some (Uuid.sample 2))) = true) = true := by decide +kernel
  obtain ⟨net, hnet, hcond⟩ := (Option.any_eq_true _ _).1 hrun
  obtain ⟨⟨row, hrow, hid, hdeleted⟩, hhas, hlate⟩ := of_decide_eq_true hcond
  obtain ⟨net', hnet', hcopied⟩ := (Option.any_eq_true _ _).1 hlate
  obtain ⟨row', hrow', hne, hdenotes⟩ := of_decide_eq_true hcopied
  exact ⟨net, net', hnet, hnet', hhas, ⟨row', hrow', hdenotes⟩,
    deletion_ends_spread Platform.sample Deployment.sample _ _ net net' hnet hnet' false row hrow
      (Uuid.sample 2) hid hdeleted true row' hrow' hdenotes hne⟩

end

end DaConcept.Node
