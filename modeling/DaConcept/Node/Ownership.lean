import DaConcept.Node.Write

set_option autoImplicit false

/-! # Who deletes a blob

`delete_blob` compares the owner of the row with the current user, `handle_delete` compares nothing:
any peer that names the id of a live row has it deleted. The rows that `handle_delete` can name are
those under a text, which are the blobs fetched from peers. -/

namespace DaConcept.Node

/-! ## What a mutation has checked -/

/-- The mutations that are started in a run, in order: the `i`-th is the call that the `i`-th
    mutation of the node serves. -/
def Event.mutations (es : List Event) : List Mutation := es.filterMap Event.mutation?

/-- The mutations of a node serve the calls `started`, and one that comes to the UPDATE of
    `delete_blob` serves the call of the owner of the row. -/
structure DaNode.Authorized (started : List Mutation) (n : DaNode) : Prop where
  length_eq : n.mutations.length = started.length
  called : ∀ (i : Nat) currentUser blobId, n.mutations[i]? = some (.deleteBlob currentUser blobId) →
    started[i]? = some (.deleteBlob currentUser blobId)
  owner : ∀ (i : Nat) blob blobId, n.mutations[i]? = some (.deleteBlobUpdate blob blobId) →
    ∃ user : User, started[i]? = some (.deleteBlob (some user) blobId) ∧
      ∃ row ∈ n.shared.db.blobs.rows, row.id = blobId.cell ∧
        row.ownerId.decodeUuid = some user.id

section

variable {platform : Platform} {n n' : DaNode} {e : Event} {started : List Mutation}

/-- The row of an id keeps its owner. -/
theorem owner_step {id : Cell} {u : Uuid} (h : n.step platform e = some n')
    (hrow : ∃ row ∈ n.shared.db.blobs.rows, row.id = id ∧ row.ownerId.decodeUuid = some u) :
    ∃ row ∈ n'.shared.db.blobs.rows, row.id = id ∧ row.ownerId.decodeUuid = some u := by
  obtain ⟨row, hmem, hid, howner⟩ := hrow
  rw [DaNode.step_shared h]
  rcases Write.blobs_onDb_of_mem (n.write platform e) hmem with hkept | ⟨now, -, hdeleted⟩
  · exact ⟨row, hkept, hid, howner⟩
  · exact ⟨_, hdeleted, hid, howner⟩

theorem authorized_start (config : P2PConfig) (peers : Peers) (db : Db) :
    (DaNode.start config peers db).Authorized [] where
  length_eq := rfl
  called := by simp [DaNode.start]
  owner := by simp [DaNode.start]

theorem authorized_step (hn : n.Authorized started) (h : n.step platform e = some n') :
    n'.Authorized (started ++ e.mutation?.toList) := by
  have hkept {i : Nat} {m : Mutation} (hm : started[i]? = some m) :
      (started ++ e.mutation?.toList)[i]? = some m := by
    rwa [List.getElem?_append_left (List.getElem?_eq_some_iff.1 hm).1]
  refine ⟨?_, ?_, ?_⟩
  · rw [(DaNode.length_step h).2, hn.length_eq, List.length_append]
  · intro i currentUser blobId hi
    rcases DaNode.mutations_step h hi with hold | ⟨hstart, rfl⟩ | ⟨inp, m, s, rfl, -, hstep⟩
    · exact hkept (hn.called i currentUser blobId hold)
    · rw [hn.length_eq, List.getElem?_append_right le_rfl, Nat.sub_self, hstart]
      rfl
    · cases Mutation.next_of_step hstep
  · intro i blob blobId hi
    rcases DaNode.mutations_step h hi with hold | ⟨hstart, rfl⟩ | ⟨inp, m, s, rfl, hm, hstep⟩
    · obtain ⟨user, hcall, hrow⟩ := hn.owner i blob blobId hold
      exact ⟨user, hkept hcall, owner_step h hrow⟩
    · cases e <;> cases hstart
    · cases Mutation.next_of_step hstep with
      | @found user _ _ hfound howner =>
          obtain ⟨row, hrow, -, hid, hdecode⟩ := selectBlob_eq_some_iff.1 hfound
          have hrowOwner := (BlobRow.decode_eq_some hdecode).2.2.1
          rw [howner] at hrowOwner
          exact ⟨user, hkept (hn.called i _ _ hm), owner_step h ⟨row, hrow, hid, hrowOwner⟩⟩

theorem authorized_exec {es : List Event} (hn : n.Authorized started)
    (h : Run.exec (DaNode.step platform) n es = some n') :
    n'.Authorized (started ++ Event.mutations es) :=
  Run.exec_collected (I := fun started n => n.Authorized started)
    (fun _ _ _ _ hn hstep => authorized_step hn hstep) hn h

/-! ## The deletions of a run -/

/-- A step that deletes a live row belongs to a call of `deleteBlob` for its id by its owner. -/
def DeletesAsOwner (started : List Mutation) (n n' : DaNode) (e : Event) : Prop :=
  ∀ row ∈ n.shared.db.blobs.rows, row.live →
    ∀ row' ∈ n'.shared.db.blobs.rows, row'.id = row.id → ¬ row'.live →
      ∃ i inp user blobId, e = .mutation i inp ∧
        started[i]? = some (.deleteBlob (some user) blobId) ∧ row.id = blobId.cell ∧
        row.ownerId.decodeUuid = some user.id

/-- `handle_delete` comes to the UPDATE of a row that is live. -/
def DaNode.PeerDeletes (n : DaNode) : Event → Prop
  | .handler i _ => ∃ blobId, n.handlers[i]? = some (.deleteMark blobId) ∧
      ∃ row ∈ n.shared.db.blobs.rows, row.id = .text blobId ∧ row.live
  | _ => False

/-- A live row that a step deletes is named by the write of the step. -/
theorem write_of_deleted {row row' : BlobRow} (h : n.step platform e = some n')
    (hrow : row ∈ n.shared.db.blobs.rows) (hlive : row.live)
    (hrow' : row' ∈ n'.shared.db.blobs.rows) (hid : row'.id = row.id) (hdead : ¬ row'.live) :
    ∃ now, n.write platform e = .setDeletedAt row.id now := by
  rw [DaNode.step_shared h] at hrow'
  rcases Write.mem_blobs_onDb hrow' with hold | ⟨-, hfresh⟩ | ⟨now, old, hwrite, hold, rfl⟩
  · rw [Table.eq_of_mem hold hrow hid] at hdead
    exact absurd hlive hdead
  · rw [hid, Table.mem_rows_iff.1 hrow] at hfresh
    cases hfresh
  · exact ⟨now, by rw [hwrite]; exact congrArg (Write.setDeletedAt · now) hid⟩

/-- A step deletes as an owner does exactly if it is not a peer's deletion. -/
theorem deletesAsOwner_iff (hn : n.Authorized started) (h : n.step platform e = some n') :
    DeletesAsOwner started n n' e ↔ ¬ n.PeerDeletes e := by
  constructor
  · intro howner hpeer
    cases e with
    | handler i inp =>
        obtain ⟨blobId, hi, row, hrow, hid, hlive⟩ := hpeer
        have hwrite : n.write platform (.handler i inp) = .setDeletedAt (.text blobId) inp.now := by
          simp only [DaNode.write, hi, Option.elim_some, Handler.write]
        have hdeleted : { row with deletedAt := some inp.now } ∈ n'.shared.db.blobs.rows := by
          rw [DaNode.step_shared h, hwrite]
          simp only [Write.apply, Write.onDb, Db.setDeletedAt, Table.rows_update, List.mem_map]
          exact ⟨row, hrow, by simp [hid]⟩
        obtain ⟨_, _, _, _, hmutation, -⟩ :=
          howner row hrow hlive _ hdeleted rfl (by simp [BlobRow.live])
        cases hmutation
    | _ => exact hpeer
  · intro hpeer row hrow hlive row' hrow' hid hdead
    obtain ⟨now, hwrite⟩ := write_of_deleted h hrow hlive hrow' hid hdead
    rcases DaNode.write_eq_setDeletedAt hwrite with ⟨i, inp, s, rfl, hi, htext⟩ |
      ⟨i, inp, blob, blobId, rfl, hi, hbytes⟩
    · exact absurd ⟨s, hi, row, hrow, htext, hlive⟩ hpeer
    · obtain ⟨user, hcall, own, hown, hownId, howner⟩ := hn.owner i blob blobId hi
      rw [Table.eq_of_mem hown hrow (hownId.trans hbytes.symm)] at howner
      exact ⟨i, inp, user, blobId, rfl, hcall, hbytes, howner⟩

/-- **Only the owner deletes, unless a peer does.** Every deletion of a run is a call of
    `deleteBlob` by the owner of the row exactly if `handle_delete` never comes to a live row. -/
theorem deletions_by_owner_iff (platform : Platform) (config : P2PConfig) (peers : Peers) (db : Db)
    (es : List Event) :
    (∀ es₁ e es₂ n n', es = es₁ ++ e :: es₂ →
      Run.exec (DaNode.step platform) (DaNode.start config peers db) es₁ = some n →
      n.step platform e = some n' → DeletesAsOwner (Event.mutations es₁) n n' e) ↔
    Run.Meets (DaNode.step platform)
      (fun n e => (n.step platform e).isSome → ¬ n.PeerDeletes e)
      (DaNode.start config peers db) es := by
  rw [Run.meets_iff]
  constructor
  · intro howner es₁ e es₂ n hes hrun hsome
    obtain ⟨n', hstep⟩ := Option.isSome_iff_exists.1 hsome
    have hn := authorized_exec (authorized_start config peers db) hrun
    exact (deletesAsOwner_iff hn hstep).1 (howner es₁ e es₂ n n' hes hrun hstep)
  · intro hmeets es₁ e es₂ n n' hes hrun hstep
    have hn := authorized_exec (authorized_start config peers db) hrun
    exact (deletesAsOwner_iff hn hstep).2 (hmeets es₁ e es₂ n hes hrun (by rw [hstep]; rfl))

end

/-- The sample node stores the blob of its peer, and a peer asks for its deletion. -/
def Event.samplePeerDelete : List Event :=
  Event.sampleReceive (.ok SyncResponse.sample) ++
    [.task 0 (FetchInput.sample (.ok SyncResponse.sample)),
     .request (some (.delete (Uuid.sample 2).toString)), .handler 2 HandlerInput.sample]

/-- The peer's request deletes the blob, which belongs to another node's user. -/
theorem peer_deletes :
    ∃ n n' : DaNode,
      Run.exec (DaNode.step Platform.sample) DaNode.sample Event.samplePeerDelete = some n ∧
      n.step Platform.sample (.handler 2 HandlerInput.sample) = some n' ∧
      ¬ DeletesAsOwner (Event.mutations Event.samplePeerDelete) n n'
        (.handler 2 HandlerInput.sample) := by
  have hrun : (Run.exec (DaNode.step Platform.sample) DaNode.sample Event.samplePeerDelete).any
      (fun n => (n.step Platform.sample (.handler 2 HandlerInput.sample)).any (fun n' =>
        ∃ row ∈ n.shared.db.blobs.rows, row.live ∧
          ∃ row' ∈ n'.shared.db.blobs.rows, row'.id = row.id ∧ ¬ row'.live)) = true := by
    decide +kernel
  obtain ⟨n, hn, hany⟩ := (Option.any_eq_true _ _).1 hrun
  obtain ⟨n', hn', hcond⟩ := (Option.any_eq_true _ _).1 hany
  obtain ⟨row, hrow, hlive, row', hrow', hid, hdead⟩ := of_decide_eq_true hcond
  refine ⟨n, n', hn, hn', fun howner => ?_⟩
  obtain ⟨_, _, _, _, hmutation, -⟩ := howner row hrow hlive row' hrow' hid hdead
  cases hmutation

end DaConcept.Node
