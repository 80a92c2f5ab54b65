import DaConcept.Node.Write

set_option autoImplicit false

/-! # Completed stays completed

Six places write `sync_status`. Three of them write over a completed row: a fetch task that tries
a peer or finds the blob stored already, a fetch task that records a failure, and the announcer,
whose update comes after the peer's reply and may come after the peer has fetched the blob. A
completed row stays completed exactly as long as none of these meets it. -/

namespace DaConcept.Node

/-- The row of `sync_status` for the blob and the peer is there, and completed. -/
def DaNode.Completed (n : DaNode) (blobId : Uuid) (peerId : String) : Prop :=
  n.shared.db.status blobId peerId = some .completed

instance (n : DaNode) (blobId : Uuid) (peerId : String) : Decidable (n.Completed blobId peerId) :=
  inferInstanceAs (Decidable (_ = _))

/-- A fetch task for the blob comes to `start_blob_sync_with_peer` or to
    `set_blob_status_as_failed` for the peer, or the announcer comes to
    `set_blob_status_as_pending` for both. -/
def DaNode.Overwrites (n : DaNode) (blobId : Uuid) (peerId : String) : Event → Prop
  | .task i _ => ∃ t, n.tasks[i]? = some t ∧ t.blobId = blobId ∧
      ((∃ client rest, t.pc = .markPeers ((peerId, client) :: rest)) ∨
       (∃ client rest, t.pc = .tryPeer ((peerId, client) :: rest)) ∨
       ∃ rest, t.pc = .markFailed peerId rest)
  | .loop _ => ∃ peers blob pending blobs,
      n.loop = .markPending peers blob peerId pending blobs ∧ blob.id = blobId
  | _ => False

/-- A write that leaves a row that is not completed in place of a completed one. -/
def Write.Demotes (blobId : Uuid) (peerId : String) : Write → Prop
  | .startSync _ b p => b = blobId ∧ p = peerId
  | .setStatus b p status _ _ => b = blobId ∧ p = peerId ∧ status ≠ .completed
  | _ => False

theorem Write.status_onDb_of_completed {w : Write} {db : Db} {blobId : Uuid} {peerId : String}
    (h : db.status blobId peerId = some .completed) :
    (w.onDb db).status blobId peerId = some .completed ↔ ¬ w.Demotes blobId peerId := by
  rw [Write.status_onDb]
  cases w with
  | startSync now b p =>
      by_cases hbp : b = blobId ∧ p = peerId <;> simp [Write.Demotes, hbp, h]
  | setStatus b p status attempt success =>
      simp only [Write.Demotes]
      by_cases hbp : b = blobId ∧ p = peerId
      · simp [hbp, h]
      · simp only [if_neg hbp, h, true_iff]
        exact fun ⟨hb, hp, _⟩ => hbp ⟨hb, hp⟩
  | _ => simp [Write.Demotes, h]

/-- A write that completes a row is an update to completed. -/
theorem Write.completes {w : Write} {db : Db} {blobId : Uuid} {peerId : String}
    (hbefore : db.status blobId peerId ≠ some .completed)
    (hafter : (w.onDb db).status blobId peerId = some .completed) :
    ∃ attempt success, w = .setStatus blobId peerId .completed attempt success := by
  rw [Write.status_onDb] at hafter
  cases w with
  | startSync now b p =>
      by_cases hbp : b = blobId ∧ p = peerId
      · simp [hbp] at hafter
      · simp only [if_neg hbp] at hafter
        exact absurd hafter hbefore
  | setStatus b p status attempt success =>
      by_cases hbp : b = blobId ∧ p = peerId
      · obtain ⟨rfl, rfl⟩ := hbp
        simp only [and_self, if_true, Option.map_eq_some_iff] at hafter
        obtain ⟨_, -, rfl⟩ := hafter
        exact ⟨attempt, success, rfl⟩
      · simp only [if_neg hbp] at hafter
        exact absurd hafter hbefore
  | _ => exact absurd hafter hbefore

section

variable {platform : Platform} {n n' : DaNode} {e : Event} {blobId : Uuid} {peerId : String}

theorem FetchTask.demotes_write {t : FetchTask} {inp : FetchInput} :
    (t.write platform inp).Demotes blobId peerId ↔ t.blobId = blobId ∧
      ((∃ client rest, t.pc = .markPeers ((peerId, client) :: rest)) ∨
       (∃ client rest, t.pc = .tryPeer ((peerId, client) :: rest)) ∨
       ∃ rest, t.pc = .markFailed peerId rest) := by
  obtain ⟨b, hash, pc⟩ := t
  cases pc with
  | markPeers peers =>
      rcases peers with _ | ⟨⟨p, client⟩, rest⟩ <;> simp [FetchTask.write, Write.Demotes]
  | tryPeer peers =>
      rcases peers with _ | ⟨⟨p, client⟩, rest⟩ <;> simp [FetchTask.write, Write.Demotes]
  | _ => simp [FetchTask.write, Write.Demotes]

theorem SyncLoop.demotes_write {s : Shared} {inp : LoopInput} {l : SyncLoop} :
    (l.write s inp).Demotes blobId peerId ↔ ∃ peers blob pending blobs,
      l = .markPending peers blob peerId pending blobs ∧ blob.id = blobId := by
  cases l with
  | process =>
      simp only [SyncLoop.write]
      split <;> simp [Write.Demotes]
  | markPending peers blob p pending blobs => simp [SyncLoop.write, Write.Demotes, and_comm]
  | _ => simp [SyncLoop.write, Write.Demotes]

theorem Handler.not_demotes_write {h : Handler} {inp : HandlerInput} :
    ¬ (h.write inp).Demotes blobId peerId := by
  unfold Handler.write
  split <;> simp [Write.Demotes]

theorem Mutation.not_demotes_write {m : Mutation} {inp : MutationInput} :
    ¬ (m.write platform inp).Demotes blobId peerId := by
  cases m with
  | addBlob u input =>
      simp only [Mutation.write]
      split <;> simp [Write.Demotes]
  | _ => simp [Mutation.write, Write.Demotes]

theorem DaNode.demotes_write (platform : Platform) (n : DaNode) (e : Event) :
    (n.write platform e).Demotes blobId peerId ↔ n.Overwrites blobId peerId e := by
  cases e with
  | handler i inp =>
      simp only [DaNode.write, DaNode.Overwrites, iff_false]
      rcases n.handlers[i]? with _ | h
      · exact id
      · exact Handler.not_demotes_write
  | mutation i inp =>
      simp only [DaNode.write, DaNode.Overwrites, iff_false]
      rcases n.mutations[i]? with _ | m
      · exact id
      · exact Mutation.not_demotes_write
  | task i inp =>
      simp only [DaNode.write, DaNode.Overwrites]
      rcases n.tasks[i]? with _ | t
      · simp [Write.Demotes]
      · simpa using FetchTask.demotes_write
  | loop inp => exact SyncLoop.demotes_write
  | _ => exact Iff.rfl

/-- A step that meets a completed row leaves it completed exactly if it does not write over it. -/
theorem completed_step_iff (h : n.step platform e = some n') (hc : n.Completed blobId peerId) :
    n'.Completed blobId peerId ↔ ¬ n.Overwrites blobId peerId e := by
  rw [DaNode.Completed, DaNode.step_shared h, ← DaNode.demotes_write platform]
  exact Write.status_onDb_of_completed hc

end

/-- **A completed row stays completed along a run exactly if no step of the run writes over it.** -/
theorem completed_always_iff (platform : Platform) (n : DaNode) (es : List Event) (blobId : Uuid)
    (peerId : String) :
    Run.Always (DaNode.step platform) (fun n => n.Completed blobId peerId) n es ↔
      n.Completed blobId peerId ∧
        Run.Meets (DaNode.step platform)
          (fun n e => (n.step platform e).isSome → ¬ n.Overwrites blobId peerId e) n es :=
  Run.always_iff_meets (fun _ _ _ hc hstep => completed_step_iff hstep hc) n es

/-- The peer fetches the blob between its reply to the announcement and the update that follows:
    the update makes the completed row pending. -/
theorem completed_overwritten :
    ∃ n n' : DaNode,
      Run.exec (DaNode.step Platform.sample) DaNode.sample
        (Event.sampleAdd ++ Event.sampleAnnounce ++ Event.sampleFetch) = some n ∧
      n.step Platform.sample (.loop LoopInput.sample) = some n' ∧
      n.shared.db.blobExists (Uuid.sample 2).cell ∧ n.Completed (Uuid.sample 2) "peer" ∧
      n'.shared.db.blobExists (Uuid.sample 2).cell ∧ ¬ n'.Completed (Uuid.sample 2) "peer" := by
  have hrun : (Run.exec (DaNode.step Platform.sample) DaNode.sample
      (Event.sampleAdd ++ Event.sampleAnnounce ++ Event.sampleFetch)).any (fun n =>
        (n.step Platform.sample (.loop LoopInput.sample)).any (fun n' =>
          n.shared.db.blobExists (Uuid.sample 2).cell ∧ n.Completed (Uuid.sample 2) "peer" ∧
          n'.shared.db.blobExists (Uuid.sample 2).cell ∧
            ¬ n'.Completed (Uuid.sample 2) "peer")) = true := by decide +kernel
  obtain ⟨n, hn, hany⟩ := (Option.any_eq_true _ _).1 hrun
  obtain ⟨n', hn', hcond⟩ := (Option.any_eq_true _ _).1 hany
  exact ⟨n, n', hn, hn', by simpa using hcond⟩

end DaConcept.Node
