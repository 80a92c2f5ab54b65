import DaConcept.Node.Completion

set_option autoImplicit false

/-! # Integrity of stored content

`verify_received_blob` rejects a blob only if both the hash of its content and the hash in its
metadata differ from the expected one. A peer that names the expected hash in the metadata passes
with any content, and one that sends the expected content passes with any hash. What is stored is
sound as long as no peer does either. -/

namespace DaConcept.Node

section

variable {platform : Platform}

/-- The blob a task holds has the content, and names the hash, that the task expects. -/
def FetchTask.Verified (platform : Platform) (t : FetchTask) : Prop :=
  ∀ peerId metadata protoBlob now,
    (t.pc = .store peerId metadata protoBlob now ∨
      t.pc = .markCompleted peerId metadata protoBlob now) →
    platform.contentHash protoBlob.content = t.expectedHash ∧ metadata.hash = t.expectedHash

/-- In a reply to a fetch task, either both the content and the hash in the metadata are those the
    task expects, or neither is. -/
def DaNode.RepliesAgree (platform : Platform) (n : DaNode) : Event → Prop
  | .task i inp => ∀ t peerId client rest protoBlob metadata, n.tasks[i]? = some t →
      t.pc = .awaitReply peerId client rest →
      PeerClient.fetchBlob inp.reply = .ok (some protoBlob) → protoBlob.metadata = some metadata →
      (platform.contentHash protoBlob.content = t.expectedHash ↔ metadata.hash = t.expectedHash)
  | _ => True

/-- What a step that goes from `n` to `n'` leaves sound: the rows it inserts carry the hash of their
    content, which for a fetch task is the expected one, and a fetch task completes a peer only
    with a blob of the expected content. -/
structure StepSound (platform : Platform) (n n' : DaNode) (e : Event) : Prop where
  inserted : ∀ row ∈ n'.shared.db.blobs.rows, n.shared.db.blobs.lookup row.id = none →
    row.hash = some (platform.contentHash row.content)
  expected : ∀ row ∈ n'.shared.db.blobs.rows, n.shared.db.blobs.lookup row.id = none →
    ∀ i inp t, e = .task i inp → n.tasks[i]? = some t →
      platform.contentHash row.content = t.expectedHash
  completed : ∀ blobId peerId, ¬ n.Completed blobId peerId → n'.Completed blobId peerId →
    ∀ i inp t, e = .task i inp → n.tasks[i]? = some t → t.blobId = blobId ∧
      ∃ metadata protoBlob now, t.pc = .markCompleted peerId metadata protoBlob now ∧
        platform.contentHash protoBlob.content = t.expectedHash

/-! ## The tasks hold verified blobs -/

/-- A reply that agrees with itself brings a task no unverified blob. -/
theorem verified_step {n n' : DaNode} {e : Event}
    (hn : ∀ t ∈ n.tasks, t.Verified platform) (hagree : n.RepliesAgree platform e)
    (h : n.step platform e = some n') : ∀ t ∈ n'.tasks, t.Verified platform := by
  intro t' ht' peerId metadata protoBlob now hpc
  rcases DaNode.mem_tasks_step h ht' with hold | ⟨job, -, rfl⟩ | ⟨t, ht, heq, hfail | hgo⟩
  · exact hn t' hold peerId metadata protoBlob now hpc
  · rcases hpc with hpc | hpc <;> cases hpc
  · rw [FetchTask.fail_eq_some hfail] at hpc
    rcases hpc with hpc | hpc <;> cases hpc
  · obtain ⟨i, inp, shared, rfl, hi, hstep⟩ := hgo
    have hexpected : t'.expectedHash = t.expectedHash := by rw [heq]
    rw [hexpected]
    rcases hpc with hpc | hpc
    · rw [hpc] at hstep
      obtain ⟨client, rest, hawait, hreply, hmetadata, -, hverify⟩ :=
        FetchTask.step_to_store hstep
      have hiff := hagree t peerId client rest protoBlob metadata hi hawait hreply hmetadata
      rcases verifyReceivedBlob_eq_true_iff.1 hverify with hcontent | hhash
      · exact ⟨hcontent, hiff.1 hcontent⟩
      · exact ⟨hiff.2 hhash, hhash⟩
    · rw [hpc] at hstep
      have hstore := (FetchTask.step_to_markCompleted hstep).1
      exact hn t ht peerId metadata protoBlob now (Or.inl hstore)

/-! ## A step of a node whose tasks hold verified blobs -/

theorem FetchTask.write_eq_completed {t : FetchTask} {inp : FetchInput} {blobId : Uuid}
    {peerId : String} {attempt : Timestamp} {success : Option Timestamp}
    (h : t.write platform inp = .setStatus blobId peerId .completed attempt success) :
    t.blobId = blobId ∧ ∃ metadata protoBlob now,
      t.pc = .markCompleted peerId metadata protoBlob now := by
  obtain ⟨b, expectedHash, pc⟩ := t
  cases pc with
  | markPeers peers => rcases peers with _ | ⟨⟨p, client⟩, rest⟩ <;> cases h
  | tryPeer peers => rcases peers with _ | ⟨⟨p, client⟩, rest⟩ <;> cases h
  | markCompleted p metadata protoBlob now =>
      cases h
      exact ⟨rfl, metadata, protoBlob, _, rfl⟩
  | _ => cases h

/-- The row a step adds to `blobs`. -/
theorem write_of_new_row {n n' : DaNode} {e : Event} {row : BlobRow}
    (h : n.step platform e = some n') (hrow : row ∈ n'.shared.db.blobs.rows)
    (hnew : n.shared.db.blobs.lookup row.id = none) :
    n.write platform e = .insertBlob row := by
  rw [DaNode.step_shared h] at hrow
  rw [Table.lookup_eq_none_iff] at hnew
  rcases Write.mem_blobs_onDb hrow with hold | ⟨hwrite, -⟩ | ⟨now, old, -, hold, rfl⟩
  · exact absurd rfl (hnew row hold)
  · exact hwrite
  · exact absurd rfl (hnew old hold)

theorem stepSound_of_verified {n n' : DaNode} {e : Event}
    (hn : ∀ t ∈ n.tasks, t.Verified platform) (h : n.step platform e = some n') :
    StepSound platform n n' e where
  inserted row hrow hnew := by
    rcases DaNode.write_eq_insertBlob.1 (write_of_new_row h hrow hnew) with
      ⟨i, inp, t, peerId, metadata, protoBlob, now, rfl, hi, hpc, rfl⟩ |
      ⟨i, inp, currentUser, blobInput, rfl, hi, hadded⟩
    · obtain ⟨hcontent, hhash⟩ := hn t (List.mem_of_getElem? hi) _ _ _ _ (Or.inl hpc)
      simp only [receivedRow, hcontent, hhash]
    · obtain ⟨user, content, relatedPubkey, -, rfl⟩ := addBlobRow_eq_some hadded
      rfl
  expected row hrow hnew i inp t he hi := by
    subst he
    rcases DaNode.write_eq_insertBlob.1 (write_of_new_row h hrow hnew) with
      ⟨i', inp', t', peerId, metadata, protoBlob, now, he, hi', hpc, rfl⟩ |
      ⟨i', inp', currentUser, blobInput, he, -, -⟩
    · cases he
      obtain rfl := Option.some.inj (hi.symm.trans hi')
      exact (hn t (List.mem_of_getElem? hi) _ _ _ _ (Or.inl hpc)).1
    · cases he
  completed blobId peerId hbefore hafter i inp t he hi := by
    subst he
    rw [DaNode.Completed, DaNode.step_shared h] at hafter
    obtain ⟨attempt, success, hwrite⟩ := Write.completes hbefore hafter
    simp only [DaNode.write, hi, Option.elim_some] at hwrite
    obtain ⟨hb, metadata, protoBlob, now, hpc⟩ := FetchTask.write_eq_completed hwrite
    exact ⟨hb, metadata, protoBlob, now, hpc,
      (hn t (List.mem_of_getElem? hi) _ _ _ _ (Or.inr hpc)).1⟩

end

/-- **In every run of a node in which every reply to a fetch task agrees with itself, every step
    inserts only rows that carry the hash of their content, those of fetch tasks under the hash
    that was announced, and completes a peer only with such a blob.** -/
theorem content_integrity (platform : Platform) (config : P2PConfig) (peers : Peers) (db : Db)
    (es : List Event)
    (hagree : Run.Meets (DaNode.step platform) (fun n e => n.RepliesAgree platform e)
      (DaNode.start config peers db) es) :
    Run.Meets (DaNode.step platform)
      (fun n e => ∀ n', n.step platform e = some n' → StepSound platform n n' e)
      (DaNode.start config peers db) es := by
  refine Run.meets_of_invariant (I := fun n : DaNode => ∀ t ∈ n.tasks, t.Verified platform)
    (fun n e n' hn hC h => verified_step hn hC h) (fun n e hn _ n' h => stepSound_of_verified hn h)
    ?_ hagree
  intro t ht
  cases ht

/-- The peer announces the sample blob and sends it, and the node stores it and completes the
    peer. -/
theorem content_integrity_sample :
    ∃ n : DaNode, Run.exec (DaNode.step Platform.sample) DaNode.sample Event.sampleStore = some n ∧
      n.shared.db.blobs.rows = [BlobRow.sampleCopy] ∧ n.Completed (Uuid.sample 2) "peer" ∧
      Run.Meets (DaNode.step Platform.sample)
        (fun n e => ∀ n', n.step Platform.sample e = some n' → StepSound Platform.sample n n' e)
        DaNode.sample Event.sampleStore := by
  have hrun : (Run.exec (DaNode.step Platform.sample) DaNode.sample Event.sampleStore).any (fun n =>
      n.shared.db.blobs.rows = [BlobRow.sampleCopy] ∧ n.Completed (Uuid.sample 2) "peer")
        = true := by decide +kernel
  obtain ⟨n, hn, hcond⟩ := (Option.any_eq_true _ _).1 hrun
  obtain ⟨hrows, hcompleted⟩ : _ ∧ _ := of_decide_eq_true hcond
  refine ⟨n, hn, hrows, hcompleted, content_integrity Platform.sample _ _ _ _
    (Run.meets_of_forall (fun e he n => ?_) _)⟩
  simp only [Event.sampleStore, Event.sampleReceive, List.cons_append, List.nil_append,
    List.mem_append, List.mem_cons, List.mem_replicate] at he
  rcases he with rfl | rfl | rfl | rfl | rfl | rfl | ⟨-, rfl⟩ | ⟨-, rfl⟩
  case inr.inr.inr.inr.inr.inr.inl =>
    intro t peerId client rest protoBlob metadata _ _ hreply hmetadata
    cases hreply
    cases hmetadata
    exact Iff.rfl
  case inr.inr.inr.inr.inr.inr.inr =>
    intro t peerId client rest protoBlob metadata _ _ hreply
    cases hreply
  all_goals trivial

/-- The peer announces the sample blob and then sends an empty one, with the announced hash in its
    metadata. -/
def SyncResponse.sampleForged : SyncResponse :=
  { SyncResponse.sample with
    responseData := some (.fetch (some
      { metadata := some (Blob.sample.protoMetadata Platform.sample), content := [] })) }

/-- The forged content is stored. -/
theorem content_integrity_violated :
    ∃ n n' : DaNode,
      Run.exec (DaNode.step Platform.sample) DaNode.sample
        (Event.sampleReceive (.ok SyncResponse.sampleForged)) = some n ∧
      n.step Platform.sample (.task 0 (FetchInput.sample (.error .unavailable))) = some n' ∧
      ¬ StepSound Platform.sample n n' (.task 0 (FetchInput.sample (.error .unavailable))) := by
  have hrun : (Run.exec (DaNode.step Platform.sample) DaNode.sample
      (Event.sampleReceive (.ok SyncResponse.sampleForged))).any (fun n =>
        (n.step Platform.sample (.task 0 (FetchInput.sample (.error .unavailable)))).any (fun n' =>
          n'.shared.db.blobs.rows.any (fun row =>
            n.shared.db.blobs.lookup row.id = none ∧
              row.hash ≠ some (Platform.sample.contentHash row.content)))) = true := by
    decide +kernel
  obtain ⟨n, hn, hany⟩ := (Option.any_eq_true _ _).1 hrun
  obtain ⟨n', hn', hany'⟩ := (Option.any_eq_true _ _).1 hany
  obtain ⟨row, hrow, hcond⟩ := List.any_eq_true.1 hany'
  obtain ⟨hnew, hhash⟩ : _ ∧ _ := of_decide_eq_true hcond
  exact ⟨n, n', hn, hn', fun hsound => hhash (hsound.inserted row hrow hnew)⟩

end DaConcept.Node
