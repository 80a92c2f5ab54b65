import DaConcept.Node.Rounds

set_option autoImplicit false

/-! # Announcing again

A call leaves the pairs that are due as they were, so the next one starts from the same rows. A peer
that has answered that it has the blob is asked again, unless the hundred blobs of the next query
are others (`announcing_rests_iff`). And as long as the database yields the rows in one order, the
hundred are the same in every call, and what lies behind them is never announced
(`backlog_covered_iff`). -/

namespace DaConcept.Node

section

variable {platform : Platform} {peers : Peers} {u : Uuid} {p : String}

/-! ## The rows of the pairs that were announced -/

theorem Answer.status_record_of_pending {db : Db} (a : Answer) (blobId : Uuid) (peerId : String)
    (h : db.status u p = some .pending) :
    (a.record blobId peerId db).status u p = some .pending := by
  rw [Answer.record]
  cases PeerClient.announceBlob a.reply with
  | error e => exact h
  | ok accepted =>
      change (setBlobStatusAsPending a.now blobId peerId db).status u p = some .pending
      rw [setBlobStatusAsPending, status_setStatus, h, Option.map_some, ite_self]

theorem Answer.status_record_of_ok {db : Db} {a : Answer} {accepted : Bool}
    (hreply : PeerClient.announceBlob a.reply = .ok accepted) (h : db.Due u.cell p) :
    (a.record u p db).status u p = some .pending := by
  obtain ⟨s, hs⟩ := h.status
  rw [Answer.record, hreply]
  change (setBlobStatusAsPending a.now u p db).status u p = some .pending
  rw [setBlobStatusAsPending, status_setStatus, if_pos ⟨rfl, rfl⟩, hs, Option.map_some]

theorem status_announceToPeers_of_pending (blob : Blob) (pending : List String) :
    ∀ (answers : Stream' Answer) (db : Db), db.status u p = some .pending →
      (announceToPeers peers blob pending answers db).1.status u p = some .pending := by
  induction pending with
  | nil => exact fun answers db h => h
  | cons q pending ih =>
      intro answers db h
      rw [announceToPeers]
      cases peers.lookup q with
      | none => exact ih answers db h
      | some peer => exact ih _ _ (answers.head.status_record_of_pending blob.id q h)

theorem status_announceEach_of_pending (blobs : List Blob) :
    ∀ (visits : Stream' Visit) (db : Db), db.status u p = some .pending →
      (announceEach peers blobs visits db).1.status u p = some .pending := by
  induction blobs with
  | nil => exact fun visits db h => h
  | cons blob blobs ih =>
      intro visits db h
      exact ih _ _ (status_announceToPeers_of_pending blob _ _ _ h)

/-- The announcement was answered, and not with an error. -/
def Announcement.Answered (a : Announcement) : Prop :=
  ∃ accepted, PeerClient.announceBlob a.reply = .ok accepted

theorem pending_of_mem_announceToPeers {a : Announcement} (ha : a.Answered) (blob : Blob)
    (pending : List String) : ∀ (answers : Stream' Answer) (db : Db),
      (∀ q ∈ pending, db.Due blob.id.cell q) →
      a ∈ (announceToPeers peers blob pending answers db).2 →
      (announceToPeers peers blob pending answers db).1.status a.blob.id a.peerId
        = some .pending := by
  induction pending with
  | nil =>
      intro answers db _ hmem
      cases hmem
  | cons q pending ih =>
      intro answers db hdue hmem
      rw [List.forall_mem_cons] at hdue
      rw [announceToPeers] at hmem ⊢
      cases hpeer : peers.lookup q with
      | none =>
          rw [hpeer] at hmem
          exact ih answers db hdue.2 hmem
      | some peer =>
          rw [hpeer] at hmem
          have hrecord := answers.head.sameDue_record hdue.1
          rcases List.mem_cons.1 hmem with rfl | hmem
          · -- its own UPDATE makes the row pending, and the later ones leave it so
            obtain ⟨accepted, haccepted⟩ := ha
            exact status_announceToPeers_of_pending blob pending _ _
              (Answer.status_record_of_ok haccepted hdue.1)
          · refine ih _ _ (fun q' hq' => ?_) hmem
            exact (hrecord.due_iff _ _).2 (hdue.2 q' hq')

theorem pending_of_mem_announceEach {a : Announcement} (ha : a.Answered) (blobs : List Blob) :
    ∀ (visits : Stream' Visit) (db : Db), a ∈ (announceEach peers blobs visits db).2 →
      (announceEach peers blobs visits db).1.status a.blob.id a.peerId = some .pending := by
  induction blobs with
  | nil =>
      intro visits db hmem
      cases hmem
  | cons blob blobs ih =>
      intro visits db hmem
      rcases List.mem_append.1 hmem with hfirst | hrest
      · refine status_announceEach_of_pending blobs _ _ ?_
        refine pending_of_mem_announceToPeers ha blob _ _ _ (fun q hq => ?_) hfirst
        exact (mem_getPendingPeers (visits.head.order.perm _)).1 hq
      · exact ih _ _ hrest

/-- **An announcement that was answered leaves its row pending**, whatever the answer was. -/
theorem pending_of_mem_announced {a : Announcement} {round : Round} {db : Db} (ha : a.Answered)
    (hmem : a ∈ (announceBlobs peers round db).announced) :
    (announceBlobs peers round db).db.status a.blob.id a.peerId = some .pending := by
  rw [announceBlobs] at hmem ⊢
  cases hblobs : getBlobsToShare db (round.order.scan db.blobs.rows) with
  | error e =>
      rw [hblobs] at hmem
      cases hmem
  | ok blobs =>
      rw [hblobs] at hmem
      exact pending_of_mem_announceEach ha blobs round.visits db hmem

/-- What is announced again: the pairs whose blob the next query comes to. -/
theorem announced_again_iff {first next : Round} {db : Db}
    (h : Announced (announceBlobs peers first db).announced u p) :
    Announced (announceBlobs peers next (announceBlobs peers first db).db).announced u p ↔
      db.Selects (next.order.scan db.blobs.rows) u := by
  have hsame : db.SameDue (announceBlobs peers first db).db := sameDue_announceBlobs first db
  obtain ⟨-, hdue, hknown⟩ := announced_iff.1 h
  rw [announced_iff, hsame.blobs_eq, hsame.selects_iff, hsame.due_iff]
  exact and_iff_left ⟨hdue, hknown⟩

/-! ## The receiver -/

/-- The handler of an announcement, whose first step finds its node as `receiver`, comes to the
    reply, whatever its node does between its steps. -/
def Shared.Replies (platform : Platform) (receiver : Shared) (metadata : BlobMetadata)
    (reply : RpcReply) : Prop :=
  ∃ h, (∃ inp s, Handler.step platform inp receiver (.sync (some (.announce (some metadata))))
      = some (s, h)) ∧
    (h = .replied reply ∨ ∃ inp s s', Handler.step platform inp s h = some (s', .replied reply))

/-- The announcement of a blob is answered, with whether the receiver finds its text. -/
theorem Shared.Replies.announceBlob_eq {receiver : Shared} {blob : Blob} {reply : RpcReply}
    (h : receiver.Replies platform (blob.announcement platform) reply) :
    PeerClient.announceBlob reply
      = .ok (!SyncServiceImpl.doesBlobExist blob.id.toString receiver.db) := by
  obtain ⟨hd, ⟨inp, s, hstep⟩, hreply⟩ := h
  obtain ⟨-, rfl⟩ := Prod.mk.inj (Option.some.inj hstep)
  have hid : (blob.announcement platform).id = blob.id.toString := rfl
  rw [handleAnnounce, hid, Uuid.parse_toString] at hreply
  cases hexists : SyncServiceImpl.doesBlobExist blob.id.toString receiver.db with
  | true =>
      rw [hexists] at hreply
      rcases hreply with hreply | ⟨inp', s', s'', hstep'⟩
      · cases hreply
        rfl
      · cases hstep'
  | false =>
      rw [hexists] at hreply
      rcases hreply with hreply | ⟨inp', s', s'', hstep'⟩
      · cases hreply
      · cases hstep'
        rfl

/-- **When announcing comes to rest.** A pair that was announced and answered with
    `accepted = false` is left out by the next call exactly if the hundred rows that this one
    selects do not decode or do not hold the blob. And a blob that the receiver holds stays pending
    at the sender, in every case. -/
theorem announcing_rests_iff (platform : Platform) (peers : Peers) (db : Db)
    (first next : Round) :
    (∀ a ∈ (announceBlobs peers first db).announced,
      PeerClient.announceBlob a.reply = .ok false →
      (¬ Announced (announceBlobs peers next (announceBlobs peers first db).db).announced
          a.blob.id a.peerId ↔
        ¬ db.Selects (next.order.scan db.blobs.rows) a.blob.id)) ∧
    (∀ a ∈ (announceBlobs peers first db).announced, ∀ receiver : Shared,
      (∃ row ∈ receiver.db.blobs.rows, row.live ∧ row.id.denotes = some a.blob.id) →
      receiver.Replies platform (a.blob.announcement platform) a.reply →
      (announceBlobs peers first db).db.status a.blob.id a.peerId = some .pending) := by
  constructor
  · intro a ha _
    exact not_congr (announced_again_iff ⟨a, ha, rfl, rfl⟩)
  · -- the receiver answers, with whatever it holds
    intro a ha receiver _ hreplies
    exact pending_of_mem_announced ⟨_, hreplies.announceBlob_eq⟩ ha

end

/-- What the peer of the sample node replies when it has the blob. -/
def RpcReply.sampleExists : RpcReply :=
  .ok ⟨.alreadyExists, "Blob already exists", some (.announce false)⟩

/-- The announcement of the sample blob to it. -/
def Announcement.sample : Announcement := ⟨Blob.sample, "peer", RpcReply.sampleExists⟩

/-- A call of the node while its peer has the blob. -/
def DaNode.sampleCall (n : DaNode) (db : Db) : AnnounceRun :=
  announceBlobs n.shared.manager.peers (.const RpcReply.sampleExists) db

theorem Shared.replies_sample {receiver : Shared}
    (h : SyncServiceImpl.doesBlobExist Blob.sample.id.toString receiver.db = true) :
    receiver.Replies Platform.sample (Blob.sample.announcement Platform.sample)
      RpcReply.sampleExists := by
  refine ⟨_, ⟨HandlerInput.sample, receiver, rfl⟩, Or.inl ?_⟩
  exact if_pos h

/-- One node has added the blob, and the other has stored it. -/
theorem announcing_rests_sample :
    ∃ n n' : DaNode,
      Run.exec (DaNode.step Platform.sample) DaNode.sample Event.sampleAdd = some n ∧
      Run.exec (DaNode.step Platform.sample) DaNode.sample Event.sampleStore = some n' ∧
      (¬ Announced (n.sampleCall (n.sampleCall n.shared.db).db).announced Blob.sample.id "peer" ↔
        ¬ n.shared.db.Selects n.shared.db.blobs.rows Blob.sample.id) ∧
      (n.sampleCall n.shared.db).db.status Blob.sample.id "peer" = some .pending := by
  have hsender : (Run.exec (DaNode.step Platform.sample) DaNode.sample Event.sampleAdd).any
      (fun n => Announcement.sample ∈ (n.sampleCall n.shared.db).announced) = true := by
    decide +kernel
  have hreceiver : (Run.exec (DaNode.step Platform.sample) DaNode.sample Event.sampleStore).any
      (fun n => n.shared.db.blobExists (.text Blob.sample.id.toString)) = true := by decide +kernel
  obtain ⟨n, hn, hannounced⟩ := (Option.any_eq_true _ _).1 hsender
  obtain ⟨n', hn', hexists⟩ := (Option.any_eq_true _ _).1 hreceiver
  obtain ⟨row, hrow, hlive, hid⟩ := blobExists_iff.1 hexists
  have hrests := announcing_rests_iff Platform.sample n.shared.manager.peers n.shared.db
    (.const RpcReply.sampleExists) (.const RpcReply.sampleExists)
  refine ⟨n, n', hn, hn', hrests.1 _ (of_decide_eq_true hannounced) rfl, ?_⟩
  refine hrests.2 _ (of_decide_eq_true hannounced) n'.shared ⟨row, hrow, hlive, ?_⟩
    (Shared.replies_sample hexists)
  rw [hid, Uuid.denotes_text_toString]
  rfl

/-- The one announces the blob, the other answers that it has it, and the one announces it again;
    the row is still pending. -/
theorem announced_again :
    ∃ n n' : DaNode,
      Run.exec (DaNode.step Platform.sample) DaNode.sample Event.sampleAdd = some n ∧
      Run.exec (DaNode.step Platform.sample) DaNode.sample Event.sampleStore = some n' ∧
      Announcement.sample ∈ (n.sampleCall n.shared.db).announced ∧
      n'.shared.Replies Platform.sample (Blob.sample.announcement Platform.sample)
        RpcReply.sampleExists ∧
      Announced (n.sampleCall (n.sampleCall n.shared.db).db).announced Blob.sample.id "peer" ∧
      (n.sampleCall n.shared.db).db.status Blob.sample.id "peer" = some .pending := by
  have hsender : (Run.exec (DaNode.step Platform.sample) DaNode.sample Event.sampleAdd).any
      (fun n => Announcement.sample ∈ (n.sampleCall n.shared.db).announced ∧
        Announced (n.sampleCall (n.sampleCall n.shared.db).db).announced Blob.sample.id "peer" ∧
        (n.sampleCall n.shared.db).db.status Blob.sample.id "peer" = some .pending) = true := by
    decide +kernel
  have hreceiver : (Run.exec (DaNode.step Platform.sample) DaNode.sample Event.sampleStore).any
      (fun n => n.shared.db.blobExists (.text Blob.sample.id.toString)) = true := by decide +kernel
  obtain ⟨n, hn, hcond⟩ := (Option.any_eq_true _ _).1 hsender
  obtain ⟨n', hn', hexists⟩ := (Option.any_eq_true _ _).1 hreceiver
  obtain ⟨hannounced, hagain, hpending⟩ := of_decide_eq_true hcond
  exact ⟨n, n', hn, hn', hannounced, Shared.replies_sample hexists, hagain, hpending⟩

/-! ## Rounds -/

/-- Calls that follow one another, in all of which the query for the blobs yields them in one
    order. -/
def announceRounds (peers : Peers) (order : ScanOrder BlobRow) :
    Nat → Stream' (Stream' Visit) → Db → Db × List Announcement
  | 0, _, db => (db, [])
  | k + 1, visits, db =>
      let run := announceBlobs peers ⟨order, visits.head⟩ db
      let rest := announceRounds peers order k visits.tail run.db
      (rest.1, run.announced ++ rest.2)

/-- How many live blobs have a row that is not completed. -/
def Db.backlog (db : Db) : Nat := (db.blobs.rows.filter db.shared).length

/-- How many calls it takes if each takes another hundred. -/
def Db.rounds (db : Db) : Nat := (db.backlog + 99) / 100

/-- A live blob is due at a peer that is in the map. -/
structure Db.Wants (db : Db) (peers : Peers) (row : BlobRow) (p : String) : Prop where
  mem : row ∈ db.blobs.rows
  live : row.live
  due : db.Due row.id p
  known : (peers.lookup p).isSome

section

variable {peers : Peers} {order : ScanOrder BlobRow}

theorem Db.Wants.mem_filter {db : Db} {row : BlobRow} {p : String} (h : db.Wants peers row p) :
    row ∈ db.blobs.rows.filter db.shared :=
  List.mem_filter.2 ⟨h.mem, Db.shared_iff.2 ⟨h.live, p, h.due⟩⟩

theorem Db.Wants.rounds_pos {db : Db} {row : BlobRow} {p : String} (h : db.Wants peers row p) :
    0 < db.rounds := by
  have hpos : 0 < db.backlog := List.length_pos_of_mem h.mem_filter
  rw [Db.rounds]
  omega

/-- Every call announces what the first one does. -/
theorem announced_announceRounds {u : Uuid} {p : String} (k : Nat) :
    ∀ (visits : Stream' (Stream' Visit)) (db : Db),
      Announced (announceRounds peers order k visits db).2 u p ↔
        0 < k ∧ db.Selects (order.scan db.blobs.rows) u ∧ db.Due u.cell p ∧
          (peers.lookup p).isSome := by
  induction k with
  | zero => exact fun visits db => iff_of_false not_announced_nil fun h => absurd h.1 (lt_irrefl 0)
  | succ k ih =>
      intro visits db
      have hsame : db.SameDue (announceBlobs peers ⟨order, visits.head⟩ db).db :=
        sameDue_announceBlobs _ db
      -- the first call announces what it finds due, and the later ones find the same
      rw [announceRounds, announced_append, announced_iff, ih, hsame.blobs_eq, hsame.selects_iff,
        hsame.due_iff]
      constructor
      · rintro (hfirst | ⟨-, hrest⟩)
        · exact ⟨k.succ_pos, hfirst⟩
        · exact ⟨k.succ_pos, hrest⟩
      · exact fun h => Or.inl h.2

/-- **When the backlog is covered.** The calls announce every pair that is due exactly if the first
    hundred of the rows that the query yields decode, and hold each blob that is due, and its pairs
    are due under the bytes of its UUID, whatever comes back for the announcements. -/
theorem backlog_covered_iff (peers : Peers) (order : ScanOrder BlobRow)
    (visits : Stream' (Stream' Visit)) (db : Db) :
    (∀ row p, db.Wants peers row p → ∃ u, row.id.decodeUuid = some u ∧
      Announced (announceRounds peers order db.rounds visits db).2 u p) ↔
    ∀ row p, db.Wants peers row p → ∃ u, row.id.decodeUuid = some u ∧
      db.Selects (order.scan db.blobs.rows) u ∧ db.Due u.cell p := by
  refine forall_congr' fun row => forall_congr' fun p => forall_congr' fun hwants => ?_
  refine exists_congr fun u => and_congr_right fun _ => ?_
  rw [announced_announceRounds]
  constructor
  · rintro ⟨-, hselects, hdue, -⟩
    exact ⟨hselects, hdue⟩
  · rintro ⟨hselects, hdue⟩
    exact ⟨hwants.rounds_pos, hselects, hdue, hwants.known⟩

end

/-- The UUIDs of the sample blobs. -/
def Uuid.sampleAt (i : Nat) : Uuid := Uuid.sample (UInt8.ofNat i)

theorem Uuid.sampleAt_inj {i j : Nat} (hi : i < 256) (hj : j < 256)
    (h : Uuid.sampleAt i = Uuid.sampleAt j) : i = j := by
  have hbyte : UInt8.ofNat i = UInt8.ofNat j := List.head_eq_of_cons_eq (congrArg Uuid.bytes h)
  have hnat := congrArg UInt8.toNat hbyte
  rw [UInt8.toNat_ofNat', UInt8.toNat_ofNat'] at hnat
  omega

/-- The sample blob under another id, and its row for the peer. -/
def BlobRow.sampleAt (i : Nat) : BlobRow := { BlobRow.sample with id := (Uuid.sampleAt i).cell }

def SyncStatusRow.sampleAt (i : Nat) : SyncStatusRow :=
  ⟨(Uuid.sampleAt i).cell, "peer", .pending, none, none⟩

/-- A hundred and one blobs, all pending at the peer. -/
def Db.sampleBacklog : Db where
  users := .empty
  blobs := ⟨(List.range 101).map BlobRow.sampleAt, by
    rw [List.map_map]
    refine List.Nodup.map_on (fun i hi j hj h => ?_) List.nodup_range
    rw [List.mem_range] at hi hj
    exact Uuid.sampleAt_inj (by omega) (by omega) (Uuid.cell_inj.1 h)⟩
  syncStatus := ⟨(List.range 101).map SyncStatusRow.sampleAt, by
    rw [List.map_map]
    refine List.Nodup.map_on (fun i hi j hj h => ?_) List.nodup_range
    rw [List.mem_range] at hi hj
    exact Uuid.sampleAt_inj (by omega) (by omega) (Uuid.cell_inj.1 (Prod.mk.inj h).1)⟩

def Peers.sample : Peers := Table.put .empty ("peer", ⟨"http://peer"⟩)

theorem Db.wants_sampleBacklog {i : Nat} (hi : i < 101) :
    Db.sampleBacklog.Wants Peers.sample (BlobRow.sampleAt i) "peer" where
  mem := List.mem_map_of_mem (List.mem_range.2 hi)
  live := rfl
  due := Db.due_iff_mem.2
    ⟨SyncStatusRow.sampleAt i, List.mem_map_of_mem (List.mem_range.2 hi), rfl, rfl,
      (by decide : Status.pending ≠ .completed)⟩
  known := by decide

theorem Db.filter_sampleBacklog :
    Db.sampleBacklog.blobs.rows.filter Db.sampleBacklog.shared
      = (List.range 101).map BlobRow.sampleAt := by
  refine List.filter_eq_self.2 fun row hrow => ?_
  obtain ⟨i, hi, rfl⟩ := List.mem_map.1 hrow
  exact (List.mem_filter.1 (Db.wants_sampleBacklog (List.mem_range.1 hi)).mem_filter).2

/-- The peer is unreachable. Two calls announce the first hundred blobs twice, and the last one
    never. -/
theorem backlog_starved :
    Db.sampleBacklog.rounds = 2 ∧
    Db.sampleBacklog.Wants Peers.sample (BlobRow.sampleAt 100) "peer" ∧
    ¬ ∃ u, (BlobRow.sampleAt 100).id.decodeUuid = some u ∧
      Announced (announceRounds Peers.sample ⟨id, .refl⟩ Db.sampleBacklog.rounds
        (Stream'.const (Stream'.const (Visit.const (.error .unavailable))))
        Db.sampleBacklog).2 u "peer" := by
  refine ⟨?_, Db.wants_sampleBacklog (by omega), ?_⟩
  · rw [Db.rounds, Db.backlog, Db.filter_sampleBacklog, List.length_map, List.length_range]
  · rintro ⟨u, hid, hannounced⟩
    obtain rfl : Uuid.sampleAt 100 = u := Option.some.inj ((Uuid.decodeUuid_cell _).symm.trans hid)
    obtain ⟨-, hselects, -⟩ := (announced_announceRounds _ _ _).1 hannounced
    obtain ⟨row, hrow, hid⟩ := hselects.selected
    -- the selected rows are those of the numbers below 100
    change row ∈ (Db.sampleBacklog.blobs.rows.filter Db.sampleBacklog.shared).take 100 at hrow
    rw [Db.filter_sampleBacklog, ← List.map_take, List.take_range] at hrow
    obtain ⟨i, hi, rfl⟩ := List.mem_map.1 hrow
    rw [List.mem_range] at hi
    have hsame := Option.some.inj ((Uuid.decodeUuid_cell _).symm.trans hid)
    have := Uuid.sampleAt_inj (by omega) (by omega) hsame
    omega

/-! ## Reachable databases

In these, a pair that is due has its blob under the bytes of a UUID, and the blob decodes: what is
covered is what the first hundred rows hold. -/

section

variable {peers : Peers} {order : ScanOrder BlobRow} {db : Db} {row : BlobRow} {u : Uuid}
  {p : String}

theorem mem_blobs_of_mem_firstHundred (h : row ∈ db.firstHundred (order.scan db.blobs.rows)) :
    row ∈ db.blobs.rows ∧ db.shared row = true := by
  obtain ⟨hmem, hshared⟩ := List.mem_filter.1 (List.mem_of_mem_take h)
  exact ⟨(order.perm _).mem_iff.1 hmem, hshared⟩

theorem Db.Wants.id_eq (h : db.Wants peers row p) (hshaped : db.Shaped) :
    ∃ u : Uuid, row.id = u.cell := by
  obtain ⟨r, hr, hid, -, -⟩ := Db.due_iff_mem.1 h.due
  obtain ⟨u, hu⟩ := hshaped.syncStatus r hr
  exact ⟨u, hid.symm.trans hu⟩

theorem selects_iff_mem_firstHundred (hshaped : db.Shaped) (hdecode : db.AddedDecode)
    (hrow : row ∈ db.blobs.rows) (hid : row.id = u.cell) :
    db.Selects (order.scan db.blobs.rows) u ↔
      row ∈ db.firstHundred (order.scan db.blobs.rows) := by
  constructor
  · -- the selected row of the UUID is tracked, so it is under the same bytes
    rintro ⟨-, row', hrow', hid'⟩
    obtain ⟨hmem, hshared⟩ := mem_blobs_of_mem_firstHundred hrow'
    obtain ⟨-, q, hdue⟩ := Db.shared_iff.1 hshared
    obtain ⟨r, hr, hrid, -, -⟩ := Db.due_iff_mem.1 hdue
    obtain ⟨v, hv⟩ := hshaped.syncStatus r hr
    rw [← hrid, hv, Uuid.decodeUuid_cell] at hid'
    obtain rfl := Option.some.inj hid'
    rwa [Table.eq_of_mem hrow hmem (hid.trans (hv.symm.trans hrid))]
  · intro hfirst
    refine ⟨fun row' hrow' => ?_, row, hfirst, ?_⟩
    · obtain ⟨hmem, hshared⟩ := mem_blobs_of_mem_firstHundred hrow'
      exact decode_of_shared hshaped hdecode hmem hshared
    · rw [hid, Uuid.decodeUuid_cell]

/-- **What a reachable node covers**: of the pairs that are due, those whose blob is among the first
    hundred rows. -/
theorem announced_rounds_iff {platform : Platform} {n : DaNode}
    (hn : n.Reached platform (DaNode.AddsSmall platform))
    (hwants : n.shared.db.Wants peers row p) (hid : row.id = u.cell)
    (visits : Stream' (Stream' Visit)) :
    Announced (announceRounds peers order n.shared.db.rounds visits n.shared.db).2 u p ↔
      row ∈ n.shared.db.firstHundred (order.scan n.shared.db.blobs.rows) := by
  rw [announced_announceRounds,
    selects_iff_mem_firstHundred hn.shaped hn.addedDecode hwants.mem hid]
  constructor
  · exact fun h => h.2.1
  · exact fun h => ⟨hwants.rounds_pos, h, hid ▸ hwants.due, hwants.known⟩

/-- **A backlog of at most a hundred blobs is covered.** -/
theorem announced_rounds_of_backlog_le {platform : Platform} {n : DaNode}
    (hn : n.Reached platform (DaNode.AddsSmall platform)) (hle : n.shared.db.backlog ≤ 100)
    (hwants : n.shared.db.Wants peers row p) (visits : Stream' (Stream' Visit)) :
    ∃ u, row.id = u.cell ∧
      Announced (announceRounds peers order n.shared.db.rounds visits n.shared.db).2 u p := by
  obtain ⟨u, hid⟩ := hwants.id_eq hn.shaped
  refine ⟨u, hid, (announced_rounds_iff hn hwants hid visits).2 ?_⟩
  -- the LIMIT cuts nothing off
  have hfilter := (order.perm n.shared.db.blobs.rows).filter n.shared.db.shared
  rw [Db.firstHundred, List.take_of_length_le (hfilter.length_eq.trans_le hle)]
  exact hfilter.mem_iff.2 hwants.mem_filter

end

end DaConcept.Node
