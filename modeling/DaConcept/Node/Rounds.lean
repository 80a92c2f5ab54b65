import DaConcept.Node.Reach

set_option autoImplicit false

/-! # One call of `announce_blobs`

The call as a whole, `announceBlobs`, with no other activity in between: a loop over the selected
blobs, and for each a loop over its pending peers. `announceBlobs_solo_iff` says that it is what the
sync loop does by itself.

An answered announcement makes a row pending that was not completed, and a failed one changes
nothing. So a call announces the pairs that are due before it (`announced_iff`), and leaves the
blobs, and which pairs are due, as they were (`sameDue_announceBlobs`). -/

namespace DaConcept.Node

/-! ## The call -/

/-- An order in which the database yields rows to a query that asks for none. -/
structure ScanOrder (ρ : Type) where
  scan : List ρ → List ρ
  perm : ∀ rows, (scan rows).Perm rows

/-- What comes back for an announcement, and the clock at the UPDATE after it. -/
structure Answer where
  reply : RpcReply
  now : Timestamp

/-- What the environment supplies for one blob: the order of its pending peers and the answers to
    its announcements. -/
structure Visit where
  order : ScanOrder SyncStatusRow
  answers : Stream' Answer

/-- What the environment supplies to a call. -/
structure Round where
  order : ScanOrder BlobRow
  visits : Stream' Visit

/-- The rows as they are stored, and the same reply to every announcement. -/
def Visit.const (reply : RpcReply) : Visit := ⟨⟨id, .refl⟩, Stream'.const ⟨reply, 0⟩⟩

def Round.const (reply : RpcReply) : Round := ⟨⟨id, .refl⟩, Stream'.const (Visit.const reply)⟩

/-- An announcement of a blob to a peer. -/
structure Announcement where
  blob : Blob
  peerId : String
  reply : RpcReply
deriving DecidableEq

/-- What a call comes to: the database, the announcements made, and the result. -/
structure AnnounceRun where
  db : Db
  announced : List Announcement
  result : Except DANodeError Unit

/-- What the loop body does with an answer: an error is only logged. -/
def Answer.record (a : Answer) (blobId : Uuid) (peerId : String) (db : Db) : Db :=
  match PeerClient.announceBlob a.reply with
  -- whether the peer accepted is not looked at
  | .ok _ => setBlobStatusAsPending a.now blobId peerId db
  | .error _ => db

/-- The loop over the pending peers of a blob. -/
def announceToPeers (peers : Peers) (blob : Blob) :
    List String → Stream' Answer → Db → Db × List Announcement
  | [], _, db => (db, [])
  | peerId :: pending, answers, db =>
      match peers.lookup peerId with
      -- a row of a peer that is not in the map is skipped
      | none => announceToPeers peers blob pending answers db
      | some _ =>
          let rest := announceToPeers peers blob pending answers.tail
            (answers.head.record blob.id peerId db)
          (rest.1, ⟨blob, peerId, answers.head.reply⟩ :: rest.2)

/-- The loop over the blobs. -/
def announceEach (peers : Peers) : List Blob → Stream' Visit → Db → Db × List Announcement
  | [], _, db => (db, [])
  | blob :: blobs, visits, db =>
      let pending := getPendingPeers blob.id (visits.head.order.scan db.syncStatus.rows)
      let first := announceToPeers peers blob pending visits.head.answers db
      let rest := announceEach peers blobs visits.tail first.1
      (rest.1, first.2 ++ rest.2)

/-- `announce_blobs`. -/
def announceBlobs (peers : Peers) (round : Round) (db : Db) : AnnounceRun :=
  match getBlobsToShare db (round.order.scan db.blobs.rows) with
  | .error e => { db, announced := [], result := .error (.databaseConnection e) }
  | .ok blobs =>
      let run := announceEach peers blobs round.visits db
      { db := run.1, announced := run.2, result := .ok () }

/-- A blob has been announced to a peer. -/
def Announced (log : List Announcement) (blobId : Uuid) (peerId : String) : Prop :=
  ∃ a ∈ log, a.blob.id = blobId ∧ a.peerId = peerId

instance (log : List Announcement) (blobId : Uuid) (peerId : String) :
    Decidable (Announced log blobId peerId) :=
  inferInstanceAs (Decidable (∃ a ∈ log, _))

/-! ## Which pairs are due -/

/-- There is a row for the blob and the peer, and it is not completed. -/
def Db.Due (db : Db) (blobId : Cell) (peerId : String) : Prop :=
  ∃ r, db.syncStatus.lookup (blobId, peerId) = some r ∧ r.syncStatus ≠ .completed

/-- The blobs are the same, and the same pairs are due. -/
structure Db.SameDue (db db' : Db) : Prop where
  blobs_eq : db'.blobs = db.blobs
  due_iff : ∀ blobId peerId, db'.Due blobId peerId ↔ db.Due blobId peerId

theorem Db.SameDue.refl (db : Db) : db.SameDue db := ⟨rfl, fun _ _ => Iff.rfl⟩

theorem Db.SameDue.trans {db db' db'' : Db} (h : db.SameDue db') (h' : db'.SameDue db'') :
    db.SameDue db'' where
  blobs_eq := h'.blobs_eq.trans h.blobs_eq
  due_iff blobId peerId := (h'.due_iff blobId peerId).trans (h.due_iff blobId peerId)

theorem Db.due_iff_mem {db : Db} {blobId : Cell} {peerId : String} :
    db.Due blobId peerId ↔ ∃ r ∈ db.syncStatus.rows,
      r.blobId = blobId ∧ r.peerNodeId = peerId ∧ r.syncStatus ≠ .completed := by
  constructor
  · rintro ⟨r, hr, hstatus⟩
    obtain ⟨hmem, hkey⟩ := Table.lookup_eq_some_iff.1 hr
    exact ⟨r, hmem, (Prod.mk.inj hkey).1, (Prod.mk.inj hkey).2, hstatus⟩
  · rintro ⟨r, hmem, rfl, rfl, hstatus⟩
    exact ⟨r, Table.lookup_eq_some_iff.2 ⟨hmem, rfl⟩, hstatus⟩

theorem Db.Due.status {db : Db} {u : Uuid} {p : String} (h : db.Due u.cell p) :
    ∃ s, db.status u p = some s := by
  obtain ⟨r, hr, -⟩ := h
  exact ⟨r.syncStatus, by rw [Db.status, hr, Option.map_some]⟩

theorem mem_getPendingPeers {db : Db} {u : Uuid} {p : String} {scan : List SyncStatusRow}
    (hscan : scan.Perm db.syncStatus.rows) : p ∈ getPendingPeers u scan ↔ db.Due u.cell p := by
  rw [Db.due_iff_mem, getPendingPeers, List.mem_map]
  constructor
  · rintro ⟨r, hr, rfl⟩
    obtain ⟨hmem, hrow⟩ := List.mem_filter.1 hr
    simp only [Bool.and_eq_true, decide_eq_true_eq] at hrow
    exact ⟨r, hscan.mem_iff.1 hmem, hrow.1, rfl, hrow.2⟩
  · rintro ⟨r, hmem, hid, rfl, hstatus⟩
    refine ⟨r, List.mem_filter.2 ⟨hscan.mem_iff.2 hmem, ?_⟩, rfl⟩
    simp only [hid, hstatus, decide_true, ne_eq, not_false_eq_true, Bool.and_self]

theorem Db.shared_iff {db : Db} {row : BlobRow} :
    db.shared row = true ↔ row.live ∧ ∃ p, db.Due row.id p := by
  simp only [Db.shared, Bool.and_eq_true, List.any_eq_true, decide_eq_true_eq, Db.due_iff_mem]
  refine and_congr_right fun _ => ⟨?_, ?_⟩
  · rintro ⟨r, hr, hid, hstatus⟩
    exact ⟨r.peerNodeId, r, hr, hid, rfl, hstatus⟩
  · rintro ⟨p, r, hr, hid, -, hstatus⟩
    exact ⟨r, hr, hid, hstatus⟩

theorem Db.SameDue.shared_eq {db db' : Db} (h : db.SameDue db') : db'.shared = db.shared := by
  funext row
  rw [Bool.eq_iff_iff, Db.shared_iff, Db.shared_iff]
  simp only [h.due_iff]

/-- Making a row pending that is not completed. -/
theorem sameDue_setBlobStatusAsPending {db : Db} {u : Uuid} {p : String} (now : Timestamp)
    (h : db.Due u.cell p) : db.SameDue (setBlobStatusAsPending now u p db) where
  blobs_eq := rfl
  due_iff := by
    intro blobId peerId
    by_cases hkey : (blobId, peerId) = (u.cell, p)
    -- the row was due before, and is pending after
    · obtain ⟨rfl, rfl⟩ := Prod.mk.inj hkey
      obtain ⟨r, hr, hstatus⟩ := h
      refine iff_of_true ?_ ⟨r, hr, hstatus⟩
      have hrow := (Table.lookup_eq_some_iff.1 hr).2
      obtain ⟨hid, hpeer⟩ := Prod.mk.inj hrow
      rw [setBlobStatusAsPending, Db.Due, lookup_setStatus, hr]
      simp [hid, hpeer]
    · rw [setBlobStatusAsPending, Db.Due, Db.Due, lookup_setStatus_of_ne _ _ _ _ _ _ hkey]

theorem Answer.sameDue_record {db : Db} {u : Uuid} {p : String} (a : Answer)
    (h : db.Due u.cell p) : db.SameDue (a.record u p db) := by
  rw [Answer.record]
  cases PeerClient.announceBlob a.reply with
  | ok accepted => exact sameDue_setBlobStatusAsPending a.now h
  | error e => exact .refl db

/-! ## What a call announces, and what it leaves -/

section

variable {peers : Peers} {u : Uuid} {p : String}

theorem announced_append {l l' : List Announcement} :
    Announced (l ++ l') u p ↔ Announced l u p ∨ Announced l' u p := by
  simp only [Announced, List.mem_append, or_and_right, exists_or]

theorem announced_cons {a : Announcement} {l : List Announcement} :
    Announced (a :: l) u p ↔ (a.blob.id = u ∧ a.peerId = p) ∨ Announced l u p := by
  simp only [Announced, List.mem_cons, or_and_right, exists_or, exists_eq_left]

theorem not_announced_nil : ¬ Announced [] u p := by
  rintro ⟨a, ha, -⟩
  cases ha

theorem sameDue_announceToPeers (blob : Blob) (pending : List String) :
    ∀ (answers : Stream' Answer) (db : Db), (∀ q ∈ pending, db.Due blob.id.cell q) →
      db.SameDue (announceToPeers peers blob pending answers db).1 := by
  induction pending with
  | nil => exact fun answers db _ => .refl db
  | cons q pending ih =>
      intro answers db hdue
      rw [List.forall_mem_cons] at hdue
      rw [announceToPeers]
      cases peers.lookup q with
      | none => exact ih answers db hdue.2
      | some peer =>
          -- the peers behind it are due in the database that its answer leaves
          have hrecord := answers.head.sameDue_record hdue.1
          refine hrecord.trans (ih _ _ fun q' hq' => ?_)
          exact (hrecord.due_iff _ _).2 (hdue.2 q' hq')

theorem announced_announceToPeers (blob : Blob) (pending : List String) :
    ∀ (answers : Stream' Answer) (db : Db),
      Announced (announceToPeers peers blob pending answers db).2 u p ↔
        blob.id = u ∧ p ∈ pending ∧ (peers.lookup p).isSome := by
  induction pending with
  | nil =>
      intro answers db
      exact iff_of_false not_announced_nil fun h => List.not_mem_nil h.2.1
  | cons q pending ih =>
      intro answers db
      rw [announceToPeers]
      cases hpeer : peers.lookup q with
      | none =>
          -- the peer takes no answer, so the others get the same ones
          have hunknown : p = q → ¬ (peers.lookup p).isSome := by
            rintro rfl
            rw [hpeer]
            exact Bool.false_ne_true
          refine (ih answers db).trans ?_
          rw [List.mem_cons]
          tauto
      | some peer =>
          have hknown : p = q → (peers.lookup p).isSome := by
            rintro rfl
            rw [hpeer]
            rfl
          rw [announced_cons, ih, List.mem_cons, eq_comm (a := q)]
          tauto

theorem sameDue_announceEach (blobs : List Blob) :
    ∀ (visits : Stream' Visit) (db : Db), db.SameDue (announceEach peers blobs visits db).1 := by
  induction blobs with
  | nil => exact fun visits db => .refl db
  | cons blob blobs ih =>
      intro visits db
      refine .trans (sameDue_announceToPeers blob _ _ _ fun q hq => ?_) (ih _ _)
      exact (mem_getPendingPeers (visits.head.order.perm _)).1 hq

theorem announced_announceEach (blobs : List Blob) :
    ∀ (visits : Stream' Visit) (db : Db), Announced (announceEach peers blobs visits db).2 u p ↔
      (∃ blob ∈ blobs, blob.id = u) ∧ db.Due u.cell p ∧ (peers.lookup p).isSome := by
  induction blobs with
  | nil =>
      intro visits db
      refine iff_of_false not_announced_nil ?_
      rintro ⟨⟨blob, hblob, -⟩, -⟩
      cases hblob
  | cons blob blobs ih =>
      intro visits db
      -- the pending peers are read after the announcements before, which leave what is due alone
      have hpending (q : String) := mem_getPendingPeers (u := blob.id) (p := q)
        (visits.head.order.perm db.syncStatus.rows)
      have hfirst : db.SameDue (announceToPeers peers blob
          (getPendingPeers blob.id (visits.head.order.scan db.syncStatus.rows))
          visits.head.answers db).1 :=
        sameDue_announceToPeers blob _ _ _ fun q hq => (hpending q).1 hq
      rw [announceEach, announced_append, announced_announceToPeers, ih, hfirst.due_iff,
        List.exists_mem_cons_iff, hpending]
      constructor
      · rintro (⟨rfl, hdue, hknown⟩ | ⟨hblobs, hdue, hknown⟩)
        · exact ⟨Or.inl rfl, hdue, hknown⟩
        · exact ⟨Or.inr hblobs, hdue, hknown⟩
      · rintro ⟨rfl | hblobs, hdue, hknown⟩
        · exact Or.inl ⟨rfl, hdue, hknown⟩
        · exact Or.inr ⟨hblobs, hdue, hknown⟩

/-- The rows that `get_blobs_to_share` comes to. -/
def Db.firstHundred (db : Db) (scan : List BlobRow) : List BlobRow :=
  (scan.filter db.shared).take 100

/-- The first hundred rows decode, and the blob is one of them. -/
structure Db.Selects (db : Db) (scan : List BlobRow) (u : Uuid) : Prop where
  decodes : ∀ row ∈ db.firstHundred scan, row.decode.isSome
  selected : ∃ row ∈ db.firstHundred scan, row.id.decodeUuid = some u

theorem Db.SameDue.selects_iff {db db' : Db} (h : db.SameDue db') {scan : List BlobRow} :
    db'.Selects scan u ↔ db.Selects scan u := by
  have hrows : db'.firstHundred scan = db.firstHundred scan := by
    rw [Db.firstHundred, Db.firstHundred, h.shared_eq]
  constructor
  · rintro ⟨hdecodes, hselected⟩
    rw [hrows] at hdecodes hselected
    exact ⟨hdecodes, hselected⟩
  · rintro ⟨hdecodes, hselected⟩
    rw [← hrows] at hdecodes hselected
    exact ⟨hdecodes, hselected⟩

theorem getBlobsToShare_eq_ok_iff {db : Db} {scan : List BlobRow} {blobs : List Blob} :
    getBlobsToShare db scan = .ok blobs ↔
      (db.firstHundred scan).mapM BlobRow.decode = some blobs := by
  rw [getBlobsToShare, ← Db.firstHundred]
  cases (db.firstHundred scan).mapM BlobRow.decode with
  | none => exact iff_of_false (by rintro ⟨⟩) (by rintro ⟨⟩)
  | some blobs' => exact ⟨fun h => congrArg some (Except.ok.inj h), fun h => by cases h; rfl⟩

theorem selects_iff {db : Db} {scan : List BlobRow} :
    db.Selects scan u ↔
      ∃ blobs, getBlobsToShare db scan = .ok blobs ∧ ∃ blob ∈ blobs, blob.id = u := by
  constructor
  · rintro ⟨hdecodes, row, hrow, hid⟩
    obtain ⟨blobs, hblobs⟩ := mapM_eq_some_of_forall hdecodes
    obtain ⟨blob, hblob⟩ := Option.isSome_iff_exists.1 (hdecodes row hrow)
    refine ⟨blobs, getBlobsToShare_eq_ok_iff.2 hblobs, blob, ?_, ?_⟩
    · exact (mem_of_mapM_eq_some hblobs).2 ⟨row, hrow, hblob⟩
    · rw [(BlobRow.decode_eq_some hblob).1] at hid
      exact Option.some.inj hid
  · rintro ⟨blobs, hok, blob, hblob, rfl⟩
    have hblobs := getBlobsToShare_eq_ok_iff.1 hok
    obtain ⟨row, hrow, hdecode⟩ := (mem_of_mapM_eq_some hblobs).1 hblob
    refine ⟨fun row' hrow' => ?_, row, hrow, (BlobRow.decode_eq_some hdecode).1⟩
    rw [Option.isSome_iff_ne_none]
    intro hnone
    rw [mapM_eq_none_of_mem hrow' hnone] at hblobs
    cases hblobs

/-- **What a call announces**: the pairs of a blob it selects and a known peer that are due. -/
theorem announced_iff {round : Round} {db : Db} :
    Announced (announceBlobs peers round db).announced u p ↔
      db.Selects (round.order.scan db.blobs.rows) u ∧ db.Due u.cell p ∧
        (peers.lookup p).isSome := by
  rw [selects_iff, announceBlobs]
  cases getBlobsToShare db (round.order.scan db.blobs.rows) with
  | error e =>
      refine iff_of_false not_announced_nil ?_
      rintro ⟨⟨blobs, hok, -⟩, -⟩
      cases hok
  | ok blobs =>
      refine (announced_announceEach blobs round.visits db).trans (and_congr_left fun _ => ?_)
      constructor
      · exact fun hblob => ⟨blobs, rfl, hblob⟩
      · rintro ⟨blobs', hok, hblob⟩
        obtain rfl := Except.ok.inj hok
        exact hblob

/-- **What a call leaves**: the blobs, and which pairs are due. -/
theorem sameDue_announceBlobs (round : Round) (db : Db) :
    db.SameDue (announceBlobs peers round db).db := by
  rw [announceBlobs]
  cases getBlobsToShare db (round.order.scan db.blobs.rows) with
  | error e => exact .refl db
  | ok blobs => exact sameDue_announceEach blobs round.visits db

end

/-! ## The sync loop by itself -/

/-- The sync loop while no other activity runs, up to the end of `announce_blobs`. -/
def SyncLoop.solo (c : Shared × SyncLoop) (inp : LoopInput) : Option (Shared × SyncLoop) :=
  match c.2 with
  | .process => none
  | l => (l.step c.1 [] inp).map (fun next => (next.1, next.2.2))

/-- The announcement that a step gets the answer to. -/
def SyncLoop.announcement (c : Shared × SyncLoop) (inp : LoopInput) : List Announcement :=
  match c.2 with
  | .awaitReply _ blob peerId _ _ _ => [⟨blob, peerId, inp.reply⟩]
  | _ => []

/-- Where the loop stands when `announce_blobs` has returned. -/
def SyncLoop.returned : Except DANodeError Unit → SyncLoop
  | .ok () => .process
  | .error e => .stopped e

/-- Some run of the loop by itself leads from one state to the other, with these announcements. -/
def SyncLoop.SoloReaches (c : Shared × SyncLoop) (log : List Announcement)
    (final : Shared × SyncLoop) : Prop :=
  Run.Leads SyncLoop.solo SyncLoop.announcement c log final

/-- The order that yields these rows as this scan. -/
def ScanOrder.of {ρ : Type} [DecidableEq ρ] {rows scan : List ρ} (h : scan.Perm rows) :
    ScanOrder ρ where
  scan l := if l = rows then scan else l
  perm l := by
    split
    · next heq => exact heq ▸ h
    · exact List.Perm.refl l

theorem ScanOrder.scan_of {ρ : Type} [DecidableEq ρ] {rows scan : List ρ} (h : scan.Perm rows) :
    (ScanOrder.of h).scan rows = scan := if_pos rfl

section

variable {peers : Peers} {manager : SyncManager} {final : Shared × SyncLoop}

/-- The loop over the pending peers, taken by the machine. -/
theorem soloReaches_nextPeer (blob : Blob) (blobs : List Blob) (pending : List String) :
    ∀ (answers : Stream' Answer) (db : Db) (log : List Announcement),
      SyncLoop.SoloReaches (⟨(announceToPeers peers blob pending answers db).1, manager⟩,
        .nextBlob peers blobs) log final →
      SyncLoop.SoloReaches (⟨db, manager⟩, .nextPeer peers blob pending blobs)
        ((announceToPeers peers blob pending answers db).2 ++ log) final := by
  induction pending with
  | nil => exact fun answers db log h => .head ⟨0, [], [], .error .unavailable⟩ rfl h
  | cons q pending ih =>
      intro answers db log h
      rw [announceToPeers] at h ⊢
      cases hpeer : peers.lookup q with
      | none =>
          rw [hpeer] at h
          refine .head ⟨0, [], [], .error .unavailable⟩ ?_ (ih answers db log h)
          simp only [SyncLoop.solo, SyncLoop.step, hpeer, Option.map_some]
      | some peer =>
          rw [hpeer] at h
          -- the machine asks, takes the answer, and on a response runs the UPDATE
          let inp : LoopInput := ⟨answers.head.now, [], [], answers.head.reply⟩
          have hask : SyncLoop.solo (⟨db, manager⟩, .nextPeer peers blob (q :: pending) blobs) inp
              = some (⟨db, manager⟩, .awaitReply peers blob q peer.2 pending blobs) := by
            simp only [SyncLoop.solo, SyncLoop.step, hpeer, Option.map_some]
          refine .head inp hask ?_
          have hrest := ih _ _ log h
          cases hreply : PeerClient.announceBlob answers.head.reply with
          | ok accepted =>
              have hanswer : SyncLoop.solo
                  (⟨db, manager⟩, .awaitReply peers blob q peer.2 pending blobs) inp
                    = some (⟨db, manager⟩, .markPending peers blob q pending blobs) := by
                simp only [SyncLoop.solo, SyncLoop.step, inp, hreply, Option.map_some]
              have hmark : SyncLoop.solo
                  (⟨db, manager⟩, .markPending peers blob q pending blobs) inp
                    = some (⟨answers.head.record blob.id q db, manager⟩,
                        .nextPeer peers blob pending blobs) := by
                rw [Answer.record, hreply]
                rfl
              exact .head inp hanswer (.head inp hmark hrest)
          | error e =>
              have hanswer : SyncLoop.solo
                  (⟨db, manager⟩, .awaitReply peers blob q peer.2 pending blobs) inp
                    = some (⟨answers.head.record blob.id q db, manager⟩,
                        .nextPeer peers blob pending blobs) := by
                rw [Answer.record, hreply]
                simp only [SyncLoop.solo, SyncLoop.step, inp, hreply, Option.map_some]
              exact .head inp hanswer hrest

/-- The loop over the blobs, taken by the machine. -/
theorem soloReaches_nextBlob (blobs : List Blob) :
    ∀ (visits : Stream' Visit) (db : Db),
      SyncLoop.SoloReaches (⟨db, manager⟩, .nextBlob peers blobs)
        (announceEach peers blobs visits db).2
        (⟨(announceEach peers blobs visits db).1, manager⟩, .process) := by
  induction blobs with
  | nil => exact fun visits db => .head ⟨0, [], [], .error .unavailable⟩ rfl (.refl _ _)
  | cons blob blobs ih =>
      intro visits db
      let scan := visits.head.order.scan db.syncStatus.rows
      have hselect : SyncLoop.solo (⟨db, manager⟩, .nextBlob peers (blob :: blobs))
          ⟨0, [], scan, .error .unavailable⟩
            = some (⟨db, manager⟩,
                .nextPeer peers blob (getPendingPeers blob.id scan) blobs) := by
        simp only [SyncLoop.solo, SyncLoop.step, scan, if_pos (visits.head.order.perm _),
          Option.map_some]
      exact .head _ hselect (soloReaches_nextPeer blob blobs _ visits.head.answers db _
        (ih visits.tail _))

/-- `announce_blobs` has returned. -/
def SyncLoop.hasReturned : SyncLoop → Bool
  | .process | .stopped _ => true
  | _ => false

theorem SyncLoop.hasReturned_returned (result : Except DANodeError Unit) :
    (SyncLoop.returned result).hasReturned = true := by
  cases result <;> rfl

/-- A run of the machine to the end of the call takes a step from wherever it has not returned. -/
theorem SyncLoop.SoloReaches.next {s : Shared} {l : SyncLoop} {log : List Announcement}
    {result : Except DANodeError Unit} (hfinal : final.2 = SyncLoop.returned result)
    (hl : l.hasReturned = false) (h : SyncLoop.SoloReaches (s, l) log final) :
    ∃ inp c rest, SyncLoop.solo (s, l) inp = some c ∧ SyncLoop.SoloReaches c rest final ∧
      log = SyncLoop.announcement (s, l) inp ++ rest := by
  refine Run.Leads.next ?_ h
  rintro rfl
  have htrue := SyncLoop.hasReturned_returned result
  rw [← hfinal, hl] at htrue
  cases htrue

/-- Every run of the machine through the loop over the pending peers. -/
theorem SyncLoop.SoloReaches.exists_answers {result : Except DANodeError Unit}
    (hfinal : final.2 = SyncLoop.returned result) (blob : Blob) (blobs : List Blob)
    (pending : List String) : ∀ (db : Db) (log : List Announcement),
      SyncLoop.SoloReaches (⟨db, manager⟩, .nextPeer peers blob pending blobs) log final →
      ∃ (answers : Stream' Answer) (rest : List Announcement),
        log = (announceToPeers peers blob pending answers db).2 ++ rest ∧
        SyncLoop.SoloReaches (⟨(announceToPeers peers blob pending answers db).1, manager⟩,
          .nextBlob peers blobs) rest final := by
  induction pending with
  | nil =>
      intro db log h
      obtain ⟨inp, c, rest, hstep, hrest, rfl⟩ := h.next hfinal rfl
      obtain rfl := Option.some.inj hstep
      exact ⟨Stream'.const ⟨.error .unavailable, 0⟩, log, rfl, hrest⟩
  | cons q pending ih =>
      intro db log h
      obtain ⟨inp, c, rest, hstep, hrest, rfl⟩ := h.next hfinal rfl
      cases hpeer : peers.lookup q with
      | none =>
          simp only [SyncLoop.solo, SyncLoop.step, hpeer, Option.map_some] at hstep
          obtain rfl := Option.some.inj hstep
          obtain ⟨answers, rest', rfl, hrest'⟩ := ih db log hrest
          refine ⟨answers, rest', ?_⟩
          rw [announceToPeers, hpeer]
          exact ⟨rfl, hrest'⟩
      | some peer =>
          simp only [SyncLoop.solo, SyncLoop.step, hpeer, Option.map_some] at hstep
          obtain rfl := Option.some.inj hstep
          obtain ⟨inp', c, rest', hstep', hrest', rfl⟩ := hrest.next hfinal rfl
          cases hreply : PeerClient.announceBlob inp'.reply with
          | ok accepted =>
              simp only [SyncLoop.solo, SyncLoop.step, hreply, Option.map_some] at hstep'
              obtain rfl := Option.some.inj hstep'
              obtain ⟨inp'', c, rest'', hstep'', hrest'', rfl⟩ := hrest'.next hfinal rfl
              obtain rfl := Option.some.inj hstep''
              obtain ⟨answers, rest₃, rfl, hrest₃⟩ := ih _ _ hrest''
              -- the answer is in front of those that the rest of the run takes
              refine ⟨Stream'.cons ⟨inp'.reply, inp''.now⟩ answers, rest₃, ?_⟩
              rw [announceToPeers, hpeer]
              simp only [Stream'.tail_cons, Stream'.head_cons, Answer.record, hreply]
              exact ⟨rfl, hrest₃⟩
          | error e =>
              simp only [SyncLoop.solo, SyncLoop.step, hreply, Option.map_some] at hstep'
              obtain rfl := Option.some.inj hstep'
              obtain ⟨answers, rest₃, rfl, hrest₃⟩ := ih _ _ hrest'
              refine ⟨Stream'.cons ⟨inp'.reply, 0⟩ answers, rest₃, ?_⟩
              rw [announceToPeers, hpeer]
              simp only [Stream'.tail_cons, Stream'.head_cons, Answer.record, hreply]
              exact ⟨rfl, hrest₃⟩

/-- Every run of the machine through the loop over the blobs. -/
theorem SyncLoop.SoloReaches.exists_visits {result : Except DANodeError Unit}
    (hfinal : final.2 = SyncLoop.returned result) (blobs : List Blob) :
    ∀ (db : Db) (log : List Announcement),
      SyncLoop.SoloReaches (⟨db, manager⟩, .nextBlob peers blobs) log final →
      ∃ visits : Stream' Visit, log = (announceEach peers blobs visits db).2 ∧
        final = (⟨(announceEach peers blobs visits db).1, manager⟩, .process) := by
  induction blobs with
  | nil =>
      intro db log h
      obtain ⟨inp, c, rest, hstep, hrest, rfl⟩ := h.next hfinal rfl
      obtain rfl := Option.some.inj hstep
      obtain ⟨rfl, rfl⟩ := Run.Leads.eq_of_final (fun _ => rfl) hrest
      exact ⟨Stream'.const (Visit.const (.error .unavailable)), rfl, rfl⟩
  | cons blob blobs ih =>
      intro db log h
      obtain ⟨inp, c, rest, hstep, hrest, rfl⟩ := h.next hfinal rfl
      by_cases hscan : inp.statusScan.Perm db.syncStatus.rows
      · simp only [SyncLoop.solo, SyncLoop.step, if_pos hscan, Option.map_some] at hstep
        obtain rfl := Option.some.inj hstep
        obtain ⟨answers, rest', rfl, hrest'⟩ := hrest.exists_answers hfinal blob blobs _ _ _
        obtain ⟨visits, rfl, hend⟩ := ih _ _ hrest'
        -- the scan of this step becomes the order of the visit
        refine ⟨Stream'.cons ⟨.of hscan, answers⟩ visits, ?_⟩
        simp only [announceEach, Stream'.tail_cons, Stream'.head_cons, ScanOrder.scan_of]
        exact ⟨trivial, hend⟩
      · simp only [SyncLoop.solo, SyncLoop.step, if_neg hscan, Option.map_none] at hstep
        cases hstep

/-- Every run of the machine to the end of `announce_blobs` is a call. -/
theorem SyncLoop.SoloReaches.exists_round {db : Db} {log : List Announcement}
    {result : Except DANodeError Unit} (hfinal : final.2 = SyncLoop.returned result)
    (h : SyncLoop.SoloReaches (⟨db, manager⟩, .announce) log final) :
    ∃ (round : Round) (run : AnnounceRun), run = announceBlobs manager.peers round db ∧
      log = run.announced ∧ final = (⟨run.db, manager⟩, SyncLoop.returned run.result) := by
  obtain ⟨inp, c, rest, hstep, hrest, rfl⟩ := h.next hfinal rfl
  obtain rfl := Option.some.inj hstep
  obtain ⟨inp', c, rest', hstep', hrest', rfl⟩ := hrest.next hfinal rfl
  by_cases hscan : inp'.blobScan.Perm db.blobs.rows
  · simp only [SyncLoop.solo, SyncLoop.step, if_pos hscan] at hstep'
    cases hblobs : getBlobsToShare db inp'.blobScan with
    | ok blobs =>
        rw [hblobs] at hstep'
        obtain rfl := Option.some.inj hstep'
        obtain ⟨visits, hlog, hend⟩ :=
          SyncLoop.SoloReaches.exists_visits hfinal blobs _ _ hrest'
        refine ⟨⟨.of hscan, visits⟩, _, rfl, ?_⟩
        rw [announceBlobs, ScanOrder.scan_of, hblobs]
        exact ⟨hlog, hend⟩
    | error e =>
        rw [hblobs] at hstep'
        obtain rfl := Option.some.inj hstep'
        obtain ⟨rfl, hlog⟩ := Run.Leads.eq_of_final (fun _ => rfl) hrest'
        refine ⟨⟨.of hscan, Stream'.const (Visit.const (.error .unavailable))⟩, _, rfl, ?_⟩
        rw [announceBlobs, ScanOrder.scan_of, hblobs]
        exact ⟨hlog, rfl⟩
  · simp only [SyncLoop.solo, SyncLoop.step, if_neg hscan, Option.map_none] at hstep'
    cases hstep'

/-- Every call is a run of the machine. -/
theorem soloReaches_announceBlobs (round : Round) (db : Db) :
    SyncLoop.SoloReaches (⟨db, manager⟩, .announce)
      (announceBlobs manager.peers round db).announced
      (⟨(announceBlobs manager.peers round db).db, manager⟩,
        SyncLoop.returned (announceBlobs manager.peers round db).result) := by
  refine .head ⟨0, [], [], .error .unavailable⟩ rfl ?_
  let scan := round.order.scan db.blobs.rows
  cases hblobs : getBlobsToShare db scan with
  | ok blobs =>
      have hselect : SyncLoop.solo (⟨db, manager⟩, .selectBlobs manager.peers)
          ⟨0, scan, [], .error .unavailable⟩
            = some (⟨db, manager⟩, .nextBlob manager.peers blobs) := by
        simp only [SyncLoop.solo, SyncLoop.step, scan, if_pos (round.order.perm _)]
        rw [hblobs, Option.map_some]
      rw [announceBlobs, hblobs]
      exact .head _ hselect (soloReaches_nextBlob blobs round.visits db)
  | error e =>
      have hselect : SyncLoop.solo (⟨db, manager⟩, .selectBlobs manager.peers)
          ⟨0, scan, [], .error .unavailable⟩
            = some (⟨db, manager⟩, .stopped (.databaseConnection e)) := by
        simp only [SyncLoop.solo, SyncLoop.step, scan, if_pos (round.order.perm _)]
        rw [hblobs, Option.map_some]
      rw [announceBlobs, hblobs]
      exact .head _ hselect (.refl _ _)

/-- **The call is the sync loop by itself**: where the loop is led from the head of `announce_blobs`
    to its end, and what it announces on the way, is what the call comes to for some orders of the
    rows and some answers, and every such call is a run of the loop. -/
theorem announceBlobs_solo_iff {db : Db} {log : List Announcement} :
    SyncLoop.SoloReaches (⟨db, manager⟩, .announce) log final ∧
        (∃ result, final.2 = SyncLoop.returned result) ↔
      ∃ (round : Round) (run : AnnounceRun), run = announceBlobs manager.peers round db ∧
        log = run.announced ∧ final = (⟨run.db, manager⟩, SyncLoop.returned run.result) := by
  constructor
  · rintro ⟨h, result, hfinal⟩
    exact h.exists_round hfinal
  · rintro ⟨round, run, rfl, rfl, rfl⟩
    exact ⟨soloReaches_announceBlobs round db, _, rfl⟩

end

end DaConcept.Node
