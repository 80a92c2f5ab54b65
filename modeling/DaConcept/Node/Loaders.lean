import DaConcept.Node.Query
import DaConcept.Node.System

set_option autoImplicit false

/-! # The batch loaders (`da-node/src/user_api/data_loader.rs`)

A loader is asked for several ids at once, in any order and with repeats, and answers with a map.
Its query yields the matching rows in any order, or an error. `batchLoad_eq_answerFor` says what
either comes to for one id, in terms of the table alone, so that neither order shows in the map. -/

namespace DaConcept.Node

/-- `UserBatcher::load` from the result of its query on. -/
def UserBatcher.answer (userIds : List Uuid) (fetched : Except SqlxError (List User)) :
    Uuid → Option (Except LoaderError User) :=
  batchLoad User.id (fun id => "User not found: " ++ id.toString) userIds fetched

/-- `BlobBatcher::load` from the result of its query on. -/
def BlobBatcher.answer (blobIds : List Uuid) (fetched : Except SqlxError (List Blob)) :
    Uuid → Option (Except LoaderError Blob) :=
  batchLoad Blob.id (fun id => "Blob not found: " ++ id.toString) blobIds fetched

/-! ## What a query yields -/

section

variable {ρ α : Type} (keyOf : ρ → Cell) (decode : ρ → Option α) (rows : List ρ)

/-- The result of a query for the rows with one of the ids: all of them, decoded, in some order, or
    an error. -/
def Fetched (ids : List Uuid) : Except SqlxError (List α) → Prop
  | .ok xs => ((rows.filter (fun r => ids.any (·.cell = keyOf r))).map decode).Perm (xs.map some)
  | .error _ => True

/-- The error of a query. -/
def failure : Except SqlxError (List α) → Option SqlxError
  | .ok _ => none
  | .error e => some e

/-- The answer that the table has for an id. -/
def answerFor (notFound : Uuid → String) (id : Uuid) : Option SqlxError → Except LoaderError α
  | some e => .error (.database e)
  | none =>
      match (rows.find? (fun r => keyOf r = id.cell)).bind decode with
      | some x => .ok x
      | none => .error (.notFound (notFound id))

/-- The requested ids are the keys of the map. If the query has failed, each of them has its error.
    Otherwise an id has its row if there is one, and an error if there is none. -/
structure AnswersOnce (ids : List Uuid) (fetched : Except SqlxError (List α))
    (map : Uuid → Option (Except LoaderError α)) : Prop where
  keys (id : Uuid) : (map id).isSome ↔ id ∈ ids
  found_iff (h : failure fetched = none) (id : Uuid) (hid : id ∈ ids) :
    (∃ x, map id = some (.ok x)) ↔ ∃ row ∈ rows, keyOf row = id.cell
  row_of_found (id : Uuid) (x : α) (h : map id = some (.ok x)) :
    ∃ row ∈ rows, keyOf row = id.cell ∧ decode row = some x
  missing (h : failure fetched = none) (id : Uuid) (hid : id ∈ ids)
    (hnone : ∀ row ∈ rows, keyOf row ≠ id.cell) : ∃ e, map id = some (.error e)
  failed (e : SqlxError) (h : failure fetched = some e) (id : Uuid) (hid : id ∈ ids) :
    map id = some (.error (.database e))

end

section

variable {ρ α : Type} {keyOf : ρ → Cell} {decode : ρ → Option α} {rows : List ρ}

theorem Fetched.perm {ids : List Uuid} {xs : List α} (h : Fetched keyOf decode rows ids (.ok xs)) :
    ((rows.filter (fun r => ids.any (·.cell = keyOf r))).map decode).Perm (xs.map some) := h

/-- A requested row is decoded. -/
theorem Fetched.exists_decode {ids : List Uuid} {xs : List α}
    (h : Fetched keyOf decode rows ids (.ok xs)) {row : ρ} (hrow : row ∈ rows) {id : Uuid}
    (hid : id ∈ ids) (hkey : keyOf row = id.cell) : ∃ x ∈ xs, decode row = some x := by
  have hmem : decode row ∈ (rows.filter (fun r => ids.any (·.cell = keyOf r))).map decode := by
    refine List.mem_map_of_mem (List.mem_filter.2 ⟨hrow, List.any_eq_true.2 ⟨id, hid, ?_⟩⟩)
    exact decide_eq_true hkey.symm
  obtain ⟨x, hx, hdecode⟩ := List.mem_map.1 (h.perm.mem_iff.1 hmem)
  exact ⟨x, hx, hdecode.symm⟩

/-- What is decoded is a requested row. -/
theorem Fetched.exists_row {ids : List Uuid} {xs : List α}
    (h : Fetched keyOf decode rows ids (.ok xs)) {x : α} (hx : x ∈ xs) :
    ∃ row ∈ rows, (∃ id ∈ ids, keyOf row = id.cell) ∧ decode row = some x := by
  obtain ⟨row, hrow, hdecode⟩ := List.mem_map.1 (h.perm.mem_iff.2 (List.mem_map_of_mem hx))
  obtain ⟨hmem, hany⟩ := List.mem_filter.1 hrow
  obtain ⟨id, hid, hkey⟩ := List.any_eq_true.1 hany
  exact ⟨row, hmem, ⟨id, hid, (of_decide_eq_true hkey).symm⟩, hdecode⟩

variable {idOf : α → Uuid}
  (hnodup : ∀ r ∈ rows, ∀ r' ∈ rows, keyOf r = keyOf r' → r = r')
  (hid : ∀ r x, decode r = some x → (keyOf r).decodeUuid = some (idOf x))
include hid

theorem Fetched.idOf_eq {ids : List Uuid} {xs : List α}
    (h : Fetched keyOf decode rows ids (.ok xs)) {x : α} (hx : x ∈ xs) :
    idOf x ∈ ids ∧ ∃ row ∈ rows, keyOf row = (idOf x).cell ∧ decode row = some x := by
  obtain ⟨row, hrow, ⟨id, hmem, hkey⟩, hdecode⟩ := h.exists_row hx
  have heq := hid row x hdecode
  rw [hkey, Uuid.decodeUuid_cell, Option.some.injEq] at heq
  subst heq
  exact ⟨hmem, row, hrow, hkey, hdecode⟩

include hnodup

/-- **The answer for an id** depends on the table, on whether the id was requested, and on the error
    of the query. -/
theorem batchLoad_eq_answerFor {notFound : Uuid → String} {ids : List Uuid}
    {fetched : Except SqlxError (List α)} (h : Fetched keyOf decode rows ids fetched) (id : Uuid) :
    batchLoad idOf notFound ids fetched id
      = if id ∈ ids then some (answerFor keyOf decode rows notFound id (failure fetched))
        else none := by
  rcases fetched with e | xs
  · exact batchLoad_error ids e id
  by_cases hmem : id ∈ ids
  · rw [if_pos hmem]
    cases hfind : rows.find? (fun r => keyOf r = id.cell) with
    | none =>
        -- no row has the id, so nothing that was fetched has it
        have hnone : ∀ x ∈ xs, idOf x ≠ id := by
          rintro x hx rfl
          obtain ⟨-, row, hrow, hkey, -⟩ := h.idOf_eq hid hx
          simpa [hkey] using List.find?_eq_none.1 hfind row hrow
        rw [batchLoad_of_not_mem hmem hnone]
        simp only [answerFor, failure, hfind, Option.bind_none]
    | some row =>
        have hrow := List.mem_of_find?_eq_some hfind
        have hkey : keyOf row = id.cell := by simpa using List.find?_some hfind
        obtain ⟨x, hx, hdecode⟩ := h.exists_decode hrow hmem hkey
        have hx' := hid row x hdecode
        rw [hkey, Uuid.decodeUuid_cell, Option.some.injEq] at hx'
        subst hx'
        -- so the last value that the loop stores under the id is the only one
        have huniq : ∀ y ∈ xs, idOf y = idOf x → y = x := by
          intro y hy heq
          obtain ⟨-, row', hrow', hkey', hdecode'⟩ := h.idOf_eq hid hy
          rw [heq, ← hkey] at hkey'
          rw [hnodup row' hrow' row hrow hkey', hdecode] at hdecode'
          exact (Option.some.inj hdecode').symm
        rw [batchLoad_of_mem hmem hx huniq]
        simp only [answerFor, failure, hfind, Option.bind_some, hdecode]
  · rw [if_neg hmem]
    refine batchLoad_of_not_requested hmem ?_
    rintro x hx rfl
    exact hmem (h.idOf_eq hid hx).1

/-- The map does not depend on the order or the repeats of the ids, nor on that of the rows. -/
theorem batchLoad_congr {notFound : Uuid → String} {ids ids' : List Uuid}
    {fetched fetched' : Except SqlxError (List α)} (h : Fetched keyOf decode rows ids fetched)
    (h' : Fetched keyOf decode rows ids' fetched') (hids : ∀ id, id ∈ ids ↔ id ∈ ids')
    (hfailure : failure fetched = failure fetched') :
    batchLoad idOf notFound ids fetched = batchLoad idOf notFound ids' fetched' := by
  funext id
  rw [batchLoad_eq_answerFor hnodup hid h, batchLoad_eq_answerFor hnodup hid h', hfailure]
  simp only [hids]

omit hid hnodup in
theorem answerFor_eq_ok {notFound : Uuid → String} {id : Uuid} {e : Option SqlxError} {x : α}
    (h : answerFor keyOf decode rows notFound id e = .ok x) :
    ∃ row ∈ rows, keyOf row = id.cell ∧ decode row = some x := by
  cases e with
  | some e => cases h
  | none =>
      cases hfind : (rows.find? (fun r => keyOf r = id.cell)).bind decode with
      | none =>
          simp only [answerFor, hfind] at h
          cases h
      | some y =>
          simp only [answerFor, hfind] at h
          obtain ⟨row, hrow, hdecode⟩ := Option.bind_eq_some_iff.1 hfind
          refine ⟨row, List.mem_of_find?_eq_some hrow, ?_, hdecode.trans ?_⟩
          · simpa using List.find?_some hrow
          · rw [Except.ok.inj h]

omit hid in
theorem answerFor_of_row {notFound : Uuid → String} {row : ρ} (hrow : row ∈ rows) {id : Uuid}
    (hkey : keyOf row = id.cell) {x : α} (hdecode : decode row = some x) :
    answerFor keyOf decode rows notFound id none = .ok x := by
  have hfind : rows.find? (fun r => keyOf r = id.cell) = some row := by
    cases hfind : rows.find? (fun r => keyOf r = id.cell) with
    | none => exact absurd (decide_eq_true hkey) (List.find?_eq_none.1 hfind row hrow)
    | some row' =>
        have hkey' : keyOf row' = id.cell := by simpa using List.find?_some hfind
        rw [hnodup row' (List.mem_of_find?_eq_some hfind) row hrow (hkey'.trans hkey.symm)]
  simp only [answerFor, hfind, Option.bind_some, hdecode]

theorem batchLoad_answersOnce {notFound : Uuid → String} {ids : List Uuid}
    {fetched : Except SqlxError (List α)} (h : Fetched keyOf decode rows ids fetched) :
    AnswersOnce keyOf decode rows ids fetched (batchLoad idOf notFound ids fetched) := by
  have hmap (id : Uuid) : batchLoad idOf notFound ids fetched id
      = if id ∈ ids then some (answerFor keyOf decode rows notFound id (failure fetched))
        else none := batchLoad_eq_answerFor hnodup hid h id
  refine ⟨fun id => ?_, fun hok id hmem => ?_, fun id x hx => ?_, fun hok id hmem hnone => ?_,
    fun e he id hmem => ?_⟩
  · rw [hmap]
    by_cases hmem : id ∈ ids <;> simp [hmem]
  · rw [hmap, if_pos hmem]
    constructor
    · rintro ⟨x, hx⟩
      obtain ⟨row, hrow, hkey, -⟩ := answerFor_eq_ok (Option.some.inj hx)
      exact ⟨row, hrow, hkey⟩
    · rintro ⟨row, hrow, hkey⟩
      obtain ⟨xs, rfl⟩ : ∃ xs, fetched = .ok xs := by
        cases fetched with
        | ok xs => exact ⟨xs, rfl⟩
        | error e => cases hok
      obtain ⟨x, -, hdecode⟩ := h.exists_decode hrow hmem hkey
      exact ⟨x, congrArg some (answerFor_of_row hnodup hrow hkey hdecode)⟩
  · rw [hmap] at hx
    by_cases hmem : id ∈ ids
    · rw [if_pos hmem] at hx
      exact answerFor_eq_ok (Option.some.inj hx)
    · rw [if_neg hmem] at hx
      cases hx
  · have hfind : rows.find? (fun r => keyOf r = id.cell) = none :=
      List.find?_eq_none.2 fun row hrow => by simpa using hnone row hrow
    refine ⟨.notFound (notFound id), ?_⟩
    rw [hmap, if_pos hmem, hok]
    simp only [answerFor, hfind, Option.bind_none]
  · rw [hmap, if_pos hmem, he]
    rfl

end

/-! ## The two loaders -/

theorem UserRow.decodeUuid_of_decode (row : UserRow) (user : User) (h : row.decode = some user) :
    row.id.decodeUuid = some user.id := by
  rw [UserRow.decode, Option.bind_eq_bind, Option.bind_eq_some_iff] at h
  obtain ⟨id, hid, huser⟩ := h
  rw [hid, ← Option.some.inj huser]

theorem BlobRow.decodeUuid_of_decode (row : BlobRow) (blob : Blob) (h : row.decode = some blob) :
    row.id.decodeUuid = some blob.id := (BlobRow.decode_eq_some h).1

section
variable (db : Db)

theorem UserBatcher.answersOnce {ids : List Uuid} {fetched : Except SqlxError (List User)}
    (h : Fetched UserRow.id UserRow.decode db.users.rows ids fetched) :
    AnswersOnce UserRow.id UserRow.decode db.users.rows ids fetched
      (UserBatcher.answer ids fetched) :=
  batchLoad_answersOnce (fun _ hr _ hr' => Table.eq_of_mem hr hr') UserRow.decodeUuid_of_decode h

theorem Db.eq_of_mem_live {row row' : BlobRow} (h : row ∈ db.blobs.rows.filter (·.live))
    (h' : row' ∈ db.blobs.rows.filter (·.live)) (hid : row.id = row'.id) : row = row' :=
  Table.eq_of_mem (List.mem_of_mem_filter h) (List.mem_of_mem_filter h') hid

theorem BlobBatcher.answersOnce {ids : List Uuid} {fetched : Except SqlxError (List Blob)}
    (h : Fetched BlobRow.id BlobRow.decode (db.blobs.rows.filter (·.live)) ids fetched) :
    AnswersOnce BlobRow.id BlobRow.decode (db.blobs.rows.filter (·.live)) ids fetched
      (BlobBatcher.answer ids fetched) :=
  batchLoad_answersOnce (fun _ hr _ hr' => db.eq_of_mem_live hr hr')
    BlobRow.decodeUuid_of_decode h

/-- What the queries of the model fetch is one of the results above. -/
theorem Db.fetched_selectUsers (ids : List Uuid) :
    Fetched UserRow.id UserRow.decode db.users.rows ids (db.selectUsers ids) := by
  rw [Db.selectUsers]
  split
  · next users h => exact List.Perm.of_eq (map_eq_of_mapM_eq_some h)
  · trivial

theorem Db.fetched_selectBlobs (ids : List Uuid) :
    Fetched BlobRow.id BlobRow.decode (db.blobs.rows.filter (·.live)) ids (db.selectBlobs ids) := by
  rw [Db.selectBlobs]
  split
  · next blobs h =>
      rw [← List.filter_filter] at h
      exact List.Perm.of_eq (map_eq_of_mapM_eq_some h)
  · trivial

/-- The loaders as the resolvers call them. -/
theorem UserBatcher.load_answersOnce (ids : List Uuid) :
    AnswersOnce UserRow.id UserRow.decode db.users.rows ids (db.selectUsers ids)
      (UserBatcher.load ids db) := UserBatcher.answersOnce db (db.fetched_selectUsers ids)

theorem BlobBatcher.load_answersOnce (ids : List Uuid) :
    AnswersOnce BlobRow.id BlobRow.decode (db.blobs.rows.filter (·.live)) ids (db.selectBlobs ids)
      (BlobBatcher.load ids db) := BlobBatcher.answersOnce db (db.fetched_selectBlobs ids)

end

/-- **The loaders answer every id exactly once**, whatever is in the tables and whether the query
    succeeds or fails, and the same to ids in another order or with repeats. -/
theorem loaders_answer_once (db : Db) :
    (∀ ids fetched, Fetched UserRow.id UserRow.decode db.users.rows ids fetched →
      AnswersOnce UserRow.id UserRow.decode db.users.rows ids fetched
        (UserBatcher.answer ids fetched) ∧
      ∀ ids' fetched', Fetched UserRow.id UserRow.decode db.users.rows ids' fetched' →
        (∀ id, id ∈ ids ↔ id ∈ ids') → failure fetched = failure fetched' →
        UserBatcher.answer ids fetched = UserBatcher.answer ids' fetched') ∧
    ∀ ids fetched, Fetched BlobRow.id BlobRow.decode (db.blobs.rows.filter (·.live)) ids fetched →
      AnswersOnce BlobRow.id BlobRow.decode (db.blobs.rows.filter (·.live)) ids fetched
        (BlobBatcher.answer ids fetched) ∧
      ∀ ids' fetched',
        Fetched BlobRow.id BlobRow.decode (db.blobs.rows.filter (·.live)) ids' fetched' →
        (∀ id, id ∈ ids ↔ id ∈ ids') → failure fetched = failure fetched' →
        BlobBatcher.answer ids fetched = BlobBatcher.answer ids' fetched' := by
  constructor
  · intro ids fetched h
    refine ⟨UserBatcher.answersOnce db h, ?_⟩
    intro ids' fetched' h' hids hfailure
    exact batchLoad_congr (fun _ hr _ hr' => Table.eq_of_mem hr hr') UserRow.decodeUuid_of_decode
      h h' hids hfailure
  · intro ids fetched h
    refine ⟨BlobBatcher.answersOnce db h, ?_⟩
    intro ids' fetched' h' hids hfailure
    exact batchLoad_congr (fun _ hr _ hr' => db.eq_of_mem_live hr hr') BlobRow.decodeUuid_of_decode
      h h' hids hfailure

/-- A node with the sample blob, asked for it twice and for another one, and for a user while the
    query fails. -/
theorem loaders_answer_once_sample :
    ∃ db : Db,
      (∃ e, BlobBatcher.answer [Uuid.sample 2, Uuid.sample 7, Uuid.sample 2] (.ok [Blob.sample])
        (Uuid.sample 7) = some (.error e)) ∧
      BlobBatcher.answer [Uuid.sample 2, Uuid.sample 7, Uuid.sample 2] (.ok [Blob.sample])
        = BlobBatcher.answer [Uuid.sample 7, Uuid.sample 2] (.ok [Blob.sample]) ∧
      (∃ blob, BlobBatcher.answer [Uuid.sample 2, Uuid.sample 7, Uuid.sample 2] (.ok [Blob.sample])
        (Uuid.sample 2) = some (.ok blob)) ∧
      UserBatcher.answer [Uuid.sample 1] (.error .columnDecode) (Uuid.sample 1)
        = some (.error (.database .columnDecode)) ∧ BlobRow.sample ∈ db.blobs.rows := by
  let db : Db := { Db.empty with blobs := ⟨[BlobRow.sample], List.nodup_singleton _⟩ }
  have hlong : Fetched BlobRow.id BlobRow.decode (db.blobs.rows.filter (·.live))
      [Uuid.sample 2, Uuid.sample 7, Uuid.sample 2] (.ok [Blob.sample]) :=
    List.Perm.of_eq (by decide +kernel)
  have hshort : Fetched BlobRow.id BlobRow.decode (db.blobs.rows.filter (·.live))
      [Uuid.sample 7, Uuid.sample 2] (.ok [Blob.sample]) :=
    List.Perm.of_eq (by decide +kernel)
  obtain ⟨hanswers, hsame⟩ := (loaders_answer_once db).2 _ _ hlong
  have husers := ((loaders_answer_once db).1 [Uuid.sample 1] (.error .columnDecode) trivial).1
  refine ⟨db, hanswers.missing rfl _ (by decide) (by decide), ?_, ?_, ?_, List.mem_singleton.2 rfl⟩
  · exact hsame _ _ hshort (by simp) rfl
  · exact (hanswers.found_iff rfl _ (by decide)).2 ⟨BlobRow.sample, by decide, by decide⟩
  · exact husers.failed _ rfl _ (by decide)

end DaConcept.Node
