import DaConcept.Node.Privacy
import DaConcept.Node.Stored

set_option autoImplicit false

/-! # Accounts and requests (`user_api/mod.rs`, `startup.rs`, `context.rs`)

`register`, `login`, and `graphql_handler`, which finds out in whose name a request is made. The
password hashes of `argon2` and the tokens of `jsonwebtoken` are parameters, with what their
documentation promises as `Auth.Lawful`. A `Service` is a node together with the requests it serves:
each has the user that its token named when it came, and its mutations run with that user while
anything else happens.

Users are only ever added, by `register`, and no two share a name or an address (`users_kept`); what
a registration or a login returns stays good for as long as the token lives (`login_registered`,
`issued_authenticates`), and nothing else opens a request in the name of a user
(`contexts_issued`). -/

namespace DaConcept.Node

open Crypto

/-! ## Data -/

/-- `NewUserInput`. -/
structure NewUserInput where
  username : String
  password : String
  email : Option String
deriving DecidableEq

/-- `LoginInput`. -/
structure LoginInput where
  username : String
  password : String
deriving DecidableEq

/-- `Claims`; the times are in seconds. -/
structure Claims where
  sub : Uuid
  exp : Int
  iat : Int
deriving DecidableEq

/-- `AuthPayload`. -/
structure AuthPayload where
  token : String
  user : UserSchema
deriving DecidableEq

/-- What `register` and `login` hand to `FieldError`; the errors of the libraries by their texts. -/
inductive AuthError where
  | message (text : String)
  | database (e : SqlxError)
  | passwordHash (text : String)
  | token (text : String)
deriving DecidableEq

/-- What accounts take from libraries. -/
structure Auth where
  /-- `SaltString::encode_b64` of the drawn bytes and `Argon2::hash_password` with it. -/
  hashPassword : Bytes → RandomBytes → Except String String
  /-- `PasswordHash::new`. -/
  parseHash : String → Except String Unit
  /-- `Argon2::verify_password`, against a text that was parsed. -/
  verifyPassword : Bytes → String → Bool
  /-- `jsonwebtoken::encode` with the secret of the node. -/
  encodeToken : Claims → Except String String
  /-- `jsonwebtoken::decode::<Claims>` with that secret and `Validation::default()`. -/
  decodeToken : Timestamp → String → Option Claims

/-- What the documentation of the libraries promises: a password verifies against its own hash, and
    a token decodes to what it was made of until it has been expired for 60 seconds. -/
structure Auth.Lawful (auth : Auth) : Prop where
  verify : ∀ password salt hash, auth.hashPassword password salt = .ok hash →
    auth.parseHash hash = .ok () ∧ auth.verifyPassword password hash = true
  decode : ∀ claims token now, auth.encodeToken claims = .ok token →
    auth.decodeToken now token = if now ≤ claims.exp + 60 then some claims else none

/-! ## Statements -/

/-- `INSERT INTO users`, whose columns `username` and `email` are UNIQUE. -/
def Db.insertUser (db : Db) (row : UserRow) : Option Db :=
  if db.users.rows.any (fun r =>
      r.username = row.username || (row.email.isSome && r.email = row.email)) then none
  else (db.users.insert row).map (fun users => { db with users })

/-- `SELECT * FROM users WHERE username = ?`. -/
def Db.selectUserByName (db : Db) (username : String) : Except SqlxError (Option User) :=
  match db.users.rows.find? (fun r => r.username = username) with
  | none => .ok none
  | some row =>
      match row.decode with
      | some user => .ok (some user)
      | none => .error .columnDecode

/-- `SELECT * FROM users WHERE id = ?`, the id bound as a `Uuid`; `graphql_handler` drops the
    error. -/
def Db.selectUserById (db : Db) (id : Uuid) : Option User :=
  (db.users.lookup id.cell).bind UserRow.decode

/-! ## `register` and `login` -/

/-- The claims of a token that is made now: it expires in seven days. -/
def Claims.issue (now : Timestamp) (sub : Uuid) : Claims where
  sub := sub
  exp := now + 7 * 24 * 60 * 60
  iat := now

/-- The token for a user, and what both mutations return with it. -/
def authPayload (auth : Auth) (now : Timestamp) (user : User) : Except AuthError AuthPayload :=
  match auth.encodeToken (Claims.issue now user.id) with
  | .ok token => .ok { token, user := UserSchema.new user }
  | .error e => .error (.token e)

/-- What the environment supplies to `register`. -/
structure RegisterInput where
  /-- The CURRENT_TIMESTAMP of the INSERT. -/
  createdAt : Timestamp
  /-- `Utc::now()`, for the token. -/
  now : Timestamp
  /-- The draw of `Uuid::new_v4`. -/
  newV4 : Uuid
  /-- The random bytes of the salt. -/
  salt : RandomBytes
  /-- The random bytes of the private key. -/
  random : RandomBytes

/-- `Mutation::register`. The row stays if the token cannot be made. -/
def register (platform : Platform) (auth : Auth) (inp : RegisterInput) (input : NewUserInput)
    (db : Db) : Db × Except AuthError AuthPayload :=
  match auth.hashPassword (utf8 input.password) inp.salt with
  | .error e => (db, .error (.passwordHash e))
  | .ok passwordHash =>
      let row := registeredRow platform inp.createdAt inp.newV4 inp.random input.username
        passwordHash input.email
      match db.insertUser row with
      | none => (db, .error (.database .uniqueViolation))
      | some db =>
          match row.decode with
          | some user => (db, authPayload auth inp.now user)
          | none => (db, .error (.database .columnDecode))

/-- `Mutation::login`. -/
def login (auth : Auth) (now : Timestamp) (input : LoginInput) (db : Db) :
    Except AuthError AuthPayload :=
  match db.selectUserByName input.username with
  | .error e => .error (.database e)
  | .ok none => .error (.message "User not found")
  | .ok (some user) =>
      match auth.parseHash user.passwordHash with
      | .error e => .error (.passwordHash e)
      | .ok () =>
          if auth.verifyPassword (utf8 input.password) user.passwordHash then
            authPayload auth now user
          else .error (.message "Invalid password")

/-! ## `graphql_handler` -/

/-- `HeaderValue::to_str`: a header is read as a text if its bytes are visible ASCII characters,
    blanks and tabs. -/
def headerToStr (value : Bytes) : Option String :=
  if value.all (fun b => (32 ≤ b && b < 127) || b = 9) then
    some (String.ofList (value.map (fun b => Char.ofNat b.toNat)))
  else none

/-- `str::strip_prefix`. -/
def stripPrefix (s pre : String) : Option String :=
  (s.toList.dropPrefix? pre.toList).map String.ofList

/-- The token in the `Authorization` header of a request. -/
def bearerToken (authorization : Option Bytes) : Option String := do
  let value ← authorization
  let authStr ← headerToStr value
  stripPrefix authStr "Bearer "

/-- The user that `graphql_handler` puts into the context. -/
def authenticate (auth : Auth) (now : Timestamp) (authorization : Option Bytes) (db : Db) :
    Option User := do
  let token ← bearerToken authorization
  let claims ← auth.decodeToken now token
  db.selectUserById claims.sub

/-! ## A node and its users -/

/-- A request that `graphql_handler` has taken. -/
structure GraphqlRequest where
  now : Timestamp
  /-- Its `Authorization` header. -/
  authorization : Option Bytes
  /-- `context.current_user`. -/
  currentUser : Option User

/-- A request as `graphql_handler` takes it. -/
def GraphqlRequest.new (auth : Auth) (now : Timestamp) (authorization : Option Bytes) (db : Db) :
    GraphqlRequest where
  now := now
  authorization := authorization
  currentUser := authenticate auth now authorization db

/-- A node that serves its users. -/
structure Service where
  node : DaNode
  /-- The requests since it was started. -/
  contexts : List GraphqlRequest
  /-- What `register` and `login` have returned, and when. -/
  issued : List (Timestamp × AuthPayload)

def Service.db (s : Service) : Db := s.node.shared.db

/-- A service that has just been installed. -/
def Service.start (config : P2PConfig) (peers : Peers) : Service :=
  ⟨.start config peers .empty, [], []⟩

/-- What can happen to a service. -/
inductive ServiceEvent where
  /-- Something happens to the node that no user asks for. -/
  | node (e : Event)
  /-- The node stops and starts again, on the same database. -/
  | restart (config : P2PConfig) (peers : Peers)
  /-- `graphql_handler` gets a request. -/
  | request (now : Timestamp) (authorization : Option Bytes)
  | register (inp : RegisterInput) (input : NewUserInput)
  | login (now : Timestamp) (input : LoginInput)
  /-- The `i`-th request calls `addBlob`. -/
  | addBlob (i : Nat) (blobInput : BlobInput)
  /-- The `i`-th request calls `deleteBlob`. -/
  | deleteBlob (i : Nat) (blobId : Uuid)

/-- A service whose node has another database. -/
def Service.withDb (s : Service) (db : Db) : Service :=
  { s with node := { s.node with shared := { s.node.shared with db } } }

/-- One step of a service; `none` if the event cannot happen. -/
def Service.step (platform : Platform) (auth : Auth) (s : Service) : ServiceEvent → Option Service
  | .node e =>
      if e.mutation?.isNone then (s.node.step platform e).map (fun node => { s with node })
      else none
  | .restart config peers => some { s with node := .start config peers s.db, contexts := [] }
  | .request now authorization =>
      some { s with contexts := s.contexts ++ [.new auth now authorization s.db] }
  | .register inp input =>
      let (db, result) := Node.register platform auth inp input s.db
      some { s.withDb db with
        issued := s.issued ++ result.toOption.toList.map (fun payload => (inp.now, payload)) }
  | .login now input =>
      some { s with
        issued := s.issued ++
          (Node.login auth now input s.db).toOption.toList.map (fun payload => (now, payload)) }
  | .addBlob i blobInput => do
      let c ← s.contexts[i]?
      let node ← s.node.step platform (.addBlob c.currentUser blobInput)
      some { s with node }
  | .deleteBlob i blobId => do
      let c ← s.contexts[i]?
      let node ← s.node.step platform (.deleteBlob c.currentUser blobId)
      some { s with node }

/-- What a step of a service comes to. -/
inductive Service.Next (platform : Platform) (auth : Auth) (s : Service) :
    ServiceEvent → Service → Prop
  | node {e : Event} {node : DaNode} (hown : e.mutation? = none)
      (hstep : s.node.step platform e = some node) : Next platform auth s (.node e) { s with node }
  | restarted (config : P2PConfig) (peers : Peers) :
      Next platform auth s (.restart config peers)
        { s with node := .start config peers s.db, contexts := [] }
  | requested (now : Timestamp) (authorization : Option Bytes) :
      Next platform auth s (.request now authorization)
        { s with contexts := s.contexts ++ [.new auth now authorization s.db] }
  | registered (inp : RegisterInput) (input : NewUserInput) :
      Next platform auth s (.register inp input)
        { s.withDb (Node.register platform auth inp input s.db).1 with
          issued := s.issued ++ (Node.register platform auth inp input s.db).2.toOption.toList.map
            (fun payload => (inp.now, payload)) }
  | loggedIn (now : Timestamp) (input : LoginInput) :
      Next platform auth s (.login now input)
        { s with
          issued := s.issued ++
            (Node.login auth now input s.db).toOption.toList.map (fun payload => (now, payload)) }
  | added {i : Nat} {blobInput : BlobInput} {c : GraphqlRequest} {node : DaNode}
      (hc : s.contexts[i]? = some c)
      (hstep : s.node.step platform (.addBlob c.currentUser blobInput) = some node) :
      Next platform auth s (.addBlob i blobInput) { s with node }
  | deleted {i : Nat} {blobId : Uuid} {c : GraphqlRequest} {node : DaNode}
      (hc : s.contexts[i]? = some c)
      (hstep : s.node.step platform (.deleteBlob c.currentUser blobId) = some node) :
      Next platform auth s (.deleteBlob i blobId) { s with node }

/-- **What a step of a service comes to.** -/
theorem Service.next_of_step {platform : Platform} {auth : Auth} {s s' : Service} {e : ServiceEvent}
    (h : s.step platform auth e = some s') : s.Next platform auth e s' := by
  cases e with
  | node e =>
      simp only [Service.step, Option.ite_none_right_eq_some, Option.map_eq_some_iff,
        Option.isNone_iff_eq_none] at h
      obtain ⟨hown, node, hstep, rfl⟩ := h
      exact .node hown hstep
  | restart config peers =>
      cases h
      exact .restarted config peers
  | request now authorization =>
      cases h
      exact .requested now authorization
  | register inp input =>
      rw [Service.step, Option.some.injEq] at h
      subst h
      exact .registered inp input
  | login now input =>
      cases h
      exact .loggedIn now input
  | addBlob i blobInput =>
      simp only [Service.step, Option.bind_eq_bind, Option.bind_eq_some_iff, Option.some.injEq] at h
      obtain ⟨c, hc, node, hstep, rfl⟩ := h
      exact .added hc hstep
  | deleteBlob i blobId =>
      simp only [Service.step, Option.bind_eq_bind, Option.bind_eq_some_iff, Option.some.injEq] at h
      obtain ⟨c, hc, node, hstep, rfl⟩ := h
      exact .deleted hc hstep

/-! ## A sample registration -/

/-- The libraries on one password and one token. -/
def Auth.sample : Auth where
  hashPassword password _ := if password = utf8 "secret" then .ok "$argon2id$" else .error ""
  parseHash hash := if hash = "$argon2id$" then .ok () else .error ""
  verifyPassword password hash := password = utf8 "secret" && hash = "$argon2id$"
  encodeToken claims :=
    if claims = Claims.issue 0 (Uuid.sample 1) then .ok "eyJ0.eyJz.c2ln" else .error ""
  decodeToken now token :=
    if token = "eyJ0.eyJz.c2ln" ∧ now ≤ 7 * 24 * 60 * 60 + 60 then
      some (Claims.issue 0 (Uuid.sample 1))
    else none

theorem Auth.lawful_sample : Auth.sample.Lawful where
  verify password salt hash h := by
    simp only [Auth.sample] at h ⊢
    split at h <;> cases h
    next hpassword => simp [hpassword]
  decode claims token now h := by
    simp only [Auth.sample] at h ⊢
    split at h <;> cases h
    next hclaims => simp [hclaims, Claims.issue]

def NewUserInput.sample : NewUserInput := ⟨"alice", "secret", none⟩

def RegisterInput.sample : RegisterInput := ⟨0, 0, Uuid.sample 1, sevens, sevens⟩

/-- The sample node, as a service without users. -/
def Service.sample : Service := .start DaNode.sample.shared.manager.config .empty

/-! ## What a step does to `users` -/

section

variable {platform : Platform} {auth : Auth}

theorem Write.users_onDb (w : Write) (db : Db) : (w.onDb db).users = db.users := by
  cases w with
  | insertPending blobId => rw [Write.onDb_insertPending]
  | _ => rfl

theorem registeredRow_decode (createdAt : Timestamp) (newV4 : Uuid) (random : RandomBytes)
    (username passwordHash : String) (email : Option String) :
    (registeredRow platform createdAt newV4 random username passwordHash email).decode
      = some ((registeredRow platform createdAt newV4 random username passwordHash email).user
        newV4) := UserRow.decode_of_id rfl

/-- `register` changes nothing, or it has inserted its row and makes the token. -/
theorem register_cases (platform : Platform) (auth : Auth) (inp : RegisterInput)
    (input : NewUserInput) (db : Db) :
    (∃ e, register platform auth inp input db = (db, .error e)) ∨
    ∃ passwordHash db', auth.hashPassword (utf8 input.password) inp.salt = .ok passwordHash ∧
      db.insertUser (registeredRow platform inp.createdAt inp.newV4 inp.random input.username
        passwordHash input.email) = some db' ∧
      register platform auth inp input db = (db', authPayload auth inp.now
        ((registeredRow platform inp.createdAt inp.newV4 inp.random input.username passwordHash
          input.email).user inp.newV4)) := by
  rw [register]
  rcases hhash : auth.hashPassword (utf8 input.password) inp.salt with e | passwordHash
  · exact Or.inl ⟨_, rfl⟩
  · rcases hinsert : db.insertUser (registeredRow platform inp.createdAt inp.newV4 inp.random
        input.username passwordHash input.email) with _ | db'
    · refine Or.inl ⟨.database .uniqueViolation, ?_⟩
      simp only [hinsert]
    · refine Or.inr ⟨passwordHash, db', rfl, hinsert, ?_⟩
      simp only [hinsert, registeredRow_decode]

/-- What an INSERT into `users` leaves: the row comes last, and its id, its name and its address
    were free. -/
theorem Db.insertUser_eq_some {db db' : Db} {row : UserRow} (h : db.insertUser row = some db') :
    db'.users.rows = db.users.rows ++ [row] ∧ db'.blobs = db.blobs ∧
      db'.syncStatus = db.syncStatus ∧
      ∀ old ∈ db.users.rows, old.id ≠ row.id ∧ old.username ≠ row.username ∧
        ∀ email, old.email = some email → row.email ≠ some email := by
  rw [Db.insertUser] at h
  split at h
  · cases h
  · next hfree =>
      obtain ⟨users, hinsert, rfl⟩ := Option.map_eq_some_iff.1 h
      have hid := Table.lookup_eq_none_iff.1 (Table.lookup_eq_none_of_insert hinsert)
      refine ⟨Table.rows_of_insert hinsert, rfl, rfl, fun old hold => ⟨hid old hold, ?_, ?_⟩⟩
      · intro hname
        exact hfree (List.any_eq_true.2 ⟨old, hold, by simp [hname]⟩)
      · intro email hemail hnew
        exact hfree (List.any_eq_true.2 ⟨old, hold, by simp [hnew, hemail]⟩)

/-- `register` leaves the other tables alone. -/
theorem register_blobs (platform : Platform) (auth : Auth) (inp : RegisterInput)
    (input : NewUserInput) (db : Db) :
    (register platform auth inp input db).1.blobs = db.blobs ∧
      (register platform auth inp input db).1.syncStatus = db.syncStatus := by
  rcases register_cases platform auth inp input db with
    ⟨err, hreg⟩ | ⟨passwordHash, db', -, hinsert, hreg⟩
  · rw [hreg]
    exact ⟨rfl, rfl⟩
  · rw [hreg]
    exact ⟨(Db.insertUser_eq_some hinsert).2.1, (Db.insertUser_eq_some hinsert).2.2.1⟩

/-- A row that comes with `register` has the key it generates. -/
theorem register_privateKey {inp : RegisterInput} {input : NewUserInput} {db : Db} {row : UserRow}
    (hrow : row ∈ (register platform auth inp input db).1.users.rows)
    (hnew : row ∉ db.users.rows) :
    row.privateKey = (PrivateKey.generate inp.random).getEncodedPrivateKey platform.base64 := by
  rcases register_cases platform auth inp input db with
    ⟨err, hreg⟩ | ⟨passwordHash, db', -, hinsert, hreg⟩
  · rw [hreg] at hrow
    exact absurd hrow hnew
  · rw [hreg, (Db.insertUser_eq_some hinsert).1] at hrow
    rcases List.mem_append.1 hrow with hold | hlast
    · exact absurd hold hnew
    · rw [List.mem_singleton.1 hlast]
      rfl

/-- A step leaves `users` alone, or it is a `register` that inserts its row. -/
theorem Service.users_step {s s' : Service} {e : ServiceEvent}
    (h : s.step platform auth e = some s') :
    s'.db.users = s.db.users ∨
    ∃ inp input passwordHash, e = .register inp input ∧
      auth.hashPassword (utf8 input.password) inp.salt = .ok passwordHash ∧
      s.db.insertUser (registeredRow platform inp.createdAt inp.newV4 inp.random input.username
        passwordHash input.email) = some s'.db := by
  have hnode {e : Event} {node : DaNode} (hstep : s.node.step platform e = some node) :
      node.shared.db.users = s.db.users := by
    rw [DaNode.step_shared hstep]
    exact Write.users_onDb _ _
  cases Service.next_of_step h with
  | node hown hstep => exact Or.inl (hnode hstep)
  | registered inp input =>
      rcases register_cases platform auth inp input s.db with
        ⟨err, hreg⟩ | ⟨passwordHash, db', hhash, hinsert, hreg⟩
      · exact Or.inl (by rw [hreg]; rfl)
      · refine Or.inr ⟨inp, input, passwordHash, rfl, hhash, ?_⟩
        rw [hreg]
        exact hinsert
  | added hc hstep => exact Or.inl (hnode hstep)
  | deleted hc hstep => exact Or.inl (hnode hstep)
  | _ => exact Or.inl rfl

/-! ## What holds of the users -/

/-- The users of a database: their ids are those of UUIDs, no two share a name or an address, and
    each has a key that `register` generated. -/
structure Db.Accounts (platform : Platform) (db : Db) : Prop where
  ids : ∀ row ∈ db.users.rows, ∃ id : Uuid, row.id = id.cell
  usernames : (db.users.rows.map (·.username)).Nodup
  emails : (db.users.rows.filterMap (·.email)).Nodup
  keys : ∀ row ∈ db.users.rows, ∃ random : RandomBytes,
    row.privateKey = (PrivateKey.generate random).getEncodedPrivateKey platform.base64

theorem accounts_empty (platform : Platform) : Db.empty.Accounts platform where
  ids := List.forall_mem_nil _
  usernames := List.nodup_nil
  emails := List.nodup_nil
  keys := List.forall_mem_nil _

theorem Db.Accounts.of_users_eq {db db' : Db} (h : db.Accounts platform)
    (heq : db'.users = db.users) : db'.Accounts platform where
  ids := by rw [heq]; exact h.ids
  usernames := by rw [heq]; exact h.usernames
  emails := by rw [heq]; exact h.emails
  keys := by rw [heq]; exact h.keys

theorem Db.Accounts.insertUser {db db' : Db} {createdAt : Timestamp} {newV4 : Uuid}
    {random : RandomBytes} {username passwordHash : String} {email : Option String}
    (h : db.Accounts platform)
    (hinsert : db.insertUser
      (registeredRow platform createdAt newV4 random username passwordHash email) = some db') :
    db'.Accounts platform := by
  obtain ⟨hrows, -, -, hfree⟩ := Db.insertUser_eq_some hinsert
  refine ⟨?_, ?_, ?_, ?_⟩ <;> rw [hrows]
  · rw [List.forall_mem_append, List.forall_mem_singleton]
    exact ⟨h.ids, newV4, rfl⟩
  · rw [List.map_append, List.map_singleton]
    refine h.usernames.append (List.nodup_singleton _) (List.disjoint_singleton.2 ?_)
    rw [List.mem_map]
    rintro ⟨old, hold, hname⟩
    exact (hfree old hold).2.1 hname
  · rw [List.filterMap_append]
    refine h.emails.append ?_ ?_
    · cases email <;> simp [registeredRow]
    · intro address hold hnew
      obtain ⟨old, hmem, hemail⟩ := List.mem_filterMap.1 hold
      obtain ⟨row, hrow, hemail'⟩ := List.mem_filterMap.1 hnew
      obtain rfl := List.mem_singleton.1 hrow
      exact (hfree old hmem).2.2 address hemail hemail'
  · rw [List.forall_mem_append, List.forall_mem_singleton]
    exact ⟨h.keys, random, rfl⟩

theorem Service.accounts_step {s s' : Service} {e : ServiceEvent} (hs : s.db.Accounts platform)
    (h : s.step platform auth e = some s') : s'.db.Accounts platform := by
  rcases Service.users_step h with hsame | ⟨inp, input, passwordHash, -, -, hinsert⟩
  · exact hs.of_users_eq hsame
  · exact hs.insertUser hinsert

theorem Service.accounts {config : P2PConfig} {peers : Peers} {es : List ServiceEvent} {s : Service}
    (h : Run.exec (Service.step platform auth) (.start config peers) es = some s) :
    s.db.Accounts platform := by
  refine Run.exec_invariant (I := fun s : Service => s.db.Accounts platform) ?_ ?_ h
  · exact fun _ _ _ hs hstep => Service.accounts_step hs hstep
  · exact accounts_empty platform

theorem Service.users_prefix_step {s s' : Service} {e : ServiceEvent}
    (h : s.step platform auth e = some s') : s.db.users.rows <+: s'.db.users.rows := by
  rcases Service.users_step h with hsame | ⟨inp, input, passwordHash, -, -, hinsert⟩
  · rw [hsame]
  · rw [(Db.insertUser_eq_some hinsert).1]
    exact List.prefix_append _ _

/-- Users are only added. -/
theorem Service.users_prefix {s t : Service} {es : List ServiceEvent}
    (h : Run.exec (Service.step platform auth) s es = some t) :
    s.db.users.rows <+: t.db.users.rows :=
  Run.exec_invariant (I := fun t : Service => s.db.users.rows <+: t.db.users.rows)
    (fun _ _ _ ht hstep => ht.trans (Service.users_prefix_step hstep)) (List.prefix_refl _) h

/-- **Export and import are inverse**, for the keys of all numbers and all texts, so that the key in
    the row that `register` inserts gives the public key in every row that `add_blob` inserts for
    its user. -/
theorem export_import (platform : Platform)
    (hbase64 : ∀ bs, platform.base64.decode (platform.base64.encode bs) = .ok bs) :
    (∀ n, PrivateKey.tryFrom platform.base64
        ((PrivateKey.from n).getEncodedPrivateKey platform.base64) = .ok (PrivateKey.from n)) ∧
    (∀ t k, PrivateKey.tryFrom platform.base64 t = .ok k →
      PrivateKey.tryFrom platform.base64 (k.getEncodedPrivateKey platform.base64) = .ok k) ∧
    ∀ (auth : Auth) (inp : RegisterInput) (input : NewUserInput) (db : Db),
      ∀ userRow ∈ (register platform auth inp input db).1.users.rows, userRow ∉ db.users.rows →
      ∀ user, userRow.decode = some user →
      ∀ (inp' : MutationInput) (blobInput : BlobInput) (db' : Db),
      ∀ row ∈ (addBlob platform inp' (some user) blobInput db').1.blobs.rows,
        row ∉ db'.blobs.rows →
      PrivateKey.tryFrom platform.base64 user.privateKey = .ok (PrivateKey.generate inp.random) ∧
      row.publicKey
        = (PrivateKey.generate inp.random).publicKey.getEncodedPublicKey platform.base64 := by
  refine ⟨PrivateKey.tryFrom_getEncodedPrivateKey hbase64,
    fun t k => PrivateKey.tryFrom_of_tryFrom hbase64, ?_⟩
  intro auth inp input db userRow huserRow hnewUser user huser inp' blobInput db' row hrow hnew
  have hstored : PrivateKey.tryFrom platform.base64 user.privateKey
      = .ok (PrivateKey.generate inp.random) := by
    rw [UserRow.decode_privateKey huser, register_privateKey huserRow hnewUser]
    exact PrivateKey.tryFrom_getEncodedPrivateKey hbase64 _
  -- `add_blob` parses the stored text again, and gets the generated key
  obtain ⟨_, n, hsome, hkey, -, -, hpublic⟩ := addBlobRow_content (addBlobRow_of_mem hrow hnew)
  obtain rfl := Option.some.inj hsome
  rw [hstored, Except.ok.injEq] at hkey
  exact ⟨hstored, hkey ▸ hpublic⟩

/-- The exponent 5 with two zero bytes too many, and the first blob of a user who has registered. -/
theorem export_import_sample :
    (∃ k, PrivateKey.tryFrom Base64.standard "BQAA" = .ok k ∧
      PrivateKey.tryFrom Base64.standard (k.getEncodedPrivateKey Base64.standard) = .ok k) ∧
    ∃ userRow ∈ (register Platform.standard Auth.sample RegisterInput.sample NewUserInput.sample
        Db.empty).1.users.rows, ∃ user, userRow.decode = some user ∧
      ∃ row ∈ (addBlob Platform.standard MutationInput.sample (some user) ⟨"", none, none⟩
        Db.empty).1.blobs.rows,
        row.publicKey
          = (PrivateKey.generate sevens).publicKey.getEncodedPublicKey Base64.standard := by
  have hkey : PrivateKey.tryFrom Base64.standard "BQAA" = .ok (PrivateKey.from 5) := by
    decide +kernel
  have hadd : (register Platform.standard Auth.sample RegisterInput.sample NewUserInput.sample
      Db.empty).1.users.rows.any (fun userRow => userRow.decode.any (fun user =>
        (addBlob Platform.standard MutationInput.sample (some user) ⟨"", none, none⟩
          Db.empty).1.blobs.rows.length = 1)) = true := by decide +kernel
  obtain ⟨userRow, huserRow, hany⟩ := List.any_eq_true.1 hadd
  obtain ⟨user, huser, hlength⟩ := (Option.any_eq_true _ _).1 hany
  obtain ⟨row, hrows⟩ := List.length_eq_one_iff.1 (of_decide_eq_true hlength)
  have hrow : row ∈ (addBlob Platform.standard MutationInput.sample (some user) ⟨"", none, none⟩
      Db.empty).1.blobs.rows := by
    rw [hrows]
    exact List.mem_singleton_self _
  have h := export_import Platform.standard Base64.standard_decode_encode
  exact ⟨⟨_, hkey, h.2.1 _ _ hkey⟩, userRow, huserRow, user, huser, row, hrow,
    (h.2.2 _ _ _ _ _ huserRow List.not_mem_nil _ huser _ _ _ _ hrow List.not_mem_nil).2⟩

/-! ## Logging in -/

/-- The row of a name. -/
theorem Db.Accounts.selectUserByName {db : Db} (h : db.Accounts platform) {row : UserRow}
    {id : Uuid}
    (hrow : row ∈ db.users.rows) (hid : row.id = id.cell) :
    db.selectUserByName row.username = .ok (some (row.user id)) := by
  let byName : Table UserRow.username := ⟨db.users.rows, h.usernames⟩
  have hfind : db.users.rows.find? (fun r => r.username = row.username) = some row :=
    Table.mem_rows_iff (t := byName).1 hrow
  rw [Db.selectUserByName, hfind]
  simp only [UserRow.decode_of_id hid]

theorem Db.selectUserById_of_mem {db : Db} {row : UserRow} {id : Uuid}
    (hrow : row ∈ db.users.rows) (hid : row.id = id.cell) :
    db.selectUserById id = some (row.user id) := by
  have hlookup : db.users.lookup id.cell = some row := Table.lookup_eq_some_iff.2 ⟨hrow, hid⟩
  rw [Db.selectUserById, hlookup, Option.bind_some, UserRow.decode_of_id hid]

/-- **Who has registered can log in.** At whatever later time, under the name of the registration
    exactly the passwords that verify against its hash are let in, that of the registration among
    them, and what they get is a token for the user that was registered; provided that
    `jsonwebtoken` makes one of the claims of the login. -/
theorem login_registered (hauth : auth.Lawful) {config : P2PConfig} {peers : Peers}
    {es₁ es₂ : List ServiceEvent} {s t : Service} {inp : RegisterInput} {input : NewUserInput}
    {payload : AuthPayload}
    (h₁ : Run.exec (Service.step platform auth) (.start config peers) es₁ = some s)
    (hregister : (register platform auth inp input s.db).2 = .ok payload)
    (h₂ : Run.exec (Service.step platform auth) s (.register inp input :: es₂) = some t) :
    ∃ passwordHash, auth.verifyPassword (utf8 input.password) passwordHash = true ∧
      ∀ now password,
        (auth.verifyPassword (utf8 password) passwordHash = true →
          ∀ token, auth.encodeToken (Claims.issue now inp.newV4) = .ok token →
            login auth now ⟨input.username, password⟩ t.db = .ok ⟨token, payload.user⟩) ∧
        (auth.verifyPassword (utf8 password) passwordHash = false →
          login auth now ⟨input.username, password⟩ t.db = .error (.message "Invalid password"))
    := by
  obtain ⟨s', hstep, hrest⟩ := Run.exec_cons_eq_some.1 h₂
  have haccounts : t.db.Accounts platform := Service.accounts (Run.exec_append h₁ h₂)
  rw [Service.step, Option.some.injEq] at hstep
  rcases register_cases platform auth inp input s.db with
    ⟨err, hreg⟩ | ⟨passwordHash, db, hhash, hinsert, hreg⟩
  · rw [hreg] at hregister
    cases hregister
  · rw [hreg] at hstep hregister
    let row := registeredRow platform inp.createdAt inp.newV4 inp.random input.username passwordHash
      input.email
    have hrow : row ∈ t.db.users.rows := by
      refine (Service.users_prefix hrest).subset ?_
      rw [← hstep]
      exact (Db.insertUser_eq_some hinsert).1 ▸ List.mem_append_right _ (List.mem_singleton_self _)
    obtain ⟨hparse, hverify⟩ := hauth.verify _ _ _ hhash
    have huser : payload.user = UserSchema.new (row.user inp.newV4) := by
      unfold authPayload at hregister
      split at hregister <;> cases hregister
      rfl
    have hlogin (now : Timestamp) (password : String) :
        login auth now ⟨input.username, password⟩ t.db =
          if auth.verifyPassword (utf8 password) passwordHash then
            authPayload auth now (row.user inp.newV4)
          else .error (.message "Invalid password") := by
      have hname : row.username = input.username := rfl
      have hselect : t.db.selectUserByName row.username = .ok (some (row.user inp.newV4)) :=
        haccounts.selectUserByName hrow rfl
      have hstored : (row.user inp.newV4).passwordHash = passwordHash := rfl
      rw [login, ← hname, hselect]
      simp only [hstored, hparse]
    refine ⟨passwordHash, hverify, fun now password => ⟨?_, ?_⟩⟩
    · intro hgood token htoken
      have hid : (row.user inp.newV4).id = inp.newV4 := rfl
      rw [hlogin, if_pos hgood, authPayload, hid, htoken, huser]
    · intro hbad
      rw [hlogin, if_neg (ne_true_of_eq_false hbad)]

/-- Afterwards the node starts again, and another user registers. -/
def ServiceEvent.sampleLater : List ServiceEvent :=
  [.restart DaNode.sample.shared.manager.config .empty,
    .register { RegisterInput.sample with newV4 := Uuid.sample 3 }
      { NewUserInput.sample with username := "bob" }]

/-- Alice registers, and is let in with her password only. -/
theorem login_registered_sample :
    ∃ t, Run.exec (Service.step Platform.standard Auth.sample) Service.sample
        (.register RegisterInput.sample NewUserInput.sample :: ServiceEvent.sampleLater) = some t ∧
      t.db.users.rows.length = 2 ∧
      ∃ payload, (register Platform.standard Auth.sample RegisterInput.sample NewUserInput.sample
          Service.sample.db).2 = .ok payload ∧
        login Auth.sample 0 ⟨"alice", "secret"⟩ t.db = .ok ⟨"eyJ0.eyJz.c2ln", payload.user⟩ := by
  have hrun : (Run.exec (Service.step Platform.standard Auth.sample) Service.sample
      (.register RegisterInput.sample NewUserInput.sample :: ServiceEvent.sampleLater)).any
        (fun t => t.db.users.rows.length = 2) = true := by decide +kernel
  obtain ⟨t, ht, hlength⟩ := (Option.any_eq_true _ _).1 hrun
  have hstart : Run.exec (Service.step Platform.standard Auth.sample) Service.sample []
      = some Service.sample := rfl
  have hregister : ∃ payload, (register Platform.standard Auth.sample RegisterInput.sample
      NewUserInput.sample Service.sample.db).2 = .ok payload := ⟨_, rfl⟩
  obtain ⟨payload, hregister⟩ := hregister
  obtain ⟨passwordHash, hverify, hlogin⟩ :=
    login_registered Auth.lawful_sample hstart hregister ht
  exact ⟨t, ht, of_decide_eq_true hlength, payload, hregister,
    (hlogin 0 "secret").1 hverify _ rfl⟩

/-! ## Requests -/

/-- The payload is good: its user is registered, and its token was made for this user then. -/
def AuthPayload.Good (auth : Auth) (db : Db) (iat : Timestamp) (payload : AuthPayload) : Prop :=
  ∃ row ∈ db.users.rows, ∃ id : Uuid, row.id = id.cell ∧
    payload.user = UserSchema.new (row.user id) ∧
    auth.encodeToken (Claims.issue iat id) = .ok payload.token

theorem AuthPayload.Good.of_authPayload {db : Db} {now : Timestamp} {row : UserRow} {id : Uuid}
    {payload : AuthPayload} (hrow : row ∈ db.users.rows) (hid : row.id = id.cell)
    (h : authPayload auth now (row.user id) = .ok payload) : payload.Good auth db now := by
  unfold authPayload at h
  split at h <;> cases h
  next token htoken => exact ⟨row, hrow, id, hid, rfl, htoken⟩

/-- A login returns a good payload. -/
theorem login_good {db : Db} (hdb : db.Accounts platform) {now : Timestamp} {input : LoginInput}
    {payload : AuthPayload} (h : login auth now input db = .ok payload) :
    payload.Good auth db now := by
  unfold login at h
  split at h
  · cases h
  · cases h
  · next user hselect =>
      unfold Db.selectUserByName at hselect
      split at hselect
      · cases hselect
      · next row hfind =>
          have hrow := List.mem_of_find?_eq_some hfind
          obtain ⟨id, hid⟩ := hdb.ids row hrow
          rw [UserRow.decode_of_id hid, Except.ok.injEq, Option.some.injEq] at hselect
          subst hselect
          split at h
          · cases h
          · split at h
            · exact .of_authPayload hrow hid h
            · cases h

/-- What has been handed out is good, and the users of the requests are registered. -/
structure Service.Sound (auth : Auth) (s : Service) : Prop where
  issued : ∀ p ∈ s.issued, p.2.Good auth s.db p.1
  contexts : ∀ c ∈ s.contexts, ∀ user, c.currentUser = some user →
    ∃ row ∈ s.db.users.rows, row.id = user.id.cell ∧ user = row.user user.id

/-- The request of a registered user finds this user. -/
theorem mem_users_of_authenticate {db : Db} {now : Timestamp} {authorization : Option Bytes}
    {user : User} (h : authenticate auth now authorization db = some user) :
    ∃ token claims, bearerToken authorization = some token ∧
      auth.decodeToken now token = some claims ∧
      ∃ row ∈ db.users.rows, row.id = claims.sub.cell ∧ user = row.user claims.sub := by
  simp only [authenticate, Option.bind_eq_bind, Option.bind_eq_some_iff, Db.selectUserById] at h
  obtain ⟨token, htoken, claims, hclaims, row, hlookup, hdecode⟩ := h
  obtain ⟨hrow, hid⟩ := Table.lookup_eq_some_iff.1 hlookup
  rw [UserRow.decode_of_id hid, Option.some.injEq] at hdecode
  exact ⟨token, claims, htoken, hclaims, row, hrow, hid, hdecode.symm⟩

/-- A request was there before the step, or it comes with it. -/
theorem Service.mem_contexts_step {s s' : Service} {e : ServiceEvent} {c : GraphqlRequest}
    (h : s.step platform auth e = some s') (hc : c ∈ s'.contexts) :
    c ∈ s.contexts ∨ ∃ now authorization, e = .request now authorization ∧
      c = .new auth now authorization s.db := by
  cases Service.next_of_step h with
  | restarted config peers => cases hc
  | requested now authorization =>
      rcases List.mem_append.1 hc with hold | hnew
      · exact Or.inl hold
      · exact Or.inr ⟨now, authorization, rfl, List.mem_singleton.1 hnew⟩
  | _ => exact Or.inl hc

/-- A payload was handed out before the step, or it is a good one. Those that were stay. -/
theorem Service.issued_step {s s' : Service} {e : ServiceEvent} (hs : s.db.Accounts platform)
    (h : s.step platform auth e = some s') :
    s.issued ⊆ s'.issued ∧ ∀ p ∈ s'.issued, p ∈ s.issued ∨ p.2.Good auth s'.db p.1 := by
  have hsame {issued : List (Timestamp × AuthPayload)} (heq : issued = s.issued) :
      s.issued ⊆ issued ∧ ∀ p ∈ issued, p ∈ s.issued ∨ p.2.Good auth s'.db p.1 :=
    ⟨heq ▸ List.Subset.refl _, fun p hp => Or.inl (heq ▸ hp)⟩
  -- what a result adds
  have hadd {now : Timestamp} {result : Except AuthError AuthPayload}
      (hgood : ∀ payload, result = .ok payload → payload.Good auth s'.db now) :
      let issued := s.issued ++ result.toOption.toList.map (fun payload => (now, payload))
      s.issued ⊆ issued ∧ ∀ p ∈ issued, p ∈ s.issued ∨ p.2.Good auth s'.db p.1 := by
    refine ⟨List.subset_append_left _ _, fun p hp => ?_⟩
    rcases List.mem_append.1 hp with hold | hnew
    · exact Or.inl hold
    · obtain ⟨payload, hpayload, rfl⟩ := List.mem_map.1 hnew
      cases result with
      | error e => cases hpayload
      | ok payload' =>
          obtain rfl := List.mem_singleton.1 hpayload
          exact Or.inr (hgood payload rfl)
  cases Service.next_of_step h with
  | registered inp input =>
      refine hadd fun payload hpayload => ?_
      rcases register_cases platform auth inp input s.db with
        ⟨err, hreg⟩ | ⟨passwordHash, db, hhash, hinsert, hreg⟩
      · rw [hreg] at hpayload
        cases hpayload
      · rw [hreg] at hpayload ⊢
        refine .of_authPayload ?_ rfl hpayload
        exact (Db.insertUser_eq_some hinsert).1 ▸
          List.mem_append_right _ (List.mem_singleton_self _)
  | loggedIn now input => exact hadd fun payload hpayload => login_good hs hpayload
  | _ => exact hsame rfl

theorem AuthPayload.Good.mono {db db' : Db} {iat : Timestamp} {payload : AuthPayload}
    (h : payload.Good auth db iat) (hsub : db.users.rows ⊆ db'.users.rows) :
    payload.Good auth db' iat := by
  obtain ⟨row, hrow, hgood⟩ := h
  exact ⟨row, hsub hrow, hgood⟩

theorem Service.Sound.step {s s' : Service} {e : ServiceEvent} (hdb : s.db.Accounts platform)
    (hs : s.Sound auth) (h : s.step platform auth e = some s') : s'.Sound auth := by
  have hsub := (Service.users_prefix_step h).subset
  refine ⟨fun p hp => ?_, fun c hc user huser => ?_⟩
  · rcases (Service.issued_step hdb h).2 p hp with hold | hgood
    · exact (hs.issued p hold).mono hsub
    · exact hgood
  · rcases Service.mem_contexts_step h hc with hold | ⟨now, authorization, -, rfl⟩
    · obtain ⟨row, hrow, hid⟩ := hs.contexts c hold user huser
      exact ⟨row, hsub hrow, hid⟩
    · obtain ⟨token, claims, -, -, row, hrow, hid, rfl⟩ := mem_users_of_authenticate huser
      exact ⟨row, hsub hrow, hid, rfl⟩

theorem Service.sound {config : P2PConfig} {peers : Peers} {es : List ServiceEvent} {s : Service}
    (h : Run.exec (Service.step platform auth) (.start config peers) es = some s) :
    s.Sound auth := by
  refine (Run.exec_invariant (I := fun s : Service => s.db.Accounts platform ∧ s.Sound auth)
    ?_ ?_ h).2
  · exact fun _ _ _ hs hstep => ⟨Service.accounts_step hs.1 hstep, hs.2.step hs.1 hstep⟩
  · exact ⟨accounts_empty platform, List.forall_mem_nil _, List.forall_mem_nil _⟩

/-- A request with the token of a good payload is its user's, until the token has expired. -/
theorem AuthPayload.Good.authenticate (hauth : auth.Lawful) {db : Db} {iat : Timestamp}
    {payload : AuthPayload} (h : payload.Good auth db iat) {authorization : Option Bytes}
    (hbearer : bearerToken authorization = some payload.token) :
    ∃ user, UserSchema.new user = payload.user ∧ ∀ now, authenticate auth now authorization db
      = if now ≤ iat + 7 * 24 * 60 * 60 + 60 then some user else none := by
  obtain ⟨row, hrow, id, hid, huser, htoken⟩ := h
  refine ⟨row.user id, huser.symm, fun now => ?_⟩
  have hexp : (Claims.issue iat id).exp = iat + 7 * 24 * 60 * 60 := rfl
  have hdecode := hauth.decode _ _ now htoken
  rw [Node.authenticate, hbearer, Option.bind_eq_bind, Option.bind_some, hdecode, hexp]
  by_cases hlive : now ≤ iat + 7 * 24 * 60 * 60 + 60
  · rw [if_pos hlive, if_pos hlive]
    exact Db.selectUserById_of_mem hrow hid
  · rw [if_neg hlive, if_neg hlive]
    rfl

/-- **Tokens stay good.** A request that carries what a registration or a login has returned is made
    in the name of the user it returned, whatever has happened since, restarts included, and for
    seven days and a minute. -/
theorem issued_authenticates (hauth : auth.Lawful) {config : P2PConfig} {peers : Peers}
    {es₁ es₂ : List ServiceEvent} {s t : Service} {iat : Timestamp} {payload : AuthPayload}
    (h₁ : Run.exec (Service.step platform auth) (.start config peers) es₁ = some s)
    (hissued : (iat, payload) ∈ s.issued)
    (h₂ : Run.exec (Service.step platform auth) s es₂ = some t) {authorization : Option Bytes}
    (hbearer : bearerToken authorization = some payload.token) :
    ∃ user, UserSchema.new user = payload.user ∧ ∀ now, authenticate auth now authorization t.db
      = if now ≤ iat + 7 * 24 * 60 * 60 + 60 then some user else none :=
  AuthPayload.Good.authenticate hauth
    (((Service.sound h₁).issued _ hissued).mono (Service.users_prefix h₂).subset) hbearer

/-- Alice's token, until it has expired and after. -/
theorem issued_authenticates_sample :
    ∃ s t, Run.exec (Service.step Platform.standard Auth.sample) Service.sample
        [.register RegisterInput.sample NewUserInput.sample] = some s ∧
      Run.exec (Service.step Platform.standard Auth.sample) s ServiceEvent.sampleLater = some t ∧
      (authenticate Auth.sample 604860 (some (utf8 "Bearer eyJ0.eyJz.c2ln")) t.db).isSome ∧
      authenticate Auth.sample 604861 (some (utf8 "Bearer eyJ0.eyJz.c2ln")) t.db = none := by
  have hrun : (Run.exec (Service.step Platform.standard Auth.sample) Service.sample
      [.register RegisterInput.sample NewUserInput.sample]).any (fun s =>
        s.issued.any (fun p => p.1 = 0 && p.2.token = "eyJ0.eyJz.c2ln") &&
        (Run.exec (Service.step Platform.standard Auth.sample) s
          ServiceEvent.sampleLater).isSome) = true := by decide +kernel
  obtain ⟨s, hs, hcond⟩ := (Option.any_eq_true _ _).1 hrun
  obtain ⟨hissued, hlater⟩ := Bool.and_eq_true_iff.1 hcond
  obtain ⟨t, ht⟩ := Option.isSome_iff_exists.1 hlater
  obtain ⟨⟨iat, payload⟩, hmem, hp⟩ := List.any_eq_true.1 hissued
  obtain ⟨rfl, htoken⟩ : iat = 0 ∧ payload.token = "eyJ0.eyJz.c2ln" := by simpa using hp
  have hbearer : bearerToken (some (utf8 "Bearer eyJ0.eyJz.c2ln")) = some payload.token := by
    rw [htoken]
    decide +kernel
  obtain ⟨user, -, hall⟩ := issued_authenticates Auth.lawful_sample hs hmem ht hbearer
  refine ⟨s, t, hs, ht, ?_, ?_⟩
  · rw [hall, if_pos (by decide)]
    rfl
  · rw [hall, if_neg (by decide)]

/-- A token that decodes has been issued: nobody makes one without the secret. -/
def Service.Unforged (auth : Auth) (s : Service) : ServiceEvent → Prop
  | .request now authorization => ∀ token ∈ bearerToken authorization,
      (auth.decodeToken now token).isSome → ∃ p ∈ s.issued, p.2.token = token
  | _ => True

instance (auth : Auth) (s : Service) : ∀ e : ServiceEvent, Decidable (s.Unforged auth e)
  | .request now authorization => inferInstanceAs (Decidable
      (∀ token ∈ bearerToken authorization,
        (auth.decodeToken now token).isSome → ∃ p ∈ s.issued, p.2.token = token))
  | .node .. | .restart .. | .register .. | .login .. | .addBlob .. | .deleteBlob .. =>
      inferInstanceAs (Decidable True)

/-- **Who a request is made by.** As long as no token is forged, a request that is made in the name
    of a user carries the token that a registration or a login has returned with this user, not
    longer ago than seven days and a minute, and the user is registered. -/
theorem contexts_issued (hauth : auth.Lawful) {config : P2PConfig} {peers : Peers}
    {es : List ServiceEvent} {s : Service}
    (hunforged : Run.Meets (Service.step platform auth) (Service.Unforged auth)
      (.start config peers) es)
    (h : Run.exec (Service.step platform auth) (.start config peers) es = some s) :
    ∀ c ∈ s.contexts, ∀ user, c.currentUser = some user →
      (∃ row ∈ s.db.users.rows, row.decode = some user) ∧
      ∃ p ∈ s.issued, bearerToken c.authorization = some p.2.token ∧
        p.2.user = UserSchema.new user ∧ c.now ≤ p.1 + 7 * 24 * 60 * 60 + 60 := by
  let I (s : Service) : Prop := (s.db.Accounts platform ∧ s.Sound auth) ∧
    ∀ c ∈ s.contexts, ∀ user, c.currentUser = some user →
      ∃ p ∈ s.issued, bearerToken c.authorization = some p.2.token ∧
        p.2.user = UserSchema.new user ∧ c.now ≤ p.1 + 7 * 24 * 60 * 60 + 60
  have hrun : I s := by
    refine Run.exec_invariant_of (I := I) ?_ ?_ hunforged h
    · rintro s e s' ⟨⟨hdb, hs⟩, hcontexts⟩ hC hstep
      refine ⟨⟨Service.accounts_step hdb hstep, hs.step hdb hstep⟩, fun c hc user huser => ?_⟩
      have hissued := (Service.issued_step hdb hstep).1
      rcases Service.mem_contexts_step hstep hc with hold | ⟨now, authorization, rfl, rfl⟩
      · obtain ⟨p, hp, hgood⟩ := hcontexts c hold user huser
        exact ⟨p, hissued hp, hgood⟩
      · obtain ⟨token, claims, htoken, hclaims, -⟩ := mem_users_of_authenticate huser
        obtain ⟨p, hp, rfl⟩ := hC token htoken (by rw [hclaims]; rfl)
        obtain ⟨user', hnew, hall⟩ := (hs.issued p hp).authenticate hauth htoken
        have huser' := (hall now).symm.trans huser
        split at huser'
        · next hlive =>
            obtain rfl := Option.some.inj huser'
            exact ⟨p, hissued hp, htoken, hnew.symm, hlive⟩
        · cases huser'
    · exact ⟨⟨accounts_empty platform, List.forall_mem_nil _, List.forall_mem_nil _⟩,
        List.forall_mem_nil _⟩
  obtain ⟨⟨-, hs⟩, hcontexts⟩ := hrun
  intro c hc user huser
  obtain ⟨row, hrow, hid, heq⟩ := hs.contexts c hc user huser
  refine ⟨⟨row, hrow, ?_⟩, hcontexts c hc user huser⟩
  rw [UserRow.decode_of_id hid, ← heq]

end

/-- Alice registers and comes back with her token. -/
def ServiceEvent.sample : List ServiceEvent :=
  [.register RegisterInput.sample NewUserInput.sample,
    .request 100 (some (utf8 "Bearer eyJ0.eyJz.c2ln"))]

theorem contexts_issued_sample :
    ∃ s, Run.exec (Service.step Platform.standard Auth.sample) Service.sample ServiceEvent.sample
        = some s ∧
      ∃ c ∈ s.contexts, ∃ user, c.currentUser = some user ∧
        ∃ p ∈ s.issued, bearerToken c.authorization = some p.2.token ∧
          p.2.user = UserSchema.new user := by
  have hrun : (Run.exec (Service.step Platform.standard Auth.sample) Service.sample
      ServiceEvent.sample).any (fun s => s.contexts.any (fun c => c.currentUser.isSome))
        = true := by decide +kernel
  obtain ⟨s, hs, hcontexts⟩ := (Option.any_eq_true _ _).1 hrun
  obtain ⟨c, hc, hsome⟩ := List.any_eq_true.1 hcontexts
  obtain ⟨user, huser⟩ := Option.isSome_iff_exists.1 hsome
  have hunforged : Run.Meets (Service.step Platform.standard Auth.sample)
      (Service.Unforged Auth.sample) Service.sample ServiceEvent.sample := by decide +kernel
  obtain ⟨-, p, hp, htoken, hp', -⟩ :=
    contexts_issued Auth.lawful_sample hunforged hs c hc user huser
  exact ⟨s, hs, c, hc, user, huser, p, hp, htoken, hp'⟩

end DaConcept.Node
