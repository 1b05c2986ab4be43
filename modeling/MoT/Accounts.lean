import MoT.Effects
import MoT.Services

/-! Accounts: the users table, and the copy of the name that each connection keeps. -/
namespace MoT
open CMemory Relational Transition

variable {P : Platform} {key : Key} {env : Env} {s t : Server} {cli : Client} {p : Pointer}
  {db db' : Database} {out : List Sent} {type : Option MessageType} {uid : UInt32}

theorem UserRow.clash_comm (a b : UserRow) : UserRow.clash a b = UserRow.clash b a := by
  simp only [UserRow.clash, Bool.beq_comm (a := a.username), Bool.beq_comm (a := a.email),
    Bool.beq_comm (a := a.friendCode)]

/-- Which name belongs to which uid. -/
def names (db : Database) : List (Int × CString) :=
  db.users.entries.map fun e => (e.rowid, e.row.username)

def Taken (db : Database) (uid : UInt32) (name : CString) : Prop :=
  ∃ n ∈ names db, n.2 = name ∧ n.1 ≠ bindInt uid

theorem mem_names {n : Int × CString} :
    n ∈ names db ↔ ∃ e ∈ db.users.entries, e.rowid = n.1 ∧ e.row.username = n.2 := by
  simp only [names, List.mem_map, Prod.ext_iff]

def rename (uid : UInt32) (name : CString) (n : Int × CString) : Int × CString :=
  if n.1 = bindInt uid then (n.1, name) else n

theorem names_assign (entries : List (Entry UserRow)) (uid : UInt32) (name : CString) :
    (entries.map (AutoTable.assign (fun e => e.rowid = bindInt uid)
      fun r => { r with username := name })).map (fun e => (e.rowid, e.row.username)) =
      (entries.map fun e => (e.rowid, e.row.username)).map (rename uid name) := by
  simp only [List.map_map]
  refine List.map_congr_left fun e _ => ?_
  by_cases own : e.rowid = bindInt uid
  · simp [AutoTable.assign, rename, own]
  · simp [AutoTable.assign, rename, own]

theorem names_updateUsers_taken {name : CString} (taken : Taken db uid name) :
    names (updateUsers db uid fun r => { r with username := name }) = names db := by
  obtain ⟨n, member, rfl, other⟩ := taken
  obtain ⟨d, hd, rowid, username⟩ := mem_names.mp member
  simp only [updateUsers]
  cases updated : db.users.updateWhere? (fun e => e.rowid = bindInt uid)
      (fun r => { r with username := n.2 }) with
  | none => rfl
  | some users =>
    have entries := (AutoTable.updateWhere?_spec updated).1
    have kept : d ∈ users.entries := by
      rw [entries]
      refine List.mem_map.mpr ⟨d, hd, ?_⟩
      simp [AutoTable.assign, rowid, other]
    rw [Option.getD_some, names, names, entries]
    refine congrArg _ (AutoTable.map_assign_eq_iff.mpr fun e he selected => ?_)
    -- the row of `uid` would clash with the one that has the name
    have own : e.rowid = bindInt uid := of_decide_eq_true selected
    have written : AutoTable.assign (fun e => e.rowid = bindInt uid)
        (fun r : UserRow => { r with username := n.2 }) e ∈ users.entries :=
      entries ▸ List.mem_map_of_mem he
    have same := users.eq_of_clash UserRow.clash_comm kept written
      (by simp [UserRow.clash, AutoTable.assign, own, username])
    have ids := congrArg Entry.rowid same
    rw [AutoTable.assign_rowid] at ids
    exact absurd (rowid.symm.trans (ids.trans own)) other

theorem names_updateUsers_free {name : CString} (free : ¬ Taken db uid name) :
    names (updateUsers db uid fun r => { r with username := name }) =
      (names db).map (rename uid name) := by
  have fits : (db.users.entries.map (AutoTable.assign (fun e => e.rowid = bindInt uid)
      fun r => { r with username := name })).Pairwise fun d e =>
        UserRow.clash d.row e.row = false := by
    have free' : ∀ e ∈ db.users.entries, e.row.username = name → e.rowid = bindInt uid := by
      intro e he same
      by_contra other
      exact free ⟨(e.rowid, e.row.username), mem_names.mpr ⟨e, he, rfl, rfl⟩, same, other⟩
    refine List.pairwise_map.mpr ((List.Pairwise.and_mem.mp
      (db.users.unique.and db.users.ascending)).imp ?_)
    rintro d e ⟨hd, he, apart, less⟩
    simp only [UserRow.clash, Bool.or_eq_false_iff, beq_eq_false_iff_ne] at apart ⊢
    unfold AutoTable.assign
    by_cases ownD : d.rowid = bindInt uid
    · have otherE : e.rowid ≠ bindInt uid := by omega
      simp only [ownD, otherE, decide_true, decide_false, if_true, Bool.false_eq_true, if_false]
      exact ⟨⟨fun same => otherE (free' e he same.symm), apart.1.2⟩, apart.2⟩
    · by_cases ownE : e.rowid = bindInt uid
      · simp only [ownD, ownE, decide_true, decide_false, if_true, Bool.false_eq_true, if_false]
        exact ⟨⟨fun same => ownD (free' d hd same), apart.1.2⟩, apart.2⟩
      · simp only [ownD, ownE, decide_false, Bool.false_eq_true, if_false]
        exact apart
  simp only [updateUsers, AutoTable.updateWhere?, dif_pos fits, Option.getD_some]
  exact names_assign db.users.entries uid name

theorem names_updateUsers_password (db : Database) (uid : UInt32) (hash : CString) :
    names (updateUsers db uid fun r => { r with passwordHash := hash }) = names db := by
  simp only [updateUsers]
  cases updated : db.users.updateWhere? (fun e => e.rowid = bindInt uid)
      (fun r => { r with passwordHash := hash }) with
  | none => rfl
  | some users =>
    rw [Option.getD_some, names, names, (AutoTable.updateWhere?_spec updated).1, List.map_map]
    refine List.map_congr_left fun e _ => ?_
    simp only [Function.comp_apply, AutoTable.assign]
    split <;> rfl

theorem storageUpdateUser_names (P : Platform) (db : Database) (salt : List.Vector (Fin 64) 16)
    (uid : UInt32) (name password : CString) :
    (names (storageUpdateUser P db salt uid name password) = names db ∧
      (name.length = 0 ∨ Taken db uid name)) ∨
    names (storageUpdateUser P db salt uid name password) = (names db).map (rename uid name) ∧
      0 < name.length ∧ ¬ Taken db uid name := by
  have second (db' : Database) :
      names (storageUpdateUser P db' salt uid CString.empty password) = names db' := by
    have unnamed : ¬ CString.empty.length > 0 := by decide
    unfold storageUpdateUser
    dsimp only
    rw [if_neg unnamed]
    split
    · split
      · rfl
      · exact names_updateUsers_password db' uid _
    · rfl
  have stages : names (storageUpdateUser P db salt uid name password) =
      names (if name.length > 0 then updateUsers db uid fun r => { r with username := name }
        else db) := second _
  rw [stages]
  by_cases nonempty : name.length > 0
  · rw [if_pos nonempty]
    by_cases taken : Taken db uid name
    · exact .inl ⟨names_updateUsers_taken taken, .inr taken⟩
    · exact .inr ⟨names_updateUsers_free taken, nonempty, taken⟩
  · rw [if_neg nonempty]
    exact .inl ⟨rfl, .inl (Nat.eq_zero_of_not_pos nonempty)⟩

def accountOf (e : Entry UserRow) : User where
  uid := columnInt e.rowid
  username := strncpy maxNameLen e.row.username
  email := strncpy maxEmailLen e.row.email
  passwordHash := strncpy 128 e.row.passwordHash
  friendCode := strncpy friendCodeLen e.row.friendCode

theorem storageCheckCredentials_ok {email password : CString} {v : User}
    (checked : storageCheckCredentials P db email (.ok password) = .ok (some v)) :
    ∃ e ∈ db.users.entries, e.row.email = email ∧
      P.crypt password e.row.passwordHash = some e.row.passwordHash ∧ v = accountOf e := by
  unfold storageCheckCredentials at checked
  split at checked
  · cases checked
  · rename_i e found
    have known : e.row.email = email := by simpa using List.find?_some found
    refine ⟨e, List.mem_of_find?_eq_some found, known, ?_⟩
    simp only [bind, Except.bind] at checked
    split at checked
    · cases checked
    · rename_i hash hashed
      split at checked
      · rename_i same
        cases checked
        exact ⟨hashed.trans (congrArg some same), rfl⟩
      · cases checked

/-- One packet, as the accounts and the connections see it. -/
inductive AccountChange (P : Platform) (env : Env) (s : Server) (cli : Client) (p : Pointer)
    (t : Server) (out : List Sent) : Option MessageType → Prop
  | same (type : Option MessageType) (other : type ≠ some .updateUser)
      (users : t.db.users = s.db.users) (clients : t.clients = s.clients)
      (quiet : ∀ m ∈ out, (type = some .register → m.packet ≠ .registerSuccess) ∧
        (type = some .login → ∀ info, m.packet ≠ .loginSuccess info)) :
      AccountChange P env s cli p t out type
  | register (email username password hash : CString) (uid : Int)
      (readEmail : readString p RegisterPayload.email = .ok email)
      (readName : readString p RegisterPayload.username = .ok username)
      (readPassword : readString p RegisterPayload.password = .ok password)
      (hashed : P.crypt password (generateRandomSalt env.salt) = some hash)
      (inserted : s.db.users.insert? ⟨username, email, hash, generateFriendCode env.code⟩ =
        some (t.db.users, uid)) (clients : t.clients = s.clients) :
      AccountChange P env s cli p t out (some .register)
  | login (email : CString) (e : Entry UserRow)
      (readEmail : readString p LoginPayload.email = .ok email) (member : e ∈ s.db.users.entries)
      (known : e.row.email = email) (users : t.db.users = s.db.users)
      (clients : t.clients = writeClient cli.fd (signedIn (accountOf e)) s.clients)
      (answer : out = [⟨cli.fd, .loginSuccess (loginInfo (accountOf e))⟩]) :
      AccountChange P env s cli p t out (some .login)
  | updateUser (newUsername newPassword : CString)
      (readName : readString p UpdateUserPayload.newUsername = .ok newUsername)
      (db : t.db = storageUpdateUser P s.db env.salt cli.uid newUsername newPassword)
      (clients : t.clients = if newUsername.length > 0 then
          writeClient cli.fd (fun c => { c with username := strncpy maxNameLen newUsername })
            s.clients
        else s.clients) :
      AccountChange P env s cli p t out (some .updateUser)

theorem acceptDb_users (plan : Plan) (db : Database) (uid target : UInt32) :
    (acceptDb plan db uid target).users = db.users := by
  simp only [acceptDb]
  split
  · obtain ⟨conversations, -, created⟩ := storageCreateConversation_spec
      (storageAddFriendship db uid target) convTypePrivate (CString.lit "Private Chat")
      CString.empty [uid, target]
    rw [created]
    rfl
  · rfl

theorem Change.users (change : Change P env s cli p type db') (notRegister : type ≠ some .register)
    (notUpdate : type ≠ some .updateUser) : db'.users = s.db.users := by
  cases change with
  | register => exact absurd rfl notRegister
  | updateUser => exact absurd rfl notUpdate
  | same | addByCode | updateGroup | addMember | kickMember | deleteGroup => rfl
  | sendText k text readK =>
    obtain ⟨messages, logged⟩ := storageLogMessage_frame P (some s.masterKey) env.randBytes env.now
      s.db k cli.uid text
    rw [logged]
  | decideRequest accepted target readAccepted readTarget =>
    simp only [decideDb]
    split
    · exact acceptDb_users env.plan s.db cli.uid target
    · rfl
  | createConv n uids type name description readN copied readType missing =>
    obtain ⟨conversations, -, created⟩ := storageCreateConversation_spec s.db type name description
      uids
    rw [created]

theorem dispatch_accounts {code : UInt32} (done : dispatch P env s cli code p = .ok (t, out)) :
    AccountChange P env s cli p t out (MessageType.ofCode code) := by
  have change := dispatch_change done
  have clients := dispatch_clients done
  by_cases register : MessageType.ofCode code = some .register
  · simp only [dispatch, register] at done ⊢
    obtain ⟨email, username, password, readEmail, readName, readPassword, ⟨rfl, rfl⟩ |
      ⟨hash, users, uid, hashed, inserted, rfl, rfl⟩⟩ := handleRegister_ok done
    · exact .same _ (by simp) rfl rfl (by simp)
    · exact .register email username password hash uid readEmail readName readPassword hashed
        inserted rfl
  by_cases login : MessageType.ofCode code = some .login
  · simp only [dispatch, login] at done ⊢
    obtain ⟨rfl, rfl⟩ | ⟨v, rfl, rfl, email, password, readEmail, readPassword, checked⟩ :=
      handleLogin_ok done
    · exact .same _ (by simp) rfl rfl (by simp)
    · obtain ⟨e, member, known, -, rfl⟩ := storageCheckCredentials_ok checked
      exact .login email e readEmail member known rfl rfl rfl
  by_cases update : MessageType.ofCode code = some .updateUser
  · simp only [dispatch, update] at done ⊢
    obtain ⟨newUsername, newPassword, readName, -, db, clients, -⟩ := handleUpdateUser_ok done
    exact .updateUser newUsername newPassword readName db clients
  · refine .same _ update (change.users register update) ?_ (by simp [register, login])
    rcases clients with same | ⟨-, -, coded, -⟩ | ⟨-, coded, -⟩
    · exact same
    · exact absurd coded login
    · exact absurd coded update

/-- Every logged-in connection goes by the name that is stored for its user. -/
def NamesTrue (s : Server) : Prop :=
  ∀ c ∈ s.clients, c.isOnline = true → ∃ e ∈ s.db.users.entries,
    e.rowid = bindInt c.uid ∧ e.row.username = fieldString c.username

instance (s : Server) : Decidable (NamesTrue s) :=
  inferInstanceAs (Decidable (∀ c ∈ s.clients, c.isOnline = true → ∃ e ∈ s.db.users.entries,
    e.rowid = bindInt c.uid ∧ e.row.username = fieldString c.username))

theorem namesTrue_mem : NamesTrue s ↔ ∀ c ∈ s.clients, c.isOnline = true →
    (bindInt c.uid, fieldString c.username) ∈ names s.db := by
  simp only [NamesTrue, mem_names]

/-- The name that a packet brings for the table. -/
def broughtName (m : ServerMoment) : Option CString :=
  match m.event with
  | .packet _ code bytes _ =>
    match MessageType.ofCode code with
    | some .register => (readString (deliver bytes) RegisterPayload.username).toOption
    | some .updateUser => (readString (deliver bytes) UpdateUserPayload.newUsername).toOption
    | _ => none
  | _ => none

def ShortNames (m : ServerMoment) : Prop := ∀ name ∈ broughtName m, name.length < maxNameLen

instance (m : ServerMoment) : Decidable (ShortNames m) :=
  inferInstanceAs (Decidable (∀ name ∈ broughtName m, name.length < maxNameLen))

theorem ShortNames.registered {fd : Int} {code : UInt32} {bytes : List UInt8} {name : CString}
    (short : ShortNames ⟨s, .packet fd code bytes env, t, out⟩)
    (coded : MessageType.ofCode code = some .register)
    (readName : readString (deliver bytes) RegisterPayload.username = .ok name) :
    name.length < maxNameLen := by
  apply short
  simp [broughtName, coded, readName, Except.toOption]

theorem ShortNames.updated {fd : Int} {code : UInt32} {bytes : List UInt8} {name : CString}
    (short : ShortNames ⟨s, .packet fd code bytes env, t, out⟩)
    (coded : MessageType.ofCode code = some .updateUser)
    (readName : readString (deliver bytes) UpdateUserPayload.newUsername = .ok name) :
    name.length < maxNameLen := by
  apply short
  simp [broughtName, coded, readName, Except.toOption]

/-- Whoever changes its name takes one that nobody else has, and no other connection of
the same user is left behind with the old one. -/
def RenamesAlone (m : ServerMoment) : Prop :=
  ∀ fd code bytes env cli name, m.event = .packet fd code bytes env →
    getClientByFd fd m.before.clients = some cli → cli.isOnline = true →
    MessageType.ofCode code = some .updateUser →
    readString (deliver bytes) UpdateUserPayload.newUsername = .ok name → 0 < name.length →
    (∀ e ∈ m.before.db.users.entries, e.row.username = name → e.rowid = bindInt cli.uid) ∧
    ∀ c ∈ m.before.clients, c.isOnline = true → c.uid = cli.uid → c.fd ≠ fd →
      fieldString c.username = name

theorem truncate_short {name : CString} {n : Nat} (short : name.length ≤ n) :
    name.truncate n = name :=
  CString.ext (List.take_of_length_le short)

theorem fieldString_short {name : CString} {n : Nat} (short : name.length ≤ n) :
    fieldString (strncpy n name) = name :=
  (fieldString_strncpy n name).trans (truncate_short short)

theorem names_unique {a b : Int × CString} (ha : a ∈ names db) (hb : b ∈ names db)
    (same : a.2 = b.2) : a = b := by
  obtain ⟨d, hd, rowidD, nameD⟩ := mem_names.mp ha
  obtain ⟨e, he, rowidE, nameE⟩ := mem_names.mp hb
  have username : d.row.username = e.row.username := nameD.trans (same.trans nameE.symm)
  have one := db.users.eq_of_clash UserRow.clash_comm hd he (by simp [UserRow.clash, username])
  subst one
  exact Prod.ext (rowidD.symm.trans rowidE) same

theorem mem_rename {name : CString} {n : Int × CString} :
    n ∈ (names db).map (rename uid name) ↔
      (n.1 ≠ bindInt uid ∧ n ∈ names db) ∨
      n.1 = bindInt uid ∧ n.2 = name ∧ ∃ old, (bindInt uid, old) ∈ names db := by
  rw [List.mem_map]
  constructor
  · rintro ⟨m, member, rfl⟩
    by_cases own : m.1 = bindInt uid
    · rw [rename, if_pos own]
      exact .inr ⟨own, rfl, m.2, own ▸ member⟩
    · rw [rename, if_neg own]
      exact .inl ⟨own, member⟩
  · rintro (⟨other, member⟩ | ⟨own, rfl, old, member⟩)
    · exact ⟨n, member, if_neg other⟩
    · refine ⟨_, member, ?_⟩
      rw [rename, if_pos rfl, ← own]

theorem not_taken_iff {name : CString} : ¬ Taken db uid name ↔
    ∀ e ∈ db.users.entries, e.row.username = name → e.rowid = bindInt uid := by
  constructor
  · intro free e he same
    by_contra other
    exact free ⟨(e.rowid, e.row.username), mem_names.mpr ⟨e, he, rfl, rfl⟩, same, other⟩
  · rintro alone ⟨n, member, same, other⟩
    obtain ⟨e, he, rowid, username⟩ := mem_names.mp member
    exact other (rowid.symm.trans (alone e he (username.trans same)))

theorem namesTrue_renamed {name : CString} (connected : Connected s.clients)
    (listed : getClientByFd cli.fd s.clients = some cli) (online : cli.isOnline = true)
    (before : NamesTrue s) (short : name.length < maxNameLen)
    (clients : t.clients =
      writeClient cli.fd (fun c => { c with username := strncpy maxNameLen name }) s.clients)
    (stored : (names t.db = names s.db ∧ Taken s.db cli.uid name) ∨
      names t.db = (names s.db).map (rename cli.uid name) ∧ ¬ Taken s.db cli.uid name) :
    NamesTrue t ↔
      (∀ e ∈ s.db.users.entries, e.row.username = name → e.rowid = bindInt cli.uid) ∧
      ∀ c ∈ s.clients, c.isOnline = true → c.uid = cli.uid → c.fd ≠ cli.fd →
        fieldString c.username = name := by
  have written : fieldString (strncpy maxNameLen name) = name := fieldString_short short.le
  have nodes : ∀ d, d ∈ t.clients ↔
      d = { cli with username := strncpy maxNameLen name } ∨ d ∈ s.clients ∧ d.fd ≠ cli.fd := by
    intro d
    rw [clients]
    apply mem_writeClient_iff _ connected.distinct listed
    intro c
    rfl
  rw [namesTrue_mem] at before
  rw [namesTrue_mem, ← not_taken_iff]
  have own := before cli (getClientByFd_some listed).1 online
  constructor
  · intro after
    have mine := after _ ((nodes _).mpr (.inl rfl)) online
    dsimp only at mine
    rw [written] at mine
    rcases stored with ⟨kept, n, member, same, other⟩ | ⟨renamed, free⟩
    · rw [kept] at mine
      exact absurd (congrArg Prod.fst (names_unique member mine same)) other
    · refine ⟨free, fun c hc onlineC user fd => ?_⟩
      have theirs := after c ((nodes c).mpr (.inr ⟨hc, fd⟩)) onlineC
      rw [renamed, user] at theirs
      rcases mem_rename.mp theirs with ⟨other, -⟩ | ⟨-, same, -⟩
      · exact absurd rfl other
      · exact same
  · rintro ⟨free, others⟩ d hd onlineD
    have renamed : names t.db = (names s.db).map (rename cli.uid name) := by
      rcases stored with ⟨-, taken⟩ | ⟨renamed, -⟩
      · exact absurd taken free
      · exact renamed
    rw [renamed, mem_rename]
    rcases (nodes d).mp hd with rfl | ⟨old, fd⟩
    · exact .inr ⟨rfl, written, _, own⟩
    · by_cases user : d.uid = cli.uid
      · exact .inr ⟨congrArg bindInt user, others d old onlineD user fd, _, own⟩
      · exact .inl ⟨fun same => user (bindInt_inj same), before d old onlineD⟩

/- No row has the id 0, under which guests write. -/
theorem rename_guest (db : Database) (name : CString) :
    (names db).map (rename 0 name) = names db := by
  refine (List.map_congr_left fun n member => ?_).trans (List.map_id _)
  obtain ⟨e, he, rowid, -⟩ := mem_names.mp member
  have issued := db.users.issued e he
  have guest : bindInt 0 = 0 := rfl
  exact if_neg (by omega)

theorem namesTrue_guest {name : List.Vector UInt8 maxNameLen} (connected : Connected s.clients)
    (listed : getClientByFd cli.fd s.clients = some cli) (guest : ¬ cli.isOnline = true)
    (before : NamesTrue s) (same : names t.db = names s.db)
    (clients : t.clients = writeClient cli.fd (fun c => { c with username := name }) s.clients) :
    NamesTrue t := by
  rw [namesTrue_mem] at before ⊢
  intro d hd online
  rw [clients] at hd
  rw [same]
  rcases mem_writeClient hd with old | ⟨b, hb, fd, rfl⟩
  · exact before d old online
  · rw [connected.same hb (getClientByFd_some listed).1 fd] at online
    exact absurd online guest

theorem renamesAlone_iff {fd : Int} {code : UInt32} {bytes : List UInt8} {name : CString}
    (listed : getClientByFd fd s.clients = some cli)
    (coded : MessageType.ofCode code = some .updateUser)
    (readName : readString (deliver bytes) UpdateUserPayload.newUsername = .ok name) :
    RenamesAlone ⟨s, .packet fd code bytes env, t, out⟩ ↔
      (cli.isOnline = true → 0 < name.length →
        (∀ e ∈ s.db.users.entries, e.row.username = name → e.rowid = bindInt cli.uid) ∧
        ∀ c ∈ s.clients, c.isOnline = true → c.uid = cli.uid → c.fd ≠ fd →
          fieldString c.username = name) := by
  constructor
  · intro alone online nonempty
    exact alone fd code bytes env cli name rfl listed online coded readName nonempty
  · intro alone fd' code' bytes' env' cli' name' event listed' online _ readName' nonempty
    cases event
    cases Option.some.inj (listed.symm.trans listed')
    cases Except.ok.inj (readName.symm.trans readName')
    exact alone online nonempty

theorem AccountChange.namesTrue {code : UInt32} {fd : Int} {bytes : List UInt8}
    (change : AccountChange P env s cli (deliver bytes) t out (MessageType.ofCode code))
    (connected : Connected s.clients) (listed : getClientByFd fd s.clients = some cli)
    (small : t.db.users.seq < 2 ^ 31)
    (shortRows : ∀ e ∈ s.db.users.entries, e.row.username.length < maxNameLen)
    (shortNames : ShortNames ⟨s, .packet fd code bytes env, t, out⟩) (before : NamesTrue s) :
    NamesTrue t ↔ RenamesAlone ⟨s, .packet fd code bytes env, t, out⟩ := by
  obtain ⟨-, rfl⟩ := getClientByFd_some listed
  generalize coded : MessageType.ofCode code = type at change
  have vacuous (other : type ≠ some .updateUser) :
      RenamesAlone ⟨s, .packet cli.fd code bytes env, t, out⟩ := by
    intro fd' code' bytes' env' cli' name event _ _ coded'
    cases event
    exact absurd (coded.symm.trans coded') other
  cases change with
  | same type other users clients quiet =>
    refine iff_of_true (fun c hc online => ?_) (vacuous other)
    rw [users]
    exact before c (clients ▸ hc) online
  | register email username password hash uid readEmail readName readPassword hashed inserted
      clients =>
    refine iff_of_true (fun c hc online => ?_) (vacuous (by simp))
    obtain ⟨e, he, rowid, name⟩ := before c (clients ▸ hc) online
    have entries := (AutoTable.insert?_spec inserted).1
    exact ⟨e, entries ▸ List.mem_append_left _ he, rowid, name⟩
  | login email e readEmail member known users clients answer =>
    refine iff_of_true (fun c hc online => ?_) (vacuous (by simp))
    rw [users] at small ⊢
    rw [clients] at hc
    rcases mem_writeClient hc with old | ⟨b, -, -, rfl⟩
    · exact before c old online
    · have issued := s.db.users.issued e member
      refine ⟨e, member, (bindInt_columnInt (by omega) (by omega)).symm, ?_⟩
      have short := (shortRows e member).le
      change e.row.username = fieldString (strncpy maxNameLen (fieldString
        (strncpy maxNameLen e.row.username)))
      rw [fieldString_short short, fieldString_short short]
  | updateUser newUsername newPassword readName db clients =>
    have short := shortNames.updated coded readName
    have stored := storageUpdateUser_names P s.db env.salt cli.uid newUsername newPassword
    rw [← db] at stored
    rw [renamesAlone_iff listed coded readName]
    by_cases nonempty : newUsername.length > 0
    · rw [if_pos nonempty] at clients
      by_cases online : cli.isOnline = true
      · have outcome : (names t.db = names s.db ∧ Taken s.db cli.uid newUsername) ∨
            names t.db = (names s.db).map (rename cli.uid newUsername) ∧
              ¬ Taken s.db cli.uid newUsername := by
          rcases stored with ⟨kept, empty | taken⟩ | ⟨renamed, -, free⟩
          · omega
          · exact .inl ⟨kept, taken⟩
          · exact .inr ⟨renamed, free⟩
        rw [namesTrue_renamed connected listed online before short clients outcome]
        exact ⟨fun alone _ _ => alone, fun alone => alone online nonempty⟩
      · have guest : cli.uid = 0 :=
          connected.guests cli (getClientByFd_some listed).1 (Bool.eq_false_iff.mpr online)
        have same : names t.db = names s.db := by
          rcases stored with ⟨kept, -⟩ | ⟨renamed, -⟩
          · exact kept
          · rw [renamed, guest, rename_guest]
        exact iff_of_true (namesTrue_guest connected listed online before same clients)
          fun here => absurd here online
    · refine iff_of_true ?_ fun _ positive => absurd positive nonempty
      rw [if_neg nonempty] at clients
      rw [namesTrue_mem] at before ⊢
      intro d hd onlineD
      rcases stored with ⟨kept, -⟩ | ⟨-, positive, -⟩
      · rw [kept]
        exact before d (clients ▸ hd) onlineD
      · exact absurd positive nonempty

/-- A step that is no packet of an open connection touches no account and logs nobody in. -/
theorem step_accounts {e : Event} (stepped : (server P key).step s e = some (t, out)) :
    (t.db = s.db ∧ (∀ c ∈ t.clients, c.isOnline = true → c ∈ s.clients) ∧ out = [] ∧
      ∀ fd code bytes env cli, e = .packet fd code bytes env →
        getClientByFd fd s.clients ≠ some cli) ∨
    ∃ fd code bytes env cli, e = .packet fd code bytes env ∧
      getClientByFd fd s.clients = some cli ∧
      AccountChange P env s cli (deliver bytes) t out (MessageType.ofCode code) := by
  have handled := (handleEvent_of_step stepped).2
  cases e with
  | connect fd =>
    cases handled
    refine .inl ⟨rfl, fun c hc online => ?_, rfl, fun _ _ _ _ _ event => by cases event⟩
    rcases List.mem_cons.mp hc with rfl | old
    · cases online
    · exact old
  | disconnect fd =>
    cases handled
    exact .inl ⟨rfl, fun c hc _ => (removeClient_sublist fd s.clients).subset hc, rfl,
      fun _ _ _ _ _ event => by cases event⟩
  | packet fd code bytes env =>
    simp only [handleEvent] at handled
    split at handled
    · rename_i unlisted
      cases handled
      refine .inl ⟨rfl, fun c hc _ => (removeClient_sublist fd s.clients).subset hc, rfl, ?_⟩
      intro fd' code' bytes' env' cli event listed
      cases event
      rw [unlisted] at listed
      cases listed
    · rename_i cli listed
      exact .inr ⟨fd, code, bytes, env, cli, rfl, listed, dispatch_accounts handled⟩

theorem updateUsers_seq (db : Database) (uid : UInt32) (f : UserRow → UserRow) :
    (updateUsers db uid f).users.seq = db.users.seq := by
  simp only [updateUsers]
  cases updated : db.users.updateWhere? (fun e => e.rowid = bindInt uid) f with
  | none => rfl
  | some users => exact (AutoTable.updateWhere?_spec updated).2

theorem storageUpdateUser_seq (P : Platform) (db : Database) (salt : List.Vector (Fin 64) 16)
    (uid : UInt32) (name password : CString) :
    (storageUpdateUser P db salt uid name password).users.seq = db.users.seq := by
  have first : (if name.length > 0 then updateUsers db uid fun r => { r with username := name }
      else db).users.seq = db.users.seq := by
    split
    · exact updateUsers_seq db uid _
    · rfl
  unfold storageUpdateUser
  dsimp only
  split
  · split
    · exact first
    · rw [updateUsers_seq]
      exact first
  · exact first

theorem AccountChange.seq_le (change : AccountChange P env s cli p t out type) :
    s.db.users.seq ≤ t.db.users.seq := by
  cases change with
  | same type other users => exact le_of_eq (by rw [users])
  | register email username password hash uid _ _ _ _ inserted =>
    have seq := (AutoTable.insert?_spec inserted).2.1
    omega
  | login email e _ _ _ users => exact le_of_eq (by rw [users])
  | updateUser newUsername newPassword _ db =>
    rw [db, storageUpdateUser_seq]

theorem step_users_seq_le {e : Event} (stepped : (server P key).step s e = some (t, out)) :
    s.db.users.seq ≤ t.db.users.seq := by
  rcases step_accounts stepped with ⟨db, -⟩ | ⟨fd, code, bytes, env, cli, -, -, change⟩
  · exact le_of_eq (by rw [db])
  · exact change.seq_le

theorem run_short_rows {past : List ServerMoment} (run : Run (server P key) past s)
    (shortNames : ∀ m ∈ past, ShortNames m) :
    ∀ e ∈ s.db.users.entries, e.row.username.length < maxNameLen := by
  have short : ∀ n ∈ names s.db, n.2.length < maxNameLen := by
    refine run.invariant (fun past s => (∀ m ∈ past, ShortNames m) →
      ∀ n ∈ names s.db, n.2.length < maxNameLen) ?_ ?_ shortNames
    · simp [names, server, storageInit]
    · intro past s e t out _ ih stepped shortNames n member
      have before := ih fun m member => shortNames m (List.mem_cons_of_mem _ member)
      have now := shortNames _ List.mem_cons_self
      rcases step_accounts stepped with ⟨db, -⟩ | ⟨fd, code, bytes, env, cli, rfl, -, change⟩
      · exact before n (db ▸ member)
      · generalize coded : MessageType.ofCode code = type at change
        cases change with
        | same type other users =>
          rw [names, users] at member
          exact before n member
        | register email username password hash uid _ readName _ _ inserted =>
          rw [names, (AutoTable.insert?_spec inserted).1, List.map_append] at member
          rcases List.mem_append.mp member with old | new
          · exact before n old
          · rw [List.mem_singleton.mp new]
            exact now.registered coded readName
        | login email e _ _ _ users =>
          rw [names, users] at member
          exact before n member
        | updateUser newUsername newPassword readName db =>
          rw [db] at member
          rcases storageUpdateUser_names P s.db env.salt cli.uid newUsername newPassword with
            ⟨kept, -⟩ | ⟨renamed, -⟩
          · exact before n (kept ▸ member)
          · rw [renamed] at member
            rcases mem_rename.mp member with ⟨-, old⟩ | ⟨-, new, -⟩
            · exact before n old
            · rw [new]
              exact now.updated coded readName
  intro e he
  exact short (e.rowid, e.row.username) (mem_names.mpr ⟨e, he, rfl, rfl⟩)

/-- In a run with short names and uids below 2^31, every logged-in connection goes by its
stored name at every moment exactly when everybody who takes a new name does so alone. -/
theorem names_true_iff (P : Platform) (key : Key) (past : List ServerMoment) (s : Server)
    (run : Run (server P key) past s) (shortNames : ∀ m ∈ past, ShortNames m)
    (small : s.db.users.seq < 2 ^ 31) :
    (∀ m ∈ past, NamesTrue m.after) ↔ ∀ m ∈ past, RenamesAlone m := by
  refine run.always_iff (fun past s => (∀ m ∈ past, ShortNames m) ∧ s.db.users.seq < 2 ^ 31)
    NamesTrue RenamesAlone ?_ ?_ ?_ ⟨shortNames, small⟩
  · intro c hc
    simp [server] at hc
  · rintro past s e t out stepped ⟨shortNames, small⟩
    exact ⟨fun m member => shortNames m (List.mem_cons_of_mem _ member),
      lt_of_le_of_lt (step_users_seq_le stepped) small⟩
  · rintro past s e t out run stepped ⟨shortNames, small⟩ before
    have earlier := fun m member => shortNames m (List.mem_cons_of_mem _ member)
    rcases step_accounts stepped with
      ⟨db, clients, -, unlisted⟩ | ⟨fd, code, bytes, env, cli, rfl, listed, change⟩
    · refine iff_of_true (fun c hc online => ?_) ?_
      · rw [db]
        exact before c (clients c hc online) online
      · intro fd code bytes env cli name event listed
        exact absurd listed (unlisted fd code bytes env cli event)
    · exact change.namesTrue (reachable_connected run.reachable) listed small
        (run_short_rows run earlier) (shortNames _ List.mem_cons_self) before

def renamedSession : List Event :=
  aliceArrives ++ bobArrives ++
    [(serviceUpdateUser (some (CString.lit "robert")) none).event 8 (recordedEnv 3)]

theorem renamedSession_recorded :
    (recordedServer.trace [] recordedServer.start renamedSession).isSome := by decide +kernel

theorem names_true_iff_renamed :
    (∀ m ∈ (recordedServer.history renamedSession renamedSession_recorded).1, NamesTrue m.after) ∧
    ∀ m ∈ (recordedServer.history renamedSession renamedSession_recorded).1, RenamesAlone m := by
  have seen : (∀ m ∈ (recordedServer.history renamedSession renamedSession_recorded).1,
        NamesTrue m.after) ∧
      (∀ m ∈ (recordedServer.history renamedSession renamedSession_recorded).1, ShortNames m) ∧
      (recordedServer.history renamedSession renamedSession_recorded).2.db.users.seq < 2 ^ 31 := by
    decide +kernel
  obtain ⟨holds, short, few⟩ := seen
  exact ⟨holds, (names_true_iff recordedPlatform recordedKey _ _
    (.history renamedSession renamedSession_recorded) short few).mp holds⟩

def impostorSession : List Event :=
  aliceArrives ++ bobArrives ++
    [(serviceUpdateUser (some (CString.lit "alice")) none).event 8 (recordedEnv 3)]

theorem impostorSession_recorded :
    (recordedServer.trace [] recordedServer.start impostorSession).isSome := by decide +kernel

theorem impostor_goes_by_taken_name :
    ¬ ∀ (P : Platform) (key : Key) (past : List ServerMoment) (s : Server),
      Run (server P key) past s → (∀ m ∈ past, ShortNames m) → NamesTrue s := by
  intro claimed
  have seen : (∀ m ∈ (recordedServer.history impostorSession impostorSession_recorded).1,
        ShortNames m) ∧
      ¬ NamesTrue (recordedServer.history impostorSession impostorSession_recorded).2 := by
    decide +kernel
  obtain ⟨short, untrue⟩ := seen
  exact untrue (claimed recordedPlatform recordedKey _ _
    (.history impostorSession impostorSession_recorded) short)

theorem updateUsers_keeps (f : UserRow → UserRow) {e : Entry UserRow}
    (he : e ∈ db.users.entries) (other : e.rowid ≠ bindInt uid) :
    e ∈ (updateUsers db uid f).users.entries := by
  simp only [updateUsers]
  cases updated : db.users.updateWhere? (fun e => e.rowid = bindInt uid) f with
  | none => exact he
  | some users =>
    rw [Option.getD_some, (AutoTable.updateWhere?_spec updated).1]
    refine List.mem_map.mpr ⟨e, he, ?_⟩
    simp [AutoTable.assign, other]

theorem storageUpdateUser_keeps (P : Platform) (salt : List.Vector (Fin 64) 16)
    (name password : CString) {e : Entry UserRow} (he : e ∈ db.users.entries)
    (other : e.rowid ≠ bindInt uid) :
    e ∈ (storageUpdateUser P db salt uid name password).users.entries := by
  have first : e ∈ (if name.length > 0 then updateUsers db uid fun r => { r with username := name }
      else db).users.entries := by
    split
    · exact updateUsers_keeps _ he other
    · exact he
  unfold storageUpdateUser
  dsimp only
  split
  · split
    · exact first
    · exact updateUsers_keeps _ first other
  · exact first

/- Only its own user can change a row. -/
theorem AccountChange.keeps (change : AccountChange P env s cli p t out type) {e : Entry UserRow}
    (he : e ∈ s.db.users.entries)
    (other : type = some .updateUser → cli.uid ≠ columnInt e.rowid) : e ∈ t.db.users.entries := by
  cases change with
  | same type _ users => exact users ▸ he
  | register email username password hash uid _ _ _ _ inserted =>
    rw [(AutoTable.insert?_spec inserted).1]
    exact List.mem_append_left _ he
  | login email e' _ _ _ users => exact users ▸ he
  | updateUser newUsername newPassword _ db =>
    rw [db]
    refine storageUpdateUser_keeps P env.salt newUsername newPassword he fun same => ?_
    exact other rfl (by rw [same, columnInt_bindInt])

theorem same_email {d e : Entry UserRow} (hd : d ∈ db.users.entries) (he : e ∈ db.users.entries)
    (same : d.row.email = e.row.email) : d = e :=
  db.users.eq_of_clash UserRow.clash_comm hd he (by simp [UserRow.clash, same])

theorem storageCheckCredentials_known {e : Entry UserRow} {password : CString}
    (he : e ∈ db.users.entries)
    (hashed : P.crypt password e.row.passwordHash = some e.row.passwordHash) :
    storageCheckCredentials P db e.row.email (.ok password) = .ok (some (accountOf e)) := by
  have found : db.users.entries.find? (fun d => d.row.email = e.row.email) = some e := by
    cases lookup : db.users.entries.find? (fun d => d.row.email = e.row.email) with
    | none =>
      have missing := List.find?_eq_none.mp lookup e he
      exact absurd (decide_eq_true rfl) missing
    | some d =>
      have same : d.row.email = e.row.email := by simpa using List.find?_some lookup
      exact congrArg some (same_email (List.mem_of_find?_eq_some lookup) he same)
  unfold storageCheckCredentials
  rw [found]
  simp only [bind, Except.bind, hashed, if_true]
  rfl

theorem handleLogin_known (cli : Client) {e : Entry UserRow} {password : CString}
    (he : e ∈ s.db.users.entries)
    (hashed : P.crypt password e.row.passwordHash = some e.row.passwordHash)
    (readEmail : readString p LoginPayload.email = .ok e.row.email)
    (readPassword : readString p LoginPayload.password = .ok password) :
    handleLogin P s cli p =
      .ok ({ s with clients := writeClient cli.fd (signedIn (accountOf e)) s.clients },
        [⟨cli.fd, .loginSuccess (loginInfo (accountOf e))⟩]) := by
  unfold handleLogin
  rw [bindText_some.mpr readEmail, readPassword]
  simp only [bind, Except.bind, storageCheckCredentials_known he hashed]
  rfl

theorem generateFriendCode_short (draws : List.Vector (Fin 16) 6) :
    (generateFriendCode draws).length ≤ friendCodeLen := by
  have six : 6 ≤ friendCodeLen := by decide
  refine Nat.le_trans (CString.cut_length_le _) ?_
  simpa using six

/-- A login with these credentials on any open connection is answered with this row. -/
def Welcomes (P : Platform) (key : Key) (s : Server) (email password : CString)
    (e : Entry UserRow) : Prop :=
  ∀ fd code bytes env, (getClientByFd fd s.clients).isSome →
    MessageType.ofCode code = some .login →
    readString (deliver bytes) LoginPayload.email = .ok email →
    readString (deliver bytes) LoginPayload.password = .ok password →
    ∃ t info, (server P key).step s (.packet fd code bytes env) =
        some (t, [⟨fd, .loginSuccess info⟩]) ∧
      info.uid = columnInt e.rowid ∧ fieldString info.username = e.row.username ∧
      fieldString info.email = e.row.email ∧ fieldString info.friendCode = e.row.friendCode

/-- No login with this e-mail address is answered with another uid. -/
def Exclusive (P : Platform) (key : Key) (s : Server) (email : CString) (uid : UInt32) : Prop :=
  ∀ fd code bytes env t out, (server P key).step s (.packet fd code bytes env) = some (t, out) →
    MessageType.ofCode code = some .login →
    readString (deliver bytes) LoginPayload.email = .ok email →
    ∀ m ∈ out, ∀ info, m.packet = .loginSuccess info → info.uid = uid

theorem welcomes {email password : CString} {e : Entry UserRow} (he : e ∈ s.db.users.entries)
    (known : e.row.email = email)
    (hashed : P.crypt password e.row.passwordHash = some e.row.passwordHash)
    (shortEmail : e.row.email.length ≤ maxEmailLen)
    (shortName : e.row.username.length ≤ maxNameLen)
    (shortCode : e.row.friendCode.length ≤ friendCodeLen) : Welcomes P key s email password e := by
  subst known
  intro fd code bytes env listed coded readEmail readPassword
  obtain ⟨cli, listed⟩ := Option.isSome_iff_exists.mp listed
  obtain ⟨-, rfl⟩ := getClientByFd_some listed
  have handled := handleLogin_known cli he hashed readEmail readPassword
  refine ⟨{ s with clients := writeClient cli.fd (signedIn (accountOf e)) s.clients },
    loginInfo (accountOf e), ?_, rfl, ?_, ?_, ?_⟩
  · simp only [server, serverStep, Event.possible, handleEvent, listed, dispatch, coded, handled,
      if_true, Except.toOption]
  · change fieldString (strncpy _ (fieldString (strncpy maxNameLen e.row.username))) = _
    rw [fieldString_short shortName, fieldString_short shortName]
  · change fieldString (strncpy _ (fieldString (strncpy maxEmailLen e.row.email))) = _
    rw [fieldString_short shortEmail, fieldString_short shortEmail]
  · change fieldString (strncpy _ (fieldString (strncpy friendCodeLen e.row.friendCode))) = _
    rw [fieldString_short shortCode, fieldString_short shortCode]

theorem exclusive {e : Entry UserRow} (he : e ∈ s.db.users.entries) :
    Exclusive P key s e.row.email (columnInt e.rowid) := by
  intro fd code bytes env t out stepped coded readEmail m sent info answer
  rcases step_accounts stepped with ⟨-, -, silent, -⟩ | ⟨fd', code', bytes', env', cli, event, -, change⟩
  · rw [silent] at sent
    cases sent
  · cases event
    rw [coded] at change
    cases change with
    | same type _ _ _ quiet => exact absurd answer ((quiet m sent).2 rfl info)
    | login email e' readEmail' member known _ _ replied =>
      cases Except.ok.inj (readEmail.symm.trans readEmail')
      rw [replied, List.mem_singleton] at sent
      subst sent
      cases answer
      rw [same_email member he known]
      rfl

/-- A successful registration adds one row with a fresh uid. For as long as its user updates
nothing, a login with the same credentials is answered with that row, and no login with
that e-mail address with another uid. -/
theorem register_then_login (P : Platform) (key : Key) (later earlier : List ServerMoment)
    (m : ServerMoment) (s : Server) (run : Run (server P key) (later ++ m :: earlier) s)
    (rehash : ∀ password draws hash, P.crypt password (generateRandomSalt draws) = some hash →
      P.crypt password hash = some hash)
    (fd : Int) (code : UInt32) (bytes : List UInt8) (env : Env)
    (event : m.event = .packet fd code bytes env)
    (coded : MessageType.ofCode code = some .register) (answered : ⟨fd, .registerSuccess⟩ ∈ m.output)
    (email username password : CString)
    (readEmail : readString (deliver bytes) RegisterPayload.email = .ok email)
    (readName : readString (deliver bytes) RegisterPayload.username = .ok username)
    (readPassword : readString (deliver bytes) RegisterPayload.password = .ok password)
    (shortEmail : email.length < maxEmailLen) (shortName : username.length < maxNameLen) :
    ∃ e : Entry UserRow, m.after.db.users.entries = m.before.db.users.entries ++ [e] ∧
      (∀ d ∈ m.before.db.users.entries, d.rowid ≠ e.rowid) ∧
      e.row.email = email ∧ e.row.username = username ∧
      e.row.friendCode = generateFriendCode env.code ∧
      ((∀ n ∈ later, ∀ p env, ¬ Sends n .updateUser (columnInt e.rowid) p env) →
        Welcomes P key s email password e ∧ Exclusive P key s email (columnInt e.rowid)) := by
  obtain ⟨-, -, valid⟩ := run.cut
  rcases step_accounts valid with
    ⟨-, -, silent, -⟩ | ⟨fd', code', bytes', env', cli, event', -, change⟩
  · rw [silent] at answered
    cases answered
  · cases event.symm.trans event'
    rw [coded] at change
    cases change with
    | same type _ _ _ quiet => exact absurd rfl ((quiet _ answered).1 rfl)
    | register email' username' password' hash uid readEmail' readName' readPassword' hashed
        inserted =>
      cases Except.ok.inj (readEmail.symm.trans readEmail')
      cases Except.ok.inj (readName.symm.trans readName')
      cases Except.ok.inj (readPassword.symm.trans readPassword')
      obtain ⟨entries, -, -⟩ := AutoTable.insert?_spec inserted
      refine ⟨_, entries, fun d hd => ?_, rfl, rfl, rfl, fun untouched => ?_⟩
      · have issued := m.before.db.users.issued d hd
        dsimp only
        omega
      · have member : (⟨m.before.db.users.seq + 1, username, email, hash,
            generateFriendCode env.code⟩ : Entry UserRow) ∈ s.db.users.entries := by
          refine run.persists_while (fun s => (⟨m.before.db.users.seq + 1, username, email, hash,
            generateFriendCode env.code⟩ : Entry UserRow) ∈ s.db.users.entries) _ ?_ untouched ?_
          · intro s e t out he stepped notOwn
            rcases step_accounts stepped with
              ⟨db, -⟩ | ⟨fd', code', bytes', env', cli', rfl, listed, change⟩
            · exact db ▸ he
            · refine change.keeps he fun update own => ?_
              exact notOwn (deliver bytes') env'
                ⟨fd', code', bytes', cli', rfl, listed, own, update, rfl⟩
          · rw [entries]
            exact List.mem_append_right _ List.mem_cons_self
        exact ⟨welcomes member rfl (rehash password env.salt hash hashed) shortEmail.le shortName.le
          (generateFriendCode_short env.code), exclusive member⟩

def registeredSession : List Event :=
  [.connect 7, (serviceRegister (CString.lit "a@x") (CString.lit "alice")
    (CString.lit "pw")).event 7 (recordedEnv 1), .connect 8]

theorem registeredSession_recorded :
    (recordedServer.trace [] recordedServer.start registeredSession).isSome := by decide +kernel

theorem recorded_rehash (password : CString) (draws : List.Vector (Fin 64) 16) (hash : CString)
    (hashed : recordedPlatform.crypt password (generateRandomSalt draws) = some hash) :
    recordedPlatform.crypt password hash = some hash := by
  simp only [recordedPlatform] at hashed ⊢
  split at hashed
  · rename_i known
    have same := Option.some.inj hashed
    subst same
    exact if_pos ⟨known.1, .inr rfl⟩
  · cases hashed

theorem register_then_login_registered :
    ∃ e : Entry UserRow, e.row.username = CString.lit "alice" ∧
      Welcomes recordedPlatform recordedKey
        (recordedServer.history registeredSession registeredSession_recorded).2
        (CString.lit "a@x") (CString.lit "pw") e := by
  have run := Run.history registeredSession registeredSession_recorded
  have events := System.history_events registeredSession registeredSession_recorded
  have seen : (∀ m ∈
        (recordedServer.history registeredSession registeredSession_recorded).1[1]?,
        ⟨7, .registerSuccess⟩ ∈ m.output) ∧
      ∀ m ∈ (recordedServer.history registeredSession registeredSession_recorded).1.take 1,
        packetType m ≠ some .updateUser := by decide +kernel
  obtain ⟨answers, others⟩ := seen
  generalize recordedServer.history registeredSession registeredSession_recorded = recorded at *
  have three : recorded.1.length = 3 := by
    rw [← List.length_map Moment.event, events]
    rfl
  have place : recorded.1[1]? = some recorded.1[1] := List.getElem?_eq_getElem (by omega)
  have event := congrArg (fun es => es[1]?) events
  rw [List.getElem?_map, place] at event
  have register : recorded.1[1].event = .packet 7 (MessageType.code .register)
      (serviceRegister (CString.lit "a@x") (CString.lit "alice") (CString.lit "pw")).2
      (recordedEnv 1) := Option.some.inj event
  have split : recorded.1 = recorded.1.take 1 ++ recorded.1[1] :: recorded.1.drop 2 := by
    rw [List.getElem_cons_drop, List.take_append_drop]
  rw [split] at run
  obtain ⟨e, -, -, -, username, -, after⟩ := register_then_login recordedPlatform recordedKey _ _ _ _
    run recorded_rehash 7 _ _ _ register (by decide) (answers _ place)
    (CString.lit "a@x") (CString.lit "alice") (CString.lit "pw")
    (by decide +kernel) (by decide +kernel) (by decide +kernel) (by decide +kernel)
    (by decide +kernel)
  exact ⟨e, username, (after fun n member p env sends => others n member sends.type).1⟩

end MoT
