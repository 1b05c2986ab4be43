import MoT.Accounts
import MoT.PayloadBounds
import MoT.Roles

/-! The char arrays of a request. They lie next to each other and are handed on as C
strings, so a scan stops where its array ends only if a NUL happens to follow. -/
namespace MoT
open CMemory Relational Transition

variable {P : Platform} {env : Env} {s t : Server} {cli : Client} {p : Pointer}
  {db : Database} {out : List Sent} {bytes : List UInt8} {type : MessageType}

/-- Where a char array lies in its payload. -/
structure CharArray where
  offset : Nat
  length : Nat

/-- The char arrays of the requests that carry text. -/
def charArrays : MessageType → List CharArray
  | .register => [⟨RegisterPayload.email, maxEmailLen⟩, ⟨RegisterPayload.username, maxNameLen⟩,
      ⟨RegisterPayload.password, maxPassLen⟩]
  | .login => [⟨LoginPayload.email, maxEmailLen⟩, ⟨LoginPayload.password, maxPassLen⟩]
  | .updateUser => [⟨UpdateUserPayload.newUsername, maxNameLen⟩,
      ⟨UpdateUserPayload.newPassword, maxPassLen⟩]
  | .createConv => [⟨CreateConvPayload.name, convNameLen⟩,
      ⟨CreateConvPayload.description, maxDescLen⟩]
  | .updateGroup => [⟨UpdateGroupPayload.newName, convNameLen⟩,
      ⟨UpdateGroupPayload.newDesc, maxDescLen⟩]
  | _ => []

def payloadSize : MessageType → Nat
  | .register => RegisterPayload.size
  | .login => LoginPayload.size
  | .updateUser => UpdateUserPayload.size
  | .createConv => CreateConvPayload.size
  | .updateGroup => UpdateGroupPayload.size
  | _ => 0

/-- What the array says by itself: its bytes up to their first NUL, or all of them. -/
def CharArray.text (f : CharArray) (bytes : List UInt8) : CString :=
  CString.cut ((bytes.drop f.offset).take f.length)

/-- The array holds a NUL, or one comes right behind it. -/
def CharArray.Closed (f : CharArray) (bytes : List UInt8) : Prop :=
  0 ∈ (bytes.drop f.offset).take f.length ∨ (bytes.drop (f.offset + f.length)).headD 0 = 0

instance (f : CharArray) (bytes : List UInt8) : Decidable (f.Closed bytes) :=
  inferInstanceAs (Decidable (_ ∨ _))

theorem charArrays_inside : ∀ f ∈ charArrays type, f.offset ≤ payloadSize type := by
  cases type <;> decide

theorem CharArray.text_length (f : CharArray) (bytes : List UInt8) :
    (f.text bytes).length ≤ f.length :=
  (CString.cut_length_le _).trans (List.length_take_le _ _)

/- The handler is handed the text of the array exactly when the array is closed. -/
theorem CharArray.read_iff (f : CharArray) (nonempty : bytes ≠ [])
    (inside : f.offset ≤ bytes.length) :
    readString (deliver bytes) f.offset = .ok (f.text bytes) ↔ f.Closed bytes := by
  rw [readString_deliver nonempty inside, Except.ok.injEq, CharArray.text, CString.cut_take_iff,
    List.drop_drop]
  rfl

/-- Every text that others can read, with the length of the array it came in. -/
def storedTexts (db : Database) : List (Nat × CString) :=
  db.users.entries.flatMap (fun e => [(maxNameLen, e.row.username), (maxEmailLen, e.row.email)]) ++
    db.conversations.entries.flatMap fun e =>
      (convNameLen, e.row.name) :: e.row.description.toList.map fun desc => (maxDescLen, desc)

/-- No new text is longer than its array. -/
def TextsFit (db db' : Database) : Prop :=
  ∀ x ∈ storedTexts db', x ∈ storedTexts db ∨ x.2.length ≤ x.1

theorem mem_storedTexts {x : Nat × CString} : x ∈ storedTexts db ↔
    (∃ e ∈ db.users.entries, x = (maxNameLen, e.row.username) ∨ x = (maxEmailLen, e.row.email)) ∨
    ∃ e ∈ db.conversations.entries, x = (convNameLen, e.row.name) ∨
      ∃ desc, e.row.description = some desc ∧ x = (maxDescLen, desc) := by
  simp only [storedTexts, List.mem_append, List.mem_flatMap, List.mem_cons, List.mem_map,
    List.not_mem_nil, or_false, Option.mem_toList, eq_comm (a := x)]

theorem mem_updateUsers {uid : UInt32} {f : UserRow → UserRow} {e : Entry UserRow}
    (member : e ∈ (updateUsers db uid f).users.entries) :
    ∃ d ∈ db.users.entries, e.row = d.row ∨ e.row = f d.row := by
  simp only [updateUsers] at member
  cases updated : db.users.updateWhere? (fun e => e.rowid = bindInt uid) f with
  | none =>
    rw [updated] at member
    exact ⟨e, member, .inl rfl⟩
  | some users =>
    rw [updated, Option.getD_some, (AutoTable.updateWhere?_spec updated).1] at member
    obtain ⟨d, there, rfl⟩ := List.mem_map.mp member
    refine ⟨d, there, ?_⟩
    unfold AutoTable.assign
    split
    · exact .inr rfl
    · exact .inl rfl

/- An update leaves every e-mail address, and every username or puts in the new one. -/
theorem mem_storageUpdateUser {salt : List.Vector (Fin 64) 16} {uid : UInt32}
    {name password : CString} {e : Entry UserRow}
    (member : e ∈ (storageUpdateUser P db salt uid name password).users.entries) :
    ∃ d ∈ db.users.entries, e.row.email = d.row.email ∧
      (e.row.username = d.row.username ∨ e.row.username = name) := by
  have first : ∀ e ∈ (if name.length > 0 then updateUsers db uid fun r => { r with username := name }
      else db).users.entries, ∃ d ∈ db.users.entries, e.row.email = d.row.email ∧
        (e.row.username = d.row.username ∨ e.row.username = name) := by
    intro e member
    split at member
    · obtain ⟨d, there, same | new⟩ := mem_updateUsers member
      · exact ⟨d, there, by rw [same], .inl (by rw [same])⟩
      · exact ⟨d, there, by rw [new], .inr (by rw [new])⟩
    · exact ⟨e, member, rfl, .inl rfl⟩
  unfold storageUpdateUser at member
  dsimp only at member
  split at member
  · split at member
    · exact first e member
    · obtain ⟨d, there, same | new⟩ := mem_updateUsers member
      · rw [same]
        exact first d there
      · rw [new]
        exact first d there
  · exact first e member

theorem textsFit_of {db' : Database}
    (users : ∀ e ∈ db'.users.entries,
      ((∃ d ∈ db.users.entries, e.row.username = d.row.username) ∨
        e.row.username.length ≤ maxNameLen) ∧
      ((∃ d ∈ db.users.entries, e.row.email = d.row.email) ∨ e.row.email.length ≤ maxEmailLen))
    (conversations : ∀ e ∈ db'.conversations.entries, e ∈ db.conversations.entries ∨
      e.row.name.length ≤ convNameLen ∧
        ∀ desc, e.row.description = some desc → desc.length ≤ maxDescLen) :
    TextsFit db db' := by
  intro x member
  rcases mem_storedTexts.mp member with ⟨e, he, rfl | rfl⟩ | ⟨e, he, rfl | ⟨desc, described, rfl⟩⟩
  · rcases (users e he).1 with ⟨d, hd, same⟩ | short
    · exact .inl (mem_storedTexts.mpr (.inl ⟨d, hd, .inl (by rw [same])⟩))
    · exact .inr short
  · rcases (users e he).2 with ⟨d, hd, same⟩ | short
    · exact .inl (mem_storedTexts.mpr (.inl ⟨d, hd, .inr (by rw [same])⟩))
    · exact .inr short
  · rcases conversations e he with old | ⟨short, -⟩
    · exact .inl (mem_storedTexts.mpr (.inr ⟨e, old, .inl rfl⟩))
    · exact .inr short
  · rcases conversations e he with old | ⟨-, short⟩
    · exact .inl (mem_storedTexts.mpr (.inr ⟨e, old, .inr ⟨desc, described, rfl⟩⟩))
    · exact .inr (short desc described)

/-- What a handler of text does with the strings of its payload. Of a login's password that is
what the callee reads: nothing, where no row has the address. -/
inductive TextUse where
  | registerUser (email username password : CString)
  | checkCredentials (email : CString) (password : Option CString)
  | updateUser (newUsername newPassword : CString)
  | createConversation (type : UInt8) (name description : CString) (uids : List UInt32)
  | updateGroup (convId : UInt32) (newName newDesc : CString)
  | nowhere (out : List Sent)

/-- The strings that the storage calls get, each with the array that it is meant to come from. -/
def TextUse.texts : TextUse → List (CharArray × CString)
  | .registerUser email username password => (charArrays .register).zip [email, username, password]
  | .checkCredentials email password => (charArrays .login).zip (email :: password.toList)
  | .updateUser newUsername newPassword => (charArrays .updateUser).zip [newUsername, newPassword]
  | .createConversation _ name description _ => (charArrays .createConv).zip [name, description]
  | .updateGroup _ newName newDesc => (charArrays .updateGroup).zip [newName, newDesc]
  | .nowhere _ => []

def textUse (env : Env) (s : Server) (cli : Client) (p : Pointer) :
    MessageType → Except Fault TextUse
  | .register => do
    let email ← readString p RegisterPayload.email
    let username ← readString p RegisterPayload.username
    let password ← readString p RegisterPayload.password
    return .registerUser email username password
  | .login => do
    match ← bindText p LoginPayload.email with
    | none => return .nowhere [⟨cli.fd, .loginFail⟩]
    | some email =>
      if ∃ e ∈ s.db.users.entries, e.row.email = email then
        let password ← readString p LoginPayload.password
        return .checkCredentials email (some password)
      else return .checkCredentials email none
  | .updateUser => do
    let newUsername ← readString p UpdateUserPayload.newUsername
    let newPassword ← readString p UpdateUserPayload.newPassword
    return .updateUser newUsername newPassword
  | .createConv => do
    let count := participantCount (← readUInt32 p CreateConvPayload.participantsCount)
    let uids ← copyUids p count
    let type ← readByte p CreateConvPayload.type
    let existing := findExisting env s type count uids
    if existing ≠ 0 then return .nowhere [⟨cli.fd, .convCreated existing⟩]
    let name ← readString p CreateConvPayload.name
    let description ← readString p CreateConvPayload.description
    return .createConversation type name description uids
  | .updateGroup => do
    let convId ← readUInt32 p UpdateGroupPayload.convId
    if storageIsAdmin s.db convId cli.uid then
      let newName ← readString p UpdateGroupPayload.newName
      let newDesc ← readString p UpdateGroupPayload.newDesc
      return .updateGroup convId newName newDesc
    else return .nowhere []
  | _ => .ok (.nowhere [])

/-- The storage call with these strings, and the handler's answer to its result. -/
def TextUse.outcome (P : Platform) (env : Env) (s : Server) (cli : Client) : TextUse → Outcome
  | .registerUser email username password =>
    match storageRegisterUser P s.db env.code env.salt email username password with
    | (db, some _) => .ok ({ s with db := db }, [⟨cli.fd, .registerSuccess⟩])
    | (db, none) => .ok ({ s with db := db }, [⟨cli.fd, .registerFail⟩])
  | .checkCredentials email password => do
    match ← storageCheckCredentials P s.db email
      (password.elim (.error (.payload .null)) .ok) with
    | some u =>
      return ({ s with clients := writeClient cli.fd (signedIn u) s.clients },
        [⟨cli.fd, .loginSuccess (loginInfo u)⟩])
    | none => return (s, [⟨cli.fd, .loginFail⟩])
  | .updateUser newUsername newPassword =>
    let clients :=
      if newUsername.length > 0 then
        writeClient cli.fd (fun c => { c with username := strncpy maxNameLen newUsername })
          s.clients
      else s.clients
    .ok ({ s with
      db := storageUpdateUser P s.db env.salt cli.uid newUsername newPassword
      clients := clients }, [⟨cli.fd, .updateSuccess⟩])
  | .createConversation type name description uids =>
    let (db, newId) := storageCreateConversation s.db type name description uids
    let s := { s with db := db }
    let others := if newId > 0 then
        uids.flatMap fun uid => if uid = cli.uid then [] else pushConversations env s uid
      else []
    .ok (s, ⟨cli.fd, .convCreated newId⟩ :: others)
  | .updateGroup convId newName newDesc =>
    let s := { s with db := storageUpdateGroup s.db convId newName newDesc }
    .ok (s, notifyGroupUpdate env s convId 0)
  | .nowhere out => .ok (s, out)

def textRequests : List MessageType := [.register, .login, .updateUser, .createConv, .updateGroup]

theorem storageCheckCredentials_unknown {email : CString}
    (unknown : ¬ ∃ e ∈ s.db.users.entries, e.row.email = email) (password : Except Fault CString) :
    storageCheckCredentials P s.db email password = .ok none := by
  have none : (s.db.users.entries.find? fun e => e.row.email = email) = none := by
    refine List.find?_eq_none.mpr fun e member same => unknown ⟨e, member, of_decide_eq_true same⟩
  rw [storageCheckCredentials, none]

theorem storageCheckCredentials_read {email : CString}
    (known : ∃ e ∈ s.db.users.entries, e.row.email = email) (password : Except Fault CString) :
    storageCheckCredentials P s.db email password =
      password >>= fun text => storageCheckCredentials P s.db email (.ok text) := by
  obtain ⟨e, member, same⟩ := known
  obtain ⟨row, found⟩ := Option.isSome_iff_exists.mp
    (List.find?_isSome (p := fun e => decide (e.row.email = email)) |>.mpr
      ⟨e, member, decide_eq_true same⟩)
  unfold storageCheckCredentials
  rw [found]
  cases password <;> rfl

/-- The handlers do nothing with the arrays but what the storage calls do with these strings. -/
theorem dispatch_textUse (request : type ∈ textRequests) :
    dispatch P env s cli type.code p = textUse env s cli p type >>= TextUse.outcome P env s cli := by
  simp only [textRequests, List.mem_cons, List.not_mem_nil, or_false] at request
  rcases request with rfl | rfl | rfl | rfl | rfl <;>
    simp only [dispatch, MessageType.ofCode_code, textUse]
  · simp only [handleRegister, bind_assoc, pure_bind]
    rfl
  · simp only [handleLogin, bind_assoc]
    refine bind_congr fun bound => ?_
    cases bound with
    | none => rfl
    | some email =>
      dsimp only
      split
      · rename_i known
        rw [storageCheckCredentials_read known, bind_assoc, bind_assoc]
        rfl
      · rename_i unknown
        rw [storageCheckCredentials_unknown unknown, pure_bind]
        simp only [TextUse.outcome, storageCheckCredentials_unknown unknown]
        rfl
  · simp only [handleUpdateUser, bind_assoc, pure_bind]
    rfl
  · simp only [handleCreateConv, bind_assoc]
    refine bind_congr fun n => bind_congr fun uids => bind_congr fun convType => ?_
    split
    · rfl
    · simp only [bind_assoc, pure_bind]
      rfl
  · simp only [handleUpdateGroup, bind_assoc]
    refine bind_congr fun convId => ?_
    split
    · simp only [bind_assoc, pure_bind]
      rfl
    · rfl

/-- Each string that is handed on is the text of its array. -/
def ReadAsWritten (env : Env) (s : Server) (cli : Client) (type : MessageType)
    (bytes : List UInt8) : Prop :=
  ∀ call, textUse env s cli (deliver bytes) type = .ok call → ∀ x ∈ call.texts, x.2 = x.1.text bytes

/-- The array goes to a storage call that reads it: the password of a login if somebody has the
address, what a conversation is to be called if it is a new one, and what a group is to be called
from then on if its admin asks. -/
def Used (env : Env) (s : Server) (cli : Client) (bytes : List UInt8) :
    MessageType → CharArray → Prop
  | .login, f => f.offset = LoginPayload.email ∨ ∃ e ∈ s.db.users.entries,
      e.row.email = (CharArray.mk LoginPayload.email maxEmailLen).text bytes
  | .createConv, _ => ∃ convType uids, Requested env s (deliver bytes) convType uids
  | .updateGroup, _ => ∃ k, readUInt32 (deliver bytes) UpdateGroupPayload.convId = .ok k ∧
      storageIsAdmin s.db k cli.uid = true
  | _, _ => True

/- A scan of each array that is used gives its text. -/
def Owned (env : Env) (s : Server) (cli : Client) (type : MessageType)
    (bytes : List UInt8) : Prop :=
  ∀ f ∈ charArrays type, Used env s cli bytes type f →
    readString (deliver bytes) f.offset = .ok (f.text bytes)

theorem CharArray.short {f : CharArray} {text : CString}
    (own : readString (deliver bytes) f.offset = .ok (f.text bytes))
    (read : readString (deliver bytes) f.offset = .ok text) : text.length ≤ f.length := by
  cases Except.ok.inj (own.symm.trans read)
  exact f.text_length bytes

theorem register_textsFit (owned : Owned env s cli .register bytes)
    (done : handleRegister P env s cli (deliver bytes) = .ok (t, out)) : TextsFit s.db t.db := by
  obtain ⟨email, username, password, readEmail, readName, -, ⟨rfl, -⟩ |
    ⟨hash, users, uid, -, inserted, rfl, -⟩⟩ := handleRegister_ok done
  · exact fun x member => .inl member
  · refine textsFit_of (fun e he => ?_) fun e he => .inl he
    rw [show ({ s.db with users := users } : Database).users.entries = users.entries from rfl,
      (AutoTable.insert?_spec inserted).1] at he
    rcases List.mem_append.mp he with old | new
    · exact ⟨.inl ⟨e, old, rfl⟩, .inl ⟨e, old, rfl⟩⟩
    · cases List.mem_singleton.mp new
      have name := owned ⟨RegisterPayload.username, maxNameLen⟩ (by simp [charArrays]) trivial
      have address := owned ⟨RegisterPayload.email, maxEmailLen⟩ (by simp [charArrays]) trivial
      exact ⟨.inr (CharArray.short name readName), .inr (CharArray.short address readEmail)⟩

theorem updateUser_textsFit (owned : Owned env s cli .updateUser bytes)
    (done : handleUpdateUser P env s cli (deliver bytes) = .ok (t, out)) : TextsFit s.db t.db := by
  obtain ⟨name, password, readName, -, after, -⟩ := handleUpdateUser_ok done
  have kept : t.db.conversations = s.db.conversations := by
    obtain ⟨users, updated⟩ := storageUpdateUser_frame P s.db env.salt cli.uid name password
    rw [after, updated]
  refine textsFit_of (fun e he => ?_) fun e he => .inl (kept ▸ he)
  rw [after] at he
  obtain ⟨d, hd, email, same | new⟩ := mem_storageUpdateUser he
  · exact ⟨.inl ⟨d, hd, same⟩, .inl ⟨d, hd, email⟩⟩
  · refine ⟨.inr ?_, .inl ⟨d, hd, email⟩⟩
    rw [new]
    have own := owned ⟨UpdateUserPayload.newUsername, maxNameLen⟩ (by simp [charArrays]) trivial
    exact CharArray.short own readName

theorem createConv_textsFit (owned : Owned env s cli .createConv bytes)
    (done : handleCreateConv env s cli (deliver bytes) = .ok (t, out)) : TextsFit s.db t.db := by
  obtain ⟨n, uids, convType, readN, copied, readType, ⟨-, rfl, -⟩ |
    ⟨missing, name, description, readName, readDescription, rfl, -⟩⟩ := handleCreateConv_ok done
  · exact fun x member => .inl member
  · have used : ∃ convType uids, Requested env s (deliver bytes) convType uids :=
      ⟨convType, uids, n, readN, copied, readType, missing⟩
    have ownName := owned ⟨CreateConvPayload.name, convNameLen⟩ (by simp [charArrays]) used
    have ownDesc := owned ⟨CreateConvPayload.description, maxDescLen⟩ (by simp [charArrays]) used
    obtain ⟨conversations, inserted, created⟩ :=
      storageCreateConversation_spec s.db convType name description uids
    rw [created]
    refine textsFit_of (fun e he => ⟨.inl ⟨e, he, rfl⟩, .inl ⟨e, he, rfl⟩⟩) fun e he => ?_
    dsimp only at he
    rw [(AutoTable.insert?_spec inserted).1] at he
    rcases List.mem_append.mp he with old | new
    · exact .inl old
    · cases List.mem_singleton.mp new
      refine .inr ⟨CharArray.short ownName readName, fun desc described => ?_⟩
      cases described
      exact CharArray.short ownDesc readDescription

theorem updateGroup_textsFit (owned : Owned env s cli .updateGroup bytes)
    (done : handleUpdateGroup env s cli (deliver bytes) = .ok (t, out)) : TextsFit s.db t.db := by
  obtain ⟨k, readK, ⟨-, rfl, -⟩ | ⟨admin, name, desc, readName, readDesc, rfl, -⟩⟩ :=
    handleUpdateGroup_ok done
  · exact fun x member => .inl member
  · have ownName := owned ⟨UpdateGroupPayload.newName, convNameLen⟩ (by simp [charArrays])
      ⟨k, readK, admin⟩
    have ownDesc := owned ⟨UpdateGroupPayload.newDesc, maxDescLen⟩ (by simp [charArrays])
      ⟨k, readK, admin⟩
    obtain ⟨conversations, updated⟩ := s.db.conversations.updateWhere?_free
      (p := fun e => e.rowid = bindInt k)
      (f := fun r => { r with name := name, description := some desc }) fun _ _ => rfl
    refine textsFit_of (fun e he => ⟨.inl ⟨e, he, rfl⟩, .inl ⟨e, he, rfl⟩⟩) fun e he => ?_
    simp only [storageUpdateGroup, updated, Option.getD_some] at he
    rw [(AutoTable.updateWhere?_spec updated).1] at he
    obtain ⟨d, hd, rfl⟩ := List.mem_map.mp he
    unfold AutoTable.assign
    split
    · refine .inr ⟨CharArray.short ownName readName, fun desc' described => ?_⟩
      cases described
      exact CharArray.short ownDesc readDesc
    · exact .inl hd

theorem register_same_texts {bytes' : List UInt8} {t' : Server} {out' : List Sent}
    (owned : Owned env s cli .register bytes) (owned' : Owned env s cli .register bytes')
    (same : bytes'.take RegisterPayload.password = bytes.take RegisterPayload.password)
    (done : handleRegister P env s cli (deliver bytes) = .ok (t, out))
    (done' : handleRegister P env s cli (deliver bytes') = .ok (t', out'))
    (success : ⟨cli.fd, .registerSuccess⟩ ∈ out) (success' : ⟨cli.fd, .registerSuccess⟩ ∈ out') :
    storedTexts t'.db = storedTexts t.db := by
  have text (f : CharArray) (before : f.offset + f.length ≤ RegisterPayload.password) :
      f.text bytes' = f.text bytes := by
    have array (bs : List UInt8) : (bs.drop f.offset).take f.length =
        ((bs.take RegisterPayload.password).drop f.offset).take f.length := by
      rw [List.drop_take, List.take_take, Nat.min_eq_left (by omega)]
    rw [CharArray.text, CharArray.text, array bytes', array bytes, same]
  obtain ⟨email, username, password, readEmail, readName, -, ⟨-, rfl⟩ |
    ⟨hash, users, uid, -, inserted, rfl, -⟩⟩ := handleRegister_ok done
  · cases List.mem_singleton.mp success
  obtain ⟨email', username', password', readEmail', readName', -, ⟨-, rfl⟩ |
    ⟨hash', users', uid', -, inserted', rfl, -⟩⟩ := handleRegister_ok done'
  · cases List.mem_singleton.mp success'
  have emails : email' = email := by
    have here := owned ⟨RegisterPayload.email, maxEmailLen⟩ (by simp [charArrays]) trivial
    have there := owned' ⟨RegisterPayload.email, maxEmailLen⟩ (by simp [charArrays]) trivial
    cases Except.ok.inj (here.symm.trans readEmail)
    cases Except.ok.inj (there.symm.trans readEmail')
    exact text _ (by decide)
  have names : username' = username := by
    have here := owned ⟨RegisterPayload.username, maxNameLen⟩ (by simp [charArrays]) trivial
    have there := owned' ⟨RegisterPayload.username, maxNameLen⟩ (by simp [charArrays]) trivial
    cases Except.ok.inj (here.symm.trans readName)
    cases Except.ok.inj (there.symm.trans readName')
    exact text _ (by decide)
  simp only [storedTexts, (AutoTable.insert?_spec inserted).1, (AutoTable.insert?_spec inserted').1,
    List.flatMap_append, List.flatMap_singleton, emails, names]

def CharArray.scanned (f : CharArray) (bytes : List UInt8) : CString :=
  CString.cut (bytes.drop f.offset)

theorem forall_zip_scanned (arrays : List CharArray) :
    (∀ x ∈ arrays.zip (arrays.map fun f => f.scanned bytes), x.2 = x.1.text bytes) ↔
      ∀ f ∈ arrays, f.scanned bytes = f.text bytes := by
  induction arrays with
  | nil => simp
  | cons f arrays ih =>
    rw [List.map_cons, List.zip_cons_cons, List.forall_mem_cons, List.forall_mem_cons, ih]

section Whole

variable (nonempty : bytes ≠ []) (whole : bytes.length = payloadSize type)
include nonempty whole

theorem scan_array (offset : Nat) (inside : offset ≤ payloadSize type) :
    readString (deliver bytes) offset = .ok (CString.cut (bytes.drop offset)) :=
  readString_deliver nonempty (whole ▸ inside)

theorem owned_iff : Owned env s cli type bytes ↔
    ∀ f ∈ charArrays type, Used env s cli bytes type f → f.scanned bytes = f.text bytes := by
  refine forall₂_congr fun f array => imp_congr_right fun _ => ?_
  rw [scan_array nonempty whole _ (charArrays_inside f array), Except.ok.injEq]
  rfl

theorem readAsWritten_all {call : TextUse}
    (called : textUse env s cli (deliver bytes) type = .ok call)
    (texts : call.texts = (charArrays type).zip ((charArrays type).map fun f => f.scanned bytes))
    (used : ∀ f ∈ charArrays type, Used env s cli bytes type f) :
    ReadAsWritten env s cli type bytes ↔ Owned env s cli type bytes := by
  rw [owned_iff nonempty whole, ReadAsWritten, called]
  simp only [Except.ok.injEq, forall_eq']
  rw [texts, forall_zip_scanned]
  exact forall₂_congr fun f array => ⟨fun same _ => same, fun same => same (used f array)⟩

theorem readAsWritten_login (login : type = .login) :
    ReadAsWritten env s cli type bytes ↔ Owned env s cli type bytes := by
  subst login
  rw [owned_iff nonempty whole, ReadAsWritten]
  have email := scan_array nonempty whole LoginPayload.email (by decide)
  have password := scan_array nonempty whole LoginPayload.password (by decide)
  have called : textUse env s cli (deliver bytes) .login =
      .ok (.checkCredentials ((CharArray.mk LoginPayload.email maxEmailLen).scanned bytes)
        (if ∃ e ∈ s.db.users.entries,
            e.row.email = (CharArray.mk LoginPayload.email maxEmailLen).scanned bytes
          then some ((CharArray.mk LoginPayload.password maxPassLen).scanned bytes) else none)) := by
    simp only [textUse, bindText_some.mpr email, password, bind, Except.bind]
    split <;> rename_i known
    · exact congrArg (fun x => Except.ok (TextUse.checkCredentials _ x)) (if_pos known).symm
    · exact congrArg (fun x => Except.ok (TextUse.checkCredentials _ x)) (if_neg known).symm
  rw [called]
  simp only [Except.ok.injEq, forall_eq', TextUse.texts, charArrays, Used]
  by_cases own : (CharArray.mk LoginPayload.email maxEmailLen).scanned bytes =
      (CharArray.mk LoginPayload.email maxEmailLen).text bytes
  · rw [own]
    split <;> rename_i known <;> simp [own, known]
  · refine iff_of_false (fun written => own (written (_, _) List.mem_cons_self)) fun written => ?_
    exact own (written _ List.mem_cons_self (.inl rfl))

theorem readAsWritten_createConv (creates : type = .createConv) :
    ReadAsWritten env s cli type bytes ↔ Owned env s cli type bytes := by
  subst creates
  have name := scan_array nonempty whole CreateConvPayload.name (by decide)
  have desc := scan_array nonempty whole CreateConvPayload.description (by decide)
  by_cases used : ∃ convType uids, Requested env s (deliver bytes) convType uids
  · obtain ⟨convType, uids, n, readN, copied, readType, missing⟩ := id used
    have called : textUse env s cli (deliver bytes) .createConv = .ok (.createConversation convType
        (CString.cut (bytes.drop CreateConvPayload.name))
        (CString.cut (bytes.drop CreateConvPayload.description)) uids) := by
      simp [textUse, readN, copied, readType, missing, name, desc, bind, Except.bind, pure,
        Except.pure]
    exact readAsWritten_all nonempty whole called rfl fun _ _ => used
  · refine iff_of_true (fun call called => ?_) fun f _ requested => absurd requested used
    simp only [textUse, ok_bind_iff] at called
    obtain ⟨n, readN, uids, copied, convType, readType, called⟩ := called
    split at called
    · cases called
      exact List.forall_mem_nil _
    · rename_i missing
      exact absurd ⟨convType, uids, n, readN, copied, readType, not_not.mp missing⟩ used

theorem readAsWritten_updateGroup (updates : type = .updateGroup) :
    ReadAsWritten env s cli type bytes ↔ Owned env s cli type bytes := by
  subst updates
  have name := scan_array nonempty whole UpdateGroupPayload.newName (by decide)
  have desc := scan_array nonempty whole UpdateGroupPayload.newDesc (by decide)
  by_cases used : ∃ k, readUInt32 (deliver bytes) UpdateGroupPayload.convId = .ok k ∧
      storageIsAdmin s.db k cli.uid = true
  · obtain ⟨k, readK, admin⟩ := id used
    have called : textUse env s cli (deliver bytes) .updateGroup = .ok (.updateGroup k
        (CString.cut (bytes.drop UpdateGroupPayload.newName))
        (CString.cut (bytes.drop UpdateGroupPayload.newDesc))) := by
      simp [textUse, readK, admin, name, desc, bind, Except.bind, pure, Except.pure]
    exact readAsWritten_all nonempty whole called rfl fun _ _ => used
  · refine iff_of_true (fun call called => ?_) fun f _ asks => absurd asks used
    simp only [textUse, ok_bind_iff] at called
    obtain ⟨k, readK, called⟩ := called
    split at called
    · rename_i admin
      exact absurd ⟨k, readK, admin⟩ used
    · cases called
      exact List.forall_mem_nil _

theorem readAsWritten_iff (request : type ∈ textRequests) :
    ReadAsWritten env s cli type bytes ↔ Owned env s cli type bytes := by
  simp only [textRequests, List.mem_cons, List.not_mem_nil, or_false] at request
  rcases request with rfl | login | rfl | creates | updates
  · have email := scan_array nonempty whole RegisterPayload.email (by decide)
    have username := scan_array nonempty whole RegisterPayload.username (by decide)
    have password := scan_array nonempty whole RegisterPayload.password (by decide)
    have called : textUse env s cli (deliver bytes) .register = .ok (.registerUser
        (CString.cut (bytes.drop RegisterPayload.email))
        (CString.cut (bytes.drop RegisterPayload.username))
        (CString.cut (bytes.drop RegisterPayload.password))) := by
      simp [textUse, email, username, password, bind, Except.bind, pure, Except.pure]
    exact readAsWritten_all nonempty whole called rfl fun _ _ => trivial
  · exact readAsWritten_login nonempty whole login
  · have username := scan_array nonempty whole UpdateUserPayload.newUsername (by decide)
    have password := scan_array nonempty whole UpdateUserPayload.newPassword (by decide)
    have called : textUse env s cli (deliver bytes) .updateUser = .ok (.updateUser
        (CString.cut (bytes.drop UpdateUserPayload.newUsername))
        (CString.cut (bytes.drop UpdateUserPayload.newPassword))) := by
      simp [textUse, username, password, bind, Except.bind, pure, Except.pure]
    exact readAsWritten_all nonempty whole called rfl fun _ _ => trivial
  · exact readAsWritten_createConv nonempty whole creates
  · exact readAsWritten_updateGroup nonempty whole updates

end Whole

/-- Each array is used as its own text: what is stored fits, and what a registration stores
besides the hash is no matter of the password. -/
structure Isolated (P : Platform) (env : Env) (s : Server) (cli : Client) (type : MessageType)
    (bytes : List UInt8) : Prop where
  asWritten : ReadAsWritten env s cli type bytes
  fits : ∀ t out, dispatch P env s cli type.code (deliver bytes) = .ok (t, out) →
    TextsFit s.db t.db
  password : type = .register → ∀ bytes', bytes'.length = payloadSize type →
    ReadAsWritten env s cli .register bytes' →
    bytes'.take RegisterPayload.password = bytes.take RegisterPayload.password →
    ∀ t out t' out', dispatch P env s cli type.code (deliver bytes) = .ok (t, out) →
      dispatch P env s cli type.code (deliver bytes') = .ok (t', out') →
      ⟨cli.fd, .registerSuccess⟩ ∈ out → ⟨cli.fd, .registerSuccess⟩ ∈ out' →
      storedTexts t'.db = storedTexts t.db

/-- What the handlers do with the char arrays of a full payload they do by passing these strings
to the storage calls, and the arrays are isolated exactly when each that is used holds a NUL or
has one right behind it. -/
theorem char_arrays_isolated_iff (P : Platform) (env : Env) (s : Server) (cli : Client)
    (type : MessageType) (bytes : List UInt8) (request : type ∈ textRequests)
    (whole : bytes.length = payloadSize type) :
    dispatch P env s cli type.code (deliver bytes) =
      textUse env s cli (deliver bytes) type >>= TextUse.outcome P env s cli ∧
    (Isolated P env s cli type bytes ↔
      ∀ f ∈ charArrays type, Used env s cli bytes type f → f.Closed bytes) := by
  refine ⟨dispatch_textUse request, ?_⟩
  have nonempty (bytes : List UInt8) (whole : bytes.length = payloadSize type) : bytes ≠ [] := by
    apply List.ne_nil_of_length_pos
    rw [whole]
    simp only [textRequests, List.mem_cons, List.not_mem_nil, or_false] at request
    rcases request with rfl | rfl | rfl | rfl | rfl <;> decide
  have closed_iff : Owned env s cli type bytes ↔
      ∀ f ∈ charArrays type, Used env s cli bytes type f → f.Closed bytes :=
    forall₂_congr fun f array => imp_congr_right fun _ =>
      f.read_iff (nonempty bytes whole) (whole ▸ charArrays_inside f array)
  rw [← closed_iff]
  refine ⟨fun isolated =>
    (readAsWritten_iff (nonempty bytes whole) whole request).mp isolated.asWritten, fun owned => ?_⟩
  refine ⟨(readAsWritten_iff (nonempty bytes whole) whole request).mpr owned,
    fun t out done => ?_, ?_⟩
  · simp only [dispatch, MessageType.ofCode_code] at done
    simp only [textRequests, List.mem_cons, List.not_mem_nil, or_false] at request
    rcases request with rfl | rfl | rfl | rfl | rfl
    · exact register_textsFit owned done
    · rcases handleLogin_ok done with ⟨rfl, -⟩ | ⟨u, rfl, -⟩
      · exact fun x member => .inl member
      · exact fun x member => .inl member
    · exact updateUser_textsFit owned done
    · exact createConv_textsFit owned done
    · exact updateGroup_textsFit owned done
  · rintro rfl bytes' whole' asWritten' same t out t' out' done done' success success'
    have owned' := (readAsWritten_iff (nonempty bytes' whole') whole' request).mp asWritten'
    exact register_same_texts owned owned' same done done' success success'

theorem char_arrays_isolated_iff_register :
    Isolated recordedPlatform (recordedEnv 1) recordedServer.start
      ⟨7, 0, List.Vector.replicate maxNameLen 0, false⟩ .register
      (serviceRegister (CString.lit "a@x") (CString.lit "alice") (CString.lit "pw")).2 := by
  have closed : ∀ f ∈ charArrays .register, f.Closed
      (serviceRegister (CString.lit "a@x") (CString.lit "alice") (CString.lit "pw")).2 := by
    decide +kernel
  exact (char_arrays_isolated_iff _ _ _ _ .register _ (by decide) (by decide +kernel)).2.mpr
    fun f array _ => closed f array

/- A username of 32 bytes runs on into the password. -/
def unterminatedRegister : List UInt8 :=
  (strncpy maxEmailLen (CString.lit "a@x")).toList ++ List.replicate maxNameLen 97 ++
    (strncpy maxPassLen (CString.lit "pw")).toList

theorem password_runs_into_username :
    ¬ ∀ (P : Platform) (env : Env) (s : Server) (cli : Client) (type : MessageType)
        (bytes : List UInt8), type ∈ textRequests → bytes.length = payloadSize type →
      Isolated P env s cli type bytes := by
  intro claimed
  have isolated := claimed recordedPlatform (recordedEnv 1) recordedServer.start
    ⟨7, 0, List.Vector.replicate maxNameLen 0, false⟩ .register unterminatedRegister (by decide)
    (by decide +kernel)
  have seen : ∃ call, textUse (recordedEnv 1) recordedServer.start
      ⟨7, 0, List.Vector.replicate maxNameLen 0, false⟩ (deliver unterminatedRegister) .register =
        .ok call ∧ call.texts.any fun x => x.2 ≠ x.1.text unterminatedRegister :=
    ⟨.registerUser (CString.cut unterminatedRegister)
      (CString.cut (unterminatedRegister.drop RegisterPayload.username))
      (CString.cut (unterminatedRegister.drop RegisterPayload.password)), rfl, by decide +kernel⟩
  obtain ⟨call, called, overruns⟩ := seen
  obtain ⟨x, member, other⟩ := List.any_eq_true.mp overruns
  exact of_decide_eq_true other (isolated.asWritten call called x member)

end MoT
