import Mathlib.Data.List.Nodup
import MoT.Server

/-! What handling one packet can do, handler by handler and then for the dispatcher.
Every invariant below is derived from these, none of them unfolds a handler. -/
namespace MoT
open CMemory Relational Transition

section Outcomes

variable {α β ε : Type}

theorem ok_bind_iff {x : Except ε α} {f : α → Except ε β} {b : β} :
    (x >>= f) = .ok b ↔ ∃ a, x = .ok a ∧ f a = .ok b := by
  cases x with
  | error e => simp [bind, Except.bind]
  | ok a => simp [bind, Except.bind]

theorem ok_pure_iff {a b : α} : (pure a : Except ε α) = .ok b ↔ a = b := by
  simp [pure, Except.pure]

end Outcomes

variable {P : Platform} {env : Env} {s s' : Server} {cli : Client} {p : Pointer} {out : List Sent}

theorem storageRegisterUser_cases (P : Platform) (db : Database)
    (codeDraws : List.Vector (Fin 16) 6) (saltDraws : List.Vector (Fin 64) 16)
    (email username password : CString) :
    storageRegisterUser P db codeDraws saltDraws email username password = (db, none) ∨
    ∃ hash users uid, P.crypt password (generateRandomSalt saltDraws) = some hash ∧
      db.users.insert? ⟨username, email, hash, generateFriendCode codeDraws⟩ =
        some (users, uid) ∧
      storageRegisterUser P db codeDraws saltDraws email username password =
        ({ db with users := users }, some (generateFriendCode codeDraws)) := by
  unfold storageRegisterUser
  dsimp only
  cases hashed : P.crypt password (generateRandomSalt saltDraws) with
  | none => exact .inl rfl
  | some hash =>
    dsimp only
    cases inserted : db.users.insert? ⟨username, email, hash, generateFriendCode codeDraws⟩ with
    | none => exact .inl rfl
    | some result => exact .inr ⟨hash, result.1, result.2, rfl, inserted, rfl⟩

theorem handleRegister_ok (done : handleRegister P env s cli p = .ok (s', out)) :
    ∃ email username password, readString p RegisterPayload.email = .ok email ∧
      readString p RegisterPayload.username = .ok username ∧
      readString p RegisterPayload.password = .ok password ∧
      ((s' = s ∧ out = [⟨cli.fd, .registerFail⟩]) ∨
        ∃ hash users uid, P.crypt password (generateRandomSalt env.salt) = some hash ∧
          s.db.users.insert? ⟨username, email, hash, generateFriendCode env.code⟩ =
            some (users, uid) ∧
          s' = { s with db := { s.db with users := users } } ∧
          out = [⟨cli.fd, .registerSuccess⟩]) := by
  simp only [handleRegister, ok_bind_iff] at done
  obtain ⟨email, readEmail, username, readName, password, readPassword, done⟩ := done
  refine ⟨email, username, password, readEmail, readName, readPassword, ?_⟩
  rcases storageRegisterUser_cases P s.db env.code env.salt email username password with
    refused | ⟨hash, users, uid, hashed, inserted, stored⟩
  · rw [refused] at done
    obtain ⟨rfl, rfl⟩ := Prod.mk.inj (ok_pure_iff.mp done)
    exact .inl ⟨rfl, rfl⟩
  · rw [stored] at done
    obtain ⟨rfl, rfl⟩ := Prod.mk.inj (ok_pure_iff.mp done)
    exact .inr ⟨hash, users, uid, hashed, inserted, rfl, rfl⟩

def signedIn (u : User) (c : Client) : Client :=
  { c with username := strncpy maxNameLen (fieldString u.username), uid := u.uid, isOnline := true }

def loginInfo (u : User) : MyInfoPayload where
  uid := u.uid
  username := strncpy maxNameLen (fieldString u.username)
  email := strncpy maxEmailLen (fieldString u.email)
  friendCode := strncpy friendCodeLen (fieldString u.friendCode)

theorem handleLogin_ok (done : handleLogin P s cli p = .ok (s', out)) :
    (s' = s ∧ out = [⟨cli.fd, .loginFail⟩]) ∨
    ∃ u, s' = { s with clients := writeClient cli.fd (signedIn u) s.clients } ∧
      out = [⟨cli.fd, .loginSuccess (loginInfo u)⟩] ∧
      ∃ email password, readString p LoginPayload.email = .ok email ∧
        readString p LoginPayload.password = .ok password ∧
        storageCheckCredentials P s.db email (.ok password) = .ok (some u) := by
  simp only [handleLogin, ok_bind_iff] at done
  obtain ⟨bound, readEmail, done⟩ := done
  cases bound with
  | none =>
    obtain ⟨rfl, rfl⟩ := Prod.mk.inj (ok_pure_iff.mp done)
    exact .inl ⟨rfl, rfl⟩
  | some email =>
    obtain ⟨found, checked, done⟩ := ok_bind_iff.mp done
    split at done
    · rename_i u
      obtain ⟨rfl, rfl⟩ := Prod.mk.inj (ok_pure_iff.mp done)
      refine .inr ⟨u, rfl, rfl, email, ?_⟩
      unfold storageCheckCredentials at checked
      split at checked
      · cases checked
      · rename_i e known
        simp only [ok_bind_iff] at checked
        obtain ⟨password, readPassword, verdict⟩ := checked
        refine ⟨password, bindText_some.mp readEmail, readPassword, ?_⟩
        unfold storageCheckCredentials
        rw [known]
        exact verdict
    · obtain ⟨rfl, rfl⟩ := Prod.mk.inj (ok_pure_iff.mp done)
      exact .inl ⟨rfl, rfl⟩

theorem handleUpdateUser_ok (done : handleUpdateUser P env s cli p = .ok (s', out)) :
    ∃ newUsername newPassword,
      readString p UpdateUserPayload.newUsername = .ok newUsername ∧
      readString p UpdateUserPayload.newPassword = .ok newPassword ∧
      s'.db = storageUpdateUser P s.db env.salt cli.uid newUsername newPassword ∧
      s'.clients = (if newUsername.length > 0 then
          writeClient cli.fd (fun c => { c with username := strncpy maxNameLen newUsername })
            s.clients
        else s.clients) ∧
      out = [⟨cli.fd, .updateSuccess⟩] := by
  simp only [handleUpdateUser, ok_bind_iff] at done
  obtain ⟨newUsername, readName, newPassword, readPassword, done⟩ := done
  obtain ⟨rfl, rfl⟩ := Prod.mk.inj (ok_pure_iff.mp done)
  exact ⟨newUsername, newPassword, readName, readPassword, rfl, rfl, rfl⟩

def routed (cli : Client) (convId : UInt32) (text : CString) : RoutedMessagePayload :=
  { convId := convId
    senderUid := cli.uid
    senderUsername := strncpy maxNameLen (fieldString cli.username)
    text := strncpy maxTextLen text }

theorem handleSendText_ok (done : handleSendText P env s cli p = .ok (s', out)) :
    ∃ k text, readUInt32 p SendMessagePayload.convId = .ok k ∧
      readString p SendMessagePayload.text = .ok text ∧
      s' = { s with
        db := storageLogMessage P (some s.masterKey) env.randBytes env.now s.db k cli.uid text } ∧
      out = (storageGetConvParticipants env.plan s'.db k maxParticipants).flatMap fun uid =>
        if uid = cli.uid then [] else pushTo s' uid (.rteText (routed cli k text)) := by
  simp only [handleSendText, ok_bind_iff] at done
  obtain ⟨k, readK, text, readText, done⟩ := done
  obtain ⟨rfl, rfl⟩ := Prod.mk.inj (ok_pure_iff.mp done)
  exact ⟨k, text, readK, readText, rfl, rfl⟩

theorem handleReqHistory_ok (done : handleReqHistory P env s cli p = .ok (s', out)) :
    ∃ k hist bytes, readUInt32 p RequestHistoryPayload.convId = .ok k ∧
      storageGetHistory P (some s.masterKey) env.junk env.plan s.db k = .ok hist ∧
      CMemory.readString hist = some bytes ∧ s' = s ∧ out = [⟨cli.fd, .respHistory bytes⟩] := by
  simp only [handleReqHistory, ok_bind_iff] at done
  obtain ⟨k, readK, hist, built, done⟩ := done
  split at done
  · cases done
  · rename_i bytes scanned
    obtain ⟨rfl, rfl⟩ := Prod.mk.inj (ok_pure_iff.mp done)
    exact ⟨k, hist, bytes, readK, built, scanned, rfl, rfl⟩

theorem handleAddByCode_ok (done : handleAddByCode env s cli p = .ok (s', out)) :
    (s' = s ∧ out = [⟨cli.fd, .addFail⟩] ∧
      ∀ code t, readString p AddContactPayload.friendCode = .ok code →
        storageGetUidByCode s.db code = some t → (storageAddRequest s.db cli.uid t).2 = false) ∨
    ∃ code t requests, readString p AddContactPayload.friendCode = .ok code ∧
      storageGetUidByCode s.db code = some t ∧ cli.uid ≠ t ∧
      s.db.requests.insert? ⟨bindInt cli.uid, bindInt t⟩ = some requests ∧
      s' = { s with db := { s.db with requests := requests } } ∧
      out = ⟨cli.fd, .addReqSent⟩ :: pushTo s' t
        (.respRequests (storageGetRequestsData env.plan s'.db t 50)) := by
  simp only [handleAddByCode, ok_bind_iff] at done
  obtain ⟨bound, readCode, done⟩ := done
  have known_of (code : CString) (t : UInt32)
      (read : readString p AddContactPayload.friendCode = .ok code)
      (known : storageGetUidByCode s.db code = some t) :
      bound.bind (storageGetUidByCode s.db) = some t := by
    cases Except.ok.inj (readCode.symm.trans (bindText_some.mpr read))
    exact known
  split at done
  · rename_i unknown
    obtain ⟨rfl, rfl⟩ := Prod.mk.inj (ok_pure_iff.mp done)
    refine .inl ⟨rfl, rfl, fun code t read known => ?_⟩
    cases unknown.symm.trans (known_of code t read known)
  · rename_i t found
    split at done
    · rename_i db refused
      obtain ⟨rfl, rfl⟩ := Prod.mk.inj (ok_pure_iff.mp done)
      refine .inl ⟨rfl, rfl, fun code u read known => ?_⟩
      cases Option.some.inj (found.symm.trans (known_of code u read known))
      rw [refused]
    · rename_i db added
      obtain ⟨code, rfl, known⟩ := Option.bind_eq_some_iff.mp found
      obtain ⟨rfl, rfl⟩ := Prod.mk.inj (ok_pure_iff.mp done)
      unfold storageAddRequest at added
      split at added
      · cases added
      · rename_i distinct
        split at added
        · cases added
        · rename_i requests inserted
          cases added
          exact .inr ⟨code, t, requests, bindText_some.mp readCode, known, distinct, inserted,
            rfl, rfl⟩

/- The tables after the accepting branch, before the request goes. -/
def acceptDb (plan : Plan) (db : Database) (uid target : UInt32) : Database :=
  let db := storageAddFriendship db uid target
  if storageFindPrivateConversation plan db uid target = 0 then
    (storageCreateConversation db convTypePrivate (CString.lit "Private Chat") CString.empty
      [uid, target]).1
  else db

def decideDb (plan : Plan) (db : Database) (uid target : UInt32) (accepted : UInt8) : Database :=
  storageRemoveRequest (if accepted ≠ 0 then acceptDb plan db uid target else db) target uid

theorem acceptRequest_server (env : Env) (s : Server) (cli : Client) (target : UInt32) :
    (acceptRequest env s cli target).1 = { s with db := acceptDb env.plan s.db cli.uid target } := by
  simp only [acceptRequest, acceptDb]
  split <;> rfl

theorem handleDecideRequest_ok (done : handleDecideRequest env s cli p = .ok (s', out)) :
    ∃ accepted target, readByte p DecideRequestPayload.accepted = .ok accepted ∧
      readUInt32 p DecideRequestPayload.targetUid = .ok target ∧
      s' = { s with db := decideDb env.plan s.db cli.uid target accepted } ∧
      out = (if accepted ≠ 0 then (acceptRequest env s cli target).2 else []) ++
        handleReqContacts env s' cli ++ handleGetRequests env s' cli ++
        (if accepted ≠ 0 then
          pushTo s' target (.respContacts (storageGetContactsData env.plan s'.db target 50))
        else []) := by
  simp only [handleDecideRequest, ok_bind_iff] at done
  obtain ⟨accepted, readAccepted, target, readTarget, done⟩ := done
  obtain ⟨rfl, rfl⟩ := Prod.mk.inj (ok_pure_iff.mp done)
  refine ⟨accepted, target, readAccepted, readTarget, ?_, ?_⟩
  · by_cases yes : accepted ≠ 0
    · simp only [if_pos yes, acceptRequest_server, decideDb]
    · simp only [if_neg yes, decideDb]
  · by_cases yes : accepted ≠ 0
    · simp only [if_pos yes]
    · simp only [if_neg yes]

theorem handleCreateConv_ok (done : handleCreateConv env s cli p = .ok (s', out)) :
    ∃ n uids type, readUInt32 p CreateConvPayload.participantsCount = .ok n ∧
      copyUids p (participantCount n) = .ok uids ∧ readByte p CreateConvPayload.type = .ok type ∧
      ((findExisting env s type (participantCount n) uids ≠ 0 ∧ s' = s ∧
          out = [⟨cli.fd, .convCreated (findExisting env s type (participantCount n) uids)⟩]) ∨
        findExisting env s type (participantCount n) uids = 0 ∧
        ∃ name description, readString p CreateConvPayload.name = .ok name ∧
          readString p CreateConvPayload.description = .ok description ∧
          s' = { s with db := (storageCreateConversation s.db type name description uids).1 } ∧
          out = ⟨cli.fd,
              .convCreated (storageCreateConversation s.db type name description uids).2⟩ ::
            (if (storageCreateConversation s.db type name description uids).2 > 0 then
              uids.flatMap fun uid => if uid = cli.uid then [] else pushConversations env s' uid
            else [])) := by
  simp only [handleCreateConv, ok_bind_iff] at done
  obtain ⟨n, readN, uids, copied, type, readType, done⟩ := done
  refine ⟨n, uids, type, readN, copied, readType, ?_⟩
  split at done
  · rename_i existing
    obtain ⟨rfl, rfl⟩ := Prod.mk.inj (ok_pure_iff.mp done)
    exact .inl ⟨existing, rfl, rfl⟩
  · rename_i missing
    simp only [ok_bind_iff] at done
    obtain ⟨name, readName, description, readDescription, done⟩ := done
    obtain ⟨rfl, rfl⟩ := Prod.mk.inj (ok_pure_iff.mp done)
    exact .inr ⟨not_not.mp missing, name, description, readName, readDescription, rfl, rfl⟩

theorem handleUpdateGroup_ok (done : handleUpdateGroup env s cli p = .ok (s', out)) :
    ∃ k, readUInt32 p UpdateGroupPayload.convId = .ok k ∧
      ((storageIsAdmin s.db k cli.uid = false ∧ s' = s ∧ out = []) ∨
        storageIsAdmin s.db k cli.uid = true ∧
        ∃ name desc, readString p UpdateGroupPayload.newName = .ok name ∧
          readString p UpdateGroupPayload.newDesc = .ok desc ∧
          s' = { s with db := storageUpdateGroup s.db k name desc } ∧
          out = notifyGroupUpdate env s' k 0) := by
  simp only [handleUpdateGroup, ok_bind_iff] at done
  obtain ⟨k, readK, done⟩ := done
  refine ⟨k, readK, ?_⟩
  split at done
  · rename_i admin
    simp only [ok_bind_iff] at done
    obtain ⟨name, readName, desc, readDesc, done⟩ := done
    obtain ⟨rfl, rfl⟩ := Prod.mk.inj (ok_pure_iff.mp done)
    exact .inr ⟨admin, name, desc, readName, readDesc, rfl, rfl⟩
  · rename_i stranger
    obtain ⟨rfl, rfl⟩ := Prod.mk.inj (ok_pure_iff.mp done)
    exact .inl ⟨Bool.eq_false_iff.mpr stranger, rfl, rfl⟩

theorem handleAddMember_ok (done : handleAddMember env s cli p = .ok (s', out)) :
    ∃ k, readUInt32 p AddMemberPayload.convId = .ok k ∧
      ((storageIsAdmin s.db k cli.uid = false ∧ s' = s ∧ out = []) ∨
        storageIsAdmin s.db k cli.uid = true ∧
        ∃ code, readString p AddMemberPayload.targetFriendCode = .ok code ∧
          ((storageGetUidByCode s.db code = none ∧ s' = s ∧ out = []) ∨
            ∃ t, storageGetUidByCode s.db code = some t ∧
              s' = { s with db := storageAddParticipant s.db k t 0 } ∧
              out = ⟨cli.fd, .memberAdded⟩ :: notifyGroupUpdate env s' k 0)) := by
  simp only [handleAddMember, ok_bind_iff] at done
  obtain ⟨k, readK, done⟩ := done
  refine ⟨k, readK, ?_⟩
  split at done
  · rename_i admin
    simp only [ok_bind_iff] at done
    obtain ⟨code, readCode, done⟩ := done
    refine .inr ⟨admin, code, readCode, ?_⟩
    split at done
    · rename_i unknown
      obtain ⟨rfl, rfl⟩ := Prod.mk.inj (ok_pure_iff.mp done)
      exact .inl ⟨unknown, rfl, rfl⟩
    · rename_i t known
      obtain ⟨rfl, rfl⟩ := Prod.mk.inj (ok_pure_iff.mp done)
      exact .inr ⟨t, known, rfl, rfl⟩
  · rename_i stranger
    obtain ⟨rfl, rfl⟩ := Prod.mk.inj (ok_pure_iff.mp done)
    exact .inl ⟨Bool.eq_false_iff.mpr stranger, rfl, rfl⟩

theorem handleReqMembers_ok (done : handleReqMembers env s cli p = .ok (s', out)) :
    ∃ k, readUInt32 p ReqMembersPayload.convId = .ok k ∧ s' = s ∧
      out = [⟨cli.fd, .respMembers (storageGetGroupMembers env.plan s.db k maxMembers)⟩] := by
  simp only [handleReqMembers, ok_bind_iff] at done
  obtain ⟨k, readK, done⟩ := done
  obtain ⟨rfl, rfl⟩ := Prod.mk.inj (ok_pure_iff.mp done)
  exact ⟨k, readK, rfl, rfl⟩

theorem handleKickMember_ok (done : handleKickMember env s cli p = .ok (s', out)) :
    ∃ k, readUInt32 p KickMemberPayload.convId = .ok k ∧
      ((storageIsAdmin s.db k cli.uid = false ∧ s' = s ∧ out = []) ∨
        storageIsAdmin s.db k cli.uid = true ∧
        ∃ t, readUInt32 p KickMemberPayload.targetUid = .ok t ∧
          ((t = cli.uid ∧ s' = s ∧ out = []) ∨
            t ≠ cli.uid ∧ s' = { s with db := storageRemoveParticipant s.db k t } ∧
              out = notifyGroupUpdate env s' k 0 ++ pushConversations env s' t)) := by
  simp only [handleKickMember, ok_bind_iff] at done
  obtain ⟨k, readK, done⟩ := done
  refine ⟨k, readK, ?_⟩
  split at done
  · rename_i admin
    simp only [ok_bind_iff] at done
    obtain ⟨t, readT, done⟩ := done
    refine .inr ⟨admin, t, readT, ?_⟩
    split at done
    · rename_i other
      obtain ⟨rfl, rfl⟩ := Prod.mk.inj (ok_pure_iff.mp done)
      exact .inr ⟨other, rfl, rfl⟩
    · rename_i self
      obtain ⟨rfl, rfl⟩ := Prod.mk.inj (ok_pure_iff.mp done)
      exact .inl ⟨not_not.mp self, rfl, rfl⟩
  · rename_i stranger
    obtain ⟨rfl, rfl⟩ := Prod.mk.inj (ok_pure_iff.mp done)
    exact .inl ⟨Bool.eq_false_iff.mpr stranger, rfl, rfl⟩

theorem handleDeleteGroup_ok (done : handleDeleteGroup env s cli p = .ok (s', out)) :
    ∃ k, readUInt32 p DeleteGroupPayload.convId = .ok k ∧
      ((storageIsAdmin s.db k cli.uid = false ∧ s' = s ∧ out = []) ∨
        storageIsAdmin s.db k cli.uid = true ∧
          s' = { s with db := storageDeleteConversation s.db k } ∧
          out = (storageGetConvParticipants env.plan s.db k maxParticipants).flatMap fun uid =>
            pushConversations env s' uid) := by
  simp only [handleDeleteGroup, ok_bind_iff] at done
  obtain ⟨k, readK, done⟩ := done
  refine ⟨k, readK, ?_⟩
  split at done
  · rename_i admin
    obtain ⟨rfl, rfl⟩ := Prod.mk.inj (ok_pure_iff.mp done)
    exact .inr ⟨admin, rfl, rfl⟩
  · rename_i stranger
    obtain ⟨rfl, rfl⟩ := Prod.mk.inj (ok_pure_iff.mp done)
    exact .inl ⟨Bool.eq_false_iff.mpr stranger, rfl, rfl⟩

/-- What a packet may do to the tables, with the fields of the packet that decide it. -/
inductive Change (P : Platform) (env : Env) (s : Server) (cli : Client) (p : Pointer) :
    Option MessageType → Database → Prop where
  | same (type : Option MessageType) : Change P env s cli p type s.db
  | register (users : AutoTable UserRow UserRow.clash) :
      Change P env s cli p (some .register) { s.db with users := users }
  | updateUser (newUsername newPassword : CString) : Change P env s cli p (some .updateUser)
      (storageUpdateUser P s.db env.salt cli.uid newUsername newPassword)
  | sendText (k : UInt32) (text : CString) (readK : readUInt32 p SendMessagePayload.convId = .ok k) :
      Change P env s cli p (some .sendText)
        (storageLogMessage P (some s.masterKey) env.randBytes env.now s.db k cli.uid text)
  | addByCode (code : CString) (target : UInt32) (requests : Table RequestRow RequestRow.clash)
      (readCode : readString p AddContactPayload.friendCode = .ok code)
      (known : storageGetUidByCode s.db code = some target) (distinct : cli.uid ≠ target)
      (inserted : s.db.requests.insert? ⟨bindInt cli.uid, bindInt target⟩ = some requests) :
      Change P env s cli p (some .addByCode) { s.db with requests := requests }
  | decideRequest (accepted : UInt8) (target : UInt32)
      (readAccepted : readByte p DecideRequestPayload.accepted = .ok accepted)
      (readTarget : readUInt32 p DecideRequestPayload.targetUid = .ok target) :
      Change P env s cli p (some .decideRequest)
        (decideDb env.plan s.db cli.uid target accepted)
  | createConv (n : UInt32) (uids : List UInt32) (type : UInt8) (name description : CString)
      (readN : readUInt32 p CreateConvPayload.participantsCount = .ok n)
      (copied : copyUids p (participantCount n) = .ok uids)
      (readType : readByte p CreateConvPayload.type = .ok type)
      (missing : findExisting env s type (participantCount n) uids = 0) :
      Change P env s cli p (some .createConv)
        (storageCreateConversation s.db type name description uids).1
  | updateGroup (k : UInt32) (name desc : CString) (admin : storageIsAdmin s.db k cli.uid = true) :
      Change P env s cli p (some .updateGroup) (storageUpdateGroup s.db k name desc)
  | addMember (k target : UInt32) (admin : storageIsAdmin s.db k cli.uid = true) :
      Change P env s cli p (some .addMember) (storageAddParticipant s.db k target 0)
  | kickMember (k target : UInt32) (admin : storageIsAdmin s.db k cli.uid = true)
      (other : target ≠ cli.uid) :
      Change P env s cli p (some .kickMember) (storageRemoveParticipant s.db k target)
  | deleteGroup (k : UInt32) (admin : storageIsAdmin s.db k cli.uid = true) :
      Change P env s cli p (some .deleteGroup) (storageDeleteConversation s.db k)

theorem dispatch_change {code : UInt32} (done : dispatch P env s cli code p = .ok (s', out)) :
    Change P env s cli p (MessageType.ofCode code) s'.db := by
  unfold dispatch at done
  cases coded : MessageType.ofCode code with
  | none =>
    rw [coded] at done
    cases done
    exact .same _
  | some type =>
    rw [coded] at done
    cases type with
    | register =>
      obtain ⟨email, username, password, -, -, -, ⟨rfl, -⟩ | ⟨hash, users, uid, -, -, rfl, -⟩⟩ :=
        handleRegister_ok done
      · exact .same _
      · exact .register users
    | login =>
      obtain ⟨rfl, -⟩ | ⟨u, rfl, -⟩ := handleLogin_ok done
      · exact .same _
      · exact .same _
    | updateUser =>
      obtain ⟨newUsername, newPassword, -, -, db, -⟩ := handleUpdateUser_ok done
      exact db ▸ .updateUser newUsername newPassword
    | sendText =>
      obtain ⟨k, text, readK, -, rfl, -⟩ := handleSendText_ok done
      exact .sendText k text readK
    | reqHistory =>
      obtain ⟨k, hist, bytes, -, -, -, rfl, -⟩ := handleReqHistory_ok done
      exact .same _
    | createConv =>
      obtain ⟨n, uids, convType, readN, copied, readType,
        ⟨-, rfl, -⟩ | ⟨missing, name, description, -, -, rfl, -⟩⟩ := handleCreateConv_ok done
      · exact .same _
      · exact .createConv n uids convType name description readN copied readType missing
    | updateGroup =>
      obtain ⟨k, -, ⟨-, rfl, -⟩ | ⟨admin, name, desc, -, -, rfl, -⟩⟩ := handleUpdateGroup_ok done
      · exact .same _
      · exact .updateGroup k name desc admin
    | addMember =>
      obtain ⟨k, -, ⟨-, rfl, -⟩ | ⟨admin, friendCode, -, ⟨-, rfl, -⟩ | ⟨t, -, rfl, -⟩⟩⟩ :=
        handleAddMember_ok done
      · exact .same _
      · exact .same _
      · exact .addMember k t admin
    | reqMembers =>
      obtain ⟨k, -, rfl, -⟩ := handleReqMembers_ok done
      exact .same _
    | kickMember =>
      obtain ⟨k, -, ⟨-, rfl, -⟩ | ⟨admin, t, -, ⟨-, rfl, -⟩ | ⟨other, rfl, -⟩⟩⟩ :=
        handleKickMember_ok done
      · exact .same _
      · exact .same _
      · exact .kickMember k t admin other
    | deleteGroup =>
      obtain ⟨k, -, ⟨-, rfl, -⟩ | ⟨admin, rfl, -⟩⟩ := handleDeleteGroup_ok done
      · exact .same _
      · exact .deleteGroup k admin
    | addByCode =>
      obtain ⟨rfl, -⟩ | ⟨friendCode, t, requests, readCode, known, distinct, inserted, rfl, -⟩ :=
        handleAddByCode_ok done
      · exact .same _
      · exact .addByCode friendCode t requests readCode known distinct inserted
    | decideRequest =>
      obtain ⟨accepted, target, readAccepted, readTarget, rfl, -⟩ := handleDecideRequest_ok done
      exact .decideRequest accepted target readAccepted readTarget
    | _ =>
      cases done
      exact .same _

abbrev ServerMoment := Moment Server Event (List Sent)

def packetType (m : ServerMoment) : Option MessageType :=
  match m.event with
  | .packet _ code _ _ => MessageType.ofCode code
  | _ => none

/- User `uid` sends a packet of this type, with this payload, as event `m`. -/
def Sends (m : ServerMoment) (type : MessageType) (uid : UInt32) (p : Pointer) (env : Env) : Prop :=
  ∃ fd code bytes cli, m.event = .packet fd code bytes env ∧
    getClientByFd fd m.before.clients = some cli ∧ cli.uid = uid ∧
    MessageType.ofCode code = some type ∧ p = deliver bytes

theorem Sends.type {m : ServerMoment} {type : MessageType} {uid : UInt32}
    (sends : Sends m type uid p env) : packetType m = some type := by
  obtain ⟨fd, code, bytes, cli, event, -, -, coded, -⟩ := sends
  simp only [packetType, event]
  exact coded

/-- Any step leaves the tables alone, or is a packet on a listed connection. -/
theorem step_change {key : Key} {e : Event} {t : Server}
    (stepped : (server P key).step s e = some (t, out)) :
    t.db = s.db ∨ ∃ fd code bytes env cli, e = .packet fd code bytes env ∧
      getClientByFd fd s.clients = some cli ∧
      Change P env s cli (deliver bytes) (MessageType.ofCode code) t.db := by
  have handled := (handleEvent_of_step stepped).2
  cases e with
  | connect fd =>
    cases handled
    exact .inl rfl
  | disconnect fd =>
    cases handled
    exact .inl rfl
  | packet fd code bytes env =>
    simp only [handleEvent] at handled
    split at handled
    · cases handled
      exact .inl rfl
    · rename_i cli listed
      exact .inr ⟨fd, code, bytes, env, cli, rfl, listed, dispatch_change handled⟩

theorem dispatch_clients {code : UInt32} (done : dispatch P env s cli code p = .ok (s', out)) :
    s'.clients = s.clients ∨
    (∃ uid username, MessageType.ofCode code = some .login ∧ s'.clients = writeClient cli.fd
      (fun c => { c with username := username, uid := uid, isOnline := true }) s.clients) ∨
    ∃ username, MessageType.ofCode code = some .updateUser ∧
      s'.clients = writeClient cli.fd (fun c => { c with username := username }) s.clients := by
  unfold dispatch at done
  cases coded : MessageType.ofCode code with
  | none =>
    rw [coded] at done
    cases done
    exact .inl rfl
  | some type =>
    rw [coded] at done
    cases type with
    | register =>
      obtain ⟨_, _, _, -, -, -, ⟨rfl, -⟩ | ⟨_, _, _, -, -, rfl, -⟩⟩ := handleRegister_ok done <;>
        exact .inl rfl
    | login =>
      obtain ⟨rfl, -⟩ | ⟨u, rfl, -⟩ := handleLogin_ok done
      · exact .inl rfl
      · exact .inr (.inl ⟨u.uid, _, rfl, rfl⟩)
    | updateUser =>
      obtain ⟨newUsername, newPassword, -, -, -, clients, -⟩ := handleUpdateUser_ok done
      split at clients
      · exact .inr (.inr ⟨_, rfl, clients⟩)
      · exact .inl clients
    | sendText =>
      obtain ⟨k, text, -, -, rfl, -⟩ := handleSendText_ok done
      exact .inl rfl
    | reqHistory =>
      obtain ⟨k, hist, bytes, -, -, -, rfl, -⟩ := handleReqHistory_ok done
      exact .inl rfl
    | createConv =>
      obtain ⟨_, _, _, -, -, -, ⟨-, rfl, -⟩ | ⟨-, _, _, -, -, rfl, -⟩⟩ :=
        handleCreateConv_ok done <;> exact .inl rfl
    | updateGroup =>
      obtain ⟨k, -, ⟨-, rfl, -⟩ | ⟨-, _, _, -, -, rfl, -⟩⟩ := handleUpdateGroup_ok done <;>
        exact .inl rfl
    | addMember =>
      obtain ⟨k, -, ⟨-, rfl, -⟩ | ⟨-, _, -, ⟨-, rfl, -⟩ | ⟨t, -, rfl, -⟩⟩⟩ :=
        handleAddMember_ok done <;> exact .inl rfl
    | reqMembers =>
      obtain ⟨k, -, rfl, -⟩ := handleReqMembers_ok done
      exact .inl rfl
    | kickMember =>
      obtain ⟨k, -, ⟨-, rfl, -⟩ | ⟨-, t, -, ⟨-, rfl, -⟩ | ⟨-, rfl, -⟩⟩⟩ :=
        handleKickMember_ok done <;> exact .inl rfl
    | deleteGroup =>
      obtain ⟨k, -, ⟨-, rfl, -⟩ | ⟨-, rfl, -⟩⟩ := handleDeleteGroup_ok done <;> exact .inl rfl
    | addByCode =>
      obtain ⟨rfl, -⟩ | ⟨_, t, requests, -, -, -, -, rfl, -⟩ := handleAddByCode_ok done <;>
        exact .inl rfl
    | decideRequest =>
      obtain ⟨accepted, target, -, -, rfl, -⟩ := handleDecideRequest_ok done
      exact .inl rfl
    | _ =>
      cases done
      exact .inl rfl

/-- The list of connections: descriptors are distinct, and whoever never logged in
still has uid 0. -/
structure Connected (clients : List Client) : Prop where
  distinct : (clients.map Client.fd).Nodup
  guests : ∀ c ∈ clients, c.isOnline = false → c.uid = 0

theorem Connected.same {clients : List Client} (connected : Connected clients) {c d : Client}
    (hc : c ∈ clients) (hd : d ∈ clients) (fds : c.fd = d.fd) : c = d :=
  List.inj_on_of_nodup_map connected.distinct hc hd fds

theorem Connected.remove {clients : List Client} (connected : Connected clients) (fd : Int) :
    Connected (removeClient fd clients) where
  distinct := connected.distinct.sublist ((removeClient_sublist fd clients).map _)
  guests c member := connected.guests c ((removeClient_sublist fd clients).subset member)

theorem Connected.write {clients : List Client} (connected : Connected clients) (fd : Int)
    {f : Client → Client} (keeps : ∀ c, (f c).fd = c.fd)
    (guests : ∀ c ∈ clients, (f c).isOnline = false → (f c).uid = 0) :
    Connected (writeClient fd f clients) where
  distinct := by
    rw [writeClient_fds fd f keeps]
    exact connected.distinct
  guests c member := by
    rcases mem_writeClient member with old | ⟨b, hb, -, rfl⟩
    · exact connected.guests c old
    · exact guests b hb

theorem reachable_connected {key : Key} (reached : Reachable (server P key) s) :
    Connected s.clients := by
  refine reached.invariant (fun s => Connected s.clients) ⟨by simp [server], by simp [server]⟩ ?_
  intro s e t out connected stepped
  obtain ⟨possible, handled⟩ := handleEvent_of_step stepped
  cases e with
  | connect fd =>
    cases handled
    simp only [Event.possible, getClientByFd, Option.isNone_iff_eq_none, List.find?_eq_none,
      decide_eq_true_eq] at possible
    constructor
    · refine List.nodup_cons.mpr ⟨fun member => ?_, connected.distinct⟩
      obtain ⟨c, hc, same⟩ := List.mem_map.mp member
      exact possible c hc same
    · intro c member offline
      rcases List.mem_cons.mp member with rfl | old
      · rfl
      · exact connected.guests c old offline
  | disconnect fd =>
    cases handled
    exact connected.remove fd
  | packet fd code bytes env =>
    simp only [handleEvent] at handled
    split at handled
    · cases handled
      exact connected.remove fd
    · rename_i cli listed
      rcases dispatch_clients handled with
        same | ⟨uid, username, -, written⟩ | ⟨username, -, written⟩
      · exact same ▸ connected
      · rw [written]
        refine connected.write _ (fun _ => rfl) fun c _ offline => ?_
        cases offline
      · rw [written]
        exact connected.write _ (fun _ => rfl) fun c hc offline => connected.guests c hc offline

end MoT
