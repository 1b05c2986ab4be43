import MoT.Storage
import MoT.Clients

/-! The sixteen packet handlers. Each takes the state, the connection the packet came
from and its payload, and gives the new state with the packets it sends, in order. -/
namespace MoT
open CMemory

structure Server where
  masterKey : Key
  db : Database
  clients : List Client

/-- What the server does not determine itself while it handles one packet: the clock,
the random draws, the memory it was given and the row orders of its queries. -/
structure Env where
  now : Int
  code : List.Vector (Fin 16) 6
  salt : List.Vector (Fin 64) 16
  randBytes : Option Iv
  junk : Nat → UInt8
  plan : Plan

structure Sent where
  fd : Int
  packet : Packet
deriving DecidableEq

abbrev Outcome := Except Fault (Server × List Sent)

/- The guarded pushes: look the user up, and send when the node says online. -/
def pushTo (s : Server) (uid : UInt32) (packet : Packet) : List Sent :=
  match getClientByUid uid s.clients with
  | none => []
  | some c => if c.isOnline then [⟨c.fd, packet⟩] else []

def pushConversations (env : Env) (s : Server) (uid : UInt32) : List Sent :=
  pushTo s uid (.respConversations (storageGetUserConversations env.plan s.db uid 50))

def handleRegister (P : Platform) (env : Env) (s : Server) (cli : Client) (p : Pointer) :
    Outcome := do
  let email ← readString p RegisterPayload.email
  let username ← readString p RegisterPayload.username
  let password ← readString p RegisterPayload.password
  match storageRegisterUser P s.db env.code env.salt email username password with
  | (db, some _) => return ({ s with db := db }, [⟨cli.fd, .registerSuccess⟩])
  | (db, none) => return ({ s with db := db }, [⟨cli.fd, .registerFail⟩])

def handleLogin (P : Platform) (s : Server) (cli : Client) (p : Pointer) : Outcome := do
  match ← bindText p LoginPayload.email with
  -- no row's address is equal to NULL
  | none => return (s, [⟨cli.fd, .loginFail⟩])
  | some email =>
    match ← storageCheckCredentials P s.db email (readString p LoginPayload.password) with
    | some u =>
      let username := strncpy maxNameLen (fieldString u.username)
      let clients := writeClient cli.fd
        (fun c => { c with username := username, uid := u.uid, isOnline := true }) s.clients
      let info : MyInfoPayload :=
        { uid := u.uid
          username := username
          email := strncpy maxEmailLen (fieldString u.email)
          friendCode := strncpy friendCodeLen (fieldString u.friendCode) }
      return ({ s with clients := clients }, [⟨cli.fd, .loginSuccess info⟩])
    | none => return (s, [⟨cli.fd, .loginFail⟩])

def handleUpdateUser (P : Platform) (env : Env) (s : Server) (cli : Client) (p : Pointer) :
    Outcome := do
  let newUsername ← readString p UpdateUserPayload.newUsername
  let newPassword ← readString p UpdateUserPayload.newPassword
  let db := storageUpdateUser P s.db env.salt cli.uid newUsername newPassword
  let clients :=
    if newUsername.length > 0 then
      writeClient cli.fd (fun c => { c with username := strncpy maxNameLen newUsername }) s.clients
    else s.clients
  return ({ s with db := db, clients := clients }, [⟨cli.fd, .updateSuccess⟩])

def handleSendText (P : Platform) (env : Env) (s : Server) (cli : Client) (p : Pointer) :
    Outcome := do
  let convId ← readUInt32 p SendMessagePayload.convId
  let text ← readString p SendMessagePayload.text
  let db := storageLogMessage P (some s.masterKey) env.randBytes env.now s.db convId cli.uid text
  let members := storageGetConvParticipants env.plan db convId maxParticipants
  let rp : RoutedMessagePayload :=
    { convId := convId
      senderUid := cli.uid
      senderUsername := strncpy maxNameLen (fieldString cli.username)
      text := strncpy maxTextLen text }
  let s := { s with db := db }
  return (s, members.flatMap fun uid => if uid = cli.uid then [] else pushTo s uid (.rteText rp))

def handleReqHistory (P : Platform) (env : Env) (s : Server) (cli : Client) (p : Pointer) :
    Outcome := do
  let convId ← readUInt32 p RequestHistoryPayload.convId
  let hist ← storageGetHistory P (some s.masterKey) env.junk env.plan s.db convId
  match CMemory.readString hist with
  | none => throw .historyOverflow
  | some bytes => return (s, [⟨cli.fd, .respHistory bytes⟩])

def handleReqContacts (env : Env) (s : Server) (cli : Client) : List Sent :=
  [⟨cli.fd, .respContacts (storageGetContactsData env.plan s.db cli.uid 50)⟩]

def handleGetRequests (env : Env) (s : Server) (cli : Client) : List Sent :=
  [⟨cli.fd, .respRequests (storageGetRequestsData env.plan s.db cli.uid 50)⟩]

def handleAddByCode (env : Env) (s : Server) (cli : Client) (p : Pointer) : Outcome := do
  let friendCode ← bindText p AddContactPayload.friendCode
  match friendCode.bind (storageGetUidByCode s.db) with
  | none => return (s, [⟨cli.fd, .addFail⟩])
  | some targetUid =>
    match storageAddRequest s.db cli.uid targetUid with
    | (_, false) => return (s, [⟨cli.fd, .addFail⟩])
    | (db, true) =>
      let s := { s with db := db }
      return (s, ⟨cli.fd, .addReqSent⟩ :: pushTo s targetUid
        (.respRequests (storageGetRequestsData env.plan db targetUid 50)))

/- The accepting branch before the request is removed: friendship, then the private
conversation where there is none yet, then the two pushes about it. -/
def acceptRequest (env : Env) (s : Server) (cli : Client) (targetUid : UInt32) :
    Server × List Sent :=
  let s := { s with db := storageAddFriendship s.db cli.uid targetUid }
  if storageFindPrivateConversation env.plan s.db cli.uid targetUid = 0 then
    let s := { s with
      db := (storageCreateConversation s.db convTypePrivate (CString.lit "Private Chat")
        CString.empty [cli.uid, targetUid]).1 }
    (s, ⟨cli.fd, .respConversations (storageGetUserConversations env.plan s.db cli.uid 50)⟩ ::
      pushConversations env s targetUid)
  else (s, [])

def handleDecideRequest (env : Env) (s : Server) (cli : Client) (p : Pointer) : Outcome := do
  let accepted ← readByte p DecideRequestPayload.accepted
  let targetUid ← readUInt32 p DecideRequestPayload.targetUid
  let (s, chat) := if accepted ≠ 0 then acceptRequest env s cli targetUid else (s, [])
  let s := { s with db := storageRemoveRequest s.db targetUid cli.uid }
  let refresh := if accepted ≠ 0 then
      pushTo s targetUid (.respContacts (storageGetContactsData env.plan s.db targetUid 50))
    else []
  return (s, chat ++ handleReqContacts env s cli ++ handleGetRequests env s cli ++ refresh)

def notifyGroupUpdate (env : Env) (s : Server) (convId excludeUid : UInt32) : List Sent :=
  (storageGetConvParticipants env.plan s.db convId maxParticipants).flatMap fun uid =>
    if uid = excludeUid then [] else pushConversations env s uid

/- `int count = p->participants_count`, clamped from above only. -/
def participantCount (participantsCount : UInt32) : Int :=
  if bindInt participantsCount > maxParticipants then maxParticipants else bindInt participantsCount

/- `count * sizeof(uint32_t)`: the `int` is widened to `size_t` first. -/
def copySize (count : Int) : Nat := ((count % 2 ^ 64) * 4 % 2 ^ 64).toNat

def words : List UInt8 → List UInt32
  | a :: b :: c :: d :: rest => UInt32.ofNat (littleEndian [a, b, c, d]) :: words rest
  | _ => []

/- `memcpy(uids, p->participant_uids, ...)` into `uint32_t uids[MAX_PARTICIPANTS]`. -/
def copyUids (p : Pointer) (count : Int) : Except Fault (List UInt32) := do
  let bytes ← readBytes p CreateConvPayload.participantUids (copySize count)
  if copySize count > 4 * maxParticipants then throw .copyOverflow
  return words bytes

def findExisting (env : Env) (s : Server) (type : UInt8) (count : Int) (uids : List UInt32) :
    UInt32 :=
  match uids with
  | a :: b :: _ =>
    if type = convTypePrivate ∧ count = 2 then
      storageFindPrivateConversation env.plan s.db a b
    else 0
  | _ => 0

def handleCreateConv (env : Env) (s : Server) (cli : Client) (p : Pointer) : Outcome := do
  let count := participantCount (← readUInt32 p CreateConvPayload.participantsCount)
  let uids ← copyUids p count
  let type ← readByte p CreateConvPayload.type
  let existing := findExisting env s type count uids
  if existing ≠ 0 then return (s, [⟨cli.fd, .convCreated existing⟩])
  let name ← readString p CreateConvPayload.name
  let description ← readString p CreateConvPayload.description
  let (db, newId) := storageCreateConversation s.db type name description uids
  let s := { s with db := db }
  let others := if newId > 0 then
      uids.flatMap fun uid => if uid = cli.uid then [] else pushConversations env s uid
    else []
  return (s, ⟨cli.fd, .convCreated newId⟩ :: others)

def handleReqConversations (env : Env) (s : Server) (cli : Client) : List Sent :=
  [⟨cli.fd, .respConversations (storageGetUserConversations env.plan s.db cli.uid 50)⟩]

def handleUpdateGroup (env : Env) (s : Server) (cli : Client) (p : Pointer) : Outcome := do
  let convId ← readUInt32 p UpdateGroupPayload.convId
  if storageIsAdmin s.db convId cli.uid then
    let newName ← readString p UpdateGroupPayload.newName
    let newDesc ← readString p UpdateGroupPayload.newDesc
    let s := { s with db := storageUpdateGroup s.db convId newName newDesc }
    return (s, notifyGroupUpdate env s convId 0)
  else return (s, [])

def handleAddMember (env : Env) (s : Server) (cli : Client) (p : Pointer) : Outcome := do
  let convId ← readUInt32 p AddMemberPayload.convId
  if storageIsAdmin s.db convId cli.uid then
    let friendCode ← readString p AddMemberPayload.targetFriendCode
    match storageGetUidByCode s.db friendCode with
    | none => return (s, [])
    | some targetUid =>
      let s := { s with db := storageAddParticipant s.db convId targetUid 0 }
      return (s, ⟨cli.fd, .memberAdded⟩ :: notifyGroupUpdate env s convId 0)
  else return (s, [])

def handleReqMembers (env : Env) (s : Server) (cli : Client) (p : Pointer) : Outcome := do
  let convId ← readUInt32 p ReqMembersPayload.convId
  return (s, [⟨cli.fd, .respMembers (storageGetGroupMembers env.plan s.db convId maxMembers)⟩])

def handleKickMember (env : Env) (s : Server) (cli : Client) (p : Pointer) : Outcome := do
  let convId ← readUInt32 p KickMemberPayload.convId
  if storageIsAdmin s.db convId cli.uid then
    let targetUid ← readUInt32 p KickMemberPayload.targetUid
    if targetUid ≠ cli.uid then
      let s := { s with db := storageRemoveParticipant s.db convId targetUid }
      return (s, notifyGroupUpdate env s convId 0 ++ pushConversations env s targetUid)
    else return (s, [])
  else return (s, [])

def handleDeleteGroup (env : Env) (s : Server) (cli : Client) (p : Pointer) : Outcome := do
  let convId ← readUInt32 p DeleteGroupPayload.convId
  if storageIsAdmin s.db convId cli.uid then
    let members := storageGetConvParticipants env.plan s.db convId maxParticipants
    let s := { s with db := storageDeleteConversation s.db convId }
    return (s, members.flatMap fun uid => pushConversations env s uid)
  else return (s, [])

end MoT
