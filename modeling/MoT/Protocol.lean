import MoT.Lib.CMemory

/-! The wire protocol: limits, message types, where the fields of each request lie,
and the packets the server sends. Structures are packed and integers cross the wire
inside payloads in the byte order of the host, which is little endian. -/
namespace MoT
open CMemory

abbrev maxNameLen : Nat := 32
abbrev maxEmailLen : Nat := 64
abbrev maxPassLen : Nat := 64
abbrev maxTextLen : Nat := 1024
abbrev maxDescLen : Nat := 64
abbrev friendCodeLen : Nat := 7
abbrev convNameLen : Nat := 32

abbrev maxParticipants : Nat := 10
abbrev maxMembers : Nat := 50

abbrev convTypePrivate : UInt8 := 0
abbrev convTypeGroup : UInt8 := 1

inductive MessageType where
  | register | registerSuccess | registerFail | login | loginSuccess | loginFail
  | updateUser | updateSuccess | updateFail
  | reqContacts | respContacts | addByCode | addReqSent | addSuccess | addFail
  | getRequests | respRequests | decideRequest
  | createConv | convCreated | reqConversations | respConversations
  | updateGroup | addMember | memberAdded | reqMembers | respMembers | kickMember | deleteGroup
  | sendText | rteText | reqHistory | respHistory
  | disconnect
deriving DecidableEq

namespace MessageType

/-- The enumeration in its order; it starts at 1 and has no gap. -/
def all : List MessageType :=
  [register, registerSuccess, registerFail, login, loginSuccess, loginFail,
    updateUser, updateSuccess, updateFail,
    reqContacts, respContacts, addByCode, addReqSent, addSuccess, addFail,
    getRequests, respRequests, decideRequest,
    createConv, convCreated, reqConversations, respConversations,
    updateGroup, addMember, memberAdded, reqMembers, respMembers, kickMember, deleteGroup,
    sendText, rteText, reqHistory, respHistory,
    disconnect]

/-- A header's type field; any 32-bit value can arrive. -/
def ofCode (code : UInt32) : Option MessageType :=
  if code = 0 then none else all[code.toNat - 1]?

def code (t : MessageType) : UInt32 := UInt32.ofNat (all.idxOf t + 1)

theorem ofCode_code (t : MessageType) : ofCode t.code = some t := by
  cases t <;> decide

end MessageType

/-- Undefined behaviour that ends the run of the program. -/
inductive Fault where
  | payload (fault : CMemory.Fault)
  | copyOverflow
  | nullString
  | historyOverflow
  | cursor (index count : Int)
  | localArray (index size : Nat)
deriving DecidableEq, Repr

/-- What the dispatcher hands to a handler: NULL for an empty payload, else the bytes
received and the NUL that `recv_packet` puts behind them. -/
def deliver (bytes : List UInt8) : Pointer :=
  if bytes = [] then none else some (bytes ++ [0])

def checked {α : Type} (read : Except CMemory.Fault α) : Except Fault α :=
  read.mapError Fault.payload

def readByte (p : Pointer) (offset : Nat) : Except Fault UInt8 := checked (loadByte p offset)
def readUInt32 (p : Pointer) (offset : Nat) : Except Fault UInt32 := checked (loadUInt32 p offset)
def readBytes (p : Pointer) (offset n : Nat) : Except Fault (List UInt8) :=
  checked (load p offset n)

def readString (p : Pointer) (offset : Nat) : Except Fault CString := checked (loadString p offset)

/-- `sqlite3_bind_text` of a field. The first field of no payload is a NULL pointer, which is not
read: it binds SQL's NULL. -/
def bindText (p : Pointer) (offset : Nat) : Except Fault (Option CString) :=
  if p = none ∧ offset = 0 then .ok none else (readString p offset).map some

theorem bindText_some {p : Pointer} {offset : Nat} {text : CString} :
    bindText p offset = .ok (some text) ↔ readString p offset = .ok text := by
  unfold bindText
  split
  · rename_i null
    obtain ⟨rfl, rfl⟩ := null
    refine iff_of_false ?_ ?_ <;> intro read <;> cases read
  · cases readString p offset with
    | ok read => simp [Except.map]
    | error fault => simp [Except.map]

namespace RegisterPayload
abbrev email : Nat := 0
abbrev username : Nat := maxEmailLen
abbrev password : Nat := maxEmailLen + maxNameLen
abbrev size : Nat := maxEmailLen + maxNameLen + maxPassLen
end RegisterPayload

namespace LoginPayload
abbrev email : Nat := 0
abbrev password : Nat := maxEmailLen
abbrev size : Nat := maxEmailLen + maxPassLen
end LoginPayload

namespace UpdateUserPayload
abbrev newUsername : Nat := 0
abbrev newPassword : Nat := maxNameLen
abbrev size : Nat := maxNameLen + maxPassLen
end UpdateUserPayload

namespace AddContactPayload
abbrev friendCode : Nat := 0
end AddContactPayload

namespace DecideRequestPayload
abbrev targetUid : Nat := 0
abbrev accepted : Nat := 4
end DecideRequestPayload

namespace CreateConvPayload
abbrev type : Nat := 0
abbrev name : Nat := 1
abbrev description : Nat := 1 + convNameLen
abbrev participantsCount : Nat := 1 + convNameLen + maxDescLen
abbrev participantUids : Nat := 1 + convNameLen + maxDescLen + 4
abbrev size : Nat := participantUids + 4 * maxParticipants
end CreateConvPayload

namespace SendMessagePayload
abbrev convId : Nat := 0
abbrev text : Nat := 4
end SendMessagePayload

namespace RequestHistoryPayload
abbrev convId : Nat := 0
end RequestHistoryPayload

namespace UpdateGroupPayload
abbrev convId : Nat := 0
abbrev newName : Nat := 4
abbrev newDesc : Nat := 4 + convNameLen
abbrev size : Nat := 4 + convNameLen + maxDescLen
end UpdateGroupPayload

namespace AddMemberPayload
abbrev convId : Nat := 0
abbrev targetFriendCode : Nat := 4
end AddMemberPayload

namespace ReqMembersPayload
abbrev convId : Nat := 0
end ReqMembersPayload

namespace KickMemberPayload
abbrev convId : Nat := 0
abbrev targetUid : Nat := 4
end KickMemberPayload

namespace DeleteGroupPayload
abbrev convId : Nat := 0
end DeleteGroupPayload

structure MyInfoPayload where
  uid : UInt32
  username : List.Vector UInt8 maxNameLen
  email : List.Vector UInt8 maxEmailLen
  friendCode : List.Vector UInt8 friendCodeLen
deriving DecidableEq

structure ContactSummary where
  uid : UInt32
  username : List.Vector UInt8 maxNameLen
  isOnline : Int
deriving DecidableEq

/-- `name` and `description` keep cells that no branch of the server ever writes. -/
structure ConversationSummary where
  convId : UInt32
  type : UInt8
  name : List Cell
  description : List Cell
  unreadCount : UInt32
  myRole : UInt8
deriving DecidableEq

structure RoutedMessagePayload where
  convId : UInt32
  senderUid : UInt32
  senderUsername : List.Vector UInt8 maxNameLen
  text : List.Vector UInt8 maxTextLen
deriving DecidableEq

structure GroupMemberSummary where
  uid : UInt32
  username : List.Vector UInt8 maxNameLen
  role : UInt8
deriving DecidableEq

/-- A packet the server sends: its type together with its payload. -/
inductive Packet where
  | registerSuccess
  | registerFail
  | loginSuccess (info : MyInfoPayload)
  | loginFail
  | updateSuccess
  | respContacts (contacts : List ContactSummary)
  | addReqSent
  | addFail
  | respRequests (requests : List ContactSummary)
  | convCreated (convId : UInt32)
  | respConversations (conversations : List ConversationSummary)
  | memberAdded
  | respMembers (members : List GroupMemberSummary)
  | rteText (message : RoutedMessagePayload)
  | respHistory (history : List UInt8)
deriving DecidableEq

end MoT
