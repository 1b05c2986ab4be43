import MoT.Services

/-! The payloads of the server's packets as bytes, and the structures a client finds in
them. The server sends its local structures as they lie in memory. -/
namespace MoT
open CMemory

namespace Packet

def type : Packet → MessageType
  | registerSuccess => .registerSuccess
  | registerFail => .registerFail
  | loginSuccess _ => .loginSuccess
  | loginFail => .loginFail
  | updateSuccess => .updateSuccess
  | respContacts _ => .respContacts
  | addReqSent => .addReqSent
  | addFail => .addFail
  | respRequests _ => .respRequests
  | convCreated _ => .convCreated
  | respConversations _ => .respConversations
  | memberAdded => .memberAdded
  | respMembers _ => .respMembers
  | rteText _ => .rteText
  | respHistory _ => .respHistory

end Packet

def MyInfoPayload.bytes (info : MyInfoPayload) : List UInt8 :=
  littleEndianBytes info.uid ++ (info.username.toList ++ (info.email.toList ++
    info.friendCode.toList))

namespace ContactSummary

abbrev size : Nat := 4 + maxNameLen + 4

def bytes (c : ContactSummary) : List UInt8 :=
  littleEndianBytes c.uid ++ (c.username.toList ++ littleEndianBytes (columnInt c.isOnline))

end ContactSummary

namespace ConversationSummary

abbrev size : Nat := 4 + 1 + convNameLen + maxDescLen + 4 + 1

def cells (c : ConversationSummary) : List Cell :=
  (littleEndianBytes c.convId).map some ++ (some c.type :: (c.name ++ (c.description ++
    ((littleEndianBytes c.unreadCount).map some ++ [some c.myRole]))))

end ConversationSummary

def RoutedMessagePayload.bytes (m : RoutedMessagePayload) : List UInt8 :=
  littleEndianBytes m.convId ++ (littleEndianBytes m.senderUid ++ (m.senderUsername.toList ++
    m.text.toList))

namespace GroupMemberSummary

abbrev size : Nat := 4 + maxNameLen + 1

def bytes (m : GroupMemberSummary) : List UInt8 :=
  littleEndianBytes m.uid ++ (m.username.toList ++ [m.role])

end GroupMemberSummary

namespace Packet

/- The memory that is handed to `send_packet`. -/
def cells : Packet → List Cell
  | loginSuccess info => info.bytes.map some
  | respContacts contacts => contacts.flatMap fun c => c.bytes.map some
  | respRequests requests => requests.flatMap fun c => c.bytes.map some
  | convCreated convId => (littleEndianBytes convId).map some
  | respConversations conversations => conversations.flatMap ConversationSummary.cells
  | respMembers members => members.flatMap fun m => m.bytes.map some
  | rteText message => message.bytes.map some
  | respHistory history => history.map some
  | _ => []

def payload (junk : Nat → UInt8) (m : Packet) : List UInt8 := fill junk m.cells

end Packet

def wordAt (block : List UInt8) (offset : Nat) : UInt32 :=
  UInt32.ofNat (littleEndian ((block.drop offset).take 4))

def fieldAt (n : Nat) (block : List UInt8) (offset : Nat) : List.Vector UInt8 n :=
  ⟨((block.drop offset).take n ++ List.replicate n 0).take n, by simp⟩

def byteAt (block : List UInt8) (offset : Nat) : UInt8 := block.getD offset 0

section Reading

variable (front : List UInt8) {offset : Nat} (here : front.length = offset)

include here

theorem slice_append {n : Nat} {piece : List UInt8} (whole : piece.length = n) (rest : List UInt8) :
    ((front ++ (piece ++ rest)).drop offset).take n = piece := by
  rw [List.drop_left' here, List.take_left' whole]

theorem wordAt_append (u : UInt32) (rest : List UInt8) :
    wordAt (front ++ (littleEndianBytes u ++ rest)) offset = u := by
  rw [wordAt, slice_append front here (littleEndianBytes_length u), littleEndian_bytes]

theorem fieldAt_append {n : Nat} (field : List.Vector UInt8 n) (rest : List UInt8) :
    fieldAt n (front ++ (field.toList ++ rest)) offset = field := by
  apply List.Vector.eq
  change (((front ++ (field.toList ++ rest)).drop offset).take n ++ List.replicate n 0).take n = _
  rw [slice_append front here field.toList_length, List.take_left' field.toList_length]

theorem byteAt_append (b : UInt8) (rest : List UInt8) :
    byteAt (front ++ (b :: rest)) offset = b := by
  subst here
  simp [byteAt]

end Reading

namespace ContactSummary

def ofBytes (block : List UInt8) : ContactSummary where
  uid := wordAt block 0
  username := fieldAt maxNameLen block 4
  isOnline := bindInt (wordAt block (4 + maxNameLen))

theorem bytes_length (c : ContactSummary) : c.bytes.length = size := by
  simp only [bytes, List.length_append, littleEndianBytes_length, List.Vector.toList_length]
  rfl

theorem ofBytes_bytes (c : ContactSummary) (flag : bindInt (columnInt c.isOnline) = c.isOnline) :
    ofBytes c.bytes = c := by
  have uid : wordAt c.bytes 0 = c.uid := wordAt_append [] rfl c.uid _
  have username : fieldAt maxNameLen c.bytes 4 = c.username :=
    fieldAt_append (littleEndianBytes c.uid) rfl c.username _
  have isOnline : wordAt c.bytes (4 + maxNameLen) = columnInt c.isOnline := by
    have split : c.bytes = (littleEndianBytes c.uid ++ c.username.toList) ++
        (littleEndianBytes (columnInt c.isOnline) ++ []) := by simp [bytes]
    rw [split]
    exact wordAt_append _ (by simp [List.Vector.toList_length]) _ _
  simp only [ofBytes, uid, username, isOnline, flag]

end ContactSummary

namespace GroupMemberSummary

def ofBytes (block : List UInt8) : GroupMemberSummary where
  uid := wordAt block 0
  username := fieldAt maxNameLen block 4
  role := byteAt block (4 + maxNameLen)

theorem bytes_length (m : GroupMemberSummary) : m.bytes.length = size := by
  simp only [bytes, List.length_append, littleEndianBytes_length, List.Vector.toList_length,
    List.length_singleton]
  rfl

theorem ofBytes_bytes (m : GroupMemberSummary) : ofBytes m.bytes = m := by
  have uid : wordAt m.bytes 0 = m.uid := wordAt_append [] rfl m.uid _
  have username : fieldAt maxNameLen m.bytes 4 = m.username :=
    fieldAt_append (littleEndianBytes m.uid) rfl m.username _
  have role : byteAt m.bytes (4 + maxNameLen) = m.role := by
    have split : m.bytes = (littleEndianBytes m.uid ++ m.username.toList) ++ (m.role :: []) := by
      simp [bytes]
    rw [split]
    exact byteAt_append _ (by simp [List.Vector.toList_length]) _ _
  simp only [ofBytes, uid, username, role]

end GroupMemberSummary

namespace ConversationSummary

def ofBytes (block : List UInt8) : ConversationSummary where
  convId := wordAt block 0
  type := byteAt block 4
  name := ((block.drop (4 + 1)).take convNameLen).map some
  description := ((block.drop (4 + 1 + convNameLen)).take maxDescLen).map some
  unreadCount := wordAt block (4 + 1 + convNameLen + maxDescLen)
  myRole := byteAt block (4 + 1 + convNameLen + maxDescLen + 4)

/-- The same summary, whatever the bytes are that were never written. -/
structure ReadAs (c d : ConversationSummary) : Prop where
  convId : d.convId = c.convId
  type : d.type = c.type
  name : ∃ junk, d.name = (fill junk c.name).map some
  description : ∃ junk, d.description = (fill junk c.description).map some
  unreadCount : d.unreadCount = c.unreadCount
  myRole : d.myRole = c.myRole

theorem fill_cells (c : ConversationSummary) (junk : Nat → UInt8) :
    ∃ junkN junkD, fill junk c.cells = littleEndianBytes c.convId ++ (c.type :: (fill junkN c.name ++
      (fill junkD c.description ++ (littleEndianBytes c.unreadCount ++ [c.myRole])))) := by
  simp only [cells, fill_append, fill_written, fill, Option.getD_some]
  exact ⟨_, _, rfl⟩

theorem cells_length (c : ConversationSummary) (name : c.name.length = convNameLen)
    (description : c.description.length = maxDescLen) : c.cells.length = size := by
  simp only [cells, List.length_append, List.length_map, littleEndianBytes_length,
    List.length_cons, List.length_nil, name, description]
  rfl

theorem ofBytes_fill (c : ConversationSummary) (name : c.name.length = convNameLen)
    (description : c.description.length = maxDescLen) (junk : Nat → UInt8) :
    c.ReadAs (ofBytes (fill junk c.cells)) := by
  obtain ⟨junkN, junkD, filled⟩ := c.fill_cells junk
  have lengthN : (fill junkN c.name).length = convNameLen := (fill_length _ _).trans name
  have lengthD : (fill junkD c.description).length = maxDescLen :=
    (fill_length _ _).trans description
  rw [filled]
  have beforeN : (littleEndianBytes c.convId ++ [c.type]).length = 4 + 1 := rfl
  have beforeD : (littleEndianBytes c.convId ++ [c.type] ++ fill junkN c.name).length =
      4 + 1 + convNameLen := by
    rw [List.length_append, beforeN, lengthN]
  have beforeU : (littleEndianBytes c.convId ++ [c.type] ++ fill junkN c.name ++
      fill junkD c.description).length = 4 + 1 + convNameLen + maxDescLen := by
    rw [List.length_append, beforeD, lengthD]
  have beforeR : (littleEndianBytes c.convId ++ [c.type] ++ fill junkN c.name ++
      fill junkD c.description ++ littleEndianBytes c.unreadCount).length =
        4 + 1 + convNameLen + maxDescLen + 4 := by
    rw [List.length_append, beforeU, littleEndianBytes_length]
  have partN : littleEndianBytes c.convId ++ (c.type :: (fill junkN c.name ++
      (fill junkD c.description ++ (littleEndianBytes c.unreadCount ++ [c.myRole])))) =
        (littleEndianBytes c.convId ++ [c.type]) ++ (fill junkN c.name ++
          (fill junkD c.description ++ (littleEndianBytes c.unreadCount ++ [c.myRole]))) :=
    List.append_cons _ _ _
  have partD := partN.trans (List.append_assoc _ _ _).symm
  have partU := partD.trans (List.append_assoc _ _ _).symm
  have partR := partU.trans (List.append_assoc _ _ _).symm
  generalize littleEndianBytes c.convId ++ (c.type :: (fill junkN c.name ++
    (fill junkD c.description ++ (littleEndianBytes c.unreadCount ++ [c.myRole])))) = block
      at partN partD partU partR
  have convId : wordAt block 0 = c.convId := by
    rw [partN, List.append_assoc]
    exact wordAt_append [] rfl _ _
  have type : byteAt block 4 = c.type := by
    rw [partN, List.append_assoc]
    exact byteAt_append _ rfl _ _
  have nameIs := congrArg (fun b => (b.drop (4 + 1)).take convNameLen) partN
  have descriptionIs := congrArg (fun b => (b.drop (4 + 1 + convNameLen)).take maxDescLen) partD
  have unreadCount : wordAt block (4 + 1 + convNameLen + maxDescLen) = c.unreadCount := by
    rw [partU]
    exact wordAt_append _ beforeU _ _
  have myRole : byteAt block (4 + 1 + convNameLen + maxDescLen + 4) = c.myRole := by
    rw [partR]
    exact byteAt_append _ beforeR _ _
  exact ⟨convId, type,
    ⟨junkN, congrArg (List.map some) (nameIs.trans (slice_append _ beforeN lengthN _))⟩,
    ⟨junkD, congrArg (List.map some) (descriptionIs.trans (slice_append _ beforeD lengthD _))⟩,
    unreadCount, myRole⟩

end ConversationSummary

end MoT
