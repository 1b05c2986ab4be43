import MoT.Payloads
import MoT.Wire

/-! The client's receiving thread: what each packet from the server does to the state that
the screens are drawn from. Drawing itself is left out. -/
namespace MoT
open CMemory

inductive UIState where
  | start | register | login | home | createGroup | chat | settings | friends | requests
  | groupSettings | manageMembers
deriving DecidableEq

/-- The part of `AppState` that the thread touches. A list is NULL, or an array that is kept
beside its count. -/
structure AppState where
  currentState : UIState
  needsRedraw : Bool
  contacts : Option (List ContactSummary)
  contactsCount : Int
  requests : Option (List ContactSummary)
  requestsCount : Int
  conversations : Option (List ConversationSummary)
  convCount : Int
  currentGroupMembers : Option (List GroupMemberSummary)
  currentGroupMembersCount : Int
  currentConvId : UInt32
  chatHistory : Option (List Cell)
  chatHistoryLen : Nat

def appInit : AppState where
  currentState := .start
  needsRedraw := false
  contacts := none
  contactsCount := 0
  requests := none
  requestsCount := 0
  conversations := none
  convCount := 0
  currentGroupMembers := none
  currentGroupMembersCount := 0
  currentConvId := 0
  chatHistory := none
  chatHistoryLen := 0

namespace RoutedMessagePayload
abbrev convIdAt : Nat := 0
abbrev senderUsernameAt : Nat := 8
abbrev textAt : Nat := 8 + maxNameLen
end RoutedMessagePayload

/- `strdup` for the first line, `realloc` and `strcat` for the others. -/
def appAppendHistory (allocates : Nat → Bool) (text : CString) (app : AppState) :
    Except Fault AppState :=
  match app.chatHistory with
  | none =>
    let copy := if allocates (text.length + 1) then some ((text.bytes ++ [0]).map some) else none
    .ok { app with chatHistory := copy, chatHistoryLen := text.length }
  | some block =>
    let total := app.chatHistoryLen + text.length + 1
    if allocates total then
      match strcat (realloc block total) text with
      | none => .error .historyOverflow
      | some block =>
        .ok { app with
          chatHistory := some block
          chatHistoryLen := app.chatHistoryLen + text.length }
    else .ok app

def countUnread (convId : UInt32) : Nat → List ConversationSummary →
    Except Fault (List ConversationSummary)
  | 0, conversations => .ok conversations
  | _ + 1, [] => .error (.payload .null)
  | count + 1, c :: conversations =>
    if c.convId = convId then .ok ({ c with unreadCount := c.unreadCount + 1 } :: conversations)
    else (countUnread convId count conversations).map (c :: ·)

def routedText (allocates : Nat → Bool) (payload : Pointer) (app : AppState) :
    Except Fault AppState := do
  let convId ← readUInt32 payload RoutedMessagePayload.convIdAt
  if app.currentState = .chat ∧ app.currentConvId = convId then
    let username ← readString payload RoutedMessagePayload.senderUsernameAt
    let text ← readString payload RoutedMessagePayload.textAt
    let line := CString.lit "[" ++ username ++ CString.lit "]: " ++ text ++ CString.lit "\n"
    let app ← appAppendHistory allocates (line.truncate 1199) app
    return { app with needsRedraw := true }
  else
    let conversations ← countUnread convId app.convCount.toNat (app.conversations.getD [])
    return { app with
      conversations := app.conversations.map fun _ => conversations
      needsRedraw := true }

/- A payload that is taken over as an array, with `len / sizeof` elements. -/
def ownedArray {α : Type} (size : Nat) (decode : List UInt8 → α) (block : List UInt8) (len : UInt32) :
    Option (List α) × Int :=
  (some (elements size decode (block.take len.toNat)), (len.toNat / size : Nat))

/- The body of the loop, after `recv_packet` gave it a packet. -/
def networkThread (allocates : Nat → Bool) (type : UInt32) (payload : Pointer) (len : UInt32)
    (app : AppState) : Except Fault (AppState × List Request) :=
  match MessageType.ofCode type with
  | some .respConversations =>
    match payload with
    | some block =>
      let owned := ownedArray ConversationSummary.size .ofBytes block len
      .ok ({ app with conversations := owned.1, convCount := owned.2, needsRedraw := true }, [])
    | none => .ok ({ app with needsRedraw := true }, [])
  | some .convCreated => .ok ({ app with needsRedraw := true }, [serviceReqConversations])
  | some .rteText => (routedText allocates payload app).map fun app => (app, [])
  | some .respHistory =>
    match payload with
    | some block =>
      .ok ({ app with
        chatHistory := some (block.map some)
        chatHistoryLen := len.toNat
        needsRedraw := true }, [])
    | none => .ok (app, [])
  | some .respContacts =>
    match payload with
    | some block =>
      let owned := ownedArray ContactSummary.size .ofBytes block len
      .ok ({ app with contacts := owned.1, contactsCount := owned.2, needsRedraw := true }, [])
    | none => .ok (app, [])
  | some .respRequests =>
    match payload with
    | some block =>
      let owned := ownedArray ContactSummary.size .ofBytes block len
      .ok ({ app with requests := owned.1, requestsCount := owned.2, needsRedraw := true }, [])
    | none => .ok (app, [])
  | some .respMembers =>
    match payload with
    | some block =>
      let owned := ownedArray GroupMemberSummary.size .ofBytes block len
      .ok ({ app with
        currentGroupMembers := owned.1
        currentGroupMembersCount := owned.2
        needsRedraw := true }, [])
    | none => .ok (app, [])
  | some .addReqSent => .ok ({ app with needsRedraw := true }, [])
  | some .addSuccess => .ok (app, [serviceRefreshContacts])
  | _ => .ok (app, [])

def networkThreadOn (allocates : Nat → Bool) (junk : Nat → UInt8) (packet : Packet)
    (app : AppState) : Except Fault (AppState × List Request) :=
  networkThread allocates packet.type.code (deliver (packet.payload junk))
    (UInt32.ofNat (packet.payload junk).length) app

/-- That is the thread on what `recv_packet` makes of the bytes on the wire. -/
theorem networkThreadOn_received {R : Reader} (lawful : R.Lawful) {allocates : Nat → Bool}
    (memory : ∀ n, allocates n = true) (junk : Nat → UInt8) (packet : Packet)
    (short : (packet.payload junk).length ≤ 2 ^ 31 - 1) (rest : List UInt8) (calls : Nat)
    (app : AppState) : ∃ received calls',
      recvPacket (some R) allocates ⟨calls, messageHeader packet.type.code
          (UInt32.ofNat (packet.payload junk).length) ++ packet.payload junk ++ rest⟩ =
        (.ok received, ⟨calls', rest⟩) ∧
      networkThread allocates received.type (received.payload.map (fill junk)) received.payloadLen
        app = networkThreadOn allocates junk packet app := by
  obtain ⟨calls', whole⟩ := recvPacket_whole lawful memory
    ⟨packet.type.code, some (packet.payload junk), packet.payload junk, short, load_whole _⟩
    rest calls
  refine ⟨_, calls', whole, ?_⟩
  have block : ((deliver (packet.payload junk)).map fun b => b.map some).map (fill junk) =
      deliver (packet.payload junk) := by
    rw [Option.map_map]
    cases deliver (packet.payload junk) with
    | none => rfl
    | some b => exact congrArg some (fill_written junk b)
  rw [Outgoing.received, networkThreadOn, block]
  rfl

end MoT
