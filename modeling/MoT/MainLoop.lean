import Mathlib.Data.Vector.Basic
import MoT.Lib.Transition
import MoT.NetworkThread

/-! The client's main loop after the login: one handler of key presses for each screen. The
thread that receives packets runs beside it, and a handler is a single step. Drawing is left
out but for the one change of screen that it makes. -/
namespace MoT
open CMemory Transition

variable {α : Type} {allocates : Nat → Bool}

inductive Phase where
  | drawing | reading | ended
deriving DecidableEq

/-- What the loop works on: `app` and the variables of `main`. -/
structure MainState extends AppState where
  phase : Phase
  myUid : UInt32
  memberSelectionIdx : Int
  chatInputBuffer : CString
  selection : Int
  groupSelectionIdx : Int
  groupMembersSelected : List.Vector Bool 100
  groupNameBuf : CString
  groupDescBuf : CString

def mainStart (uid : UInt32) : MainState where
  toAppState := { appInit with currentState := .home, needsRedraw := true }
  phase := .drawing
  myUid := uid
  memberSelectionIdx := 0
  chatInputBuffer := CString.empty
  selection := 0
  groupSelectionIdx := 0
  groupMembersSelected := List.Vector.replicate 100 false
  groupNameBuf := CString.lit "New Group"
  groupDescBuf := CString.lit "Description"

/-- What one key press leads to; `quit` leaves the loop. -/
structure Turn where
  state : MainState
  sent : List Request
  quit : Bool

abbrev KeyOutcome := Except Fault Turn

def stay (s : MainState) : KeyOutcome := .ok ⟨s, [], false⟩
def send (s : MainState) (sent : List Request) : KeyOutcome := .ok ⟨s, sent, false⟩

def letter (c : Char) : Int := c.toNat

abbrev keyErr : Int := -1
abbrev keyEsc : Int := 27
abbrev keyDown : Int := 258
abbrev keyUp : Int := 259
abbrev keyBackspace : Int := 263
abbrev keyF1 : Int := 265
abbrev keyDc : Int := 330

abbrev Enter (ch : Int) : Prop := ch = 10 ∨ ch = 13

/- What the user types at the prompts that a key opens. -/
structure Prompts where
  first : CString
  second : CString

def unprompted : Prompts := ⟨CString.empty, CString.empty⟩

/- `array[index]`, where only the first `count` elements are current. -/
def element (array : List α) (count index : Int) : Except Fault α :=
  if 0 ≤ index ∧ index < count then
    match array[index.toNat]? with
    | some a => .ok a
    | none => .error (.localArray index.toNat array.length)
  else .error (.cursor index count)

/- The conversations that the loops of the client run over. -/
def listed (app : AppState) : List ConversationSummary :=
  (app.conversations.getD []).take app.convCount.toNat

/- The search for the open conversation that stops at the first. -/
def openConversation (app : AppState) : Option ConversationSummary :=
  (listed app).find? fun c => c.convId = app.currentConvId

/- The search that does not stop: the last one counts. -/
def iAmAdmin (app : AppState) : Bool :=
  (listed app).foldl
    (fun isAdmin c => if c.convId = app.currentConvId then c.myRole = 1 else isAdmin) false

/- The elements after the removed one move down; the last one stays where it was. -/
def appRemoveRequest (index : Int) (s : MainState) : MainState :=
  match s.requests with
  | some requests =>
    if 0 ≤ index ∧ index < s.requestsCount then
      let current := requests.take s.requestsCount.toNat
      let shifted := current.eraseIdx index.toNat ++ requests.drop (s.requestsCount.toNat - 1)
      { s with requests := some shifted, requestsCount := s.requestsCount - 1 }
    else s
  | none => s

def openSelected (s : MainState) : KeyOutcome :=
  match s.conversations with
  | some conversations =>
    if s.convCount > 0 then do
      let c ← element conversations s.convCount s.selection
      let opened := conversations.modify s.selection.toNat fun c => { c with unreadCount := 0 }
      send { s with
          currentConvId := c.convId
          chatHistory := none
          chatHistoryLen := 0
          conversations := some opened
          currentState := .chat } [serviceReqHistory c.convId]
    else stay s
  | none => stay s

def homeKey (ch : Int) (s : MainState) : KeyOutcome :=
  if ch = letter 'q' then .ok ⟨s, [], true⟩
  else if ch = keyDown ∧ s.selection < s.convCount - 1 then
    stay { s with selection := s.selection + 1 }
  else if ch = keyUp ∧ s.selection > 0 then stay { s with selection := s.selection - 1 }
  else if ch = letter 'g' ∨ ch = letter 'G' then
    stay { s with
      currentState := .createGroup
      groupSelectionIdx := 0
      groupMembersSelected := List.Vector.replicate 100 false
      groupNameBuf := CString.lit "My Group"
      groupDescBuf := CString.empty }
  else if ch = letter 'f' ∨ ch = letter 'F' then
    send { s with currentState := .friends, selection := 0 }
      [serviceRefreshContacts, serviceRefreshRequests]
  else if Enter ch then openSelected s
  else if ch = letter 's' ∨ ch = letter 'S' then stay { s with currentState := .settings }
  else stay s

/- The line goes into the history of the open chat whatever that history is by now. -/
def sendInput (allocates : Nat → Bool) (s : MainState) : KeyOutcome :=
  if s.chatInputBuffer.length > 0 then do
    let line := CString.lit "Me: " ++ s.chatInputBuffer ++ CString.lit "\n"
    let app ← appAppendHistory allocates (line.truncate 1199) s.toAppState
    send { s with toAppState := app, chatInputBuffer := CString.empty }
      [serviceSendText s.currentConvId s.chatInputBuffer]
  else stay s

def printable (ch : Int) : CString := CString.cut [UInt8.ofNat ch.toNat]

def chatKey (allocates : Nat → Bool) (ch : Int) (s : MainState) : KeyOutcome :=
  if ch = keyEsc then
    send { s with currentState := .home, chatInputBuffer := CString.empty }
      [serviceReqConversations]
  else if Enter ch then sendInput allocates s
  else if ch = keyF1 then
    match openConversation s.toAppState with
    | some c => if c.type = 1 then stay { s with currentState := .groupSettings } else stay s
    | none => stay s
  else if ch = keyBackspace ∨ ch = 127 ∨ ch = 8 then
    stay { s with chatInputBuffer := s.chatInputBuffer.truncate (s.chatInputBuffer.length - 1) }
  else if 32 ≤ ch ∧ ch ≤ 126 then
    if s.chatInputBuffer.length < maxTextLen - 1 then
      stay { s with chatInputBuffer := s.chatInputBuffer ++ printable ch }
    else stay s
  else stay s

/- The ticked contacts go into an array of ten. -/
def addTicked (s : MainState) (uids : List UInt32) (c : ContactSummary × Nat) :
    Except Fault (List UInt32) :=
  match s.groupMembersSelected.toList[c.2]? with
  | none => .error (.localArray c.2 100)
  | some false => .ok uids
  | some true =>
    if uids.length < maxParticipants then .ok (uids ++ [c.1.uid])
    else .error (.localArray uids.length maxParticipants)

def selectedUids (s : MainState) : Except Fault (List UInt32) :=
  ((s.contacts.getD []).take s.contactsCount.toNat).zipIdx.foldlM (addTicked s) []

def toggleMember (s : MainState) : KeyOutcome :=
  if within : 0 ≤ s.groupSelectionIdx ∧ s.groupSelectionIdx.toNat < 100 then
    let i : Fin 100 := ⟨s.groupSelectionIdx.toNat, within.2⟩
    stay { s with
      groupMembersSelected := s.groupMembersSelected.set i (!s.groupMembersSelected.get i) }
  else .error (.localArray s.groupSelectionIdx.toNat 100)

def createGroupKey (ch : Int) (prompts : Prompts) (s : MainState) : KeyOutcome :=
  if ch = keyEsc then stay { s with currentState := .home }
  else if ch = keyDown ∧ s.groupSelectionIdx < s.contactsCount - 1 then
    stay { s with groupSelectionIdx := s.groupSelectionIdx + 1 }
  else if ch = keyUp ∧ s.groupSelectionIdx > 0 then
    stay { s with groupSelectionIdx := s.groupSelectionIdx - 1 }
  else if ch = letter ' ' then toggleMember s
  else if ch = letter 'n' ∨ ch = letter 'N' then
    stay { s with groupNameBuf := prompts.first.truncate 31 }
  else if ch = letter 'd' ∨ ch = letter 'D' then
    stay { s with groupDescBuf := prompts.first.truncate 63 }
  else if Enter ch then do
    let uids ← selectedUids s
    if uids.length < 1 then stay s
    else
      send { s with currentState := .home }
        [serviceCreateGroup s.myUid s.groupNameBuf s.groupDescBuf uids]
  else stay s

def chatWithSelected (s : MainState) : KeyOutcome :=
  match s.contacts with
  | some contacts =>
    if s.contactsCount > 0 then do
      let c ← element contacts s.contactsCount s.selection
      send { s with currentState := .home }
        [serviceCreatePrivate s.myUid c.uid (fieldString c.username)]
    else stay s
  | none => stay s

def friendsKey (ch : Int) (prompts : Prompts) (s : MainState) : KeyOutcome :=
  if ch = letter 'b' ∨ ch = keyEsc ∨ ch = keyBackspace then
    stay { s with currentState := .home, selection := 0 }
  else if ch = keyDown ∧ s.selection < s.contactsCount - 1 then
    stay { s with selection := s.selection + 1 }
  else if ch = keyUp ∧ s.selection > 0 then stay { s with selection := s.selection - 1 }
  else if ch = letter 'a' ∨ ch = letter 'A' then
    send s [serviceAddContact (prompts.first.truncate 10)]
  else if ch = letter 'r' ∨ ch = letter 'R' then
    stay { s with currentState := .requests, selection := 0 }
  else if Enter ch then chatWithSelected s
  else stay s

def settingsKey (ch : Int) (prompts : Prompts) (s : MainState) : KeyOutcome :=
  if ch = letter 'l' ∨ ch = letter 'L' then .ok ⟨s, [], true⟩
  else if ch = letter 'e' ∨ ch = letter 'E' then
    let username := prompts.first.truncate 31
    let password := prompts.second.truncate 63
    if username.length > 0 ∨ password.length > 0 then
      send s [serviceUpdateUser (some username) (some password)]
    else stay s
  else if ch = keyBackspace ∨ ch = 127 ∨ ch = letter 'b' then stay { s with currentState := .home }
  else stay s

def decideSelected (accept : Bool) (s : MainState) : KeyOutcome :=
  match s.requests with
  | some requests =>
    if s.requestsCount > 0 then do
      let r ← element requests s.requestsCount s.selection
      send (appRemoveRequest s.selection s)
        [serviceDecideRequest r.uid (if accept then 1 else 0)]
    else stay s
  | none => stay s

def requestsKey (ch : Int) (s : MainState) : KeyOutcome :=
  if ch = letter 'b' ∨ ch = keyBackspace then
    stay { s with currentState := .friends, selection := 0 }
  else if ch = 10 ∨ ch = letter 'd' then decideSelected (ch = 10) s
  else stay s

/- Only an admin starts at the first member. -/
def groupSettingsKey (ch : Int) (s : MainState) : KeyOutcome :=
  if ch = keyEsc ∨ ch = keyBackspace then stay { s with currentState := .chat }
  else if iAmAdmin s.toAppState ∧ ch = keyDc then
    send { s with currentState := .home } [serviceDeleteGroup s.currentConvId]
  else if ch = letter 'm' ∨ ch = letter 'M' then
    let idx := if iAmAdmin s.toAppState then 0 else s.memberSelectionIdx
    send { s with currentState := .manageMembers, memberSelectionIdx := idx }
      [serviceReqMembers s.currentConvId]
  else stay s

def kickSelected (s : MainState) : KeyOutcome :=
  match s.currentGroupMembers with
  | some members =>
    if iAmAdmin s.toAppState ∧ s.currentGroupMembersCount > 0 then do
      let target ← element members s.currentGroupMembersCount s.memberSelectionIdx
      if target.uid ≠ s.myUid then
        send s [serviceKickMember s.currentConvId target.uid, serviceReqMembers s.currentConvId]
      else stay s
    else stay s
  | none => stay s

def manageMembersKey (ch : Int) (s : MainState) : KeyOutcome :=
  if ch = keyEsc then stay { s with currentState := .groupSettings }
  else if ch = keyDown ∧ s.memberSelectionIdx < s.currentGroupMembersCount - 1 then
    stay { s with memberSelectionIdx := s.memberSelectionIdx + 1 }
  else if ch = keyUp ∧ s.memberSelectionIdx > 0 then
    stay { s with memberSelectionIdx := s.memberSelectionIdx - 1 }
  else if ch = letter 'k' ∨ ch = letter 'K' then kickSelected s
  else stay s

def handleKey (allocates : Nat → Bool) (ch : Int) (prompts : Prompts) (s : MainState) : KeyOutcome :=
  match s.currentState with
  | .home => homeKey ch s
  | .chat => chatKey allocates ch s
  | .createGroup => createGroupKey ch prompts s
  | .friends => friendsKey ch prompts s
  | .settings => settingsKey ch prompts s
  | .requests => requestsKey ch s
  | .groupSettings => groupSettingsKey ch s
  | .manageMembers => manageMembersKey ch s
  | .start | .register | .login => stay s

/- Group settings of a conversation that is no longer listed give way to the home screen. -/
def render (s : MainState) : MainState :=
  if s.needsRedraw then
    if s.currentState = .groupSettings ∧ openConversation s.toAppState = none then
      { s with currentState := .home, needsRedraw := false }
    else { s with needsRedraw := false }
  else s

inductive ClientEvent where
  | draw
  | key (ch : Int) (prompts : Prompts)
  | receive (junk : Nat → UInt8) (packet : Packet)

def clientStep (allocates : Nat → Bool) (s : MainState) :
    ClientEvent → Option (MainState × List Request)
  | .draw => if s.phase = .drawing then some ({ render s with phase := .reading }, []) else none
  | .key ch prompts =>
    if s.phase ≠ .reading then none
    else if ch = keyErr then some ({ s with phase := .drawing }, [])
    else match handleKey allocates ch prompts { s with needsRedraw := true } with
      | .error _ => none
      | .ok turn =>
        some ({ turn.state with phase := if turn.quit then .ended else .drawing }, turn.sent)
  | .receive junk packet =>
    match networkThreadOn allocates junk packet s.toAppState with
    | .error _ => none
    | .ok (app, sent) => some ({ s with toAppState := app }, sent)

/-- The client of the user from the moment the loop begins. -/
def client (allocates : Nat → Bool) (uid : UInt32) : System MainState ClientEvent (List Request) :=
  ⟨mainStart uid, clientStep allocates⟩

end MoT
