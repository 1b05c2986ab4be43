import MoT.Effects
import MoT.MainLoop

/-! What one step of the client can do: a key press, whatever the screen, and a packet of the
server, whatever its type. -/
namespace MoT
open CMemory

variable {allocates : Nat → Bool} {ch : Int} {prompts : Prompts} {s t : MainState}
  {junk : Nat → UInt8} {packet : Packet} {app app' : AppState}

/-- Only what is being typed or ticked differs. -/
def Edited (s t : MainState) : Prop :=
  ∃ input idx members name desc, t = { s with
    chatInputBuffer := input
    groupSelectionIdx := idx
    groupMembersSelected := members
    groupNameBuf := name
    groupDescBuf := desc }

theorem Edited.refl (s : MainState) : Edited s s := ⟨_, _, _, _, _, rfl⟩

inductive Way : UIState → UIState → Prop
  | newGroup : Way .home .createGroup
  | settings : Way .home .settings
  | leaveChat : Way .chat .home
  | groupSettings : Way .chat .groupSettings
  | leaveForm : Way .createGroup .home
  | leaveSettings : Way .settings .home
  | backToChat : Way .groupSettings .chat
  | deleteGroup : Way .groupSettings .home
  | leaveMembers : Way .manageMembers .groupSettings

inductive FreshWay : UIState → UIState → Prop
  | friends : FreshWay .home .friends
  | leaveFriends : FreshWay .friends .home
  | requests : FreshWay .friends .requests
  | leaveRequests : FreshWay .requests .friends

inductive KeyEffect (allocates : Nat → Bool) (ch : Int) (s : MainState) : KeyOutcome → Prop
  | edits {t : MainState} (edited : Edited s t) (sent : List Request) (quit : Bool) :
      KeyEffect allocates ch s (.ok ⟨t, sent, quit⟩)
  | goes {state : UIState} {t : MainState} (way : Way s.currentState state)
      (edited : Edited { s with currentState := state } t) (sent : List Request) :
      KeyEffect allocates ch s (send t sent)
  | resets {state : UIState} (way : FreshWay s.currentState state) (sent : List Request) :
      KeyEffect allocates ch s (send { s with currentState := state, selection := 0 } sent)
  | downHome (home : s.currentState = .home) (room : s.selection < s.convCount - 1) :
      KeyEffect allocates ch s (stay { s with selection := s.selection + 1 })
  | downFriends (friends : s.currentState = .friends) (room : s.selection < s.contactsCount - 1) :
      KeyEffect allocates ch s (stay { s with selection := s.selection + 1 })
  | up (list : s.currentState = .home ∨ s.currentState = .friends) (room : s.selection > 0) :
      KeyEffect allocates ch s (stay { s with selection := s.selection - 1 })
  | memberDown (manage : s.currentState = .manageMembers)
      (room : s.memberSelectionIdx < s.currentGroupMembersCount - 1) :
      KeyEffect allocates ch s (stay { s with memberSelectionIdx := s.memberSelectionIdx + 1 })
  | memberUp (manage : s.currentState = .manageMembers) (room : s.memberSelectionIdx > 0) :
      KeyEffect allocates ch s (stay { s with memberSelectionIdx := s.memberSelectionIdx - 1 })
  | opens (home : s.currentState = .home) : KeyEffect allocates ch s (openSelected s)
  | sends (chat : s.currentState = .chat) (enter : Enter ch) :
      KeyEffect allocates ch s (sendInput allocates s)
  | toggles (form : s.currentState = .createGroup) : KeyEffect allocates ch s (toggleMember s)
  | submits (form : s.currentState = .createGroup) :
      KeyEffect allocates ch s (do
        let uids ← selectedUids s
        if uids.length < 1 then stay s
        else
          send { s with currentState := .home }
            [serviceCreateGroup s.myUid s.groupNameBuf s.groupDescBuf uids])
  | chats (friends : s.currentState = .friends) (enter : Enter ch) :
      KeyEffect allocates ch s (chatWithSelected s)
  | decides (requests : s.currentState = .requests) (accept : Bool) :
      KeyEffect allocates ch s (decideSelected accept s)
  | manages (settings : s.currentState = .groupSettings) (key : ch = letter 'm' ∨ ch = letter 'M') :
      KeyEffect allocates ch s (send { s with
          currentState := .manageMembers
          memberSelectionIdx := if iAmAdmin s.toAppState then 0 else s.memberSelectionIdx }
        [serviceReqMembers s.currentConvId])
  | kicks (manage : s.currentState = .manageMembers) : KeyEffect allocates ch s (kickSelected s)

theorem KeyEffect.stays : KeyEffect allocates ch s (stay s) := .edits (.refl s) [] false

theorem homeKey_effect (home : s.currentState = .home) :
    KeyEffect allocates ch s (homeKey ch s) := by
  rw [homeKey]
  split_ifs with _ down up
  · exact .edits (.refl s) [] true
  · exact .downHome home down.2
  · exact .up (.inl home) up.2
  · exact .goes (home ▸ .newGroup) ⟨_, _, _, _, _, rfl⟩ []
  · exact .resets (home ▸ .friends) _
  · exact .opens home
  · exact .goes (home ▸ .settings) (.refl _) []
  · exact .stays

theorem chatKey_effect (chat : s.currentState = .chat) :
    KeyEffect allocates ch s (chatKey allocates ch s) := by
  rw [chatKey]
  split_ifs with _ enter
  · exact .goes (chat ▸ .leaveChat) ⟨_, _, _, _, _, rfl⟩ _
  · exact .sends chat enter
  · split
    · split
      · exact .goes (chat ▸ .groupSettings) (.refl _) []
      · exact .stays
    · exact .stays
  · exact .edits ⟨_, _, _, _, _, rfl⟩ [] false
  · exact .edits ⟨_, _, _, _, _, rfl⟩ [] false
  · exact .stays
  · exact .stays

theorem createGroupKey_effect (form : s.currentState = .createGroup) :
    KeyEffect allocates ch s (createGroupKey ch prompts s) := by
  rw [createGroupKey]
  split_ifs
  · exact .goes (form ▸ .leaveForm) (.refl _) []
  · exact .edits ⟨_, _, _, _, _, rfl⟩ [] false
  · exact .edits ⟨_, _, _, _, _, rfl⟩ [] false
  · exact .toggles form
  · exact .edits ⟨_, _, _, _, _, rfl⟩ [] false
  · exact .edits ⟨_, _, _, _, _, rfl⟩ [] false
  · exact .submits form
  · exact .stays

theorem friendsKey_effect (friends : s.currentState = .friends) :
    KeyEffect allocates ch s (friendsKey ch prompts s) := by
  rw [friendsKey]
  split_ifs with _ down up _ _ enter
  · exact .resets (friends ▸ .leaveFriends) []
  · exact .downFriends friends down.2
  · exact .up (.inr friends) up.2
  · exact .edits (.refl s) _ false
  · exact .resets (friends ▸ .requests) []
  · exact .chats friends enter
  · exact .stays

theorem settingsKey_effect (settings : s.currentState = .settings) :
    KeyEffect allocates ch s (settingsKey ch prompts s) := by
  rw [settingsKey]
  split_ifs
  · exact .edits (.refl s) [] true
  · dsimp only
    split
    · exact .edits (.refl s) _ false
    · exact .stays
  · exact .goes (settings ▸ .leaveSettings) (.refl _) []
  · exact .stays

theorem requestsKey_effect (requests : s.currentState = .requests) :
    KeyEffect allocates ch s (requestsKey ch s) := by
  rw [requestsKey]
  split_ifs
  · exact .resets (requests ▸ .leaveRequests) []
  · exact .decides requests _
  · exact .stays

theorem groupSettingsKey_effect (settings : s.currentState = .groupSettings) :
    KeyEffect allocates ch s (groupSettingsKey ch s) := by
  rw [groupSettingsKey]
  split
  · exact .goes (settings ▸ .backToChat) (.refl _) []
  · split
    · exact .goes (settings ▸ .deleteGroup) (.refl _) _
    · split
      · rename_i key
        exact .manages settings key
      · exact .stays

theorem manageMembersKey_effect (manage : s.currentState = .manageMembers) :
    KeyEffect allocates ch s (manageMembersKey ch s) := by
  rw [manageMembersKey]
  split_ifs with _ down up
  · exact .goes (manage ▸ .leaveMembers) (.refl _) []
  · exact .memberDown manage down.2
  · exact .memberUp manage up.2
  · exact .kicks manage
  · exact .stays

theorem handleKey_effect (allocates : Nat → Bool) (ch : Int) (prompts : Prompts) (s : MainState) :
    KeyEffect allocates ch s (handleKey allocates ch prompts s) := by
  unfold handleKey
  split
  · exact homeKey_effect ‹_›
  · exact chatKey_effect ‹_›
  · exact createGroupKey_effect ‹_›
  · exact friendsKey_effect ‹_›
  · exact settingsKey_effect ‹_›
  · exact requestsKey_effect ‹_›
  · exact groupSettingsKey_effect ‹_›
  · exact manageMembersKey_effect ‹_›
  · exact .stays
  · exact .stays
  · exact .stays

/-- What is true of every key press that goes without a fault. -/
def Ensures (p : Turn → Prop) (r : KeyOutcome) : Prop := ∀ turn, r = .ok turn → p turn

theorem ensures_ok {p : Turn → Prop} {turn : Turn} (holds : p turn) : Ensures p (.ok turn) := by
  rintro turn same
  cases same
  exact holds

theorem ensures_bind {p : Turn → Prop} {read : Except Fault α} {f : α → KeyOutcome}
    (next : ∀ a, Ensures p (f a)) : Ensures p (read >>= f) := by
  cases read with
  | error fault =>
    rintro turn same
    cases same
  | ok a => exact next a

theorem ensures_chatWithSelected {p : Turn → Prop} (stays : p ⟨s, [], false⟩)
    (chats : ∀ c : ContactSummary, p ⟨{ s with currentState := .home },
      [serviceCreatePrivate s.myUid c.uid (fieldString c.username)], false⟩) :
    Ensures p (chatWithSelected s) := by
  rw [chatWithSelected]
  split
  · split
    · apply ensures_bind
      intro c
      exact ensures_ok (chats c)
    · exact ensures_ok stays
  · exact ensures_ok stays

theorem ensures_openSelected {p : Turn → Prop} (stays : p ⟨s, [], false⟩)
    (opens : ∀ (c : ConversationSummary) (conversations : Option (List ConversationSummary)),
      p ⟨{ s with
          currentConvId := c.convId
          chatHistory := none
          chatHistoryLen := 0
          conversations := conversations
          currentState := .chat }, [serviceReqHistory c.convId], false⟩) :
    Ensures p (openSelected s) := by
  rw [openSelected]
  split
  · split
    · apply ensures_bind
      intro c
      exact ensures_ok (opens c _)
    · exact ensures_ok stays
  · exact ensures_ok stays

theorem ensures_decideSelected {p : Turn → Prop} {accept : Bool} (stays : p ⟨s, [], false⟩)
    (decides : ∀ r : ContactSummary, p ⟨appRemoveRequest s.selection s,
      [serviceDecideRequest r.uid (if accept then 1 else 0)], false⟩) :
    Ensures p (decideSelected accept s) := by
  rw [decideSelected]
  split
  · split
    · apply ensures_bind
      intro r
      exact ensures_ok (decides r)
    · exact ensures_ok stays
  · exact ensures_ok stays

theorem ensures_kickSelected {p : Turn → Prop} (stays : p ⟨s, [], false⟩)
    (kicks : ∀ target : GroupMemberSummary, p ⟨s,
      [serviceKickMember s.currentConvId target.uid, serviceReqMembers s.currentConvId], false⟩) :
    Ensures p (kickSelected s) := by
  rw [kickSelected]
  split
  · split
    · apply ensures_bind
      intro target
      split
      · exact ensures_ok (kicks target)
      · exact ensures_ok stays
    · exact ensures_ok stays
  · exact ensures_ok stays

theorem appRemoveRequest_requests (index : Int) (s : MainState) : ∃ requests count,
    appRemoveRequest index s = { s with requests := requests, requestsCount := count } := by
  unfold appRemoveRequest
  split
  · split
    · exact ⟨_, _, rfl⟩
    · exact ⟨s.requests, s.requestsCount, rfl⟩
  · exact ⟨s.requests, s.requestsCount, rfl⟩

/-- The conversations and the requests stay, and no conversation is opened. -/
structure ListsStay (s t : MainState) : Prop where
  conversations : listed t.toAppState = listed s.toAppState
  requests : t.requests = s.requests
  requestsCount : t.requestsCount = s.requestsCount
  closed : ¬ (s.currentState = .home ∧ t.currentState = .chat)

abbrev LeavesLists (s : MainState) : KeyOutcome → Prop := Ensures fun turn => ListsStay s turn.state

theorem not_opening (same : t.currentState = s.currentState) :
    ¬ (s.currentState = .home ∧ t.currentState = .chat) := by
  rintro ⟨home, chat⟩
  cases home.symm.trans (same.symm.trans chat)

theorem ListsStay.refl : ListsStay s s := ⟨rfl, rfl, rfl, not_opening rfl⟩

theorem leavesLists_stay : LeavesLists s (stay s) := ensures_ok .refl

theorem Way.not_opening {a b : UIState} (way : Way a b) : ¬ (a = .home ∧ b = .chat) := by
  cases way <;> decide

theorem FreshWay.not_opening {a b : UIState} (way : FreshWay a b) : ¬ (a = .home ∧ b = .chat) := by
  cases way <;> decide

theorem ListsStay.edited (stay : ListsStay s t) {u : MainState} (edited : Edited t u) :
    ListsStay s u := by
  obtain ⟨input, idx, members, name, desc, rfl⟩ := edited
  exact { stay with }

theorem appAppendHistory_screen {app app' : AppState} {text : CString}
    (appended : appAppendHistory allocates text app = .ok app') :
    ∃ history len, app' = { app with chatHistory := history, chatHistoryLen := len } := by
  unfold appAppendHistory at appended
  split at appended
  · cases appended
    exact ⟨_, _, rfl⟩
  · dsimp only at appended
    split_ifs at appended
    · split at appended
      · cases appended
      · cases appended
        exact ⟨_, _, rfl⟩
    · cases appended
      exact ⟨app.chatHistory, app.chatHistoryLen, rfl⟩

theorem sendInput_leavesLists (s : MainState) : LeavesLists s (sendInput allocates s) := by
  rw [sendInput]
  split
  · rintro turn sent
    obtain ⟨app, appended, sent⟩ := ok_bind_iff.mp sent
    obtain ⟨history, len, rfl⟩ := appAppendHistory_screen appended
    cases sent
    exact ⟨rfl, rfl, rfl, not_opening rfl⟩
  · exact leavesLists_stay

theorem chatWithSelected_leavesLists (s : MainState) : LeavesLists s (chatWithSelected s) := by
  apply ensures_chatWithSelected
  · exact .refl
  · exact fun _ => ⟨rfl, rfl, rfl, fun opening => by cases opening.2⟩

theorem kickSelected_leavesLists (s : MainState) : LeavesLists s (kickSelected s) :=
  ensures_kickSelected .refl fun _ => .refl

theorem KeyEffect.leavesLists {r : KeyOutcome} (effect : KeyEffect allocates ch s r) :
    (s.currentState = .home ∧ r = openSelected s) ∨
    (s.currentState = .requests ∧ ∃ accept, r = decideSelected accept s) ∨ LeavesLists s r := by
  cases effect with
  | opens home => exact .inl ⟨home, rfl⟩
  | decides requests accept => exact .inr (.inl ⟨requests, accept, rfl⟩)
  | edits edited sent quit => exact .inr (.inr (ensures_ok (ListsStay.refl.edited edited)))
  | @goes state t way edited sent =>
    have gone : ListsStay s { s with currentState := state } := ⟨rfl, rfl, rfl, way.not_opening⟩
    exact .inr (.inr (ensures_ok (gone.edited edited)))
  | resets way sent => exact .inr (.inr (ensures_ok ⟨rfl, rfl, rfl, way.not_opening⟩))
  | downHome | downFriends | up | memberDown | memberUp =>
    exact .inr (.inr (ensures_ok ⟨rfl, rfl, rfl, MoT.not_opening rfl⟩))
  | sends chat enter => exact .inr (.inr (sendInput_leavesLists s))
  | toggles form =>
    right
    right
    rw [toggleMember]
    split
    · exact ensures_ok ⟨rfl, rfl, rfl, MoT.not_opening rfl⟩
    · rintro turn ⟨⟩
  | submits form =>
    right
    right
    apply ensures_bind
    intro uids
    split
    · exact leavesLists_stay
    · exact ensures_ok ⟨rfl, rfl, rfl, fun opening => by cases opening.2⟩
  | chats friends enter => exact .inr (.inr (chatWithSelected_leavesLists s))
  | manages settings key =>
    exact .inr (.inr (ensures_ok ⟨rfl, rfl, rfl, fun opening => by cases opening.2⟩))
  | kicks manage => exact .inr (.inr (kickSelected_leavesLists s))

theorem homeKey_enter (enter : Enter ch) (s : MainState) :
    homeKey ch s = openSelected s := by
  rcases enter with rfl | rfl <;> rfl

theorem requestsKey_decides (decides : ch = 10 ∨ ch = letter 'd') (s : MainState) :
    requestsKey ch s = decideSelected (ch = 10) s := by
  rcases decides with rfl | rfl <;> rfl

theorem homeKey_leavesLists (other : ¬ Enter ch) : LeavesLists s (homeKey ch s) := by
  rw [homeKey]
  split_ifs
  · exact ensures_ok ⟨rfl, rfl, rfl, not_opening rfl⟩
  · exact ensures_ok ⟨rfl, rfl, rfl, not_opening rfl⟩
  · exact ensures_ok ⟨rfl, rfl, rfl, not_opening rfl⟩
  · exact ensures_ok ⟨rfl, rfl, rfl, fun opening => by cases opening.2⟩
  · exact ensures_ok ⟨rfl, rfl, rfl, fun opening => by cases opening.2⟩
  · exact ensures_ok ⟨rfl, rfl, rfl, fun opening => by cases opening.2⟩
  · exact leavesLists_stay

theorem requestsKey_leavesLists (other : ¬ (ch = 10 ∨ ch = letter 'd')) :
    LeavesLists s (requestsKey ch s) := by
  rw [requestsKey]
  split_ifs
  · exact ensures_ok ⟨rfl, rfl, rfl, fun opening => by cases opening.2⟩
  · exact leavesLists_stay

abbrev DecideKey (ch : Int) (s : MainState) : Prop :=
  s.currentState = .requests ∧ (ch = 10 ∨ ch = letter 'd')

theorem handleKey_leavesLists (unopened : ¬ (s.currentState = .home ∧ Enter ch))
    (undecided : ¬ DecideKey ch s) : LeavesLists s (handleKey allocates ch prompts s) := by
  by_cases home : s.currentState = .home
  · rw [handleKey, home]
    exact homeKey_leavesLists fun enter => unopened ⟨home, enter⟩
  · by_cases requests : s.currentState = .requests
    · rw [handleKey, requests]
      exact requestsKey_leavesLists fun key => undecided ⟨requests, key⟩
    · rcases (handleKey_effect allocates ch prompts s).leavesLists with
        ⟨here, -⟩ | ⟨here, -⟩ | leaves
      · exact absurd here home
      · exact absurd here requests
      · exact leaves

def routedLine (payload : Pointer) : Except Fault CString := do
  let username ← readString payload RoutedMessagePayload.senderUsernameAt
  let text ← readString payload RoutedMessagePayload.textAt
  return (CString.lit "[" ++ username ++ CString.lit "]: " ++ text ++ CString.lit "\n").truncate 1199

/-- The elements of an array in a packet, counted as the thread counts them. -/
def arrived (size : Nat) (junk : Nat → UInt8) (packet : Packet) : Int :=
  ((UInt32.ofNat (packet.payload junk).length).toNat / size : Nat)

theorem routed_convId (message : RoutedMessagePayload) :
    readUInt32 (deliver message.bytes) RoutedMessagePayload.convIdAt = .ok message.convId :=
  readUInt32_written [] _ message.convId

def Skippable : Packet → Prop
  | .rteText _ => False
  | .respHistory bytes => bytes = []
  | _ => True

inductive PacketEffect (allocates : Nat → Bool) (junk : Nat → UInt8) (app : AppState) :
    Packet → AppState → Prop
  | skips {packet : Packet} {redraw : Bool} (skippable : Skippable packet) :
      PacketEffect allocates junk app packet { app with needsRedraw := redraw }
  | conversations (list : List ConversationSummary) (array : Option (List ConversationSummary)) :
      PacketEffect allocates junk app (.respConversations list) { app with
        conversations := array
        convCount := arrived ConversationSummary.size junk (.respConversations list)
        needsRedraw := true }
  | contacts (list : List ContactSummary) (array : Option (List ContactSummary)) :
      PacketEffect allocates junk app (.respContacts list) { app with
        contacts := array
        contactsCount := arrived ContactSummary.size junk (.respContacts list)
        needsRedraw := true }
  | requests (list : List ContactSummary) (array : Option (List ContactSummary)) :
      PacketEffect allocates junk app (.respRequests list) { app with
        requests := array
        requestsCount := arrived ContactSummary.size junk (.respRequests list)
        needsRedraw := true }
  | members (list : List GroupMemberSummary) (array : Option (List GroupMemberSummary)) :
      PacketEffect allocates junk app (.respMembers list) { app with
        currentGroupMembers := array
        currentGroupMembersCount := arrived GroupMemberSummary.size junk (.respMembers list)
        needsRedraw := true }
  | history {bytes : List UInt8} (nonempty : bytes ≠ []) :
      PacketEffect allocates junk app (.respHistory bytes) { app with
        chatHistory := some ((bytes ++ [0]).map some)
        chatHistoryLen := (UInt32.ofNat bytes.length).toNat
        needsRedraw := true }
  | line {message : RoutedMessagePayload} {line : CString} {app' : AppState}
      (here : app.currentState = .chat ∧ app.currentConvId = message.convId)
      (read : routedLine (deliver message.bytes) = .ok line)
      (appended : appAppendHistory allocates line app = .ok app') :
      PacketEffect allocates junk app (.rteText message) { app' with needsRedraw := true }
  | unread {message : RoutedMessagePayload} {conversations : List ConversationSummary}
      (elsewhere : ¬ (app.currentState = .chat ∧ app.currentConvId = message.convId))
      (counted : countUnread message.convId app.convCount.toNat (app.conversations.getD []) =
        .ok conversations) :
      PacketEffect allocates junk app (.rteText message) { app with
        conversations := app.conversations.map fun _ => conversations
        needsRedraw := true }

theorem routedText_effect {message : RoutedMessagePayload}
    (routed : routedText allocates (deliver message.bytes) app = .ok app') :
    PacketEffect allocates junk app (.rteText message) app' := by
  obtain ⟨convId, read, routed⟩ := ok_bind_iff.mp routed
  cases (routed_convId message).symm.trans read
  by_cases here : app.currentState = .chat ∧ app.currentConvId = message.convId
  · rw [if_pos here] at routed
    obtain ⟨username, readUsername, routed⟩ := ok_bind_iff.mp routed
    obtain ⟨text, readText, routed⟩ := ok_bind_iff.mp routed
    obtain ⟨grown, appended, routed⟩ := ok_bind_iff.mp routed
    cases ok_pure_iff.mp routed
    refine .line here ?_ appended
    rw [routedLine, readUsername]
    simp only [bind, Except.bind, readText]
    rfl
  · rw [if_neg here] at routed
    obtain ⟨conversations, counted, routed⟩ := ok_bind_iff.mp routed
    cases ok_pure_iff.mp routed
    exact .unread here counted

theorem networkThreadOn_effect {sent : List Request}
    (received : networkThreadOn allocates junk packet app = .ok (app', sent)) :
    PacketEffect allocates junk app packet app' := by
  unfold networkThreadOn networkThread at received
  rw [MessageType.ofCode_code] at received
  cases packet with
  | respConversations list =>
    dsimp only [Packet.type] at received
    split at received
    · cases received
      exact .conversations list _
    · cases received
      exact .skips trivial
  | respContacts list =>
    dsimp only [Packet.type] at received
    split at received
    · cases received
      exact .contacts list _
    · cases received
      exact .skips trivial
  | respRequests list =>
    dsimp only [Packet.type] at received
    split at received
    · cases received
      exact .requests list _
    · cases received
      exact .skips trivial
  | respMembers list =>
    dsimp only [Packet.type] at received
    split at received
    · cases received
      exact .members list _
    · cases received
      exact .skips trivial
  | respHistory bytes =>
    dsimp only [Packet.type, Packet.payload, Packet.cells] at received
    rw [fill_written] at received
    by_cases empty : bytes = []
    · rw [deliver, if_pos empty] at received
      cases received
      exact .skips empty
    · rw [deliver, if_neg empty] at received
      cases received
      exact .history empty
  | rteText message =>
    dsimp only [Packet.type, Packet.payload, Packet.cells] at received
    rw [fill_written] at received
    cases routed : routedText allocates (deliver message.bytes) app with
    | error fault =>
      rw [routed] at received
      cases received
    | ok routedApp =>
      rw [routed] at received
      cases received
      exact routedText_effect routed
  | convCreated convId | addReqSent =>
    cases received
    exact .skips trivial
  | registerSuccess | registerFail | loginSuccess | loginFail | updateSuccess | addFail
  | memberAdded =>
    cases received
    exact .skips trivial

theorem render_screen (s : MainState) : ∃ state redraw,
    render s = { s with currentState := state, needsRedraw := redraw } ∧
      (state = s.currentState ∨ s.currentState = .groupSettings ∧ state = .home) := by
  unfold render
  split_ifs with redraw gone
  · exact ⟨.home, false, rfl, .inr ⟨gone.1, rfl⟩⟩
  · exact ⟨s.currentState, false, rfl, .inl rfl⟩
  · exact ⟨s.currentState, s.needsRedraw, rfl, .inl rfl⟩

inductive StepEffect (allocates : Nat → Bool) (s : MainState) :
    ClientEvent → MainState → List Request → Prop
  | draws (drawing : s.phase = .drawing) :
      StepEffect allocates s .draw { render s with phase := .reading } []
  | silent {prompts : Prompts} (reading : s.phase = .reading) :
      StepEffect allocates s (.key keyErr prompts) { s with phase := .drawing } []
  | pressed {ch : Int} {prompts : Prompts} {turn : Turn} (reading : s.phase = .reading)
      (pressed : handleKey allocates ch prompts { s with needsRedraw := true } = .ok turn) :
      StepEffect allocates s (.key ch prompts)
        { turn.state with phase := if turn.quit then .ended else .drawing } turn.sent
  | received {junk : Nat → UInt8} {packet : Packet} {app : AppState} {sent : List Request}
      (received : networkThreadOn allocates junk packet s.toAppState = .ok (app, sent)) :
      StepEffect allocates s (.receive junk packet) { s with toAppState := app } sent

theorem clientStep_effect {e : ClientEvent} {sent : List Request}
    (stepped : clientStep allocates s e = some (t, sent)) : StepEffect allocates s e t sent := by
  cases e with
  | draw =>
    obtain ⟨drawing, same⟩ := Option.ite_none_right_eq_some.mp stepped
    cases same
    exact .draws drawing
  | key ch prompts =>
    rw [clientStep] at stepped
    split_ifs at stepped with elsewhere nothing
    · cases stepped
      subst nothing
      exact .silent (not_not.mp elsewhere)
    · split at stepped
      · cases stepped
      · rename_i turn pressed
        cases stepped
        exact .pressed (not_not.mp elsewhere) pressed
  | receive junk packet =>
    rw [clientStep] at stepped
    split at stepped
    · cases stepped
    · rename_i app sent' received
      cases stepped
      exact .received received

variable {known : UInt32 → Prop} {writes : UInt32 → CString → Prop}

/-- The requests that the keys and the thread send, of a client that decides about `known` users
and writes these texts. -/
inductive Service (known : UInt32 → Prop) (writes : UInt32 → CString → Prop) : Request → Prop
  | conversations : Service known writes serviceReqConversations
  | contacts : Service known writes serviceRefreshContacts
  | requests : Service known writes serviceRefreshRequests
  | history (convId : UInt32) : Service known writes (serviceReqHistory convId)
  | text (convId : UInt32) (text : CString) (typed : writes convId text) :
      Service known writes (serviceSendText convId text)
  | createGroup (myUid : UInt32) (name desc : CString) (uids : List UInt32) :
      Service known writes (serviceCreateGroup myUid name desc uids)
  | createPrivate (myUid targetUid : UInt32) (targetName : CString) :
      Service known writes (serviceCreatePrivate myUid targetUid targetName)
  | addContact (friendCode : CString) : Service known writes (serviceAddContact friendCode)
  | updateUser (username password : Option CString) :
      Service known writes (serviceUpdateUser username password)
  | decide (targetUid : UInt32) (accept : UInt8) (shown : known targetUid) :
      Service known writes (serviceDecideRequest targetUid accept)
  | members (convId : UInt32) : Service known writes (serviceReqMembers convId)
  | kick (convId targetUid : UInt32) : Service known writes (serviceKickMember convId targetUid)
  | deleteGroup (convId : UInt32) : Service known writes (serviceDeleteGroup convId)

theorem Service.mono {known' : UInt32 → Prop} {writes' : UInt32 → CString → Prop} {r : Request}
    (knows : ∀ u, known u → known' u) (wrote : ∀ k text, writes k text → writes' k text)
    (service : Service known writes r) : Service known' writes' r := by
  cases service with
  | text convId text typed => exact .text convId text (wrote convId text typed)
  | decide targetUid accept shown => exact .decide targetUid accept (knows targetUid shown)
  | conversations => exact .conversations
  | contacts => exact .contacts
  | requests => exact .requests
  | history => exact .history _
  | createGroup => exact .createGroup _ _ _ _
  | createPrivate => exact .createPrivate _ _ _
  | addContact => exact .addContact _
  | updateUser => exact .updateUser _ _
  | members => exact .members _
  | kick => exact .kick _ _
  | deleteGroup => exact .deleteGroup _

theorem Service.not_login {r : Request} (service : Service known writes r) : r.1 ≠ .login := by
  cases service <;> exact fun login => by cases login

abbrev Serves (known : UInt32 → Prop) (writes : UInt32 → CString → Prop) (turn : Turn) : Prop :=
  ∀ r ∈ turn.sent, Service known writes r

theorem nothing_asked : ∀ r ∈ ([] : List Request), Service known writes r := by
  intro r member
  cases member

theorem asks_one {r : Request} (service : Service known writes r) :
    ∀ r' ∈ [r], Service known writes r' :=
  List.forall_mem_singleton.mpr service

theorem asks_two {r r' : Request} (first : Service known writes r)
    (second : Service known writes r') : ∀ r'' ∈ [r, r'], Service known writes r'' :=
  List.forall_mem_cons.mpr ⟨first, asks_one second⟩

theorem stay_asks (s : MainState) : Ensures (Serves known writes) (stay s) :=
  ensures_ok nothing_asked

theorem send_asks {s : MainState} {sent : List Request}
    (services : ∀ r ∈ sent, Service known writes r) : Ensures (Serves known writes)
    (send s sent) := ensures_ok services

theorem homeKey_asks : Ensures (Serves known writes) (homeKey ch s) := by
  rw [homeKey]
  split_ifs
  · exact ensures_ok nothing_asked
  · exact stay_asks _
  · exact stay_asks _
  · exact stay_asks _
  · exact send_asks (asks_two .contacts .requests)
  · exact ensures_openSelected nothing_asked fun c _ => asks_one (.history c.convId)
  · exact stay_asks _
  · exact stay_asks _

def WritesText (s : MainState) (ch : Int) (convId : UInt32) (text : CString) : Prop :=
  s.currentState = .chat ∧ Enter ch ∧ convId = s.currentConvId ∧ text = s.chatInputBuffer ∧
    text.length > 0

theorem chatKey_asks (chat : s.currentState = .chat) :
    Ensures (Serves known (WritesText s ch)) (chatKey allocates ch s) := by
  rw [chatKey]
  split_ifs with _ enter
  · exact send_asks (asks_one .conversations)
  · rw [sendInput]
    split
    · rename_i written
      apply ensures_bind
      intro app
      exact send_asks (asks_one (.text _ _ ⟨chat, enter, rfl, rfl, written⟩))
    · exact stay_asks _
  · split
    · split
      · exact stay_asks _
      · exact stay_asks _
    · exact stay_asks _
  · exact stay_asks _
  · exact stay_asks _
  · exact stay_asks _
  · exact stay_asks _

theorem createGroupKey_asks : Ensures (Serves known writes) (createGroupKey ch prompts s) := by
  rw [createGroupKey]
  split_ifs
  · exact stay_asks _
  · exact stay_asks _
  · exact stay_asks _
  · rw [toggleMember]
    split
    · exact stay_asks _
    · rintro turn ⟨⟩
  · exact stay_asks _
  · exact stay_asks _
  · apply ensures_bind
    intro uids
    split
    · exact stay_asks _
    · exact send_asks (asks_one (.createGroup _ _ _ _))
  · exact stay_asks _

theorem friendsKey_asks : Ensures (Serves known writes) (friendsKey ch prompts s) := by
  rw [friendsKey]
  split_ifs
  · exact stay_asks _
  · exact stay_asks _
  · exact stay_asks _
  · exact send_asks (asks_one (.addContact _))
  · exact stay_asks _
  · apply ensures_chatWithSelected
    · exact nothing_asked
    · exact fun c => asks_one (.createPrivate _ _ _)
  · exact stay_asks _

theorem settingsKey_asks : Ensures (Serves known writes) (settingsKey ch prompts s) := by
  rw [settingsKey]
  split_ifs
  · exact ensures_ok nothing_asked
  · dsimp only
    split
    · exact send_asks (asks_one (.updateUser _ _))
    · exact stay_asks _
  · exact stay_asks _
  · exact stay_asks _

def Offered (s : MainState) (u : UInt32) : Prop :=
  ∃ r ∈ (s.requests.getD []).take s.requestsCount.toNat, r.uid = u

theorem element_current {α : Type} {array : List α} {count index : Int} {a : α}
    (read : element array count index = .ok a)
    : (array.take count.toNat)[index.toNat]? = some a := by
  unfold element at read
  split_ifs at read with within
  cases found : array[index.toNat]? with
  | none =>
    rw [found] at read
    cases read
  | some b =>
    rw [found] at read
    cases read
    rw [List.getElem?_take_of_lt (by omega), found]

theorem requestsKey_asks : Ensures (Serves (Offered s) writes) (requestsKey ch s) := by
  rw [requestsKey]
  split_ifs
  · exact stay_asks _
  · rw [decideSelected]
    split
    · rename_i requests array
      split
      · intro turn decided
        obtain ⟨r, read, decided⟩ := ok_bind_iff.mp decided
        cases decided
        refine asks_one (.decide _ _ ⟨r, ?_, rfl⟩)
        rw [array]
        exact List.mem_of_getElem? (element_current read)
      · exact stay_asks _
    · exact stay_asks _
  · exact stay_asks _

theorem groupSettingsKey_asks : Ensures (Serves known writes) (groupSettingsKey ch s) := by
  rw [groupSettingsKey]
  split
  · exact stay_asks _
  · split
    · exact send_asks (asks_one (.deleteGroup _))
    · split
      · exact send_asks (asks_one (.members _))
      · exact stay_asks _

theorem manageMembersKey_asks : Ensures (Serves known writes) (manageMembersKey ch s) := by
  rw [manageMembersKey]
  split_ifs
  · exact stay_asks _
  · exact stay_asks _
  · exact stay_asks _
  · apply ensures_kickSelected
    · exact nothing_asked
    · exact fun target => asks_two (.kick _ _) (.members _)
  · exact stay_asks _

theorem handleKey_asks : Ensures (Serves (Offered s) (WritesText s ch))
    (handleKey allocates ch prompts s) := by
  unfold handleKey
  split
  · exact homeKey_asks
  · exact chatKey_asks ‹_›
  · exact createGroupKey_asks
  · exact friendsKey_asks
  · exact settingsKey_asks
  · exact requestsKey_asks
  · exact groupSettingsKey_asks
  · exact manageMembersKey_asks
  · exact stay_asks _
  · exact stay_asks _
  · exact stay_asks _

theorem received_asks {junk : Nat → UInt8} {packet : Packet} {app app' : AppState}
    {sent : List Request}
    (received : networkThreadOn allocates junk packet app = .ok (app', sent)) :
    ∀ r ∈ sent, Service known writes r := by
  unfold networkThreadOn networkThread at received
  rw [MessageType.ofCode_code] at received
  cases packet with
  | respConversations | respContacts | respRequests | respMembers | respHistory =>
    dsimp only [Packet.type] at received
    split at received
    · cases received
      exact nothing_asked
    · cases received
      exact nothing_asked
  | rteText message =>
    dsimp only [Packet.type] at received
    cases routed : routedText allocates (deliver (Packet.payload junk (.rteText message))) app with
    | error fault =>
      rw [routed] at received
      cases received
    | ok shown =>
      rw [routed] at received
      cases received
      exact nothing_asked
  | convCreated convId =>
    cases received
    exact asks_one .conversations
  | addReqSent | registerSuccess | registerFail | loginSuccess | loginFail | updateSuccess
  | addFail | memberAdded =>
    cases received
    exact nothing_asked

def WrittenBy (s : MainState) : ClientEvent → UInt32 → CString → Prop
  | .key ch _ => WritesText s ch
  | .draw | .receive _ _ => fun _ _ => False

theorem clientStep_asks {e : ClientEvent} {sent : List Request}
    (stepped : clientStep allocates s e = some (t, sent)) :
    ∀ r ∈ sent, Service (Offered s) (WrittenBy s e) r := by
  cases clientStep_effect stepped with
  | draws | silent => exact nothing_asked
  | pressed reading pressed => exact handleKey_asks (s := { s with needsRedraw := true }) _ pressed
  | received received => exact received_asks received

theorem clientStep_calm {e : ClientEvent} {sent : List Request}
    (stepped : clientStep allocates s e = some (t, sent)) : ∀ r ∈ sent, r.1 ≠ .login :=
  fun r member => (clientStep_asks stepped r member).not_login

end MoT
