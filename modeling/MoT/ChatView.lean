import MoT.ClientEffects
import MoT.Listings
import MoT.Link

/-! What the open chat shows. A history replaces the buffer whatever is open by then, and
routed texts and own lines go behind whatever is in it. -/
namespace MoT
open CMemory Transition

variable {P : Platform} {allocates : Nat → Bool} {fd : Int} {uid : UInt32} {s t : MainState}
  {app app' : AppState} {ch : Int} {prompts : Prompts} {line : CString}

/-- A part of the buffer, with the conversation it is from. -/
inductive Piece where
  | history (convId : UInt32) (text : CString)
  | routed (convId : UInt32) (line : CString)
  | mine (convId : UInt32) (line : CString)
deriving DecidableEq

def Piece.convId : Piece → UInt32
  | .history convId _ => convId
  | .routed convId _ => convId
  | .mine convId _ => convId

def Piece.text : Piece → CString
  | .history _ text => text
  | .routed _ line => line
  | .mine _ line => line

/-- What the buffer is made of, and the lines the user sent since the chat was opened. -/
structure ChatView where
  shown : List Piece
  sent : List CString

def myLine (text : CString) : CString :=
  (CString.lit "Me: " ++ text ++ CString.lit "\n").truncate 1199

def appendSize (app : AppState) (line : CString) : Nat :=
  match app.chatHistory with
  | none => line.length + 1
  | some _ => app.chatHistoryLen + line.length + 1

abbrev Lands (allocates : Nat → Bool) (app : AppState) (line : CString) : Prop :=
  allocates (appendSize app line) = true

abbrev InChat (state : UIState) : Prop :=
  state = .chat ∨ state = .groupSettings ∨ state = .manageMembers

def historyString (app : AppState) : Option (List UInt8) :=
  match app.chatHistory with
  | none => some []
  | some block => CMemory.readString block

theorem append_string {bs : List UInt8} (old : historyString app = some bs)
    (appended : appAppendHistory allocates line app = .ok app') :
    historyString app' = some (bs ++ if Lands allocates app line then line.bytes else []) ∧
      ∃ history len, app' = { app with chatHistory := history, chatHistoryLen := len } := by
  unfold appAppendHistory at appended
  unfold historyString at old
  cases buffer : app.chatHistory with
  | none =>
    have size : appendSize app line = line.length + 1 := by rw [appendSize, buffer]
    rw [buffer] at old appended
    cases old
    cases appended
    refine ⟨?_, _, _, rfl⟩
    by_cases lands : Lands allocates app line
    · have copied := readString_terminated line []
      rw [if_pos lands]
      simp only [historyString, ← size, lands, if_true, List.nil_append]
      simpa using copied
    · simp [historyString, ← size, lands]
  | some block =>
    have size : appendSize app line = app.chatHistoryLen + line.length + 1 := by
      rw [appendSize, buffer]
    rw [buffer] at old appended
    dsimp only at appended
    rw [← size] at appended
    by_cases lands : Lands allocates app line
    · rw [if_pos lands] at appended
      split at appended
      · cases appended
      · rename_i grown joined
        cases appended
        refine ⟨?_, _, _, rfl⟩
        rw [if_pos lands]
        exact strcat_string old joined
    · rw [if_neg lands] at appended
      cases appended
      refine ⟨?_, app.chatHistory, app.chatHistoryLen, rfl⟩
      rw [if_neg lands, List.append_nil, historyString, buffer]
      exact old

def pressKey (allocates : Nat → Bool) (ch : Int) (s t : MainState) (v : ChatView) : ChatView :=
  if s.currentState = .home ∧ t.currentState = .chat then ⟨[], []⟩
  else if s.currentState = .chat ∧ Enter ch ∧ 0 < s.chatInputBuffer.length then
    let line := myLine s.chatInputBuffer
    { shown := v.shown ++ if Lands allocates s.toAppState line then [.mine s.currentConvId line] else []
      sent := v.sent ++ [line] }
  else v

/- A history replaces what is shown; an empty one is no payload. -/
def receivePacket (allocates : Nat → Bool) (m : Incoming) (s : MainState) (v : ChatView) : ChatView :=
  match m.packet with
  | .respHistory bytes =>
    if bytes = [] then v else { v with shown := [.history m.about (CString.cut bytes)] }
  | .rteText message =>
    if s.currentState = .chat ∧ s.currentConvId = message.convId then
      match routedLine (deliver message.bytes) with
      | .ok line =>
        { v with shown := v.shown ++ if Lands allocates s.toAppState line
            then [.routed message.convId line] else [] }
      | .error _ => v
    else v
  | _ => v

def watch (allocates : Nat → Bool) (m : LinkMoment) (v : ChatView) : ChatView :=
  match m.event, m.before.toClient with
  | .key ch _, _ => pressKey allocates ch m.before.client m.after.client v
  | .receive _, packet :: _ => receivePacket allocates packet m.before.client v
  | _, _ => v

/-- The view at the end of this past. -/
def viewOf (allocates : Nat → Bool) : List LinkMoment → ChatView
  | [] => ⟨[], []⟩
  | m :: past => watch allocates m (viewOf allocates past)

def historyOf : Packet → List UInt8
  | .respHistory bytes => bytes
  | _ => []

/-- A history arrives in a chat only if it is of this chat and nothing was sent yet, and the
allocation for a sent line succeeds. -/
def Meets (allocates : Nat → Bool) (m : LinkMoment) (v : ChatView) : Prop :=
  match m.event with
  | .key ch _ =>
    m.before.client.currentState = .chat → Enter ch → 0 < m.before.client.chatInputBuffer.length →
      Lands allocates m.before.client.toAppState (myLine m.before.client.chatInputBuffer)
  | .receive _ =>
    ∀ first ∈ m.before.toClient.head?, historyOf first.packet ≠ [] →
      InChat m.before.client.currentState → first.about = m.before.client.currentConvId ∧ v.sent = []
  | .draw | .serve _ | .other _ => True

def Orderly (allocates : Nat → Bool) : List LinkMoment → Prop
  | [] => True
  | m :: past => Meets allocates m (viewOf allocates past) ∧ Orderly allocates past

/-- The view describes the buffer; in a chat all of it is of this chat, with every line sent. -/
structure Viewed (s : MainState) (v : ChatView) : Prop where
  string : historyString s.toAppState = some (CString.concat (v.shown.map Piece.text)).bytes
  belongs : InChat s.currentState → ∀ piece ∈ v.shown, piece.convId = s.currentConvId
  sent : InChat s.currentState → ∀ line ∈ v.sent, .mine s.currentConvId line ∈ v.shown

/-- Nothing happens to the chat, and none is opened. -/
structure Untouched (s t : MainState) : Prop where
  history : historyString t.toAppState = historyString s.toAppState
  conv : t.currentConvId = s.currentConvId
  inside : InChat t.currentState → InChat s.currentState

theorem Viewed.untouched {v : ChatView} (viewed : Viewed s v) (untouched : Untouched s t) :
    Viewed t v where
  string := untouched.history.trans viewed.string
  belongs inside piece shown :=
    (viewed.belongs (untouched.inside inside) piece shown).trans untouched.conv.symm
  sent inside line sent := by
    rw [untouched.conv]
    exact viewed.sent (untouched.inside inside) line sent

def LeavesChat (s : MainState) (r : KeyOutcome) : Prop :=
  ∀ turn, r = .ok turn → Untouched s turn.state

theorem leaves_ok {sent : List Request} {quit : Bool} (untouched : Untouched s t) :
    LeavesChat s (.ok ⟨t, sent, quit⟩) := ensures_ok untouched

theorem leaves_bind {α : Type} {read : Except Fault α} {f : α → KeyOutcome}
    (next : ∀ a, LeavesChat s (f a)) : LeavesChat s (read >>= f) := ensures_bind next

theorem outside_home : ¬ InChat .home := by decide
theorem outside_createGroup : ¬ InChat .createGroup := by decide
theorem outside_settings : ¬ InChat .settings := by decide

theorem Untouched.refl : Untouched s s := ⟨rfl, rfl, id⟩

theorem Untouched.edited (untouched : Untouched s t) {u : MainState} (edited : Edited t u) :
    Untouched s u := by
  obtain ⟨input, idx, members, name, desc, rfl⟩ := edited
  exact ⟨untouched.history, untouched.conv, untouched.inside⟩

theorem Way.inChat {a b : UIState} (way : Way a b) (inside : InChat b) : InChat a := by
  cases way with
  | newGroup => exact absurd inside outside_createGroup
  | settings => exact absurd inside outside_settings
  | leaveForm | leaveSettings => exact absurd inside outside_home
  | leaveChat | groupSettings => exact .inl rfl
  | backToChat | deleteGroup => exact .inr (.inl rfl)
  | leaveMembers => exact .inr (.inr rfl)

theorem FreshWay.outside {a b : UIState} (way : FreshWay a b) : ¬ InChat b := by
  cases way <;> decide

theorem appRemoveRequest_untouched (index : Int) (s : MainState) :
    Untouched s (appRemoveRequest index s) := by
  obtain ⟨requests, count, removed⟩ := appRemoveRequest_requests index s
  rw [removed]
  exact ⟨rfl, rfl, id⟩

theorem chatWithSelected_leaves (s : MainState) : LeavesChat s (chatWithSelected s) := by
  apply ensures_chatWithSelected
  · exact .refl
  · exact fun _ => ⟨rfl, rfl, fun inside => absurd inside outside_home⟩

theorem decideSelected_leaves (accept : Bool) (s : MainState) :
    LeavesChat s (decideSelected accept s) := by
  apply ensures_decideSelected
  · exact .refl
  · exact fun _ => appRemoveRequest_untouched s.selection s

theorem kickSelected_leaves (s : MainState) : LeavesChat s (kickSelected s) :=
  ensures_kickSelected .refl fun _ => .refl

theorem KeyEffect.leaves {r : KeyOutcome} (effect : KeyEffect allocates ch s r) :
    (s.currentState = .home ∧ r = openSelected s) ∨
    (s.currentState = .chat ∧ Enter ch ∧ r = sendInput allocates s) ∨ LeavesChat s r := by
  cases effect with
  | opens home => exact .inl ⟨home, rfl⟩
  | sends chat enter => exact .inr (.inl ⟨chat, enter, rfl⟩)
  | edits edited sent quit => exact .inr (.inr (leaves_ok (Untouched.refl.edited edited)))
  | @goes state t way edited sent =>
    have gone : Untouched s { s with currentState := state } := ⟨rfl, rfl, way.inChat⟩
    exact .inr (.inr (leaves_ok (gone.edited edited)))
  | resets way sent =>
    exact .inr (.inr (leaves_ok ⟨rfl, rfl, fun inside => absurd inside way.outside⟩))
  | downHome | downFriends | up | memberDown | memberUp =>
    exact .inr (.inr (leaves_ok ⟨rfl, rfl, id⟩))
  | toggles form =>
    right
    right
    rw [toggleMember]
    split
    · exact leaves_ok ⟨rfl, rfl, id⟩
    · rintro turn ⟨⟩
  | submits form =>
    right
    right
    apply leaves_bind
    intro uids
    split
    · exact leaves_ok .refl
    · exact leaves_ok ⟨rfl, rfl, fun inside => absurd inside outside_home⟩
  | chats friends enter => exact .inr (.inr (chatWithSelected_leaves s))
  | decides requests accept => exact .inr (.inr (decideSelected_leaves accept s))
  | manages settings key =>
    exact .inr (.inr (leaves_ok ⟨rfl, rfl, fun _ => .inr (.inl settings)⟩))
  | kicks manage => exact .inr (.inr (kickSelected_leaves s))

theorem openSelected_view {turn : Turn} (pressed : openSelected s = .ok turn) :
    turn.state.currentState = .chat ∧ turn.state.chatHistory = none ∨ Untouched s turn.state := by
  revert turn
  apply ensures_openSelected
  · exact .inr .refl
  · exact fun c conversations => .inl ⟨rfl, rfl⟩

theorem handleKey_view {turn : Turn} (pressed : handleKey allocates ch prompts s = .ok turn) :
    (s.currentState = .home ∧ turn.state.currentState = .chat ∧ turn.state.chatHistory = none) ∨
    (s.currentState = .chat ∧ Enter ch ∧ 0 < s.chatInputBuffer.length ∧
      sendInput allocates s = .ok turn) ∨
    ¬ (s.currentState = .chat ∧ Enter ch ∧ 0 < s.chatInputBuffer.length) ∧
      Untouched s turn.state := by
  by_cases sends : s.currentState = .chat ∧ Enter ch ∧ 0 < s.chatInputBuffer.length
  · obtain ⟨chat, enter, nonempty⟩ := sends
    have other : ch ≠ keyEsc := by
      rcases enter with rfl | rfl <;> decide
    rw [handleKey, chat] at pressed
    dsimp only at pressed
    rw [chatKey, if_neg other, if_pos enter] at pressed
    exact .inr (.inl ⟨chat, enter, nonempty, pressed⟩)
  · rcases (handleKey_effect allocates ch prompts s).leaves with
      ⟨home, opens⟩ | ⟨chat, enter, sent⟩ | leaves
    · rcases openSelected_view (opens ▸ pressed) with ⟨opened, empty⟩ | untouched
      · exact .inl ⟨home, opened, empty⟩
      · exact .inr (.inr ⟨sends, untouched⟩)
    · rw [sent, sendInput, if_neg fun nonempty => sends ⟨chat, enter, nonempty⟩] at pressed
      cases pressed
      exact .inr (.inr ⟨sends, .refl⟩)
    · exact .inr (.inr ⟨sends, leaves turn pressed⟩)

theorem sent_viewed {turn : Turn} {v : ChatView} (viewed : Viewed s v)
    (chat : s.currentState = .chat) (nonempty : 0 < s.chatInputBuffer.length)
    (pressed : sendInput allocates s = .ok turn)
    (lands : Lands allocates s.toAppState (myLine s.chatInputBuffer)) :
    Viewed turn.state
      { shown := v.shown ++ [.mine s.currentConvId (myLine s.chatInputBuffer)]
        sent := v.sent ++ [myLine s.chatInputBuffer] } := by
  have inside : InChat s.currentState := .inl chat
  rw [sendInput, if_pos nonempty] at pressed
  obtain ⟨app, (appended : appAppendHistory allocates (myLine s.chatInputBuffer) s.toAppState =
    .ok app), sent⟩ := ok_bind_iff.mp pressed
  obtain ⟨string, history, len, rfl⟩ := append_string viewed.string appended
  cases sent
  constructor
  · rw [if_pos lands] at string
    rw [List.map_append, List.map_singleton, CString.concat_snoc]
    exact string
  · intro _ piece member
    rcases List.mem_append.mp member with old | new
    · exact viewed.belongs inside piece old
    · rw [List.mem_singleton.mp new]
      rfl
  · intro _ line member
    rcases List.mem_append.mp member with old | new
    · exact List.mem_append_left _ (viewed.sent inside line old)
    · rw [List.mem_singleton.mp new]
      exact List.mem_append_right _ (List.mem_singleton.mpr rfl)

theorem pressed_viewed {turn : Turn} {v : ChatView} (viewed : Viewed s v)
    (lands : s.currentState = .chat → Enter ch → 0 < s.chatInputBuffer.length →
      Lands allocates s.toAppState (myLine s.chatInputBuffer))
    (pressed : handleKey allocates ch prompts s = .ok turn) :
    Viewed turn.state (pressKey allocates ch s turn.state v) := by
  rcases handleKey_view pressed with
    ⟨home, opened, empty⟩ | ⟨chat, enter, nonempty, sent⟩ | ⟨unsent, untouched⟩
  · rw [pressKey, if_pos ⟨home, opened⟩]
    constructor
    · rw [historyString, empty]
      rfl
    · rintro _ piece ⟨⟩
    · rintro _ line ⟨⟩
  · have stays : ¬ (s.currentState = .home ∧ turn.state.currentState = .chat) := by
      rintro ⟨home, -⟩
      cases home.symm.trans chat
    rw [pressKey, if_neg stays, if_pos ⟨chat, enter, nonempty⟩]
    dsimp only
    rw [if_pos (lands chat enter nonempty)]
    exact sent_viewed viewed chat nonempty sent (lands chat enter nonempty)
  · have stays : ¬ (s.currentState = .home ∧ turn.state.currentState = .chat) := by
      rintro ⟨home, opened⟩
      exact outside_home (home ▸ untouched.inside (.inl opened))
    rw [pressKey, if_neg stays, if_neg unsent]
    exact viewed.untouched untouched

theorem receivePacket_skippable {packet : Packet} (skippable : Skippable packet) (about : UInt32)
    (v : ChatView) : receivePacket allocates ⟨packet, about⟩ s v = v := by
  cases packet with
  | rteText message => cases skippable
  | respHistory bytes => exact if_pos skippable
  | _ => rfl

theorem line_viewed {message : RoutedMessagePayload} {v : ChatView} {about : UInt32}
    {redraw : Bool} (viewed : Viewed s v)
    (here : s.currentState = .chat ∧ s.currentConvId = message.convId)
    (read : routedLine (deliver message.bytes) = .ok line)
    (appended : appAppendHistory allocates line s.toAppState = .ok app) :
    Viewed { s with toAppState := { app with needsRedraw := redraw } }
      (receivePacket allocates ⟨.rteText message, about⟩ s v) := by
  obtain ⟨string, history, len, rfl⟩ := append_string viewed.string appended
  simp only [receivePacket, if_pos here, read]
  constructor
  · rw [List.map_append]
    split
    · rename_i lands
      rw [if_pos lands] at string
      rw [List.map_singleton, CString.concat_snoc]
      exact string
    · rename_i fails
      rw [if_neg fails, List.append_nil] at string
      rw [List.map_nil, List.append_nil]
      exact string
  · intro inside piece member
    rcases List.mem_append.mp member with old | new
    · exact viewed.belongs inside piece old
    · split at new
      · rw [List.mem_singleton.mp new]
        exact here.2.symm
      · cases new
  · intro inside line member
    exact List.mem_append_left _ (viewed.sent inside line member)

theorem history_viewed {bytes : List UInt8} {v : ChatView} {about : UInt32} {len : Nat}
    {redraw : Bool} (nonempty : bytes ≠ [])
    (orderly : InChat s.currentState → about = s.currentConvId ∧ v.sent = []) :
    Viewed { s with
        chatHistory := some ((bytes ++ [0]).map some)
        chatHistoryLen := len
        needsRedraw := redraw }
      (receivePacket allocates ⟨.respHistory bytes, about⟩ s v) := by
  simp only [receivePacket, if_neg nonempty]
  constructor
  · have ends : (0 : UInt8) ∈ bytes ++ [0] := by simp
    have string := readString_map ends
    rw [CString.cut_append_zero] at string
    simpa [historyString, Piece.text] using string
  · intro inside piece member
    rw [List.mem_singleton.mp member]
    exact (orderly inside).1
  · intro inside line member
    rw [(orderly inside).2] at member
    cases member

theorem received_viewed {junk : Nat → UInt8} {m : Incoming} {v : ChatView} (viewed : Viewed s v)
    (orderly : ∀ bytes, m.packet = .respHistory bytes → bytes ≠ [] → InChat s.currentState →
      m.about = s.currentConvId ∧ v.sent = [])
    (effect : PacketEffect allocates junk s.toAppState m.packet app) :
    Viewed { s with toAppState := app } (receivePacket allocates m s v) := by
  obtain ⟨packet, about⟩ := m
  cases effect with
  | skips skippable =>
    rw [receivePacket_skippable skippable]
    exact { viewed with }
  | conversations | contacts | requests | members => exact { viewed with }
  | history nonempty => exact history_viewed nonempty (orderly _ rfl nonempty)
  | line here read appended => exact line_viewed viewed here read appended
  | unread elsewhere counted =>
    simp only [receivePacket, if_neg elsewhere]
    exact { viewed with }

def Replies (P : Platform) (m : LinkMoment) (k : UInt32) (bytes : List UInt8) : Prop :=
  ∃ env hist, m.event = .serve env ∧
    storageGetHistory P (some m.before.server.masterKey) env.junk env.plan m.before.server.db k =
      .ok hist ∧ CMemory.readString hist = some bytes

def Replied (P : Platform) (past : List LinkMoment) (k : UInt32) (bytes : List UInt8) : Prop :=
  ∃ m ∈ past, Replies P m k bytes

theorem Replied.later {past : List LinkMoment} {k : UInt32} {bytes : List UInt8}
    (replied : Replied P past k bytes) (m : LinkMoment) : Replied P (m :: past) k bytes := by
  obtain ⟨n, member, replies⟩ := replied
  exact ⟨n, List.mem_cons_of_mem m member, replies⟩

theorem Replied.noNul {past : List LinkMoment} {k : UInt32} {bytes : List UInt8}
    (replied : Replied P past k bytes) : 0 ∉ bytes := by
  obtain ⟨n, -, env, hist, -, -, string⟩ := replied
  exact (readString_some string).1

theorem step_history {server server' : Server} {e : Event} {out : List Sent} {target : Int}
    {history : List UInt8} (stepped : serverStep P server e = some (server', out))
    (sent : ⟨target, .respHistory history⟩ ∈ out) :
    target = e.fd ∧ ∃ code bytes env k hist, e = .packet e.fd code bytes env ∧
      readUInt32 (deliver bytes) RequestHistoryPayload.convId = .ok k ∧
      storageGetHistory P (some server.masterKey) env.junk env.plan server.db k = .ok hist ∧
      CMemory.readString hist = some history := by
  have handled := (@handleEvent_of_step P server.masterKey _ _ _ _ stepped).2
  cases e with
  | connect fd | disconnect fd =>
    cases handled
    cases sent
  | packet fd code bytes env =>
    simp only [handleEvent] at handled
    split at handled
    · cases handled
      cases sent
    · rename_i cli listed
      obtain ⟨type, coded, answer⟩ := dispatch_types handled sent
      have asked : type = .reqHistory := by
        cases type <;> simp_all [answers, Packet.type]
      subst asked
      simp only [dispatch, coded] at handled
      obtain ⟨k, hist, found, read, built, string, -, rfl⟩ := handleReqHistory_ok handled
      cases List.mem_singleton.mp sent
      exact ⟨(getClientByFd_some listed).2, code, bytes, env, k, hist, rfl, read, built, string⟩

theorem mem_inbox {about : UInt32} {out : List Sent} {m : Incoming} (member : m ∈ inbox fd about out) :
    m.about = about ∧ ⟨fd, m.packet⟩ ∈ out := by
  obtain ⟨n, found, rfl⟩ := List.mem_map.mp member
  obtain ⟨sent, here⟩ := List.mem_filter.mp found
  rw [← of_decide_eq_true here]
  exact ⟨rfl, sent⟩

/-- Every history on its way to the client is noted with its conversation. -/
def Noted (P : Platform) (past : List LinkMoment) (s : Link) : Prop :=
  ∀ m ∈ s.toClient, ∀ bytes, m.packet = .respHistory bytes → Replied P past m.about bytes

theorem run_noted {server : Server} {past : List LinkMoment} {s : Link}
    (run : Run (link P allocates fd uid server) past s) : Noted P past s := by
  induction run with
  | start =>
    rintro m ⟨⟩
  | @step past s t e o before stepped ih =>
    have kept : ∀ m ∈ s.toClient, ∀ bytes, m.packet = .respHistory bytes →
        Replied P (⟨s, e, t, o⟩ :: past) m.about bytes :=
      fun m member bytes history => (ih m member bytes history).later _
    cases linkStep_effect stepped with
    | draw | key => exact kept
    | @receive junk first rest client sent queue received =>
      exact fun m member => kept m (queue ▸ List.mem_cons_of_mem first member)
    | @serve env r rest server out queue handled =>
      intro m member bytes history
      rcases List.mem_append.mp member with old | new
      · exact kept m old bytes history
      · obtain ⟨about, sent⟩ := mem_inbox new
        rw [history] at sent
        obtain ⟨-, code, payload, env', k, hist, event, read, built, string⟩ :=
          step_history handled sent
        cases event
        have asked : askedAbout r = k := by rw [askedAbout, read]
        rw [about, asked]
        exact ⟨_, List.mem_cons_self, env, hist, rfl, built, string⟩
    | other elsewhere handled =>
      intro m member bytes history
      rcases List.mem_append.mp member with old | new
      · exact kept m old bytes history
      · obtain ⟨-, sent⟩ := mem_inbox new
        rw [history] at sent
        exact absurd (step_history handled sent).1.symm elsewhere

theorem render_untouched (s : MainState) : Untouched s (render s) := by
  obtain ⟨state, redraw, drawn, same | ⟨-, home⟩⟩ := render_screen s
  · rw [drawn, same]
    exact ⟨rfl, rfl, id⟩
  · rw [drawn, home]
    exact ⟨rfl, rfl, fun inside => absurd inside outside_home⟩

theorem key_viewed {v : ChatView} {sent : List Request} (viewed : Viewed s v)
    (lands : s.currentState = .chat → Enter ch → 0 < s.chatInputBuffer.length →
      Lands allocates s.toAppState (myLine s.chatInputBuffer))
    (stepped : clientStep allocates s (.key ch prompts) = some (t, sent)) :
    Viewed t (pressKey allocates ch s t v) := by
  cases clientStep_effect stepped with
  | silent reading =>
    have stays : ¬ (s.currentState = .home ∧ s.currentState = .chat) := by
      rintro ⟨home, chat⟩
      cases home.symm.trans chat
    have unsent : ¬ (s.currentState = .chat ∧ Enter keyErr ∧ 0 < s.chatInputBuffer.length) := by
      rintro ⟨-, enter, -⟩
      exact absurd enter (by decide)
    rw [pressKey, if_neg stays, if_neg unsent]
    exact { viewed with }
  | pressed reading pressed =>
    exact { pressed_viewed (s := { s with needsRedraw := true }) { viewed with } lands pressed with }

theorem step_viewed {s t : Link} {e : LinkEvent} {server : Server} {v : ChatView}
    (viewed : Viewed s.client v) (meets : Meets allocates ⟨s, e, t, ()⟩ v)
    (stepped : (link P allocates fd uid server).step s e = some (t, ())) :
    Viewed t.client (watch allocates ⟨s, e, t, ()⟩ v) := by
  cases linkStep_effect stepped with
  | draw drawn =>
    cases clientStep_effect drawn with
    | draws drawing => exact { viewed.untouched (render_untouched s.client) with }
  | key pressed => exact key_viewed viewed meets pressed
  | @receive junk m rest client sent queue received =>
    have orderly : ∀ bytes, m.packet = .respHistory bytes → bytes ≠ [] →
        InChat s.client.currentState → m.about = s.client.currentConvId ∧ v.sent = [] := by
      intro bytes history nonempty inside
      have first : m ∈ s.toClient.head? := by
        rw [queue]
        rfl
      have bytesOf : historyOf m.packet = bytes := by rw [history, historyOf]
      exact meets m first (bytesOf ▸ nonempty) inside
    simp only [watch, queue]
    cases clientStep_effect received with
    | received received => exact received_viewed viewed orderly (networkThreadOn_effect received)
  | serve | other => exact viewed

theorem run_viewed {server : Server} {past : List LinkMoment} {s : Link}
    (run : Run (link P allocates fd uid server) past s) (orderly : Orderly allocates past) :
    Viewed s.client (viewOf allocates past) := by
  induction run with
  | start =>
    constructor
    · rfl
    · rintro _ piece ⟨⟩
    · rintro _ line ⟨⟩
  | step before stepped ih => exact step_viewed (ih orderly.2) orderly.1 stepped

theorem pressKey_history {v : ChatView} {k : UInt32} {text : CString}
    (member : .history k text ∈ (pressKey allocates ch s t v).shown) : .history k text ∈ v.shown := by
  unfold pressKey at member
  split at member
  · cases member
  · split at member
    · rcases List.mem_append.mp member with old | new
      · exact old
      · split at new
        · cases List.mem_singleton.mp new
        · cases new
    · exact member

theorem receivePacket_history {m : Incoming} {v : ChatView} {k : UInt32} {text : CString}
    (member : .history k text ∈ (receivePacket allocates m s v).shown) :
    .history k text ∈ v.shown ∨
      ∃ bytes, m.packet = .respHistory bytes ∧ m.about = k ∧ text = CString.cut bytes := by
  unfold receivePacket at member
  split at member
  · rename_i bytes history
    split at member
    · exact .inl member
    · cases List.mem_singleton.mp member
      exact .inr ⟨bytes, history, rfl, rfl⟩
  · split at member
    · split at member
      · rcases List.mem_append.mp member with old | new
        · exact .inl old
        · split at new
          · cases List.mem_singleton.mp new
          · cases new
      · exact .inl member
    · exact .inl member
  · exact .inl member

/- Whatever is shown of a history is the server's answer about its conversation. -/
theorem run_replied {server : Server} {past : List LinkMoment} {s : Link}
    (run : Run (link P allocates fd uid server) past s) {k : UInt32} {text : CString}
    (shown : .history k text ∈ (viewOf allocates past).shown) : Replied P past k text.bytes := by
  induction run with
  | start => cases shown
  | @step past s t e o before stepped ih =>
    have noted := run_noted before
    simp only [viewOf, watch] at shown
    split at shown
    · exact (ih (pressKey_history shown)).later _
    · rename_i packet rest queue
      rcases receivePacket_history shown with old | ⟨bytes, history, about, rfl⟩
      · exact (ih old).later _
      · have replied := noted packet (queue ▸ List.mem_cons_self) bytes history
        have whole := CString.cut_bytes ⟨bytes, replied.noNul⟩
        rw [congrArg CString.bytes whole, ← about]
        exact replied.later _
    · exact (ih shown).later _

/-- The open chat shows its own conversation only, and every line that was sent in it. -/
structure ChatFaithful (P : Platform) (past : List LinkMoment) (s : Link) (v : ChatView) : Prop where
  string : historyString s.client.toAppState = some (CString.concat (v.shown.map Piece.text)).bytes
  belongs : ∀ piece ∈ v.shown, piece.convId = s.client.currentConvId
  replied : ∀ k text, .history k text ∈ v.shown → Replied P past k text.bytes
  sent : ∀ line ∈ v.sent, .mine s.client.currentConvId line ∈ v.shown

theorem chat_shows_its_conversation (P : Platform) (allocates : Nat → Bool) (fd : Int)
    (uid : UInt32) (server : Server) (past : List LinkMoment) (s : Link)
    (run : Run (link P allocates fd uid server) past s) (orderly : Orderly allocates past)
    (chat : s.client.currentState = .chat) :
    ChatFaithful P past s (viewOf allocates past) := by
  have viewed := run_viewed run orderly
  exact
    { string := viewed.string
      belongs := viewed.belongs (.inl chat)
      replied := fun k text shown => run_replied run shown
      sent := viewed.sent (.inl chat) }

instance (allocates : Nat → Bool) (v : ChatView) : (m : LinkMoment) → Decidable (Meets allocates m v)
  | ⟨_, .key _ _, _, _⟩ => inferInstanceAs (Decidable (_ → _ → _ → _))
  | ⟨s, .receive _, _, _⟩ => inferInstanceAs (Decidable (∀ first ∈ s.toClient.head?, _ → _ → _ ∧ _))
  | ⟨_, .draw, _, _⟩ | ⟨_, .serve _, _, _⟩ | ⟨_, .other _, _, _⟩ => .isTrue trivial

instance (allocates : Nat → Bool) : (past : List LinkMoment) → Decidable (Orderly allocates past)
  | [] => .isTrue trivial
  | m :: past =>
    have := instDecidableOrderly allocates past
    inferInstanceAs (Decidable (Meets allocates m (viewOf allocates past) ∧ Orderly allocates past))

def twoGroupsSession : List Event :=
  aliceArrives ++ bobArrives ++
    [(serviceCreateGroup 1 (CString.lit "team") CString.empty [2]).event 7 (recordedEnv 3),
      (serviceCreateGroup 1 (CString.lit "club") CString.empty [2]).event 7 (recordedEnv 4),
      (serviceSendText 1 (CString.lit "hi")).event 7 (recordedEnv 5)]

theorem twoGroupsSession_completes :
    (recordedServer.exec recordedServer.start twoGroupsSession).isSome := by decide +kernel

abbrev twoGroups : Server := recordedServer.after twoGroupsSession twoGroupsSession_completes

abbrev recordedLink := link recordedPlatform (fun _ => true) 7 1 twoGroups

def firstOpened : List LinkEvent := [served, served, served, taken, taken, taken] ++ press 10

def hiTyped : List LinkEvent := press (letter 'h') ++ press (letter 'i') ++ press 10

def answeredInTime : List LinkEvent := firstOpened ++ [served, taken] ++ hiTyped

theorem chat_shows_its_conversation_hi :
    ∃ past s, recordedLink.trace [] recordedLink.start answeredInTime = some (past, s) ∧
      ChatFaithful recordedPlatform past s (viewOf (fun _ => true) past) := by
  have inTime : (recordedLink.trace [] recordedLink.start answeredInTime).any fun r =>
      Orderly (fun _ => true) r.1 ∧ r.2.client.currentState = .chat := by decide +kernel
  obtain ⟨⟨past, s⟩, traced, seen⟩ := (Option.any_eq_true _ _).mp inTime
  obtain ⟨orderly, chat⟩ := of_decide_eq_true seen
  exact ⟨past, s, traced, chat_shows_its_conversation recordedPlatform _ 7 1 twoGroups past s
    (Run.start.trace traced) orderly chat⟩

/- She goes back and opens the second group before the history of the first comes. -/
def answeredElsewhere : List LinkEvent :=
  firstOpened ++ press keyEsc ++ press keyDown ++ press 10 ++ [served, taken]

/- She writes before the history comes. -/
def answeredLate : List LinkEvent := firstOpened ++ hiTyped ++ [served, taken]

/- In the empty second group she sees what was said in the first; in the first the line that
she has just sent is gone. -/
theorem late_history_misplaced :
    (∃ past s, Run recordedLink past s ∧ s.client.currentState = .chat ∧
      s.client.currentConvId = 2 ∧ joinedMessages s.server.db 2 = [] ∧
      historyString s.client.toAppState = some (CString.lit "[00:00] alice: hi\n").bytes ∧
      ¬ ChatFaithful recordedPlatform past s (viewOf (fun _ => true) past)) ∧
    ∃ past s, Run recordedLink past s ∧ s.client.currentState = .chat ∧
      s.client.currentConvId = 1 ∧
      (viewOf (fun _ => true) past).sent = [CString.lit "Me: hi\n"] ∧
      historyString s.client.toAppState = some (CString.lit "[00:00] alice: hi\n").bytes ∧
      ¬ ChatFaithful recordedPlatform past s (viewOf (fun _ => true) past) := by
  constructor
  · have elsewhere : (recordedLink.trace [] recordedLink.start answeredElsewhere).any fun r =>
        r.2.client.currentState = .chat ∧ r.2.client.currentConvId = 2 ∧
        joinedMessages r.2.server.db 2 = [] ∧
        historyString r.2.client.toAppState = some (CString.lit "[00:00] alice: hi\n").bytes ∧
        ¬ ∀ piece ∈ (viewOf (fun _ => true) r.1).shown, piece.convId = r.2.client.currentConvId := by
      decide +kernel
    obtain ⟨⟨past, s⟩, traced, seen⟩ := (Option.any_eq_true _ _).mp elsewhere
    obtain ⟨chat, conv, empty, string, foreign⟩ := of_decide_eq_true seen
    exact ⟨past, s, Run.start.trace traced, chat, conv, empty, string,
      fun faithful => foreign faithful.belongs⟩
  · have late : (recordedLink.trace [] recordedLink.start answeredLate).any fun r =>
        r.2.client.currentState = .chat ∧ r.2.client.currentConvId = 1 ∧
        (viewOf (fun _ => true) r.1).sent = [CString.lit "Me: hi\n"] ∧
        historyString r.2.client.toAppState = some (CString.lit "[00:00] alice: hi\n").bytes ∧
        ¬ ∀ line ∈ (viewOf (fun _ => true) r.1).sent,
          .mine r.2.client.currentConvId line ∈ (viewOf (fun _ => true) r.1).shown := by
      decide +kernel
    obtain ⟨⟨past, s⟩, traced, seen⟩ := (Option.any_eq_true _ _).mp late
    obtain ⟨chat, conv, sent, string, lost⟩ := of_decide_eq_true seen
    exact ⟨past, s, Run.start.trace traced, chat, conv, sent, string,
      fun faithful => lost faithful.sent⟩

end MoT
