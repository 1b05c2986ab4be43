import MoT.ClientEffects

/-! The cursors of the client's lists. One variable serves the conversations, the contacts
and the requests, and the lists change under it. -/
namespace MoT
open CMemory Transition

variable {α : Type} {allocates : Nat → Bool} {ch : Int} {prompts : Prompts} {s t : MainState}
  {uid : UInt32} {steady : Prop}

/-- The cursor may be used on a list of this length, as an empty one is never looked at. -/
def Within (cursor count : Int) : Prop := 0 < count → cursor < count

theorem Within.down {cursor count : Int} (room : cursor < count - 1) :
    Within (cursor + 1) count := fun _ => by omega

theorem Within.up {cursor count : Int} (within : Within cursor count) :
    Within (cursor - 1) count := fun some => by
  have below := within some
  omega

theorem within_zero {count : Int} : Within 0 count := fun some => some

/-- The cursor of each screen is within its list. Every screen but those of the contacts and
the requests returns to the conversations without a reset. -/
structure Placed (s : MainState) : Prop where
  selection : 0 ≤ s.selection
  memberSelection : 0 ≤ s.memberSelectionIdx
  conversations : s.currentState ≠ .friends → s.currentState ≠ .requests →
    Within s.selection s.convCount
  contacts : s.currentState = .friends → Within s.selection s.contactsCount
  requests : s.currentState = .requests → s.selection = 0
  members : s.currentState = .manageMembers →
    Within s.memberSelectionIdx s.currentGroupMembersCount

/-- A list does not shrink to below the cursor of its own screen, a chat is made with a
contact whose place is one among the conversations too, and who is no admin comes back to
the members only where the old place still exists. -/
def Steady (s : MainState) : ClientEvent → Prop
  | .draw => True
  | .key ch _ =>
    (s.currentState = .friends → Enter ch → 0 < s.contactsCount →
      Within s.selection s.convCount) ∧
    (s.currentState = .groupSettings → ch = letter 'm' ∨ ch = letter 'M' →
      iAmAdmin s.toAppState = false → Within s.memberSelectionIdx s.currentGroupMembersCount)
  | .receive junk packet =>
    match packet with
    | .respConversations _ => s.currentState ≠ .friends → s.currentState ≠ .requests →
        Within s.selection (arrived ConversationSummary.size junk packet)
    | .respContacts _ => s.currentState = .friends →
        Within s.selection (arrived ContactSummary.size junk packet)
    | .respMembers _ => s.currentState = .manageMembers →
        Within s.memberSelectionIdx (arrived GroupMemberSummary.size junk packet)
    | _ => True

/-- The screens from which the cursor of the conversations comes back as it was. -/
abbrev OverConversations (state : UIState) : Prop :=
  state ≠ .friends ∧ state ≠ .requests ∧ state ≠ .manageMembers

theorem over_home : OverConversations .home := by decide
theorem over_chat : OverConversations .chat := by decide
theorem over_groupSettings : OverConversations .groupSettings := by decide

theorem Placed.homeward (homeward : OverConversations s.currentState) (low : 0 ≤ s.selection)
    (lowMember : 0 ≤ s.memberSelectionIdx) (within : Within s.selection s.convCount) :
    Placed s where
  selection := low
  memberSelection := lowMember
  conversations _ _ := within
  contacts here := absurd here homeward.1
  requests here := absurd here homeward.2.1
  members here := absurd here homeward.2.2

theorem Placed.within (placed : Placed s) (homeward : OverConversations s.currentState) :
    Within s.selection s.convCount := placed.conversations homeward.1 homeward.2.1

theorem Placed.onFriends (here : s.currentState = .friends) (low : 0 ≤ s.selection)
    (lowMember : 0 ≤ s.memberSelectionIdx) (within : Within s.selection s.contactsCount) :
    Placed s where
  selection := low
  memberSelection := lowMember
  conversations other := absurd here other
  contacts _ := within
  requests there := by cases here.symm.trans there
  members there := by cases here.symm.trans there

theorem Placed.onRequests (here : s.currentState = .requests) (first : s.selection = 0)
    (lowMember : 0 ≤ s.memberSelectionIdx) : Placed s where
  selection := first.ge
  memberSelection := lowMember
  conversations _ other := absurd here other
  contacts there := by cases here.symm.trans there
  requests _ := first
  members there := by cases here.symm.trans there

theorem Placed.onMembers (here : s.currentState = .manageMembers) (low : 0 ≤ s.selection)
    (lowMember : 0 ≤ s.memberSelectionIdx) (within : Within s.selection s.convCount)
    (withinMembers : Within s.memberSelectionIdx s.currentGroupMembersCount) : Placed s where
  selection := low
  memberSelection := lowMember
  conversations _ _ := within
  contacts there := by cases here.symm.trans there
  requests there := by cases here.symm.trans there
  members _ := withinMembers

/-- No access goes wrong with a cursor, and on a condition the cursors stay where they
may be. -/
def Kept (steady : Prop) : KeyOutcome → Prop
  | .ok turn => steady → Placed turn.state
  | .error (.cursor _ _) => False
  | .error _ => True

def Uncursored (read : Except Fault α) : Prop := ∀ index count, read ≠ .error (.cursor index count)

theorem kept_bind {read : Except Fault α} {f : α → KeyOutcome} (uncursored : Uncursored read)
    (next : ∀ a, read = .ok a → Kept steady (f a)) : Kept steady (read >>= f) := by
  cases read with
  | error fault =>
    cases fault with
    | cursor index count => exact absurd rfl (uncursored index count)
    | payload | copyOverflow | nullString | historyOverflow | localArray => trivial
  | ok a => exact next a rfl

theorem element_uncursored {array : List α} {count index : Int} (low : 0 ≤ index)
    (high : index < count) : Uncursored (element array count index) := by
  intro i n failed
  rw [element, if_pos ⟨low, high⟩] at failed
  split at failed <;> cases failed

theorem appAppendHistory_uncursored (text : CString) (app : AppState) :
    Uncursored (appAppendHistory allocates text app) := by
  intro i n failed
  unfold appAppendHistory at failed
  split at failed
  · cases failed
  · dsimp only at failed
    split_ifs at failed
    split at failed <;> cases failed

theorem ticked_uncursored (s : MainState) (contacts : List (ContactSummary × Nat))
    (uids : List UInt32) : Uncursored (contacts.foldlM (addTicked s) uids) := by
  induction contacts generalizing uids with
  | nil =>
    intro i n failed
    cases failed
  | cons c contacts ih =>
    intro i n failed
    rw [List.foldlM_cons, addTicked] at failed
    split at failed
    · cases failed
    · exact ih uids i n failed
    · split at failed
      · exact ih _ i n failed
      · cases failed

theorem Placed.edited (placed : Placed s) (edited : Edited s t) : Placed t := by
  obtain ⟨input, idx, members, name, desc, rfl⟩ := edited
  exact { placed with }

theorem Way.between {a b : UIState} (way : Way a b) :
    (a ≠ .friends ∧ a ≠ .requests) ∧ OverConversations b := by
  cases way <;> decide

theorem Way.kept {state : UIState} (way : Way s.currentState state) (placed : Placed s) :
    Placed { s with currentState := state } := by
  obtain ⟨⟨friends, requests⟩, homeward⟩ := way.between
  exact .homeward homeward placed.selection placed.memberSelection
    (placed.conversations friends requests)

theorem FreshWay.kept {state : UIState} (way : FreshWay s.currentState state) (placed : Placed s) :
    Placed { s with currentState := state, selection := 0 } := by
  have lowMember := placed.memberSelection
  generalize s.currentState = before at way
  cases way with
  | friends | leaveRequests => exact .onFriends rfl le_rfl lowMember within_zero
  | leaveFriends => exact .homeward over_home le_rfl lowMember within_zero
  | requests => exact .onRequests rfl rfl lowMember

theorem openSelected_kept (placed : Placed s) (home : s.currentState = .home) :
    Kept steady (openSelected s) := by
  have within := placed.within (home ▸ over_home)
  rw [openSelected]
  split
  · split
    · rename_i some
      apply kept_bind (element_uncursored placed.selection (within some))
      intro c _ _
      exact .homeward over_chat placed.selection placed.memberSelection within
    · exact fun _ => placed
  · exact fun _ => placed

theorem sendInput_kept (placed : Placed s) : Kept steady (sendInput allocates s) := by
  rw [sendInput]
  split
  · apply kept_bind (appAppendHistory_uncursored _ _)
    intro app appended _
    obtain ⟨history, len, rfl⟩ := appAppendHistory_screen appended
    exact { placed with }
  · exact fun _ => placed

/- The place among the contacts becomes one among the conversations. -/
theorem chatWithSelected_kept (placed : Placed s) (friends : s.currentState = .friends)
    (shared : steady → 0 < s.contactsCount → Within s.selection s.convCount) :
    Kept steady (chatWithSelected s) := by
  rw [chatWithSelected]
  split
  · split
    · rename_i some
      apply kept_bind (element_uncursored placed.selection (placed.contacts friends some))
      intro c _ met
      exact .homeward over_home placed.selection placed.memberSelection (shared met some)
    · exact fun _ => placed
  · exact fun _ => placed

theorem appRemoveRequest_placed (placed : Placed s) (index : Int) :
    Placed (appRemoveRequest index s) := by
  obtain ⟨requests, count, removed⟩ := appRemoveRequest_requests index s
  rw [removed]
  exact { placed with }

theorem decideSelected_kept (placed : Placed s) (requests : s.currentState = .requests)
    (accept : Bool) : Kept steady (decideSelected accept s) := by
  have first := placed.requests requests
  rw [decideSelected]
  split
  · split
    · rename_i some
      apply kept_bind (element_uncursored placed.selection (first ▸ some))
      intro r _ _
      exact appRemoveRequest_placed placed s.selection
    · exact fun _ => placed
  · exact fun _ => placed

theorem kickSelected_kept (placed : Placed s) (manage : s.currentState = .manageMembers) :
    Kept steady (kickSelected s) := by
  rw [kickSelected]
  split
  · split
    · rename_i some
      apply kept_bind (element_uncursored placed.memberSelection (placed.members manage some.2))
      intro target _
      split
      · exact fun _ => placed
      · exact fun _ => placed
    · exact fun _ => placed
  · exact fun _ => placed

theorem KeyEffect.kept {r : KeyOutcome} (effect : KeyEffect allocates ch s r)
    (prompts : Prompts) (placed : Placed s) :
    Kept (Steady s (.key ch prompts)) r := by
  have low := placed.selection
  have lowMember := placed.memberSelection
  cases effect with
  | edits edited sent quit => exact fun _ => placed.edited edited
  | goes way edited sent => exact fun _ => (way.kept placed).edited edited
  | resets way sent => exact fun _ => way.kept placed
  | downHome home room =>
    exact fun _ => .homeward (home ▸ over_home) (Int.le_add_one low) lowMember (.down room)
  | downFriends friends room =>
    exact fun _ => .onFriends friends (Int.le_add_one low) lowMember (.down room)
  | up list room =>
    have lower := Int.le_sub_one_of_lt room
    rcases list with home | friends
    · have within := placed.within (home ▸ over_home)
      exact fun _ => .homeward (home ▸ over_home) lower lowMember within.up
    · exact fun _ => .onFriends friends lower lowMember (placed.contacts friends).up
  | memberDown manage room =>
    have within := placed.conversations (by simp [manage]) (by simp [manage])
    exact fun _ => .onMembers manage low (Int.le_add_one lowMember) within (.down room)
  | memberUp manage room =>
    have within := placed.conversations (by simp [manage]) (by simp [manage])
    exact fun _ => .onMembers manage low (Int.le_sub_one_of_lt room) within (placed.members manage).up
  | opens home => exact openSelected_kept placed home
  | sends chat enter => exact sendInput_kept placed
  | toggles form =>
    rw [toggleMember]
    split
    · exact fun _ => { placed with }
    · trivial
  | submits form =>
    apply kept_bind (ticked_uncursored s _ [])
    intro uids _
    split
    · exact fun _ => placed
    · exact fun _ => Way.kept (form ▸ .leaveForm) placed
  | chats friends enter =>
    exact chatWithSelected_kept placed friends fun met some => met.1 friends enter some
  | decides requests accept => exact decideSelected_kept placed requests accept
  | manages settings key =>
    have within := placed.within (settings ▸ over_groupSettings)
    intro met
    cases admin : iAmAdmin s.toAppState with
    | true => exact .onMembers rfl low le_rfl within within_zero
    | false =>
      exact .onMembers rfl low lowMember within (met.2 settings key admin)
  | kicks manage => exact kickSelected_kept placed manage

/-- What a packet does to the screen and to the counts of the lists. -/
structure Recounted (junk : Nat → UInt8) (packet : Packet) (app app' : AppState) : Prop where
  state : app'.currentState = app.currentState
  conversations : app'.convCount = app.convCount ∨ ∃ list, packet = .respConversations list ∧
    app'.convCount = arrived ConversationSummary.size junk packet
  contacts : app'.contactsCount = app.contactsCount ∨ ∃ list, packet = .respContacts list ∧
    app'.contactsCount = arrived ContactSummary.size junk packet
  members : app'.currentGroupMembersCount = app.currentGroupMembersCount ∨
    ∃ list, packet = .respMembers list ∧
      app'.currentGroupMembersCount = arrived GroupMemberSummary.size junk packet

theorem PacketEffect.recounted {junk : Nat → UInt8} {packet : Packet} {app app' : AppState}
    (effect : PacketEffect allocates junk app packet app') : Recounted junk packet app app' := by
  cases effect with
  | skips | requests | history | unread => exact ⟨rfl, .inl rfl, .inl rfl, .inl rfl⟩
  | conversations list array => exact ⟨rfl, .inr ⟨list, rfl, rfl⟩, .inl rfl, .inl rfl⟩
  | contacts list array => exact ⟨rfl, .inl rfl, .inr ⟨list, rfl, rfl⟩, .inl rfl⟩
  | members list array => exact ⟨rfl, .inl rfl, .inl rfl, .inr ⟨list, rfl, rfl⟩⟩
  | line here read appended =>
    obtain ⟨history, len, rfl⟩ := appAppendHistory_screen appended
    exact ⟨rfl, .inl rfl, .inl rfl, .inl rfl⟩

theorem receive_placed {junk : Nat → UInt8} {packet : Packet} {app : AppState} (placed : Placed s)
    (recounted : Recounted junk packet s.toAppState app)
    (steady : Steady s (.receive junk packet)) : Placed { s with toAppState := app } where
  selection := placed.selection
  memberSelection := placed.memberSelection
  conversations friends requests := by
    dsimp only at *
    rw [recounted.state] at friends requests
    rcases recounted.conversations with same | ⟨list, rfl, count⟩
    · rw [same]
      exact placed.conversations friends requests
    · rw [count]
      exact steady friends requests
  contacts friends := by
    dsimp only at *
    rw [recounted.state] at friends
    rcases recounted.contacts with same | ⟨list, rfl, count⟩
    · rw [same]
      exact placed.contacts friends
    · rw [count]
      exact steady friends
  requests here := by
    dsimp only at *
    rw [recounted.state] at here
    exact placed.requests here
  members manage := by
    dsimp only at *
    rw [recounted.state] at manage
    rcases recounted.members with same | ⟨list, rfl, count⟩
    · rw [same]
      exact placed.members manage
    · rw [count]
      exact steady manage

theorem render_placed (placed : Placed s) : Placed (render s) := by
  obtain ⟨state, redraw, drawn, same | ⟨settings, home⟩⟩ := render_screen s
  · rw [drawn, same]
    exact { placed with }
  · rw [drawn, home]
    exact .homeward over_home placed.selection placed.memberSelection
      (placed.within (settings ▸ over_groupSettings))

theorem mainStart_placed (uid : UInt32) : Placed (mainStart uid) :=
  .homeward over_home le_rfl le_rfl within_zero

theorem pressed_kept (placed : Placed s) :
    Kept (Steady s (.key ch prompts)) (handleKey allocates ch prompts { s with needsRedraw := true }) :=
  (handleKey_effect allocates ch prompts { s with needsRedraw := true }).kept prompts
    { placed with }

theorem step_placed {e : ClientEvent} {sent : List Request} (placed : Placed s)
    (steady : Steady s e) (stepped : (client allocates uid).step s e = some (t, sent)) :
    Placed t := by
  cases clientStep_effect stepped with
  | draws drawing => exact { render_placed placed with }
  | silent reading => exact { placed with }
  | @pressed ch prompts turn reading pressed =>
    have kept : Kept (Steady s (.key ch prompts))
        (handleKey allocates ch prompts { s with needsRedraw := true }) := pressed_kept placed
    rw [pressed] at kept
    exact { (kept steady : Placed turn.state) with }
  | received received =>
    exact receive_placed placed (networkThreadOn_effect received).recounted steady

theorem cursors_stay_in_range (allocates : Nat → Bool) (uid : UInt32)
    (past : List (Moment MainState ClientEvent (List Request))) (s : MainState)
    (run : Run (client allocates uid) past s) (steady : ∀ m ∈ past, Steady m.before m.event)
    (ch : Int) (prompts : Prompts) (index count : Int) :
    handleKey allocates ch prompts { s with needsRedraw := true } ≠ .error (.cursor index count) := by
  have placed : Placed s := by
    induction run with
    | start => exact mainStart_placed uid
    | step before stepped ih =>
      obtain ⟨now, earlier⟩ := List.forall_mem_cons.mp steady
      exact step_placed (ih earlier) now stepped
  have kept : Kept (Steady s (.key ch prompts))
      (handleKey allocates ch prompts { s with needsRedraw := true }) := pressed_kept placed
  intro failed
  rw [failed] at kept
  exact kept

instance (cursor count : Int) : Decidable (Within cursor count) :=
  inferInstanceAs (Decidable (0 < count → cursor < count))

instance (s : MainState) : (e : ClientEvent) → Decidable (Steady s e)
  | .draw => .isTrue trivial
  | .key _ _ => inferInstanceAs (Decidable (_ ∧ _))
  | .receive _ packet =>
    match packet with
    | .respConversations _ | .respContacts _ | .respMembers _ =>
      inferInstanceAs (Decidable (_ → _))
    | .registerSuccess | .registerFail | .loginSuccess _ | .loginFail | .updateSuccess
    | .addReqSent | .addFail | .respRequests _ | .convCreated _ | .memberAdded | .rteText _
    | .respHistory _ => .isTrue trivial

def listedGroup (convId : UInt32) : ConversationSummary :=
  ⟨convId, convTypeGroup, List.replicate convNameLen (some 0), List.replicate maxDescLen (some 0),
    0, 0⟩

abbrev recordedClient := client (fun _ => true) 2

def secondSelected : List ClientEvent :=
  [.receive (fun _ => 0) (.respConversations [listedGroup 1, listedGroup 2]), .draw,
    .key keyDown unprompted]

theorem secondSelected_completes :
    (recordedClient.trace [] recordedClient.start secondSelected).isSome := by decide +kernel

theorem cursors_stay_in_range_selected :
    handleKey (fun _ => true) 10 unprompted
      { (recordedClient.history secondSelected secondSelected_completes).2 with needsRedraw := true } ≠
        .error (.cursor 1 2) :=
  cursors_stay_in_range _ _ _ _ (.history secondSelected secondSelected_completes)
    (by decide +kernel) 10 unprompted 1 2

def cursorFault : KeyOutcome → Option (Int × Int)
  | .error (.cursor index count) => some (index, count)
  | _ => none

theorem cursorFault_some {r : KeyOutcome} {index count : Int}
    (fault : cursorFault r = some (index, count)) : r = .error (.cursor index count) := by
  unfold cursorFault at fault
  split at fault
  · cases fault
    rfl
  · cases fault

def secondLost : List ClientEvent :=
  secondSelected ++ [.receive (fun _ => 0) (.respConversations [listedGroup 1]), .draw]

theorem secondLost_completes :
    (recordedClient.trace [] recordedClient.start secondLost).isSome := by decide +kernel

theorem cursor_outlives_its_row :
    ¬ ∀ (allocates : Nat → Bool) (uid : UInt32)
        (past : List (Moment MainState ClientEvent (List Request))) (s : MainState),
      Run (client allocates uid) past s → ∀ (ch : Int) (prompts : Prompts) (index count : Int),
        handleKey allocates ch prompts { s with needsRedraw := true } ≠
          .error (.cursor index count) := by
  intro claimed
  have fault : cursorFault (handleKey (fun _ => true) 10 unprompted
      { (recordedClient.history secondLost secondLost_completes).2 with needsRedraw := true }) =
        some (1, 1) := by decide +kernel
  exact claimed _ _ _ _ (.history secondLost secondLost_completes) 10 unprompted 1 1
    (cursorFault_some fault)

end MoT
