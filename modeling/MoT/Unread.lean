import MoT.Cursors
import MoT.Listings

/-! The unread counts of the home screen. They are kept in the array of conversations, which
every list from the server replaces together with its counts. -/
namespace MoT
open CMemory Transition

variable {allocates : Nat → Bool} {uid : UInt32} {s t : MainState} {ch : Int} {prompts : Prompts}
  {k : UInt32}

abbrev ClientMoment := Moment MainState ClientEvent (List Request)

variable {past : List ClientMoment} {m : ClientMoment}

def opened (m : ClientMoment) : Option UInt32 :=
  if m.before.currentState = .home ∧ m.after.currentState = .chat then some m.after.currentConvId
  else none

def textFor : ClientEvent → Option UInt32
  | .receive _ (.rteText message) => some message.convId
  | _ => none

abbrev OpenChat (k : UInt32) (s : MainState) : Prop :=
  s.currentState = .chat ∧ s.currentConvId = k

/-- A text for this conversation, which is listed and not the open chat. -/
abbrev Missed (k : UInt32) (m : ClientMoment) : Prop :=
  textFor m.event = some k ∧ (∃ c ∈ listed m.before.toAppState, c.convId = k) ∧
    ¬ OpenChat k m.before

/-- The texts missed since the conversation was last opened. -/
def missed (k : UInt32) : List ClientMoment → Nat
  | [] => 0
  | m :: past => if opened m = some k then 0 else missed k past + if Missed k m then 1 else 0

def CountsShown (past : List ClientMoment) (s : MainState) : Prop :=
  ∀ c ∈ listed s.toAppState, c.unreadCount.toNat = missed c.convId past

def arrivedConversations (junk : Nat → UInt8) (packet : Packet) : List ConversationSummary :=
  match deliver (packet.payload junk) with
  | some block =>
    elements ConversationSummary.size .ofBytes
      (block.take (UInt32.ofNat (packet.payload junk).length).toNat)
  | none => []

/-- Nothing else with the identifier of the selected conversation has a count. -/
def OthersRead (s : MainState) : Prop :=
  ∀ c ∈ (listed s.toAppState)[s.selection.toNat]?,
    ∀ d ∈ (listed s.toAppState).eraseIdx s.selection.toNat, d.convId = c.convId → d.unreadCount = 0

/-- Nothing else has the identifier, and the count is not at the end of its range. -/
def RoomToCount (k : UInt32) (s : MainState) : Prop :=
  ((listed s.toAppState).filter (·.convId = k)).length ≤ 1 ∧
    ∀ c ∈ listed s.toAppState, c.convId = k → c.unreadCount.toNat + 1 < 2 ^ 32

/-- A list comes with the numbers of missed texts, which is when no text was missed if it is
the server's. The rest is about lists with an identifier twice and counts out of range. -/
def Countable (past : List ClientMoment) (m : ClientMoment) : Prop :=
  match m.event with
  | .draw => True
  | .key ch _ => m.before.currentState = .home → Enter ch → OthersRead m.before
  | .receive junk packet =>
    match packet with
    | .respConversations _ =>
      ∀ c ∈ arrivedConversations junk packet, c.unreadCount.toNat = missed c.convId past
    | .rteText message =>
      ¬ OpenChat message.convId m.before → RoomToCount message.convId m.before
    | _ => True

theorem arrived_read {list : List ConversationSummary}
    (sizes : ∀ c ∈ list, c.name.length = convNameLen ∧ c.description.length = maxDescLen)
    (short : list.length * ConversationSummary.size < 2 ^ 32) (junk : Nat → UInt8) :
    List.Forall₂ ConversationSummary.ReadAs list
      (arrivedConversations junk (.respConversations list)) := by
  have whole : ∀ c ∈ list, c.cells.length = ConversationSummary.size := fun c member =>
    c.cells_length (sizes c member).1 (sizes c member).2
  have bytes : (Packet.payload junk (.respConversations list)).length =
      list.length * ConversationSummary.size :=
    (fill_length _ _).trans (array_length whole)
  rw [arrivedConversations, deliver]
  split_ifs with empty
  · have none_sent : list = [] := by
      rw [empty, List.length_nil] at bytes
      rcases Nat.mul_eq_zero.mp bytes.symm with nothing | absurd
      · exact List.length_eq_zero_iff.mp nothing
      · cases absurd
    rw [none_sent]
    exact .nil
  · have len : (UInt32.ofNat (Packet.payload junk (.respConversations list)).length).toNat =
        (Packet.payload junk (.respConversations list)).length := by
      rw [bytes]
      exact UInt32.toNat_ofNat_of_lt' short
    dsimp only
    rw [len, List.take_left' rfl]
    have read := elements_fill (by decide : 0 < ConversationSummary.size)
      ConversationSummary.ofBytes ConversationSummary.cells whole junk
    refine ((List.forall₂_and_left _ _).mpr ⟨sizes, read⟩).imp ?_
    rintro c e ⟨⟨name, description⟩, junk', rfl⟩
    exact c.ofBytes_fill name description junk'

/-- Every count in a list of the server is zero: such a list is right when nothing was missed of
the conversations in it. -/
theorem served_countable (plan : Plan) (db : Database) (u : UInt32) (junk : Nat → UInt8) :
    (∀ c ∈ arrivedConversations junk
        (.respConversations (storageGetUserConversations plan db u 50)),
      c.unreadCount.toNat = missed c.convId past) ↔
    ∀ c ∈ storageGetUserConversations plan db u 50, missed c.convId past = 0 := by
  have sizes : ∀ c ∈ storageGetUserConversations plan db u 50,
      (c.name.length = convNameLen ∧ c.description.length = maxDescLen) ∧ c.unreadCount = 0 := by
    intro c member
    obtain ⟨x, -, rfl⟩ := List.mem_map.mp member
    exact ⟨⟨conversationSummary_name_length plan db u x,
      conversationSummary_description_length plan db u x⟩, rfl⟩
  have few : (storageGetUserConversations plan db u 50).length ≤ 50 := by
    rw [storageGetUserConversations, List.length_map]
    exact List.length_take_le _ _
  have read := arrived_read (fun c member => (sizes c member).1)
    (lt_of_le_of_lt (Nat.mul_le_mul_right _ few) (by decide)) junk
  have zero : ∀ c ∈ storageGetUserConversations plan db u 50, c.unreadCount = 0 :=
    fun c member => (sizes c member).2
  generalize storageGetUserConversations plan db u 50 = list at read zero
  generalize arrivedConversations junk (.respConversations list) = array at read
  induction read with
  | nil => simp
  | cons same _ ih =>
    obtain ⟨first, rest⟩ := List.forall_mem_cons.mp zero
    rw [List.forall_mem_cons, List.forall_mem_cons, same.unreadCount, same.convId, first]
    exact and_congr eq_comm (ih rest)

theorem quiet_counts (same : listed m.after.toAppState = listed m.before.toAppState)
    (unopened : opened m = none) (none_missed : ∀ k, ¬ Missed k m)
    (shown : CountsShown past m.before) : CountsShown (m :: past) m.after := by
  intro c member
  rw [same] at member
  rw [missed, unopened, if_neg (by simp), if_neg (none_missed c.convId)]
  exact shown c member

theorem appRemoveRequest_conversations (index : Int) (s : MainState) :
    listed (appRemoveRequest index s).toAppState = listed s.toAppState ∧
      (appRemoveRequest index s).currentState = s.currentState := by
  obtain ⟨requests, count, removed⟩ := appRemoveRequest_requests index s
  rw [removed]
  exact ⟨rfl, rfl⟩

abbrev LeavesConversations (s : MainState) : KeyOutcome → Prop :=
  Ensures fun turn => listed turn.state.toAppState = listed s.toAppState ∧
    ¬ (s.currentState = .home ∧ turn.state.currentState = .chat)

theorem decideSelected_leavesConversations (accept : Bool) (s : MainState) :
    LeavesConversations s (decideSelected accept s) := by
  obtain ⟨list, screen⟩ := appRemoveRequest_conversations s.selection s
  apply ensures_decideSelected
  · exact ⟨rfl, not_opening rfl⟩
  · exact fun _ => ⟨list, not_opening screen⟩

theorem handleKey_leavesConversations (other : ¬ (s.currentState = .home ∧ Enter ch)) :
    LeavesConversations s (handleKey allocates ch prompts s) := by
  by_cases decides : DecideKey ch s
  · rw [handleKey, decides.1]
    dsimp only
    rw [requestsKey_decides decides.2]
    exact decideSelected_leavesConversations _ s
  · intro turn pressed
    have stay := handleKey_leavesLists other decides turn pressed
    exact ⟨stay.conversations, stay.closed⟩

theorem openSelected_list {turn : Turn} (pressed : openSelected s = .ok turn) :
    listed s.toAppState = [] ∧ turn = ⟨s, [], false⟩ ∨
    ∃ c, (listed s.toAppState)[s.selection.toNat]? = some c ∧
      listed turn.state.toAppState =
        (listed s.toAppState).modify s.selection.toNat (fun c => { c with unreadCount := 0 }) ∧
      turn.state.currentState = .chat ∧ turn.state.currentConvId = c.convId := by
  rw [openSelected] at pressed
  split at pressed
  · rename_i conversations array
    split at pressed
    · obtain ⟨c, found, opened⟩ := ok_bind_iff.mp pressed
      have here : (listed s.toAppState)[s.selection.toNat]? = some c := by
        rw [listed, array]
        exact element_current found
      cases opened
      refine .inr ⟨c, here, ?_, rfl, rfl⟩
      simp [listed, array, List.take_modify]
    · rename_i none_listed
      cases pressed
      refine .inl ⟨?_, rfl⟩
      have zero : s.convCount.toNat = 0 := by omega
      rw [listed, zero, List.take_zero]
  · rename_i array
    cases pressed
    refine .inl ⟨?_, rfl⟩
    rw [listed, array, Option.getD_none, List.take_nil]

theorem missed_of_opened (opens : opened m = some k) : missed k (m :: past) = 0 := if_pos opens

theorem missed_of_unopened (other : opened m ≠ some k) :
    missed k (m :: past) = missed k past + if Missed k m then 1 else 0 := if_neg other

theorem opening_counts {c : ConversationSummary}
    (here : (listed m.before.toAppState)[m.before.selection.toNat]? = some c)
    (list : listed m.after.toAppState = (listed m.before.toAppState).modify
      m.before.selection.toNat (fun c => { c with unreadCount := 0 }))
    (opens : opened m = some c.convId) (none_missed : ∀ k, ¬ Missed k m)
    (shown : CountsShown past m.before) :
    CountsShown (m :: past) m.after ↔ OthersRead m.before := by
  have count (i : Nat) : (listed m.after.toAppState)[i]? =
      ((listed m.before.toAppState)[i]?).map fun d =>
        if m.before.selection.toNat = i then { d with unreadCount := 0 } else d := by
    rw [list, List.getElem?_modify]
    rfl
  constructor
  · intro after c' selected d member same
    cases here.symm.trans selected
    obtain ⟨i, other, found⟩ := List.mem_eraseIdx_iff_getElem?.mp member
    have there : (listed m.after.toAppState)[i]? = some d := by
      rw [count, found, Option.map_some, if_neg (Ne.symm other)]
    have zero := after d (List.mem_of_getElem? there)
    rw [same, missed_of_opened opens] at zero
    exact UInt32.toNat_inj.mp zero
  · intro others d member
    obtain ⟨i, there⟩ := List.mem_iff_getElem?.mp member
    rw [count] at there
    obtain ⟨d', found, same⟩ := Option.map_eq_some_iff.mp there
    by_cases selected : m.before.selection.toNat = i
    · rw [if_pos selected] at same
      subst selected same
      cases here.symm.trans found
      rw [missed_of_opened opens]
      rfl
    · rw [if_neg selected] at same
      subst same
      by_cases equal : d'.convId = c.convId
      · have another := List.mem_eraseIdx_iff_getElem?.mpr ⟨i, Ne.symm selected, found⟩
        rw [equal, missed_of_opened opens, others c here d' another equal]
        rfl
      · rw [missed_of_unopened (by rw [opens]; simpa using Ne.symm equal), if_neg (none_missed _)]
        exact shown d' (List.mem_of_getElem? found)

theorem handleKey_enter (home : s.currentState = .home) (enter : Enter ch) :
    handleKey allocates ch prompts s = openSelected s := by
  rw [handleKey, home]
  exact homeKey_enter enter s

theorem unopened (closed : ¬ (m.before.currentState = .home ∧ m.after.currentState = .chat)) :
    opened m = none := if_neg closed

theorem key_counts {turn : Turn} {phase : Phase} {sent : List Request}
    (pressed : handleKey allocates ch prompts { s with needsRedraw := true } = .ok turn)
    (shown : CountsShown past s) :
    CountsShown (⟨s, .key ch prompts, { turn.state with phase := phase }, sent⟩ :: past)
        { turn.state with phase := phase } ↔
      (s.currentState = .home → Enter ch → OthersRead s) := by
  have none_missed (k : UInt32) : ¬ Missed k
      (⟨s, .key ch prompts, { turn.state with phase := phase }, sent⟩ : ClientMoment) :=
    fun missed => by cases missed.1
  by_cases opening : s.currentState = .home ∧ Enter ch
  · obtain ⟨home, enter⟩ := opening
    rw [handleKey_enter (s := { s with needsRedraw := true }) home enter] at pressed
    rcases openSelected_list pressed with ⟨nothing, same⟩ | ⟨c, here, list, chat, conv⟩
    · have empty : listed s.toAppState = [] := nothing
      subst same
      apply iff_of_true
      · exact quiet_counts rfl (unopened (not_opening rfl)) none_missed shown
      · intro _ _ c selected
        rw [empty] at selected
        cases selected
    · have opens : opened (⟨s, .key ch prompts, { turn.state with phase := phase }, sent⟩ :
          ClientMoment) = some c.convId := by
        rw [← conv]
        exact if_pos ⟨home, chat⟩
      exact (opening_counts here list opens none_missed shown).trans
        ⟨fun others _ _ => others, fun others => others home enter⟩
  · obtain ⟨list, closed⟩ :=
      handleKey_leavesConversations (s := { s with needsRedraw := true }) opening turn pressed
    apply iff_of_true
    · exact quiet_counts list (unopened closed) none_missed shown
    · exact fun home enter => absurd ⟨home, enter⟩ opening

/- The first of the conversations with this identifier is counted, if there is one. -/
theorem countUnread_cases {n : Nat} {conversations counted : List ConversationSummary}
    (done : countUnread k n conversations = .ok counted) :
    (∀ c ∈ conversations.take n, c.convId ≠ k) ∧ counted = conversations ∨
    ∃ front c back, conversations.take n = front ++ c :: back ∧ (∀ d ∈ front, d.convId ≠ k) ∧
      c.convId = k ∧
      counted.take n = front ++ { c with unreadCount := c.unreadCount + 1 } :: back := by
  induction n generalizing conversations counted with
  | zero =>
    cases done
    exact .inl ⟨by simp, rfl⟩
  | succ n ih =>
    cases conversations with
    | nil => cases done
    | cons c rest =>
      rw [countUnread] at done
      split at done
      · rename_i here
        cases done
        exact .inr ⟨[], c, rest.take n, rfl, by simp, here, rfl⟩
      · rename_i other
        cases searched : countUnread k n rest with
        | error fault =>
          rw [searched] at done
          cases done
        | ok counted' =>
          rw [searched] at done
          cases done
          rcases ih searched with ⟨absent, rfl⟩ | ⟨front, d, back, split, before, here, counts⟩
          · exact .inl ⟨List.forall_mem_cons.mpr ⟨other, absent⟩, rfl⟩
          · refine .inr ⟨c :: front, d, back, ?_, List.forall_mem_cons.mpr ⟨other, before⟩, here, ?_⟩
            · rw [List.take_succ_cons, split, List.cons_append]
            · rw [List.take_succ_cons, counts, List.cons_append]

theorem counted_counts {front back : List ConversationSummary} {c : ConversationSummary}
    (text : textFor m.event = some k) (closed : ¬ OpenChat k m.before) (unopened : opened m = none)
    (list : listed m.before.toAppState = front ++ c :: back) (first : ∀ d ∈ front, d.convId ≠ k)
    (here : c.convId = k)
    (counted : listed m.after.toAppState =
      front ++ { c with unreadCount := c.unreadCount + 1 } :: back)
    (shown : CountsShown past m.before) :
    CountsShown (m :: past) m.after ↔ RoomToCount k m.before := by
  have now_missed : missed k (m :: past) = missed k past + 1 := by
    have misses : Missed k m := ⟨text, ⟨c, by simp [list], here⟩, closed⟩
    rw [missed_of_unopened (by simp [unopened]), if_pos misses]
  have others {k' : UInt32} (other : k' ≠ k) : missed k' (m :: past) = missed k' past := by
    have not_missed : ¬ Missed k' m := fun misses =>
      other (Option.some.inj (misses.1.symm.trans text))
    rw [missed_of_unopened (by simp [unopened]), if_neg not_missed, Nat.add_zero]
  have now : c.unreadCount.toNat = missed k past := here ▸ shown c (by simp [list])
  have alone : (front ++ c :: back).filter (·.convId = k) = c :: back.filter (·.convId = k) := by
    have absent : front.filter (·.convId = k) = [] := by simpa using first
    rw [List.filter_append, absent, List.nil_append, List.filter_cons_of_pos (by simpa using here)]
  rw [CountsShown, RoomToCount, counted, list, alone]
  constructor
  · intro after
    have up := after { c with unreadCount := c.unreadCount + 1 } (by simp)
    have room : c.unreadCount.toNat + 1 < 2 ^ 32 := by
      rw [show ({ c with unreadCount := c.unreadCount + 1 } : ConversationSummary).convId = k from
        here, now_missed, ← now] at up
      exact up ▸ (c.unreadCount + 1).toNat_lt
    have later : ∀ d ∈ back, d.convId ≠ k := by
      intro d member same
      have stale := after d (by simp [member])
      have before := shown d (by simp [list, member])
      rw [same, now_missed] at stale
      rw [same] at before
      omega
    refine ⟨?_, ?_⟩
    · have absent : back.filter (·.convId = k) = [] := by simpa using later
      rw [absent]
      exact le_rfl
    · intro d member same
      rcases List.mem_append.mp member with before | tail
      · exact absurd same (first d before)
      · rcases List.mem_cons.mp tail with rfl | behind
        · exact room
        · exact absurd same (later d behind)
  · rintro ⟨only, room⟩ d member
    have later : ∀ d ∈ back, d.convId ≠ k := by
      have absent : back.filter (·.convId = k) = [] := by
        apply List.length_eq_zero_iff.mp
        rw [List.length_cons] at only
        omega
      simpa using absent
    rcases List.mem_append.mp member with before | tail
    · rw [others (first d before)]
      exact shown d (by simp [list, before])
    · rcases List.mem_cons.mp tail with rfl | behind
      · have fits := room c (by simp) here
        rw [show ({ c with unreadCount := c.unreadCount + 1 } : ConversationSummary).convId = k from
          here, now_missed, ← now]
        exact (UInt32.toNat_add c.unreadCount 1).trans (Nat.mod_eq_of_lt fits)
      · rw [others (later d behind)]
        exact shown d (by simp [list, behind])

theorem arrived_counts {list : List ConversationSummary} (event : textFor m.event = none)
    (unopened : opened m = none) (arrived : listed m.after.toAppState = list) :
    CountsShown (m :: past) m.after ↔ ∀ c ∈ list, c.unreadCount.toNat = missed c.convId past := by
  have none_missed (k : UInt32) : ¬ Missed k m := fun misses => by cases event.symm.trans misses.1
  have same (k : UInt32) : missed k (m :: past) = missed k past := by
    rw [missed_of_unopened (by simp [unopened]), if_neg (none_missed k), Nat.add_zero]
  simp only [CountsShown, arrived, same]

inductive ListEffect (junk : Nat → UInt8) (app app' : AppState) : Packet → Prop
  | replaced {list : List ConversationSummary}
      (arrived : listed app' = arrivedConversations junk (.respConversations list)) :
      ListEffect junk app app' (.respConversations list)
  | nothing {list : List ConversationSummary}
      (nothing : arrivedConversations junk (.respConversations list) = [])
      (same : listed app' = listed app) : ListEffect junk app app' (.respConversations list)
  | counted {message : RoutedMessagePayload} {conversations : List ConversationSummary}
      (closed : ¬ (app.currentState = .chat ∧ app.currentConvId = message.convId))
      (counted : countUnread message.convId app.convCount.toNat (app.conversations.getD []) =
        .ok conversations)
      (after : listed app' = conversations.take app.convCount.toNat) :
      ListEffect junk app app' (.rteText message)
  | same {packet : Packet} (same : listed app' = listed app)
      (other : ∀ list, packet ≠ .respConversations list)
      (here : ∀ message, packet = .rteText message →
        app.currentState = .chat ∧ app.currentConvId = message.convId) :
      ListEffect junk app app' packet

theorem PacketEffect.screen {junk : Nat → UInt8} {packet : Packet} {app app' : AppState}
    (effect : PacketEffect allocates junk app packet app') :
    app'.currentState = app.currentState := by
  cases effect with
  | line here read appended =>
    obtain ⟨history, len, rfl⟩ := appAppendHistory_screen appended
    rfl
  | _ => rfl

theorem conversations_list {junk : Nat → UInt8} {list : List ConversationSummary}
    {app app' : AppState} {sent : List Request}
    (received : networkThreadOn allocates junk (.respConversations list) app = .ok (app', sent)) :
    ListEffect junk app app' (.respConversations list) := by
  unfold networkThreadOn networkThread at received
  rw [MessageType.ofCode_code] at received
  dsimp only [Packet.type] at received
  cases payload : deliver (Packet.payload junk (.respConversations list)) with
  | none =>
    rw [payload] at received
    cases received
    apply ListEffect.nothing
    · rw [arrivedConversations, payload]
    · rfl
  | some block =>
    rw [payload] at received
    cases received
    apply ListEffect.replaced
    rw [arrivedConversations, payload]
    dsimp only [listed, ownedArray, Option.getD_some]
    apply List.take_of_length_le
    rw [elements_length, Int.toNat_natCast]
    exact Nat.div_le_div_right (List.length_take_le _ _)

theorem networkThreadOn_list {junk : Nat → UInt8} {packet : Packet} {app app' : AppState}
    {sent : List Request} (received : networkThreadOn allocates junk packet app = .ok (app', sent)) :
    ListEffect junk app app' packet := by
  have effect := networkThreadOn_effect received
  cases effect with
  | skips skippable =>
    cases packet with
    | respConversations list => exact conversations_list received
    | rteText message => cases skippable
    | _ => exact .same rfl (fun _ other => by cases other) (fun _ other => by cases other)
  | conversations list array => exact conversations_list received
  | contacts | requests | members | history =>
    exact .same rfl (fun _ other => by cases other) (fun _ other => by cases other)
  | @line message line app' here read appended =>
    obtain ⟨history, len, rfl⟩ := appAppendHistory_screen appended
    exact .same rfl (fun _ other => by cases other) fun _ same => by cases same; exact here
  | @unread message conversations elsewhere counted =>
    apply ListEffect.counted elsewhere counted
    cases array : app.conversations with
    | none =>
      rw [array, Option.getD_none] at counted
      cases few : app.convCount.toNat with
      | zero => simp [listed]
      | succ n =>
        rw [few] at counted
        cases counted
    | some before => simp [listed]

theorem receive_counts {junk : Nat → UInt8} {packet : Packet} {app : AppState}
    {out sent : List Request}
    (received : networkThreadOn allocates junk packet s.toAppState = .ok (app, out))
    (shown : CountsShown past s) :
    CountsShown (⟨s, .receive junk packet, { s with toAppState := app }, sent⟩ :: past)
        { s with toAppState := app } ↔
      Countable past ⟨s, .receive junk packet, { s with toAppState := app }, sent⟩ := by
  have closed : opened (⟨s, .receive junk packet, { s with toAppState := app }, sent⟩ :
      ClientMoment) = none := unopened (not_opening (networkThreadOn_effect received).screen)
  cases networkThreadOn_list received with
  | replaced arrived => exact arrived_counts rfl closed arrived
  | nothing nothing same =>
    apply iff_of_true
    · exact quiet_counts same closed (fun k misses => by cases misses.1) shown
    · intro c member
      rw [nothing] at member
      cases member
  | @counted message conversations elsewhere counted after =>
    have premise : Countable past
          ⟨s, .receive junk (.rteText message), { s with toAppState := app }, sent⟩ ↔
        RoomToCount message.convId s := ⟨fun room => room elsewhere, fun room _ => room⟩
    rw [premise]
    rcases countUnread_cases counted with ⟨absent, rfl⟩ | ⟨front, c, back, split, first, here, up⟩
    · have absent : ∀ c ∈ listed s.toAppState, c.convId ≠ message.convId := absent
      apply iff_of_true
      · apply quiet_counts after closed _ shown
        rintro k ⟨text, ⟨c, member, same⟩, -⟩
        exact absent c member (same.trans (Option.some.inj text).symm)
      · have nothing : (listed s.toAppState).filter (·.convId = message.convId) = [] := by
          simpa using absent
        refine ⟨?_, fun c member same => absurd same (absent c member)⟩
        rw [nothing]
        exact Nat.zero_le 1
    · exact counted_counts rfl elsewhere closed split first here (after.trans up) shown
  | same same other here =>
    apply iff_of_true
    · apply quiet_counts same closed _ shown
      rintro k ⟨text, -, elsewhere⟩
      cases packet with
      | rteText message =>
        cases text
        exact elsewhere (here message rfl)
      | _ => cases text
    · cases packet with
      | respConversations list => exact absurd rfl (other list)
      | rteText message => exact fun elsewhere => absurd (here message rfl) elsewhere
      | _ => trivial

theorem render_list (s : MainState) : listed (render s).toAppState = listed s.toAppState ∧
    ((render s).currentState = .chat → s.currentState = .chat) := by
  obtain ⟨state, redraw, drawn, same | ⟨-, home⟩⟩ := render_screen s
  · rw [drawn, same]
    exact ⟨rfl, id⟩
  · rw [drawn, home]
    exact ⟨rfl, fun chat => by cases chat⟩

theorem clientStep_counts {e : ClientEvent} {sent : List Request}
    (stepped : clientStep allocates s e = some (t, sent)) (shown : CountsShown past s) :
    CountsShown (⟨s, e, t, sent⟩ :: past) t ↔ Countable past ⟨s, e, t, sent⟩ := by
  cases clientStep_effect stepped with
  | draws drawing =>
    obtain ⟨list, chat⟩ := render_list s
    apply iff_of_true
    · apply quiet_counts list (unopened _) (fun k misses => by cases misses.1) shown
      rintro ⟨home, opening⟩
      cases home.symm.trans (chat opening)
    · trivial
  | silent reading =>
    apply iff_of_true
    · exact quiet_counts rfl (unopened (not_opening rfl)) (fun k misses => by cases misses.1) shown
    · intro _ enter
      rcases enter with enter | enter <;> cases enter
  | pressed reading pressed => exact key_counts pressed shown
  | received received => exact receive_counts received shown

/-- The counts shown are the numbers of missed texts throughout a run exactly when each list
came with these numbers, and no text met an identifier twice or a count at its end. -/
theorem unread_counts_iff (run : Run (client allocates uid) past s) :
    Along (fun before m => CountsShown (m :: before) m.after) past ↔ Along Countable past := by
  apply run.along_iff (fun _ _ => True) CountsShown Countable _ _ _ trivial
  · rintro c ⟨⟩
  · exact fun _ _ _ _ _ _ _ => trivial
  · exact fun past s e t sent _ stepped _ shown => clientStep_counts stepped shown

instance (s : MainState) : Decidable (OthersRead s) :=
  inferInstanceAs (Decidable (∀ c ∈ _, ∀ d ∈ _, _))

instance (k : UInt32) (s : MainState) : Decidable (RoomToCount k s) :=
  inferInstanceAs (Decidable (_ ∧ ∀ c ∈ listed s.toAppState, _))

instance (past : List ClientMoment) : (m : ClientMoment) → Decidable (Countable past m)
  | ⟨_, .draw, _, _⟩ => .isTrue trivial
  | ⟨_, .key _ _, _, _⟩ => inferInstanceAs (Decidable (_ → _ → OthersRead _))
  | ⟨_, .receive junk packet, _, _⟩ =>
    match packet with
    | .respConversations list =>
      inferInstanceAs (Decidable (∀ c ∈ arrivedConversations junk (.respConversations list), _))
    | .rteText message => inferInstanceAs (Decidable (_ → RoomToCount message.convId _))
    | .registerSuccess | .registerFail | .loginSuccess _ | .loginFail | .updateSuccess
    | .respContacts _ | .addReqSent | .addFail | .respRequests _ | .convCreated _ | .memberAdded
    | .respMembers _ | .respHistory _ => .isTrue trivial

def routedTo (convId : UInt32) : RoutedMessagePayload :=
  ⟨convId, 3, List.Vector.replicate maxNameLen 0, List.Vector.replicate maxTextLen 0⟩

def textMissed : List ClientEvent :=
  [.receive (fun _ => 0) (.respConversations [listedGroup 1, listedGroup 2]),
    .receive (fun _ => 0) (.rteText (routedTo 2)), .draw]

def textRead : List ClientEvent :=
  textMissed ++ [.key keyDown unprompted, .draw, .key 10 unprompted, .draw, .key keyEsc unprompted,
    .receive (fun _ => 0) (.respConversations [listedGroup 1, listedGroup 2])]

theorem textRead_completes :
    (recordedClient.trace [] recordedClient.start textRead).isSome := by decide +kernel

section
-- the run is not to be unfolded where its past is only named
attribute [local irreducible] Along

theorem unread_counts_iff_read :
    Along (fun before m => CountsShown (m :: before) m.after)
      (recordedClient.history textRead textRead_completes).1 := by
  have run : Run recordedClient _ _ := .history textRead textRead_completes
  exact (unread_counts_iff run).mpr (by decide +kernel)

end

def textForgotten : List ClientEvent :=
  textMissed ++ [.key 10 unprompted, .draw, .key keyEsc unprompted,
    .receive (fun _ => 0) (.respConversations [listedGroup 1, listedGroup 2])]

theorem textForgotten_completes :
    (recordedClient.trace [] recordedClient.start textForgotten).isSome := by decide +kernel

theorem list_forgets_counts :
    ¬ ∀ (allocates : Nat → Bool) (uid : UInt32) (past : List ClientMoment) (s : MainState),
      Run (client allocates uid) past s → CountsShown past s := by
  intro claimed
  have shown := claimed _ _ _ _ (.history textForgotten textForgotten_completes)
  have zero : ((listed (recordedClient.history textForgotten
      textForgotten_completes).2.toAppState)[1]?).map (fun c => (c.convId, c.unreadCount)) =
        some (2, 0) := by decide +kernel
  have one : missed 2 (recordedClient.history textForgotten textForgotten_completes).1 = 1 := by
    decide +kernel
  obtain ⟨c, here, same⟩ := Option.map_eq_some_iff.mp zero
  obtain ⟨second, none_shown⟩ := Prod.mk.inj same
  have count := shown c (List.mem_of_getElem? here)
  rw [second, none_shown, one] at count
  cases count

end MoT
