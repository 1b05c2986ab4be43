import MoT.ChatView

/-! The memory behind the open chat: a block, and a length that is kept beside it. A history
brings its length from the packet, a first line is copied, and a later one is written where the
string ends, into a block of the kept length. -/
namespace MoT
open CMemory Transition

variable {allocates : Nat → Bool} {app app' : AppState} {shown : CString} {ch : Int}
  {prompts : Prompts} {s t : MainState}

/-- A history that `recv_packet` gave, whatever the peer sent, with no NUL inside. -/
structure HistoryPacket (allocates : Nat → Bool) where
  received : Received
  history : received.type = MessageType.respHistory.code
  plain : ∀ block ∈ received.payload, some 0 ∉ block.take received.payloadLen.toNat
  arrived : ∃ R c c', Reader.Bounded R ∧ recvPacket (some R) allocates c = (.ok received, c')

def HistoryPacket.text (p : HistoryPacket allocates) : CString :=
  CString.cut (fill (fun _ => 0) (p.received.payload.getD []))

def clearHistory (app : AppState) : AppState :=
  { app with chatHistory := none, chatHistoryLen := 0 }

inductive BufferOp (allocates : Nat → Bool) where
  | response (p : HistoryPacket allocates) (junk : Nat → UInt8)
  | openChat
  | append (text : CString)

def bufferStep (allocates : Nat → Bool) (app : AppState) : BufferOp allocates → Except Fault AppState
  | .response p junk =>
    (networkThread allocates p.received.type (p.received.payload.map (fill junk))
      p.received.payloadLen app).map Prod.fst
  | .openChat => .ok (clearHistory app)
  | .append text => appAppendHistory allocates text app

/-- The buffer under any sequence of the operations; one that faults is no step. -/
def chatBuffer (allocates : Nat → Bool) : System AppState (BufferOp allocates) Unit :=
  ⟨appInit, fun app op => (bufferStep allocates app op).toOption.map fun app => (app, ())⟩

abbrev BufferMoment (allocates : Nat → Bool) := Moment AppState (BufferOp allocates) Unit

/-- The last text that took the place of the others, and the texts appended since. A response
without a payload takes no place. -/
def contents : List (BufferMoment allocates) → CString × List CString
  | [] => (CString.empty, [])
  | m :: past =>
    match m.event with
    | .response p _ => if p.received.payload = none then contents past else (p.text, [])
    | .openChat => (CString.empty, [])
    | .append text => ((contents past).1, (contents past).2 ++ [text])

def bufferText (past : List (BufferMoment allocates)) : CString :=
  (contents past).1 ++ CString.concat (contents past).2

/-- The buffer has this string, the length beside it is right, and the block has room for the
string and its end. -/
structure Holds (app : AppState) (text : CString) : Prop where
  string : historyString app = some text.bytes
  length : app.chatHistoryLen = text.length
  room : ∀ block ∈ app.chatHistory, app.chatHistoryLen + 1 ≤ block.length

theorem Holds.cleared (app : AppState) : Holds (clearHistory app) CString.empty where
  string := rfl
  length := rfl
  room := by
    rintro block ⟨⟩

theorem Holds.same (holds : Holds app shown) (history : app'.chatHistory = app.chatHistory)
    (length : app'.chatHistoryLen = app.chatHistoryLen) : Holds app' shown where
  string := by
    rw [historyString, history]
    exact holds.string
  length := length.trans holds.length
  room := by
    rw [history, length]
    exact holds.room

theorem Holds.replaced (history : app.chatHistory = some ((shown.bytes ++ [0]).map some))
    (length : app.chatHistoryLen = shown.length) : Holds app shown where
  string := by
    have ends : (0 : UInt8) ∈ shown.bytes ++ [0] := by simp
    have string := readString_map ends
    rw [CString.cut_append_nul] at string
    rw [historyString, history]
    exact string
  length := length
  room := by
    intro block here
    cases history.symm.trans here
    rw [length, List.length_map, List.length_append]
    exact Nat.le_refl _

/- The string is where the kept length says, so the new block has room behind it. -/
theorem Holds.appended (memory : ∀ n, allocates n = true) (holds : Holds app shown)
    (line : CString) : ∃ app', appAppendHistory allocates line app = .ok app' ∧
      Holds app' (shown ++ line) := by
  cases buffer : app.chatHistory with
  | none =>
    have empty : shown.bytes = [] := by
      have string := holds.string
      rw [historyString, buffer] at string
      exact (Option.some.inj string).symm
    have alone : shown ++ line = line := by
      apply CString.ext
      rw [CString.append_bytes, empty, List.nil_append]
    refine ⟨_, by rw [appAppendHistory, buffer], ?_⟩
    rw [alone]
    exact .replaced (by simp [memory]) rfl
  | some block =>
    have old : CMemory.readString block = some shown.bytes := by
      have string := holds.string
      rwa [historyString, buffer] at string
    have total : shown.bytes.length + line.length + 1 ≤ app.chatHistoryLen + line.length + 1 := by
      rw [holds.length]
      exact Nat.le_refl _
    obtain ⟨grown, joined⟩ := strcat_fits old total
    have size := strcat_length joined
    rw [realloc_length] at size
    refine ⟨{ app with chatHistory := some grown, chatHistoryLen := app.chatHistoryLen + line.length },
      ?_, ?_, ?_, ?_⟩
    · simp only [appAppendHistory, buffer, memory, if_true, joined]
    · rw [historyString]
      exact strcat_string old joined
    · rw [CString.length_append, holds.length]
    · rintro block ⟨⟩
      exact Nat.le_of_eq size.symm

theorem HistoryPacket.payload_eq (p : HistoryPacket allocates) {block : List Cell}
    (here : p.received.payload = some block) :
    block = (p.text.bytes ++ [0]).map some ∧ p.received.payloadLen.toNat = p.text.length := by
  obtain ⟨R, c, c', bounded, arrived⟩ := p.arrived
  obtain ⟨header, bytes, -, -, size, whole⟩ : Contained c (.ok p.received, c') := by
    rcases recvPacket_cases bounded allocates c with ⟨status, -, c', ended⟩ |
      ⟨header, type, payloadLen, c', size, read, received⟩
    · cases arrived.symm.trans ended
    · rw [← arrived, received]
      exact recvPayload_contained bounded allocates type payloadLen size read
  obtain ⟨-, -, filled⟩ := whole block here
  have noNul : 0 ∉ bytes := by
    have plain := p.plain block here
    rw [filled, ← size, List.take_left' (List.length_map _)] at plain
    simpa using plain
  have text : p.text = ⟨bytes, noNul⟩ := by
    have read : fill (fun _ => 0) (p.received.payload.getD []) = bytes ++ 0 :: [] := by
      have joined : block = (bytes ++ [0]).map some := by
        rw [filled, List.map_append]
        rfl
      rw [here, Option.getD_some, joined, fill_written]
    rw [HistoryPacket.text, read]
    exact CString.cut_append_nul ⟨bytes, noNul⟩ []
  constructor
  · rw [filled, text, List.map_append]
    rfl
  · rw [← size, text]
    rfl

theorem Holds.responded (holds : Holds app shown) (p : HistoryPacket allocates) (junk : Nat → UInt8) :
    ∃ app', bufferStep allocates app (.response p junk) = .ok app' ∧
      Holds app' (if p.received.payload = none then shown else p.text) := by
  rw [bufferStep]
  unfold networkThread
  rw [p.history, MessageType.ofCode_code]
  cases payload : p.received.payload with
  | none =>
    refine ⟨app, rfl, ?_⟩
    rw [if_pos rfl]
    exact holds
  | some block =>
    obtain ⟨whole, length⟩ := p.payload_eq payload
    refine ⟨_, rfl, ?_⟩
    rw [if_neg (Option.some_ne_none block)]
    apply Holds.replaced
    · rw [whole, fill_written]
    · exact length

theorem bufferText_append (past : List (BufferMoment allocates)) (before after : AppState)
    (text : CString) :
    bufferText (⟨before, .append text, after, ()⟩ :: past) = bufferText past ++ text := by
  apply CString.ext
  simp only [bufferText, contents, CString.append_bytes, CString.concat_snoc, List.append_assoc]

theorem bufferText_response (past : List (BufferMoment allocates)) (before after : AppState)
    (p : HistoryPacket allocates) (junk : Nat → UInt8) :
    bufferText (⟨before, .response p junk, after, ()⟩ :: past) =
      if p.received.payload = none then bufferText past else p.text := by
  by_cases absent : p.received.payload = none
  · simp only [bufferText, contents, if_pos absent]
  · apply CString.ext
    simp [bufferText, contents, if_neg absent]

/-- Each operation goes through, and leaves the right string, length and room. -/
theorem bufferStep_holds (memory : ∀ n, allocates n = true) {past : List (BufferMoment allocates)}
    (holds : Holds app (bufferText past)) (op : BufferOp allocates) :
    ∃ app', bufferStep allocates app op = .ok app' ∧
      Holds app' (bufferText (⟨app, op, app', ()⟩ :: past)) := by
  cases op with
  | response p junk =>
    obtain ⟨app', done, after⟩ := holds.responded p junk
    refine ⟨app', done, ?_⟩
    rw [bufferText_response]
    exact after
  | openChat => exact ⟨clearHistory app, rfl, .cleared app⟩
  | append text =>
    obtain ⟨app', done, after⟩ := holds.appended memory text
    refine ⟨app', done, ?_⟩
    rw [bufferText_append]
    exact after

theorem run_holds (memory : ∀ n, allocates n = true) {past : List (BufferMoment allocates)}
    (run : Run (chatBuffer allocates) past app) : Holds app (bufferText past) := by
  induction run with
  | start =>
    refine ⟨rfl, rfl, ?_⟩
    rintro block ⟨⟩
  | @step past s t op o before stepped ih =>
    obtain ⟨app', done, after⟩ := bufferStep_holds memory ih op
    simp only [chatBuffer, done] at stepped
    cases stepped
    exact after

/-- The string is the last replacement with what was appended since, its length is kept right,
0 for NULL, and the block has room for it; whatever is appended next, `strcat` stays in its
block. -/
structure BufferSound (allocates : Nat → Bool) (past : List (BufferMoment allocates))
    (app : AppState) : Prop extends Holds app (bufferText past) where
  null : app.chatHistory = none → app.chatHistoryLen = 0
  appends : ∀ text, ∃ app', appAppendHistory allocates text app = .ok app'

theorem chat_buffer_sound (allocates : Nat → Bool) (memory : ∀ n, allocates n = true)
    (past : List (BufferMoment allocates)) (app : AppState)
    (run : Run (chatBuffer allocates) past app) : BufferSound allocates past app := by
  have holds := run_holds memory run
  refine { holds with null := ?_, appends := ?_ }
  · intro null
    have string := holds.string
    rw [historyString, null] at string
    rw [holds.length, CString.length, ← Option.some.inj string]
    rfl
  · intro text
    obtain ⟨app', done, -⟩ := holds.appended memory text
    exact ⟨app', done⟩

def oneLine : Outgoing :=
  ⟨MessageType.respHistory.code, some (CString.lit "[00:00] bob: hi\n").bytes,
    (CString.lit "[00:00] bob: hi\n").bytes, by decide, rfl⟩

theorem oneLine_arrives : ∃ R c c', Reader.Bounded R ∧
    recvPacket (some R) (fun _ => true) c = (.ok oneLine.received, c') := by
  let R : Reader := fun _ num ahead => if num ≤ 0 then -1 else min num (min 3 ahead)
  have lawful : R.Lawful := by
    intro i num ahead positive
    dsimp only [R]
    rw [if_neg (by omega)]
    omega
  have bounded : R.Bounded := by
    intro i num ahead
    dsimp only [R]
    split <;> omega
  obtain ⟨calls, whole⟩ := recvPacket_whole lawful (fun _ => rfl) oneLine [] 0
  exact ⟨R, _, _, bounded, whole⟩

def oneLinePacket : HistoryPacket (fun _ => true) where
  received := oneLine.received
  history := rfl
  plain := by decide
  arrived := oneLine_arrives

theorem chat_buffer_sound_line : ∃ past app, BufferSound (fun _ => true) past app ∧
    contents past = (CString.lit "[00:00] bob: hi\n", [CString.lit "Me: yo\n"]) ∧
    app.chatHistoryLen = 23 := by
  have opened := (Run.start (S := chatBuffer fun _ => true)).step (e := .openChat) rfl
  have replied := opened.step (e := .response oneLinePacket fun _ => 0) rfl
  have written := replied.step (e := .append (CString.lit "Me: yo\n")) rfl
  exact ⟨_, _, chat_buffer_sound _ (fun _ => rfl) _ _ written, rfl, rfl⟩

/-- The buffer holds what it should, whatever that is. -/
abbrev Intact (app : AppState) : Prop := ∃ shown, Holds app shown

theorem Intact.same (intact : Intact app) (history : app'.chatHistory = app.chatHistory)
    (length : app'.chatHistoryLen = app.chatHistoryLen) : Intact app' := by
  obtain ⟨shown, holds⟩ := intact
  exact ⟨shown, holds.same history length⟩

theorem Intact.append (memory : ∀ n, allocates n = true) (intact : Intact app) (line : CString) :
    ∃ app', appAppendHistory allocates line app = .ok app' ∧ Intact app' := by
  obtain ⟨shown, holds⟩ := intact
  obtain ⟨app', done, after⟩ := holds.appended memory line
  exact ⟨app', done, _, after⟩

theorem Intact.edited (intact : Intact s.toAppState) (edited : Edited s t) : Intact t.toAppState := by
  obtain ⟨input, idx, members, name, desc, rfl⟩ := edited
  exact intact

theorem appRemoveRequest_intact (index : Int) (intact : Intact s.toAppState) :
    Intact (appRemoveRequest index s).toAppState := by
  obtain ⟨requests, count, removed⟩ := appRemoveRequest_requests index s
  rw [removed]
  exact intact.same rfl rfl

theorem openSelected_intact (intact : Intact s.toAppState) :
    Ensures (fun turn => Intact turn.state.toAppState) (openSelected s) := by
  have cleared : Intact (clearHistory s.toAppState) := ⟨_, .cleared s.toAppState⟩
  apply ensures_openSelected
  · exact intact
  · exact fun c conversations => cleared.same rfl rfl

theorem sendInput_holds (memory : ∀ n, allocates n = true) (holds : Holds s.toAppState shown)
    (typed : 0 < s.chatInputBuffer.length) : ∃ turn, sendInput allocates s = .ok turn ∧
      Holds turn.state.toAppState (shown ++ myLine s.chatInputBuffer) := by
  obtain ⟨app, done, after⟩ := holds.appended memory (myLine s.chatInputBuffer)
  rw [myLine] at done
  rw [sendInput, if_pos typed]
  dsimp only
  rw [done]
  exact ⟨_, rfl, after⟩

theorem sendInput_intact (memory : ∀ n, allocates n = true) (intact : Intact s.toAppState) :
    ∃ turn, sendInput allocates s = .ok turn ∧ Intact turn.state.toAppState := by
  obtain ⟨shown, holds⟩ := intact
  by_cases typed : 0 < s.chatInputBuffer.length
  · obtain ⟨turn, sent, after⟩ := sendInput_holds memory holds typed
    exact ⟨turn, sent, _, after⟩
  · rw [sendInput, if_neg typed]
    exact ⟨_, rfl, shown, holds⟩

theorem KeyEffect.intact {r : KeyOutcome} (memory : ∀ n, allocates n = true)
    (intact : Intact s.toAppState) (effect : KeyEffect allocates ch s r) :
    Ensures (fun turn => Intact turn.state.toAppState) r := by
  cases effect with
  | opens home => exact openSelected_intact intact
  | sends chat enter =>
    obtain ⟨turn, sent, after⟩ := sendInput_intact memory intact
    rw [sent]
    exact ensures_ok after
  | edits edited sent quit => exact ensures_ok (intact.edited edited)
  | @goes state t way edited sent =>
    have gone : Intact { s with currentState := state }.toAppState := intact.same rfl rfl
    exact ensures_ok (gone.edited edited)
  | resets | downHome | downFriends | up | memberDown | memberUp | manages =>
    exact ensures_ok (intact.same rfl rfl)
  | toggles form =>
    rw [toggleMember]
    split
    · exact ensures_ok intact
    · rintro turn ⟨⟩
  | submits form =>
    apply ensures_bind
    intro uids
    split
    · exact ensures_ok intact
    · exact ensures_ok (intact.same rfl rfl)
  | chats friends enter => exact ensures_chatWithSelected intact fun _ => intact.same rfl rfl
  | decides requests accept =>
    exact ensures_decideSelected intact fun _ => appRemoveRequest_intact s.selection intact
  | kicks manage => exact ensures_kickSelected intact fun _ => intact

def PlainHistory : Packet → Prop
  | .respHistory bytes => 0 ∉ bytes ∧ bytes.length < 2 ^ 32
  | _ => True

theorem PacketEffect.intact {junk : Nat → UInt8} {packet : Packet} (memory : ∀ n, allocates n = true)
    (intact : Intact app) (plain : PlainHistory packet)
    (effect : PacketEffect allocates junk app packet app') : Intact app' := by
  cases effect with
  | skips | conversations | contacts | requests | members | unread => exact intact.same rfl rfl
  | @history bytes nonempty =>
    obtain ⟨noNul, short⟩ := plain
    have length : (UInt32.ofNat bytes.length).toNat = bytes.length := UInt32.toNat_ofNat_of_lt' short
    exact ⟨⟨bytes, noNul⟩, .replaced rfl length⟩
  | line here read appended =>
    obtain ⟨grown, done, after⟩ := intact.append memory _
    cases appended.symm.trans done
    exact after.same rfl rfl

def PlainHistories : ClientEvent → Prop
  | .receive _ packet => PlainHistory packet
  | .draw | .key _ _ => True

theorem clientStep_intact {e : ClientEvent} {sent : List Request} (memory : ∀ n, allocates n = true)
    (intact : Intact s.toAppState) (plain : PlainHistories e)
    (stepped : clientStep allocates s e = some (t, sent)) : Intact t.toAppState := by
  cases clientStep_effect stepped with
  | draws drawing =>
    obtain ⟨state, redraw, drawn, -⟩ := render_screen s
    rw [drawn]
    exact intact.same rfl rfl
  | silent reading => exact intact
  | @pressed ch prompts turn reading pressed =>
    have redrawn : Intact { s with needsRedraw := true }.toAppState := intact.same rfl rfl
    exact (handleKey_effect allocates ch prompts _).intact memory redrawn turn pressed
  | received received => exact (networkThreadOn_effect received).intact memory intact plain

/-- However the user and the server go on, the buffer of a client stays intact. -/
theorem client_intact (memory : ∀ n, allocates n = true) {uid : UInt32}
    {past : List (Moment MainState ClientEvent (List Request))}
    (run : Run (client allocates uid) past s) (plain : ∀ m ∈ past, PlainHistories m.event) :
    Intact s.toAppState := by
  induction run with
  | start =>
    refine ⟨CString.empty, rfl, rfl, ?_⟩
    rintro block ⟨⟩
  | step before stepped ih =>
    have earlier := ih fun m member => plain m (List.mem_cons_of_mem _ member)
    exact clientStep_intact memory earlier (plain _ List.mem_cons_self) stepped

end MoT
