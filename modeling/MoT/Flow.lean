import MoT.ChatBuffer
import MoT.Served

/-! What is on its way between a client and the server can be handled at its other end, however
the two have come to where they are. -/
namespace MoT
open CMemory Relational Transition

variable {P : Platform} {key : Key} {allocates : Nat → Bool} {junk : Nat → UInt8} {k : UInt32}
  {s t : MainState} {app app' : AppState} {l l' : Link} {fd : Int} {ch : Int}

theorem ok_of_toOption {α : Type} {x : Except Fault α} {a : α} (read : x.toOption = some a) :
    x = .ok a := by
  cases x with
  | error fault => cases read
  | ok b => exact congrArg Except.ok (Option.some.inj read)

theorem chronicle_short {past : List ServerMoment} (short : ShortPayloads past) :
    ∀ u ∈ chronicle past, u.text.length < 2 ^ 29 := by
  induction past with
  | nil =>
    intro u member
    cases member
  | cons m past ih =>
    intro u member
    rcases List.mem_append.mp member with old | new
    · exact ih (fun n member => short n (List.mem_cons_of_mem m member)) u (List.mem_of_mem_filter old)
    · have heard := Option.mem_toList.mp new
      have small := short m List.mem_cons_self
      unfold uttered at heard
      cases event : m.event with
      | connect fd | disconnect fd =>
        rw [event] at heard
        cases heard
      | packet fd code bytes env =>
        rw [event] at heard small
        obtain ⟨-, said⟩ := Option.ite_none_right_eq_some.mp heard
        obtain ⟨cli, -, said⟩ := Option.bind_eq_some_iff.mp said
        obtain ⟨k, -, said⟩ := Option.bind_eq_some_iff.mp said
        obtain ⟨text, readText, said⟩ := Option.bind_eq_some_iff.mp said
        cases said
        exact lt_of_le_of_lt (read_within (ok_of_toOption readText)) small

theorem Utterance.line_length (u : Utterance) (sender : Entry UserRow) :
    (u.line P sender).length ≤ u.text.length + 64 := by
  have header : (lineHeader P (⟨0, bindInt u.convId, bindInt u.sender, u.text, u.timestamp⟩,
      sender)).length ≤ 63 := by
    rw [lineHeader]
    exact List.length_take_le 63 _
  rw [Utterance.line, CString.length_append, CString.length_append]
  have newline : (CString.lit "\n").length = 1 := by decide
  omega

theorem answers_plain {db : Database} {said : List Utterance} {answer : List UInt8}
    (short : ∀ u ∈ said, u.text.length < 2 ^ 29) (answers : AnswersFrom P db said k answer) :
    PlainHistory (.respHistory answer) := by
  rcases answers with ⟨rfl, -⟩ | ⟨u, sender, told, rfl, -⟩
  · exact ⟨List.not_mem_nil, by decide⟩
  · have small := short u told.1
    have length := u.line_length (P := P) sender
    refine ⟨(u.line P sender).noNul, ?_⟩
    have same : (u.line P sender).bytes.length = (u.line P sender).length := rfl
    omega

theorem step_plain (cbc : PaddedCbc P) {past : List ServerMoment}
    {s₀ s₁ : Server} (run : Run (server P key) past s₀) (short : ShortPayloads past) {e : Event}
    {out : List Sent} (stepped : serverStep P s₀ e = some (s₁, out)) :
    ∀ m ∈ out, PlainHistory m.packet := by
  rintro ⟨target, packet⟩ sent
  cases packet with
  | respHistory answer =>
    obtain ⟨-, code, bytes, env, k, hist, -, -, built, string⟩ := step_history stepped sent
    rw [reachable_masterKey run.reachable] at built
    have answers := storageGetHistory_answers (run_chronicle cbc run short) built string
    exact answers_plain (chronicle_short short) answers
  | _ => trivial

def Counted (app : AppState) : Prop := app.convCount.toNat ≤ (app.conversations.getD []).length

theorem countUnread_runs {n : Nat} {conversations : List ConversationSummary}
    (enough : n ≤ conversations.length) : ∃ counted,
      countUnread k n conversations = .ok counted ∧ counted.length = conversations.length := by
  induction n generalizing conversations with
  | zero => exact ⟨conversations, rfl, rfl⟩
  | succ n ih =>
    cases conversations with
    | nil => cases enough
    | cons c rest =>
      obtain ⟨counted, done, length⟩ := ih (Nat.le_of_succ_le_succ enough)
      rw [countUnread]
      split
      · exact ⟨_, rfl, rfl⟩
      · rw [done]
        exact ⟨c :: counted, rfl, by rw [List.length_cons, List.length_cons, length]⟩

theorem routedText_runs (memory : ∀ n, allocates n = true) (intact : Intact app)
    (counted : Counted app) (message : RoutedMessagePayload) : ∃ app',
      routedText allocates (deliver message.bytes) app = .ok app' ∧ Counted app' := by
  have size : message.bytes.length = RoutedMessagePayload.textAt + maxTextLen := by
    simp only [RoutedMessagePayload.bytes, List.length_append, littleEndianBytes_length,
      List.Vector.toList_length]
    rfl
  have nonempty : message.bytes ≠ [] := List.ne_nil_of_length_pos (by rw [size]; decide)
  obtain ⟨username, readUsername⟩ : ∃ username, readString (deliver message.bytes)
      RoutedMessagePayload.senderUsernameAt = .ok username :=
    readString_ok nonempty (by rw [size]; decide)
  obtain ⟨text, readText⟩ : ∃ text, readString (deliver message.bytes)
      RoutedMessagePayload.textAt = .ok text :=
    readString_ok nonempty (by rw [size]; decide)
  simp only [routedText, routed_convId, bind, Except.bind]
  split
  · simp only [readUsername, readText]
    obtain ⟨grown, appended, -⟩ := intact.append memory
      ((CString.lit "[" ++ username ++ CString.lit "]: " ++ text ++ CString.lit "\n").truncate 1199)
    obtain ⟨history, len, rfl⟩ := appAppendHistory_screen appended
    rw [appended]
    exact ⟨_, rfl, counted⟩
  · obtain ⟨conversations, done, length⟩ := countUnread_runs (k := message.convId) counted
    rw [done]
    refine ⟨_, rfl, ?_⟩
    rw [Counted] at counted ⊢
    cases list : app.conversations with
    | none =>
      rw [list] at counted
      exact counted
    | some old =>
      rw [list] at counted length
      exact counted.trans (Nat.le_of_eq length.symm)

/- What the thread asks the server for. -/
def refetches : Packet → List Request
  | .convCreated _ => [serviceReqConversations]
  | _ => []

theorem toNat_ofNat_le (n : Nat) : (UInt32.ofNat n).toNat ≤ n := by
  rw [UInt32.toNat_ofNat']
  exact Nat.mod_le n _

theorem deliver_length {bytes block : List UInt8} (whole : deliver bytes = some block) :
    block.length = bytes.length + 1 := by
  rw [deliver] at whole
  split at whole
  · cases whole
  · cases whole
    rw [List.length_append, List.length_singleton]

/- Whatever the packet, and whatever stands in the padding of its structures. -/
theorem networkThreadOn_runs (memory : ∀ n, allocates n = true) (intact : Intact app)
    (counted : Counted app) (junk : Nat → UInt8) (packet : Packet) : ∃ app',
      networkThreadOn allocates junk packet app = .ok (app', refetches packet) ∧ Counted app' := by
  unfold networkThreadOn networkThread
  rw [MessageType.ofCode_code]
  cases packet with
  | respConversations list =>
    dsimp only [Packet.type]
    split
    · rename_i block whole
      refine ⟨_, rfl, ?_⟩
      have size := deliver_length whole
      have fits := toNat_ofNat_le (Packet.payload junk (.respConversations list)).length
      rw [Counted, ownedArray, Option.getD_some, elements_length, Int.toNat_natCast,
        List.length_take, Nat.min_eq_left (by omega)]
    · exact ⟨_, rfl, counted⟩
  | respContacts | respRequests | respMembers | respHistory =>
    dsimp only [Packet.type]
    split
    · exact ⟨_, rfl, counted⟩
    · exact ⟨_, rfl, counted⟩
  | rteText message =>
    dsimp only [Packet.type, Packet.payload, Packet.cells]
    rw [fill_written]
    obtain ⟨app', done, after⟩ := routedText_runs memory intact counted message
    rw [done]
    exact ⟨app', rfl, after⟩
  | _ => exact ⟨_, rfl, counted⟩

theorem KeyEffect.counted {r : KeyOutcome} (counted : Counted s.toAppState)
    (effect : KeyEffect allocates ch s r) :
    Ensures (fun turn => Counted turn.state.toAppState) r := by
  cases effect with
  | opens home =>
    rw [openSelected]
    split
    · rename_i conversations list
      split
      · apply ensures_bind
        intro c
        refine ensures_ok ?_
        rw [Counted, list] at counted
        rw [Counted]
        dsimp only
        rw [Option.getD_some, List.length_modify]
        exact counted
      · exact ensures_ok counted
    · exact ensures_ok counted
  | sends chat enter =>
    rw [sendInput]
    split
    · intro turn sent
      obtain ⟨grown, appended, sent⟩ := ok_bind_iff.mp sent
      obtain ⟨history, len, rfl⟩ := appAppendHistory_screen appended
      cases sent
      exact counted
    · exact ensures_ok counted
  | edits edited sent quit =>
    obtain ⟨input, idx, members, name, desc, rfl⟩ := edited
    exact ensures_ok counted
  | goes way edited sent =>
    obtain ⟨input, idx, members, name, desc, rfl⟩ := edited
    exact ensures_ok counted
  | resets | downHome | downFriends | up | memberDown | memberUp | manages => exact ensures_ok counted
  | toggles form =>
    rw [toggleMember]
    split
    · exact ensures_ok counted
    · rintro turn ⟨⟩
  | submits form =>
    apply ensures_bind
    intro uids
    split
    · exact ensures_ok counted
    · exact ensures_ok counted
  | chats friends enter => exact ensures_chatWithSelected counted fun _ => counted
  | decides requests accept =>
    refine ensures_decideSelected counted fun r => ?_
    obtain ⟨requests, count, removed⟩ := appRemoveRequest_requests s.selection s
    rw [removed]
    exact counted
  | kicks manage => exact ensures_kickSelected counted fun _ => counted

theorem clientStep_counted {e : ClientEvent} {sent : List Request}
    (memory : ∀ n, allocates n = true) (intact : Intact s.toAppState)
    (counted : Counted s.toAppState)
    (stepped : clientStep allocates s e = some (t, sent)) : Counted t.toAppState := by
  cases clientStep_effect stepped with
  | draws drawing =>
    obtain ⟨state, redraw, drawn, -⟩ := render_screen s
    rw [drawn]
    exact counted
  | silent reading => exact counted
  | @pressed ch prompts turn reading pressed =>
    have redrawn : Counted { s with needsRedraw := true }.toAppState := counted
    exact (handleKey_effect allocates ch prompts _).counted redrawn turn pressed
  | @received junk packet app sent received =>
    obtain ⟨app', done, after⟩ := networkThreadOn_runs memory intact counted junk packet
    cases received.symm.trans done
    exact after

/-- What is on its way can be handled, and the client's buffers are in order. -/
structure Flowing (P : Platform) (key : Key) (l : Link) : Prop where
  served : ∃ past, Run (server P key) past l.server ∧ ShortPayloads past
  asked : ∀ r ∈ l.toServer, Service (fun _ => True) (fun _ _ => True) r
  plain : ∀ m ∈ l.toClient, PlainHistory m.packet
  intact : Intact l.client.toAppState
  counted : Counted l.client.toAppState

theorem requestSize_short (type : MessageType) : requestSize type < 2 ^ 29 := by
  cases type <;> decide

theorem Flowing.short (flowing : Flowing P key l) {r : Request} (member : r ∈ l.toServer)
    (fd : Int) (env : Env) : (payloadBytes (r.event fd env)).length < 2 ^ 29 :=
  lt_of_eq_of_lt (flowing.asked r member).whole.size (requestSize_short r.1)

theorem Flowing.handled (cbc : PaddedCbc P) (flowing : Flowing P key l) {e : Event}
    {s₁ : Server} {out : List Sent} (small : (payloadBytes e).length < 2 ^ 29)
    (handled : serverStep P l.server e = some (s₁, out)) (about : UInt32) :
    (∃ past, Run (server P key) past s₁ ∧ ShortPayloads past) ∧
      ∀ m ∈ l.toClient ++ inbox fd about out, PlainHistory m.packet := by
  obtain ⟨past, run, short⟩ := flowing.served
  refine ⟨⟨_, run.step handled, List.forall_mem_cons.mpr ⟨small, short⟩⟩, fun m member => ?_⟩
  rcases List.mem_append.mp member with old | new
  · exact flowing.plain m old
  · exact step_plain cbc run short handled _ (mem_inbox new).2

theorem Flowing.moved (memory : ∀ n, allocates n = true) (flowing : Flowing P key l)
    {e : ClientEvent} {client : MainState} {sent : List Request}
    (stepped : clientStep allocates l.client e = some (client, sent)) (plain : PlainHistories e)
    {toClient : List Incoming} (fewer : ∀ m ∈ toClient, m ∈ l.toClient) :
    Flowing P key { l with
      client := client, toClient := toClient, toServer := l.toServer ++ sent } where
  served := flowing.served
  asked := by
    intro r member
    rcases List.mem_append.mp member with old | new
    · exact flowing.asked r old
    · exact (clientStep_asks stepped r new).mono (fun _ _ => trivial) fun _ _ _ => trivial
  plain := fun m member => flowing.plain m (fewer m member)
  intact := clientStep_intact memory flowing.intact plain stepped
  counted := clientStep_counted memory flowing.intact flowing.counted stepped

def ShortOthers : LinkEvent → Prop
  | .other e => (payloadBytes e).length < 2 ^ 29
  | .draw | .key _ _ | .receive _ | .serve _ => True

theorem LinkEffect.flowing (cbc : PaddedCbc P) (memory : ∀ n, allocates n = true) {e : LinkEvent}
    (short : ShortOthers e) (flowing : Flowing P key l)
    (effect : LinkEffect P allocates fd l e l') : Flowing P key l' := by
  cases effect with
  | draw drawn => exact flowing.moved memory drawn trivial fun _ member => member
  | key pressed => exact flowing.moved memory pressed trivial fun _ member => member
  | receive queue received =>
    have plain := flowing.plain _ (queue ▸ List.mem_cons_self)
    exact flowing.moved memory received plain fun m member => queue ▸ List.mem_cons_of_mem _ member
  | @serve env r rest s₁ out queue handled =>
    have small := flowing.short (queue ▸ List.mem_cons_self) fd env
    obtain ⟨served, plain⟩ := flowing.handled cbc small handled (askedAbout r)
    exact ⟨served, fun r' member => flowing.asked r' (queue ▸ List.mem_cons_of_mem r member), plain,
      flowing.intact, flowing.counted⟩
  | other elsewhere handled =>
    obtain ⟨served, plain⟩ := flowing.handled cbc short handled 0
    exact ⟨served, flowing.asked, plain, flowing.intact, flowing.counted⟩

theorem Flowing.receives (memory : ∀ n, allocates n = true) (flowing : Flowing P key l)
    (junk : Nat → UInt8) (packet : Packet) : ∃ client,
      clientStep allocates l.client (.receive junk packet) = some (client, refetches packet) := by
  obtain ⟨app, received, -⟩ := networkThreadOn_runs memory flowing.intact flowing.counted junk packet
  exact ⟨{ l.client with toAppState := app }, by rw [clientStep, received]⟩

end MoT
