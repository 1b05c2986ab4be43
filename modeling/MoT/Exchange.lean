import MoT.Lib.Queue
import MoT.Net

/-! What the users write to each other, from the keys of one to the client of another. Nothing is
lost, doubled or overtaken on the way: each text typed is handled by the server once and in order,
and each that is handled comes once, in that order, to everyone it is routed to. -/
namespace MoT
open CMemory Relational Transition

variable {ι : Type} {P : Platform} {key : Key} {env : Env} {allocates : Nat → Bool} {fd : Int}
  {uid : UInt32} {s t : Server} {cli : Client} {e : Event} {out : List Sent} {c d : MainState}
  {ch : Int} {prompts : Prompts}

structure Written where
  convId : UInt32
  text : CString
deriving DecidableEq

def writtenIn (bytes : List UInt8) : Option Written := do
  let convId ← (readUInt32 (deliver bytes) SendMessagePayload.convId).toOption
  let text ← (readString (deliver bytes) SendMessagePayload.text).toOption
  some ⟨convId, text⟩

def textIn (type : Option MessageType) (bytes : List UInt8) : Option Written :=
  if type = some .sendText then writtenIn bytes else none

def requestText (r : Request) : Option Written := textIn (some r.1) r.2

def routedOf : Packet → Option RoutedMessagePayload
  | .rteText message => some message
  | _ => none

def typedBy (c : MainState) (ch : Int) : List Written :=
  if c.currentState = .chat ∧ Enter ch ∧ c.chatInputBuffer.length > 0 then
    [⟨c.currentConvId, c.chatInputBuffer⟩]
  else []

theorem requestText_serviceSendText {text : CString} (fits : text.length < maxTextLen)
    (convId : UInt32) :
    requestText (serviceSendText convId text) = some ⟨convId, text⟩ := by
  have readK : readUInt32 (deliver (serviceSendText convId text).2) SendMessagePayload.convId =
      .ok convId := readUInt32_written [] _ convId
  have size : (serviceSendText convId text).2.length = 4 + maxTextLen := by
    rw [serviceSendText, List.length_append, field_length]
    rfl
  have short : text.truncate (maxTextLen - 1) = text :=
    CString.ext (List.take_of_length_le (Nat.le_sub_one_of_lt fits))
  have field : (serviceSendText convId text).2.drop SendMessagePayload.text =
      (strncpy maxTextLen text).toList := by
    rw [serviceSendText, MoT.field, short]
    rfl
  have readText : readString (deliver (serviceSendText convId text).2) SendMessagePayload.text =
      .ok text := by
    rw [readString_deliver (List.ne_nil_of_length_pos (by rw [size]; decide))
      (by rw [size]; decide), field]
    exact congrArg Except.ok (fieldString_short fits.le)
  have type : some (serviceSendText convId text).1 = some MessageType.sendText := rfl
  rw [requestText, textIn, if_pos type, writtenIn, readK, readText]
  rfl

/-- What has been typed fits the field of a text. -/
def InputFits (c : MainState) : Prop := c.chatInputBuffer.length < maxTextLen

theorem printable_length (ch : Int) : (printable ch).length ≤ 1 := by
  rw [printable, CString.length, CString.cut]
  exact (List.takeWhile_sublist _).length_le

theorem sendInput_fits (fits : InputFits c) :
    Ensures (fun turn => InputFits turn.state) (sendInput allocates c) := by
  rw [sendInput]
  split
  · intro turn sent
    obtain ⟨grown, -, sent⟩ := ok_bind_iff.mp sent
    cases sent
    exact (show 0 < maxTextLen by decide)
  · exact ensures_ok fits

theorem chatKey_fits (fits : InputFits c) :
    Ensures (fun turn => InputFits turn.state) (chatKey allocates ch c) := by
  rw [chatKey]
  split_ifs with _ _ _ _ _ room
  · exact ensures_ok (show 0 < maxTextLen by decide)
  · exact sendInput_fits fits
  · split
    · split
      · exact ensures_ok fits
      · exact ensures_ok fits
    · exact ensures_ok fits
  · refine ensures_ok (lt_of_le_of_lt ?_ fits)
    exact List.length_take_le' _ _
  · apply ensures_ok
    have one := printable_length ch
    rw [InputFits]
    dsimp only
    rw [CString.length_append]
    omega
  · exact ensures_ok fits
  · exact ensures_ok fits

abbrev InputStays (c : MainState) : KeyOutcome → Prop :=
  Ensures fun turn => turn.state.chatInputBuffer = c.chatInputBuffer

theorem homeKey_input : InputStays c (homeKey ch c) := by
  rw [homeKey]
  split_ifs
  · exact ensures_ok rfl
  · exact ensures_ok rfl
  · exact ensures_ok rfl
  · exact ensures_ok rfl
  · exact ensures_ok rfl
  · exact ensures_openSelected rfl fun _ _ => rfl
  · exact ensures_ok rfl
  · exact ensures_ok rfl

theorem createGroupKey_input : InputStays c (createGroupKey ch prompts c) := by
  rw [createGroupKey]
  split_ifs
  · exact ensures_ok rfl
  · exact ensures_ok rfl
  · exact ensures_ok rfl
  · rw [toggleMember]
    split
    · exact ensures_ok rfl
    · rintro turn ⟨⟩
  · exact ensures_ok rfl
  · exact ensures_ok rfl
  · apply ensures_bind
    intro uids
    split
    · exact ensures_ok rfl
    · exact ensures_ok rfl
  · exact ensures_ok rfl

theorem friendsKey_input : InputStays c (friendsKey ch prompts c) := by
  rw [friendsKey]
  split_ifs
  · exact ensures_ok rfl
  · exact ensures_ok rfl
  · exact ensures_ok rfl
  · exact ensures_ok rfl
  · exact ensures_ok rfl
  · exact ensures_chatWithSelected rfl fun _ => rfl
  · exact ensures_ok rfl

theorem settingsKey_input : InputStays c (settingsKey ch prompts c) := by
  rw [settingsKey]
  split_ifs
  · exact ensures_ok rfl
  · dsimp only
    split
    · exact ensures_ok rfl
    · exact ensures_ok rfl
  · exact ensures_ok rfl
  · exact ensures_ok rfl

theorem requestsKey_input : InputStays c (requestsKey ch c) := by
  rw [requestsKey]
  split_ifs
  · exact ensures_ok rfl
  · refine ensures_decideSelected rfl fun r => ?_
    obtain ⟨requests, count, removed⟩ := appRemoveRequest_requests c.selection c
    rw [removed]
  · exact ensures_ok rfl

theorem groupSettingsKey_input : InputStays c (groupSettingsKey ch c) := by
  rw [groupSettingsKey]
  split_ifs
  · exact ensures_ok rfl
  · exact ensures_ok rfl
  · exact ensures_ok rfl
  · exact ensures_ok rfl
  · exact ensures_ok rfl

theorem manageMembersKey_input : InputStays c (manageMembersKey ch c) := by
  rw [manageMembersKey]
  split_ifs
  · exact ensures_ok rfl
  · exact ensures_ok rfl
  · exact ensures_ok rfl
  · exact ensures_kickSelected rfl fun _ => rfl
  · exact ensures_ok rfl

theorem handleKey_fits (fits : InputFits c) :
    Ensures (fun turn => InputFits turn.state) (handleKey allocates ch prompts c) := by
  have kept {r : KeyOutcome} (stays : InputStays c r) :
      Ensures (fun turn => InputFits turn.state) r := by
    intro turn pressed
    have same := stays turn pressed
    dsimp only [InputFits] at same ⊢
    rw [same]
    exact fits
  unfold handleKey
  split
  · exact kept homeKey_input
  · exact chatKey_fits fits
  · exact kept createGroupKey_input
  · exact kept friendsKey_input
  · exact kept settingsKey_input
  · exact kept requestsKey_input
  · exact kept groupSettingsKey_input
  · exact kept manageMembersKey_input
  · exact ensures_ok fits
  · exact ensures_ok fits
  · exact ensures_ok fits

theorem clientStep_fits {e : ClientEvent} {sent : List Request} (fits : InputFits c)
    (stepped : clientStep allocates c e = some (d, sent)) : InputFits d := by
  cases clientStep_effect stepped with
  | draws drawing =>
    obtain ⟨state, redraw, drawn, -⟩ := render_screen c
    rw [drawn]
    exact fits
  | silent reading => exact fits
  | pressed reading pressed =>
    exact handleKey_fits (c := { c with needsRedraw := true }) fits _ pressed
  | received received => exact fits

def writtenNow (c : MainState) : ClientEvent → List Written
  | .key ch _ => typedBy c ch
  | .draw | .receive _ _ => []

theorem Service.textless {known : UInt32 → Prop} {r : Request}
    (service : Service known (fun _ _ => False) r) : requestText r = none := by
  cases service with
  | text convId text typed => exact typed.elim
  | _ => rfl

/-- What a step of the client sends of texts is what the user has just typed. -/
theorem clientStep_texts {e : ClientEvent} {sent : List Request} (fits : InputFits c)
    (stepped : clientStep allocates c e = some (d, sent)) :
    sent.filterMap requestText = writtenNow c e := by
  have asks := clientStep_asks stepped
  have textless (none_written : ∀ k text, ¬ WrittenBy c e k text) :
      sent.filterMap requestText = [] := by
    apply List.filterMap_eq_nil_iff.mpr
    intro r member
    exact Service.textless ((asks r member).mono (fun _ offered => offered)
      fun k text written => none_written k text written)
  cases e with
  | draw | receive => exact textless fun _ _ => id
  | key ch prompts =>
    by_cases typed : c.currentState = .chat ∧ Enter ch ∧ c.chatInputBuffer.length > 0
    · rw [writtenNow, typedBy, if_pos typed]
      cases clientStep_effect stepped with
      | silent reading => exact absurd typed.2.1 (by decide)
      | @pressed _ _ turn reading pressed =>
        have escape : ch ≠ keyEsc := by rcases typed.2.1 with rfl | rfl <;> decide
        unfold handleKey at pressed
        dsimp only at pressed
        rw [typed.1] at pressed
        dsimp only at pressed
        rw [chatKey, if_neg escape, if_pos typed.2.1, sendInput, if_pos typed.2.2] at pressed
        obtain ⟨grown, -, sent⟩ := ok_bind_iff.mp pressed
        cases sent
        exact List.filterMap_cons_some (requestText_serviceSendText fits _)
    · rw [writtenNow, typedBy, if_neg typed]
      refine textless fun k text written => typed ?_
      obtain ⟨chat, enter, -, rfl, written⟩ := written
      exact ⟨chat, enter, written⟩

def spokenOn (fd : Int) (m : ServerMoment) : List Written :=
  match m.event with
  | .packet fd' code bytes _ =>
    if fd' = fd then (textIn (MessageType.ofCode code) bytes).toList else []
  | _ => []

theorem spokenOn_packet (fd fd' : Int) (code : UInt32) (bytes : List UInt8) (env : Env) :
    spokenOn fd ⟨s, .packet fd' code bytes env, t, out⟩ =
      if fd' = fd then (textIn (MessageType.ofCode code) bytes).toList else [] := rfl

/-- The message that the text of this moment becomes for the user, who is one of the first ten
of its conversation and not its sender. -/
def dueTo (uid : UInt32) (m : ServerMoment) : List RoutedMessagePayload :=
  match m.event with
  | .packet fd code bytes env => Option.toList do
    let cli ← getClientByFd fd m.before.clients
    let w ← textIn (MessageType.ofCode code) bytes
    if cli.uid ≠ uid ∧ ∃ r ∈ firstParticipants env.plan m.before.db w.convId,
        r.userId = bindInt uid then
      some (routed cli w.convId w.text)
    else none
  | _ => []

theorem routedOf_some {packet : Packet} {message : RoutedMessagePayload}
    (is : routedOf packet = some message) : packet = .rteText message := by
  cases packet with
  | rteText message' =>
    cases is
    rfl
  | _ => cases is

def textsFor (fd : Int) (out : List Sent) : List RoutedMessagePayload :=
  (out.filter fun m => m.fd = fd).filterMap fun m => routedOf m.packet

theorem inbox_texts (fd : Int) (about : UInt32) (out : List Sent) :
    (inbox fd about out).filterMap (fun m => routedOf m.packet) = textsFor fd out := by
  rw [inbox, List.filterMap_map]
  rfl

theorem reaches_seated (seated : Seated s fd uid) (single : SingleSession s fd uid) (m : Sent) :
    m.reaches s uid = decide (m.fd = fd) := by
  rw [Sent.reaches, Bool.eq_iff_iff, List.any_eq_true, decide_eq_true_eq]
  constructor
  · rintro ⟨c, member, found⟩
    obtain ⟨same, user, -⟩ := of_decide_eq_true found
    rw [← same]
    exact single c member user
  · rintro rfl
    obtain ⟨c, found, user, online⟩ := seated
    obtain ⟨member, same⟩ := getClientByFd_some found
    exact ⟨c, member, decide_eq_true ⟨same, user, online⟩⟩

theorem pushTo_seated (seated : Seated s fd uid) (single : SingleSession s fd uid)
    (packet : Packet) : pushTo s uid packet = [⟨fd, packet⟩] := by
  rcases pushTo_cases s uid packet with ⟨c, member, user, -, pushed⟩ | ⟨offline, -⟩
  · rw [pushed, single c member user]
  · obtain ⟨c, found, user, online⟩ := seated
    exact absurd ⟨c, (getClientByFd_some found).1, user, online⟩ offline

theorem sendText_due {p : Pointer} {w : Written} (reached : Reachable (server P key) s)
    (seated : Seated s fd uid) (single : SingleSession s fd uid)
    (done : handleSendText P env s cli p = .ok (t, out))
    (readK : readUInt32 p SendMessagePayload.convId = .ok w.convId)
    (readText : readString p SendMessagePayload.text = .ok w.text) :
    textsFor fd out = if cli.uid ≠ uid ∧
        ∃ r ∈ firstParticipants env.plan s.db w.convId, r.userId = bindInt uid then
      [routed cli w.convId w.text] else [] := by
  by_cases self : cli.uid = uid
  · rw [if_neg fun both => both.1 self]
    apply List.filterMap_eq_nil_iff.mpr
    intro m kept
    obtain ⟨sent, here⟩ := List.mem_filter.mp kept
    cases is : routedOf m.packet with
    | none => rfl
    | some message =>
      -- Nobody is sent a text of their own.
      obtain ⟨c, there, same, -, rightful⟩ := sendText_addressed reached done sent
      rw [routedOf_some is] at rightful
      obtain ⟨k, text, -, -, rfl, -⟩ := handleSendText_ok done
      obtain ⟨d, found, user, -⟩ := seated
      have distinct := (reachable_connected reached).distinct
      have here' := getClientByFd_of_mem distinct there
      rw [same, of_decide_eq_true here] at here'
      cases found.symm.trans here'
      exact absurd (user.trans self.symm) rightful.2.2.2
  · have reaches := sendText_reaches reached done readK readText (Ne.symm self)
    have same : out.filter (fun m => m.fd = fd) = out.filter fun m => m.reaches s uid := by
      apply List.filter_congr
      exact fun m _ => (reaches_seated seated single m).symm
    rw [textsFor, same, reaches]
    by_cases early : ∃ r ∈ firstParticipants env.plan s.db w.convId, r.userId = bindInt uid
    · rw [if_pos early, if_pos ⟨self, early⟩, pushTo_seated seated single]
      rfl
    · rw [if_neg early, if_neg fun both => early both.2]
      rfl

theorem answered_text {type : MessageType} (answered : .rteText ∈ answers type) :
    type = .sendText := by
  cases type <;> simp [answers] at answered ⊢

/-- Of the texts that a step sends, exactly the one that is due comes to the user. -/
theorem step_due (reached : Reachable (server P key) s) (seated : Seated s fd uid)
    (single : SingleSession s fd uid) (stepped : (server P key).step s e = some (t, out)) :
    textsFor fd out = dueTo uid ⟨s, e, t, out⟩ := by
  have handled := (handleEvent_of_step stepped).2
  cases e with
  | connect | disconnect =>
    cases handled
    rfl
  | packet fd' code bytes env =>
    simp only [handleEvent] at handled
    rw [dueTo]
    dsimp only
    split at handled
    · rename_i unlisted
      cases handled
      rw [unlisted]
      rfl
    · rename_i cli listed
      rw [listed]
      by_cases text : MessageType.ofCode code = some .sendText
      · rw [dispatch, text] at handled
        obtain ⟨k, said, readK, readText, -, -⟩ := handleSendText_ok handled
        have written : textIn (MessageType.ofCode code) bytes = some ⟨k, said⟩ := by
          rw [textIn, if_pos text, writtenIn, readK, readText]
          rfl
        have due := sendText_due (w := ⟨k, said⟩) reached seated single handled readK readText
        simp only [written, Option.bind_eq_bind, Option.bind_some]
        rw [due]
        split <;> rfl
      · simp only [textIn, if_neg text, Option.bind_eq_bind, Option.bind_some, Option.bind_none]
        apply List.filterMap_eq_nil_iff.mpr
        intro m kept
        cases is : routedOf m.packet with
        | none => rfl
        | some message =>
          -- Only a text is answered with texts.
          obtain ⟨type, coded, answer⟩ := dispatch_types handled (List.mem_of_mem_filter kept)
          rw [routedOf_some is] at answer
          exact absurd (answered_text answer ▸ coded) text

/- What the messages of one sender say. -/
def heardFrom (uid : UInt32) (messages : List RoutedMessagePayload) : List Written :=
  messages.filterMap fun m =>
    if m.senderUid = uid then some ⟨m.convId, fieldString m.text⟩ else none

theorem heardFrom_routed {w : Written} (short : w.text.length < maxTextLen) :
    heardFrom cli.uid [routed cli w.convId w.text] = [w] := by
  have text : fieldString (strncpy maxTextLen w.text) = w.text := fieldString_short short.le
  simp [heardFrom, routed, text]

/-- Either the moment brings nothing from the sender, or a text that comes to the user when the
user is one of the first ten. -/
inductive Overheard (fd : Int) (uid uid' : UInt32) (m : ServerMoment) : Prop
  | nothing (unheard : heardFrom uid (dueTo uid' m) = []) (unspoken : spokenOn fd m = [])
  | text (w : Written) (plan : Plan) (spoken : spokenOn fd m = [w])
      (heard : heardFrom uid (dueTo uid' m) = if uid ≠ uid' ∧
        ∃ r ∈ firstParticipants plan m.before.db w.convId, r.userId = bindInt uid' then [w] else [])

theorem heard_moment {m : ServerMoment} (seated : Seated m.before fd uid)
    (single : SingleSession m.before fd uid)
    (short : ∀ w ∈ spokenOn fd m, w.text.length < maxTextLen) (uid' : UInt32) :
    Overheard fd uid uid' m := by
  obtain ⟨s, e, t, out⟩ := m
  cases e with
  | connect | disconnect => exact .nothing rfl rfl
  | packet fd' code bytes env =>
    rw [spokenOn_packet] at short
    dsimp only at seated single
    obtain ⟨cli, found, user, -⟩ := seated
    by_cases here : fd' = fd
    · subst here
      cases written : textIn (MessageType.ofCode code) bytes with
      | none =>
        refine .nothing ?_ ?_
        · rw [dueTo]
          simp only [found, written, Option.bind_eq_bind, Option.bind_some, Option.bind_none]
          rfl
        · rw [spokenOn_packet, if_pos rfl, written]
          rfl
      | some w =>
        rw [if_pos rfl, written] at short
        refine .text w env.plan ?_ ?_
        · rw [spokenOn_packet, if_pos rfl, written]
          rfl
        · rw [dueTo, ← user]
          simp only [found, written, Option.bind_eq_bind, Option.bind_some]
          split
          · exact heardFrom_routed (short w List.mem_cons_self)
          · rfl
    · refine .nothing ?_ (if_neg here)
      apply List.filterMap_eq_nil_iff.mpr
      intro message due
      obtain ⟨cli', found', due⟩ := Option.bind_eq_some_iff.mp (Option.mem_toList.mp due)
      obtain ⟨w, written, due⟩ := Option.bind_eq_some_iff.mp due
      obtain ⟨-, same⟩ := Option.ite_none_right_eq_some.mp due
      cases same
      -- The sender is on another connection.
      obtain ⟨member, there⟩ := getClientByFd_some found'
      have stranger : cli'.uid ≠ uid := fun sender =>
        here (there.symm.trans (single cli' member sender))
      exact if_neg stranger

theorem Overheard.sublist {uid' : UInt32} {m : ServerMoment} (heard : Overheard fd uid uid' m) :
    (heardFrom uid (dueTo uid' m)).Sublist (spokenOn fd m) := by
  cases heard with
  | nothing unheard unspoken =>
    rw [unheard]
    exact List.nil_sublist _
  | text w plan spoken heard =>
    rw [heard, spoken]
    split
    · exact List.Sublist.refl _
    · exact List.nil_sublist _

theorem Overheard.everything {uid' k : UInt32} {m : ServerMoment} (heard : Overheard fd uid uid' m)
    (others : uid ≠ uid') (few : (memberRows m.before.db (bindInt k)).length ≤ maxParticipants)
    (member : Participant m.before.db k uid') :
    (heardFrom uid (dueTo uid' m)).filter (fun w => w.convId = k) =
      (spokenOn fd m).filter fun w => w.convId = k := by
  cases heard with
  | nothing unheard unspoken => rw [unheard, unspoken]
  | text w plan spoken heard =>
    rw [heard, spoken]
    by_cases same : w.convId = k
    · obtain ⟨r, row, user⟩ := member
      subst same
      rw [if_pos ⟨others, r, (mem_firstParticipants_few few).mpr row, user⟩]
    · have elsewhere : [w].filter (fun w => w.convId = k) = [] := by simp [same]
      rw [elsewhere]
      split
      · exact elsewhere
      · rfl

section Users

variable [DecidableEq ι]

def typed (i : ι) (m : NetMoment ι) : List Written :=
  match m.event with
  | .key j ch _ => if j = i then typedBy (m.before.peers i).client ch else []
  | _ => []

def collected (i : ι) (m : NetMoment ι) : List RoutedMessagePayload :=
  match m.event with
  | .receive j _ =>
    if j = i then ((m.before.peers i).toClient.head?.bind fun p => routedOf p.packet).toList else []
  | _ => []

def askedIn (fd : ι → Int) (n : Net ι) : NetEvent ι → Option Event
  | .serve i env => (n.peers i).toServer.head?.map fun r => r.event (fd i) env
  | .outside e => some e
  | .draw _ | .key _ _ _ | .receive _ _ => none

def handledIn (P : Platform) (fd : ι → Int) (m : NetMoment ι) : Option ServerMoment := do
  let e ← askedIn fd m.before m.event
  let (t, out) ← serverStep P m.before.server e
  some ⟨m.before.server, e, t, out⟩

/-- What is typed and what is collected, when the server has handled `told`. -/
structure Exchanged (fd : ι → Int) (uid : ι → UInt32) (past : List (NetMoment ι)) (n : Net ι)
    (told : List ServerMoment) : Prop where
  handled : ∀ i, gathered (typed i) past =
    gathered (spokenOn (fd i)) told ++ (n.peers i).toServer.filterMap requestText
  routed : ∀ i, gathered (dueTo (uid i)) told =
    gathered (collected i) past ++ (n.peers i).toClient.filterMap fun p => routedOf p.packet

variable {fd : ι → Int} {uid : ι → UInt32} {past : List (NetMoment ι)} {n n' : Net ι}
  {told : List ServerMoment} {o : Unit}

theorem Exchanged.moved {i : ι} {held : Bool} {toClient : List Incoming} {c : ClientEvent}
    {e : NetEvent ι}
    (exchanged : Exchanged fd uid past n told) (fits : ∀ i, InputFits (n.peers i).client)
    (moved : peerMoves allocates n i held toClient c = some (n', o))
    (types : ∀ j, typed j ⟨n, e, n', o⟩ =
      if i = j then writtenNow (n.peers i).client c else [])
    (collects : ∀ j, (n.peers j).toClient.filterMap (fun p => routedOf p.packet) =
      collected j ⟨n, e, n', o⟩ ++
        (if i = j then toClient else (n.peers j).toClient).filterMap fun p => routedOf p.packet) :
    Exchanged fd uid (⟨n, e, n', o⟩ :: past) n' told := by
  obtain ⟨client, sent, stepped, rfl⟩ := peerMoves_some moved
  have texts := clientStep_texts (fits i) stepped
  constructor
  · intro j
    rw [gathered, exchanged.handled j, types j, List.append_assoc]
    by_cases mine : i = j
    · subst mine
      rw [if_pos rfl, setPeer_self, List.filterMap_append, texts]
    · rw [if_neg mine, setPeer_other n _ mine, List.append_nil]
  · intro j
    rw [gathered, exchanged.routed j, collects j, List.append_assoc]
    by_cases mine : i = j
    · subst mine
      rw [if_pos rfl, setPeer_self]
    · rw [if_neg mine, setPeer_other n _ mine]

theorem Exchanged.served {e : NetEvent ι} {f : Event} {s₁ : Server} {out : List Sent}
    (exchanged : Exchanged fd uid past n told)
    (present : ∀ i, Present P key (fd i) (uid i) (n.seat i))
    (stepped : (server P key).step n.server f = some (s₁, out))
    (unpressed : ∀ j, typed j ⟨n, e, n', o⟩ = []) (untaken : ∀ j, collected j ⟨n, e, n', o⟩ = [])
    (asked : ∀ j, (n.peers j).toServer.filterMap requestText =
      spokenOn (fd j) ⟨n.server, f, s₁, out⟩ ++ (n'.peers j).toServer.filterMap requestText)
    (answered : ∀ j, ∃ about,
      (n'.peers j).toClient = (n.peers j).toClient ++ inbox (fd j) about out) :
    Exchanged fd uid (⟨n, e, n', o⟩ :: past) n' (⟨n.server, f, s₁, out⟩ :: told) := by
  constructor
  · intro j
    rw [gathered, gathered, unpressed, List.append_nil, exchanged.handled j, asked j,
      List.append_assoc]
  · intro j
    obtain ⟨about, more⟩ := answered j
    have due : textsFor (fd j) out = dueTo (uid j) ⟨n.server, f, s₁, out⟩ :=
      step_due (present j).reached (present j).seated (present j).single stepped
    rw [gathered, gathered, untaken, List.append_nil, exchanged.routed j, more,
      List.filterMap_append, inbox_texts, due, List.append_assoc]

theorem peerMoves_fits {i : ι} {held : Bool} {toClient : List Incoming} {c : ClientEvent}
    (fits : ∀ i, InputFits (n.peers i).client)
    (moved : peerMoves allocates n i held toClient c = some (n', o)) :
    ∀ j, InputFits (n'.peers j).client := by
  obtain ⟨client, sent, stepped, rfl⟩ := peerMoves_some moved
  intro j
  by_cases mine : i = j
  · subst mine
    rw [setPeer_self]
    exact clientStep_fits (fits i) stepped
  · rw [setPeer_other n _ mine]
    exact fits j

omit [DecidableEq ι] in
theorem handledIn_served {e : NetEvent ι} {f : Event} {s₁ : Server} {out : List Sent}
    (asks : askedIn fd n e = some f)
    (stepped : (server P key).step n.server f = some (s₁, out)) :
    handledIn P fd ⟨n, e, n', o⟩ = some ⟨n.server, f, s₁, out⟩ := by
  change serverStep P n.server f = some (s₁, out) at stepped
  rw [handledIn, asks]
  simp only [Option.bind_eq_bind, Option.bind_some, stepped]

theorem Exchanged.step [Fintype ι] (apart : Function.Injective fd) {e : NetEvent ι}
    {before : List ServerMoment}
    (exchanged : Exchanged fd uid past n (past.filterMap (handledIn P fd)))
    (handled : Run (server P key) (past.filterMap (handledIn P fd) ++ before) n.server)
    (fits : ∀ i, InputFits (n.peers i).client)
    (present : ∀ i, Present P key (fd i) (uid i) (n.seat i))
    (stepped : netStep P allocates fd n e = some (n', o)) :
    Run (server P key) ((⟨n, e, n', o⟩ :: past).filterMap (handledIn P fd) ++ before) n'.server ∧
      Exchanged fd uid (⟨n, e, n', o⟩ :: past) n'
        ((⟨n, e, n', o⟩ :: past).filterMap (handledIn P fd)) := by
  cases e with
  | draw i =>
    rw [List.filterMap_cons_none rfl]
    refine ⟨?_, exchanged.moved fits stepped ?_ ?_⟩
    · obtain ⟨client, sent, -, rfl⟩ := peerMoves_some stepped
      exact handled
    · intro j
      rw [writtenNow, ite_self]
      rfl
    · intro j
      split
      · rename_i mine
        rw [← mine]
        rfl
      · rfl
  | key i ch prompts =>
    rw [List.filterMap_cons_none rfl]
    refine ⟨?_, exchanged.moved fits stepped ?_ ?_⟩
    · obtain ⟨client, sent, -, rfl⟩ := peerMoves_some stepped
      exact handled
    · intro j
      rw [typed, writtenNow]
      dsimp only
      split
      · rename_i mine
        rw [mine]
      · rfl
    · intro j
      split
      · rename_i mine
        rw [← mine]
        rfl
      · rfl
  | receive i junk =>
    obtain ⟨m, rest, queue, moved⟩ := receive_moved stepped
    rw [List.filterMap_cons_none rfl]
    refine ⟨?_, exchanged.moved fits moved ?_ ?_⟩
    · obtain ⟨client, sent, -, rfl⟩ := peerMoves_some moved
      exact handled
    · intro j
      rw [writtenNow, ite_self]
      rfl
    · intro j
      rw [collected]
      dsimp only
      by_cases mine : i = j
      · subst mine
        rw [if_pos rfl, if_pos rfl, queue, List.head?_cons, Option.bind_some, List.filterMap_cons]
        cases routedOf m.packet <;> rfl
      · rw [if_neg mine, if_neg mine]
        rfl
  | serve i env =>
    rw [netStep] at stepped
    split at stepped
    · cases stepped
    · rename_i r rest queue
      obtain ⟨⟨s₁, out⟩, done, same⟩ := Option.map_eq_some_iff.mp stepped
      cases same
      change (server P key).step n.server (r.event (fd i) env) = some (s₁, out) at done
      have asks : askedIn fd n (.serve i env) = some (r.event (fd i) env) := by
        rw [askedIn, queue]
        rfl
      rw [List.filterMap_cons_some (handledIn_served asks done)]
      refine ⟨handled.step done,
        exchanged.served present done (fun _ => rfl) (fun _ => rfl) (fun j => ?_) fun j => ?_⟩
      · rw [spokenOn]
        simp only [Request.event, MessageType.ofCode_code]
        by_cases mine : j = i
        · subst mine
          rw [if_pos rfl, if_pos rfl, queue, List.filterMap_cons, requestText]
          cases textIn (some r.1) r.2 <;> rfl
        · rw [if_neg mine, if_neg fun same => mine (apart same).symm]
          rfl
      · dsimp only
        split
        · rename_i mine
          subst mine
          exact ⟨askedAbout r, rfl⟩
        · exact ⟨0, rfl⟩
  | outside f =>
    obtain ⟨nobody, moved⟩ := Option.ite_none_left_eq_some.mp stepped
    obtain ⟨⟨s₁, out⟩, done, same⟩ := Option.map_eq_some_iff.mp moved
    cases same
    change (server P key).step n.server f = some (s₁, out) at done
    have asks : askedIn fd n (.outside f) = some f := rfl
    rw [List.filterMap_cons_some (handledIn_served asks done)]
    refine ⟨handled.step done,
      exchanged.served present done (fun _ => rfl) (fun _ => rfl) (fun j => ?_) fun j => ⟨0, rfl⟩⟩
    have elsewhere : f.fd ≠ fd j := fun same => nobody ⟨j, same.symm⟩
    cases f with
    | connect | disconnect => rfl
    | packet fd' code bytes env =>
      rw [spokenOn_packet, if_neg (show fd' ≠ fd j from elsewhere)]
      rfl

variable [Fintype ι]

theorem net_fits (run : Run (net P allocates fd uid s) past n) :
    ∀ i, InputFits (n.peers i).client := by
  induction run with
  | start => exact fun _ => (show 0 < maxTextLen by decide)
  | @step past n n' e o earlier stepped fits =>
    change netStep P allocates fd n e = some (n', o) at stepped
    cases e with
    | draw i | key i ch prompts => exact peerMoves_fits fits stepped
    | receive i junk =>
      obtain ⟨m, rest, -, moved⟩ := receive_moved stepped
      exact peerMoves_fits fits moved
    | serve i env =>
      rw [netStep] at stepped
      split at stepped
      · cases stepped
      · obtain ⟨x, -, same⟩ := Option.map_eq_some_iff.mp stepped
        cases same
        intro j
        dsimp only
        split
        · exact fits i
        · exact fits j
    | outside f =>
      obtain ⟨-, moved⟩ := Option.ite_none_left_eq_some.mp stepped
      obtain ⟨x, -, same⟩ := Option.map_eq_some_iff.mp moved
      cases same
      exact fits

theorem net_exchanged (apart : Function.Injective fd) {before : List ServerMoment}
    (started : Run (server P key) before s) (seated : ∀ i, Seated s (fd i) (uid i))
    (alone : OneEach fd uid s) (run : Run (net P allocates fd uid s) past n)
    (single : ∀ m ∈ past, OneEach fd uid m.after.server) :
    Run (server P key) (past.filterMap (handledIn P fd) ++ before) n.server ∧
      Exchanged fd uid past n (past.filterMap (handledIn P fd)) := by
  induction run with
  | start => exact ⟨started, fun _ => rfl, fun _ => rfl⟩
  | step earlier stepped ih =>
    have single' := fun m member => single m (List.mem_cons_of_mem _ member)
    obtain ⟨handled, exchanged⟩ := ih single'
    exact exchanged.step apart handled (net_fits earlier)
      (net_present apart started.reachable seated alone earlier single') stepped

/-- Whatever anybody does: the texts of a user that the server has handled, and those that wait for
it, are all that the user has typed, in this order; and the messages that the user's client has
collected, and those on their way to it, are all that the texts handled have become for the user,
in this order. -/
theorem net_conveys_texts (P : Platform) (allocates : Nat → Bool) (key : Key)
    (before : List ServerMoment) (s₀ : Server) (started : Run (server P key) before s₀)
    (fd : ι → Int) (apart : Function.Injective fd) (uid : ι → UInt32)
    (seated : ∀ i, Seated s₀ (fd i) (uid i)) (alone : OneEach fd uid s₀)
    (past : List (NetMoment ι)) (n : Net ι) (run : Run (net P allocates fd uid s₀) past n)
    (single : ∀ m ∈ past, OneEach fd uid m.after.server) :
    Run (server P key) (past.filterMap (handledIn P fd) ++ before) n.server ∧
    ∀ i, gathered (typed i) past =
        gathered (spokenOn (fd i)) (past.filterMap (handledIn P fd)) ++
          (n.peers i).toServer.filterMap requestText ∧
      gathered (dueTo (uid i)) (past.filterMap (handledIn P fd)) =
        gathered (collected i) past ++
          (n.peers i).toClient.filterMap fun p => routedOf p.packet := by
  obtain ⟨handled, exchanged⟩ := net_exchanged apart started seated alone run single
  exact ⟨handled, fun i => ⟨exchanged.handled i, exchanged.routed i⟩⟩

def typedEvents : List (NetEvent (Fin 2)) :=
  writtenEvents ++ [.serve alice (recordedEnv 7), .serve alice (recordedEnv 8)] ++
    pressed alice (letter 'z') ++ pressed alice 10

theorem typedEvents_recorded : (pairNet.trace [] pairNet.start typedEvents).isSome := by
  decide +kernel

abbrev typedHistory := pairNet.history typedEvents typedEvents_recorded

theorem net_conveys_texts_typed :
    gathered (typed 0) typedHistory.1 = [⟨1, CString.lit "y"⟩, ⟨1, CString.lit "z"⟩] ∧
    Run (server paddedPlatform recordedKey)
      (typedHistory.1.filterMap (handledIn paddedPlatform pairFd) ++ pairHistory.1)
      typedHistory.2.server ∧
    ∀ i, gathered (typed i) typedHistory.1 =
        gathered (spokenOn (pairFd i)) (typedHistory.1.filterMap (handledIn paddedPlatform pairFd)) ++
          (typedHistory.2.peers i).toServer.filterMap requestText ∧
      gathered (dueTo (pairUid i)) (typedHistory.1.filterMap (handledIn paddedPlatform pairFd)) =
        gathered (collected i) typedHistory.1 ++
          (typedHistory.2.peers i).toClient.filterMap fun p => routedOf p.packet := by
  have start : (∀ i, Seated pairHistory.2 (pairFd i) (pairUid i)) ∧
      OneEach pairFd pairUid pairHistory.2 := by decide +kernel
  have seen : gathered (typed 0) typedHistory.1 = [⟨1, CString.lit "y"⟩, ⟨1, CString.lit "z"⟩] ∧
      ∀ m ∈ typedHistory.1, OneEach pairFd pairUid m.after.server := by decide +kernel
  exact ⟨seen.1, net_conveys_texts paddedPlatform _ recordedKey pairHistory.1 pairHistory.2
    (.history pairSession pairSession_padded) pairFd pairFd_apart pairUid start.1 start.2
    typedHistory.1 typedHistory.2 (.history typedEvents typedEvents_recorded) seen.2⟩

theorem typed_short (run : Run (net P allocates fd uid s) past n) (i : ι) :
    ∀ w ∈ gathered (typed i) past, w.text.length < maxTextLen := by
  intro w written
  obtain ⟨m, member, new⟩ := mem_gathered.mp written
  obtain ⟨later, earlier, rfl⟩ := List.append_of_mem member
  have fits := net_fits run.cut.1 i
  rw [typed] at new
  split at new
  · split at new
    · obtain ⟨-, same⟩ := List.mem_ite_nil_right.mp new
      rw [List.mem_singleton.mp same]
      exact fits
    · cases new
  · cases new

omit [DecidableEq ι] [Fintype ι] in
theorem handledIn_before {m : NetMoment ι} {h : ServerMoment} (told : handledIn P fd m = some h) :
    h.before = m.before.server := by
  obtain ⟨e, -, told⟩ := Option.bind_eq_some_iff.mp told
  obtain ⟨x, -, same⟩ := Option.bind_eq_some_iff.mp told
  cases same
  rfl

theorem net_heard (apart : Function.Injective fd) {before : List ServerMoment}
    (started : Run (server P key) before s) (seated : ∀ i, Seated s (fd i) (uid i))
    (alone : OneEach fd uid s) (run : Run (net P allocates fd uid s) past n)
    (single : ∀ m ∈ past, OneEach fd uid m.after.server) (i j : ι) :
    ∀ h ∈ past.filterMap (handledIn P fd), Overheard (fd i) (uid i) (uid j) h := by
  intro h member
  obtain ⟨m, old, told⟩ := List.mem_filterMap.mp member
  obtain ⟨later, earlier, rfl⟩ := List.append_of_mem old
  have present := net_present apart started.reachable seated alone run.cut.1
    (fun m' member => single m' (List.mem_append_right _ (List.mem_cons_of_mem _ member))) i
  refine heard_moment ?_ ?_ (fun w spoken => ?_) (uid j)
  · rw [handledIn_before told]
    exact present.seated
  · rw [handledIn_before told]
    exact present.single
  · refine typed_short run i w ?_
    rw [(net_exchanged apart started seated alone run single).2.handled i]
    exact List.mem_append_left _ (mem_gathered.mpr ⟨h, member, spoken⟩)

/-- What a client has received from another user is part of what the other has typed, in the same
order: nothing is made up, doubled or overtaken. When nothing is on its way any more, the client
has all that was typed in a conversation in which its user was all along, one of ten at most. -/
theorem net_texts_arrive (P : Platform) (allocates : Nat → Bool) (key : Key)
    (before : List ServerMoment) (s₀ : Server) (started : Run (server P key) before s₀)
    (fd : ι → Int) (apart : Function.Injective fd) (uid : ι → UInt32)
    (seated : ∀ i, Seated s₀ (fd i) (uid i)) (alone : OneEach fd uid s₀)
    (past : List (NetMoment ι)) (n : Net ι) (run : Run (net P allocates fd uid s₀) past n)
    (single : ∀ m ∈ past, OneEach fd uid m.after.server) (i j : ι) :
    (heardFrom (uid i) (gathered (collected j) past)).Sublist (gathered (typed i) past) ∧
    ∀ k, uid i ≠ uid j → Drained n →
      (∀ m ∈ past, (memberRows m.before.server.db (bindInt k)).length ≤ maxParticipants ∧
        Participant m.before.server.db k (uid j)) →
      (heardFrom (uid i) (gathered (collected j) past)).filter (fun w => w.convId = k) =
        (gathered (typed i) past).filter fun w => w.convId = k := by
  obtain ⟨-, exchanged⟩ := net_exchanged apart started seated alone run single
  have spoken := exchanged.handled i
  have routed := exchanged.routed j
  have heard := net_heard apart started seated alone run single i j
  have due : heardFrom (uid i) (gathered (dueTo (uid j)) (past.filterMap (handledIn P fd))) =
      gathered (fun h => heardFrom (uid i) (dueTo (uid j) h)) (past.filterMap (handledIn P fd)) :=
    gathered_filterMap _ _ _
  constructor
  · have collects : (heardFrom (uid i) (gathered (collected j) past)).Sublist
        (heardFrom (uid i) (gathered (dueTo (uid j)) (past.filterMap (handledIn P fd)))) := by
      rw [routed]
      exact (List.sublist_append_left _ _).filterMap _
    have hears : (heardFrom (uid i)
        (gathered (dueTo (uid j)) (past.filterMap (handledIn P fd)))).Sublist
        (gathered (spokenOn (fd i)) (past.filterMap (handledIn P fd))) := by
      rw [due]
      exact gathered_sublist fun h member => (heard h member).sublist
    have types : (gathered (spokenOn (fd i)) (past.filterMap (handledIn P fd))).Sublist
        (gathered (typed i) past) := by
      rw [spoken]
      exact List.sublist_append_left _ _
    exact collects.trans (hears.trans types)
  · intro k others drained belongs
    rw [(drained i).1, List.filterMap_nil, List.append_nil] at spoken
    rw [(drained j).2, List.filterMap_nil, List.append_nil] at routed
    rw [← routed, spoken, due, gathered_filter, gathered_filter]
    apply gathered_congr
    intro h member
    obtain ⟨m, old, told⟩ := List.mem_filterMap.mp member
    obtain ⟨few, there⟩ := belongs m old
    rw [← handledIn_before told] at few there
    exact (heard h member).everything others few there

def arrivedEvents : List (NetEvent (Fin 2)) :=
  typedEvents ++ .serve alice (recordedEnv 9) :: List.replicate 3 (.serve bob (recordedEnv 9)) ++
    List.replicate 5 (.receive bob fun _ => 0) ++ [.receive alice fun _ => 0]

theorem arrivedEvents_recorded : (pairNet.trace [] pairNet.start arrivedEvents).isSome := by
  decide +kernel

abbrev arrivedHistory := pairNet.history arrivedEvents arrivedEvents_recorded

theorem net_texts_arrive_pair :
    (gathered (typed 0) arrivedHistory.1).filter (fun w => w.convId = 1) =
      [⟨1, CString.lit "y"⟩, ⟨1, CString.lit "z"⟩] ∧
    (heardFrom 1 (gathered (collected 1) arrivedHistory.1)).Sublist
      (gathered (typed 0) arrivedHistory.1) ∧
    (heardFrom 1 (gathered (collected 1) arrivedHistory.1)).filter (fun w => w.convId = 1) =
      (gathered (typed 0) arrivedHistory.1).filter fun w => w.convId = 1 := by
  have start : (∀ i, Seated pairHistory.2 (pairFd i) (pairUid i)) ∧
      OneEach pairFd pairUid pairHistory.2 := by decide +kernel
  have seen : (gathered (typed 0) arrivedHistory.1).filter (fun w => w.convId = 1) =
        [⟨1, CString.lit "y"⟩, ⟨1, CString.lit "z"⟩] ∧
      (∀ i, (arrivedHistory.2.peers i).toServer.length = 0 ∧
        (arrivedHistory.2.peers i).toClient.length = 0) ∧
      ∀ m ∈ arrivedHistory.1, OneEach pairFd pairUid m.after.server ∧
        (memberRows m.before.server.db (bindInt 1)).length ≤ maxParticipants ∧
        ∃ r ∈ memberRows m.before.server.db (bindInt 1), r.userId = bindInt 2 := by decide +kernel
  obtain ⟨written, drained, steps⟩ := seen
  obtain ⟨part, everything⟩ := net_texts_arrive paddedPlatform _ recordedKey pairHistory.1
    pairHistory.2 (.history pairSession pairSession_padded) pairFd pairFd_apart pairUid start.1
    start.2 arrivedHistory.1 arrivedHistory.2 (.history arrivedEvents arrivedEvents_recorded)
    (fun m member => (steps m member).1) 0 1
  refine ⟨written, part, everything 1 (by decide) (fun i => ?_) fun m member => (steps m member).2⟩
  exact ⟨List.length_eq_zero_iff.mp (drained i).1, List.length_eq_zero_iff.mp (drained i).2⟩

end Users

end MoT
