import MoT.ClientEffects
import MoT.Lib.Lock

/-! `state_lock`, with the handlers of the client's two threads in the pieces that the lock
divides them into. Drawing, which has a lock of its own, is left out. -/
namespace MoT
open CMemory Transition Lock

variable {allocates : Nat → Bool}

inductive Thread where
  | mainLoop | network
deriving DecidableEq

abbrev Instr := Lock.Instr Fault MainState Request
abbrev ClientThreads := Lock.Threads Thread Fault MainState Request

def change (f : MainState → MainState) : Instr := .work fun s => .ok (f s, [])
def sends (sent : List Request) : Instr := .work fun s => .ok (s, sent)

def redraw : Instr := change fun s => { s with needsRedraw := true }

def storing (f : AppState → AppState) : Instr :=
  change fun s => { s with toAppState := f s.toAppState }

def takeOver (f : AppState → AppState) : List Instr := [.lock, storing f, .unlock, redraw]

def networkInSteps (allocates : Nat → Bool) (type : UInt32) (payload : Pointer) (len : UInt32) :
    List Instr :=
  match MessageType.ofCode type with
  | some .respConversations =>
    match payload with
    | some block =>
      let owned := ownedArray ConversationSummary.size .ofBytes block len
      takeOver fun app => { app with conversations := owned.1, convCount := owned.2 }
    | none => [redraw]
  | some .convCreated => [sends [serviceReqConversations], redraw]
  | some .rteText =>
    [.lock,
      .work fun s => (routedText allocates payload s.toAppState).map fun app =>
        ({ s with toAppState := app }, []),
      .unlock, redraw]
  | some .respHistory =>
    match payload with
    | some block =>
      takeOver fun app => { app with chatHistory := some (block.map some), chatHistoryLen := len.toNat }
    | none => []
  | some .respContacts =>
    match payload with
    | some block =>
      let owned := ownedArray ContactSummary.size .ofBytes block len
      takeOver fun app => { app with contacts := owned.1, contactsCount := owned.2 }
    | none => []
  | some .respRequests =>
    match payload with
    | some block =>
      let owned := ownedArray ContactSummary.size .ofBytes block len
      takeOver fun app => { app with requests := owned.1, requestsCount := owned.2 }
    | none => []
  | some .respMembers =>
    match payload with
    | some block =>
      let owned := ownedArray GroupMemberSummary.size .ofBytes block len
      takeOver fun app =>
        { app with currentGroupMembers := owned.1, currentGroupMembersCount := owned.2 }
    | none => []
  | some .addReqSent => [redraw]
  | some .addSuccess => [sends [serviceRefreshContacts]]
  | _ => []

/-- A handler up to the lock, and what is left of it. -/
structure Handling where
  turn : Turn
  rest : List Instr

def whole (outcome : KeyOutcome) : Except Fault Handling := outcome.map fun turn => ⟨turn, []⟩

/- The chat that was selected comes up; by then the list may be another one. -/
def showSelected (s : MainState) : Except Fault (MainState × List Request) := do
  let conversations := s.conversations.getD []
  let _ ← element conversations s.convCount s.selection
  let opened := conversations.modify s.selection.toNat fun c => { c with unreadCount := 0 }
  return ({ s with conversations := some opened, currentState := .chat },
    [serviceReqHistory s.currentConvId])

def openInSteps (s : MainState) : Except Fault Handling :=
  match s.conversations with
  | some conversations =>
    if s.convCount > 0 then do
      let c ← element conversations s.convCount s.selection
      return ⟨⟨{ s with currentConvId := c.convId }, [], false⟩,
        [.lock, change fun s => { s with chatHistory := none, chatHistoryLen := 0 }, .unlock,
          .work showSelected]⟩
    else whole (stay s)
  | none => whole (stay s)

def sendInSteps (allocates : Nat → Bool) (s : MainState) : Except Fault Handling :=
  if s.chatInputBuffer.length > 0 then
    let line := CString.lit "Me: " ++ s.chatInputBuffer ++ CString.lit "\n"
    .ok ⟨⟨s, [serviceSendText s.currentConvId s.chatInputBuffer], false⟩,
      [.lock,
        .work fun s => (appAppendHistory allocates (line.truncate 1199) s.toAppState).map
          fun app => ({ s with toAppState := app }, []),
        .unlock,
        change fun s => { s with chatInputBuffer := CString.empty }]⟩
  else whole (stay s)

/- Nothing gives this lock back. -/
def updateInSteps (prompts : Prompts) (s : MainState) : Except Fault Handling :=
  let username := prompts.first.truncate 31
  let password := prompts.second.truncate 63
  let sent := if username.length > 0 ∨ password.length > 0 then
    [serviceUpdateUser (some username) (some password)] else []
  .ok ⟨⟨s, [], false⟩, [.lock, sends sent]⟩

def removeInSteps (index : Int) : List Instr :=
  [.lock, change (appRemoveRequest index), .unlock]

def decideInSteps (accept : Bool) (s : MainState) : Except Fault Handling :=
  match s.requests with
  | some requests =>
    if s.requestsCount > 0 then do
      let r ← element requests s.requestsCount s.selection
      return ⟨⟨s, [serviceDecideRequest r.uid (if accept then 1 else 0)], false⟩,
        removeInSteps s.selection⟩
    else whole (stay s)
  | none => whole (stay s)

/- The handlers that take the lock; every other one is a single piece. -/
def keyInSteps (allocates : Nat → Bool) (ch : Int) (prompts : Prompts) (s : MainState) :
    Except Fault Handling :=
  match s.currentState with
  | .home => if Enter ch then openInSteps s else whole (homeKey ch s)
  | .chat => if Enter ch then sendInSteps allocates s else whole (chatKey allocates ch s)
  | .settings =>
    if ch = letter 'e' ∨ ch = letter 'E' then updateInSteps prompts s
    else whole (settingsKey ch prompts s)
  | .requests =>
    if ch = 10 ∨ ch = letter 'd' then decideInSteps (ch = 10) s else whole (requestsKey ch s)
  | _ => whole (handleKey allocates ch prompts s)

/- What was freed is gone: to read it is a fault. -/
def appCleanup : List Instr :=
  [.lock,
    change fun s => { s with
      contacts := none
      requests := none
      conversations := none
      currentGroupMembers := none
      chatHistory := none },
    .unlock]

inductive ThreadEvent where
  | draw
  | key (ch : Int) (prompts : Prompts)
  | receive (type : UInt32) (payload : Pointer) (len : UInt32)
  | go (t : Thread)

def threadStep (allocates : Nat → Bool) (s : ClientThreads) :
    ThreadEvent → Option (ClientThreads × List Request)
  | .draw =>
    if (s.todo .mainLoop).isEmpty ∧ s.shared.phase = .drawing then
      some ({ s with shared := { render s.shared with phase := .reading } }, [])
    else none
  | .key ch prompts =>
    if ¬ (s.todo .mainLoop).isEmpty ∨ s.shared.phase ≠ .reading then none
    else if ch = keyErr then some ({ s with shared := { s.shared with phase := .drawing } }, [])
    else match keyInSteps allocates ch prompts { s.shared with needsRedraw := true } with
      | .error _ => none
      | .ok h =>
        let phase := if h.turn.quit then Phase.ended else .drawing
        let rest := if h.turn.quit then h.rest ++ appCleanup else h.rest
        some ({ s.begin .mainLoop rest with shared := { h.turn.state with phase := phase } },
          h.turn.sent)
  | .receive type payload len =>
    if (s.todo .network).isEmpty then
      some (s.begin .network (networkInSteps allocates type payload len), [])
    else none
  | .go t => go t s

/-- The client's threads from the moment the loop begins. -/
def clientThreads (allocates : Nat → Bool) (uid : UInt32) :
    System ClientThreads ThreadEvent (List Request) :=
  ⟨⟨mainStart uid, none, fun _ => []⟩, threadStep allocates⟩

abbrev ThreadMoment := Moment ClientThreads ThreadEvent (List Request)

theorem routedText_redraws {payload : Pointer} {app app' : AppState}
    (routed : routedText allocates payload app = .ok app') : app'.needsRedraw = true := by
  rw [routedText] at routed
  obtain ⟨convId, -, routed⟩ := ok_bind_iff.mp routed
  split at routed
  · obtain ⟨username, -, routed⟩ := ok_bind_iff.mp routed
    obtain ⟨text, -, routed⟩ := ok_bind_iff.mp routed
    obtain ⟨appended, -, routed⟩ := ok_bind_iff.mp routed
    cases routed
    rfl
  · obtain ⟨conversations, -, routed⟩ := ok_bind_iff.mp routed
    cases routed
    rfl

theorem networkInSteps_alone (type : UInt32) (payload : Pointer) (len : UInt32) (s : MainState) :
    alone (networkInSteps allocates type payload len) s =
      (networkThread allocates type payload len s.toAppState).map fun r =>
        ({ s with toAppState := r.1 }, r.2) := by
  unfold networkInSteps networkThread
  cases code : MessageType.ofCode type with
  | none => rfl
  | some message =>
    cases message with
    | rteText =>
      dsimp only [alone]
      cases routed : routedText allocates payload s.toAppState with
      | error fault => rfl
      | ok app =>
        have redrawn : { app with needsRedraw := true } = app := by
          rw [← routedText_redraws routed]
        exact congrArg (fun app => Except.ok ({ s with toAppState := app }, [])) redrawn
    | respConversations | respHistory | respContacts | respRequests | respMembers =>
      cases payload with
      | none => rfl
      | some block => rfl
    | _ => rfl

def Handling.uninterrupted (h : Handling) : KeyOutcome := do
  let r ← alone h.rest h.turn.state
  return ⟨r.1, h.turn.sent ++ r.2, h.turn.quit⟩

theorem whole_uninterrupted (outcome : KeyOutcome) :
    (whole outcome).bind Handling.uninterrupted = outcome := by
  cases outcome with
  | error fault => rfl
  | ok turn =>
    have same : Handling.uninterrupted ⟨turn, []⟩ = .ok ⟨turn.state, turn.sent ++ [], turn.quit⟩ :=
      rfl
    rw [List.append_nil] at same
    exact same

theorem openInSteps_uninterrupted (s : MainState) :
    (openInSteps s).bind Handling.uninterrupted = openSelected s := by
  unfold openInSteps openSelected
  cases listed : s.conversations with
  | none => exact whole_uninterrupted _
  | some conversations =>
    dsimp only
    split
    · cases found : element conversations s.convCount s.selection with
      | error fault => rfl
      | ok c =>
        have again : element ((some conversations).getD []) s.convCount s.selection = .ok c := found
        have shown : showSelected { s with
              conversations := some conversations
              currentConvId := c.convId
              chatHistory := none
              chatHistoryLen := 0 } =
            .ok ({ s with
              currentConvId := c.convId
              chatHistory := none
              chatHistoryLen := 0
              conversations := some
                (conversations.modify s.selection.toNat fun c => { c with unreadCount := 0 })
              currentState := .chat }, [serviceReqHistory c.convId]) := by
          dsimp only [showSelected]
          rw [again]
          rfl
        dsimp only [bind, Except.bind, pure, Except.pure, Handling.uninterrupted, alone, change]
        rw [shown]
        rfl
    · exact whole_uninterrupted _

theorem sendInSteps_uninterrupted (s : MainState) :
    (sendInSteps allocates s).bind Handling.uninterrupted = sendInput allocates s := by
  unfold sendInSteps sendInput
  split
  · dsimp only [bind, Except.bind, Handling.uninterrupted, alone, change]
    cases appended : appAppendHistory allocates ((CString.lit "Me: " ++ s.chatInputBuffer ++
        CString.lit "\n").truncate 1199) s.toAppState with
    | error fault => rfl
    | ok app => rfl
  · exact whole_uninterrupted _

theorem updateInSteps_uninterrupted {ch : Int} (prompts : Prompts) (s : MainState)
    (edits : ch = letter 'e' ∨ ch = letter 'E') :
    (updateInSteps prompts s).bind Handling.uninterrupted = settingsKey ch prompts s := by
  have other : ¬ (ch = letter 'l' ∨ ch = letter 'L') := by
    rcases edits with rfl | rfl <;> decide
  rw [settingsKey, if_neg other, if_pos edits, updateInSteps]
  dsimp only
  split
  · rfl
  · rfl

theorem decideInSteps_uninterrupted (accept : Bool) (s : MainState) :
    (decideInSteps accept s).bind Handling.uninterrupted = decideSelected accept s := by
  unfold decideInSteps decideSelected
  cases listed : s.requests with
  | none => exact whole_uninterrupted _
  | some requests =>
    dsimp only
    split
    · cases found : element requests s.requestsCount s.selection with
      | error fault => rfl
      | ok r => rfl
    · exact whole_uninterrupted _

theorem chatKey_enter {ch : Int} (enter : Enter ch) (s : MainState) :
    chatKey allocates ch s = sendInput allocates s := by
  rcases enter with rfl | rfl <;> rfl

/-- Undisturbed by the other thread, the pieces of a handler do what the handler does. -/
theorem keyInSteps_uninterrupted (ch : Int) (prompts : Prompts) (s : MainState) :
    (keyInSteps allocates ch prompts s).bind Handling.uninterrupted =
      handleKey allocates ch prompts s := by
  unfold keyInSteps
  cases screen : s.currentState with
  | home =>
    rw [handleKey, screen]
    dsimp only
    split
    · rename_i enter
      rw [homeKey_enter enter]
      exact openInSteps_uninterrupted s
    · exact whole_uninterrupted _
  | chat =>
    rw [handleKey, screen]
    dsimp only
    split
    · rename_i enter
      rw [chatKey_enter enter]
      exact sendInSteps_uninterrupted s
    · exact whole_uninterrupted _
  | settings =>
    rw [handleKey, screen]
    dsimp only
    split
    · rename_i edits
      exact updateInSteps_uninterrupted prompts s edits
    · exact whole_uninterrupted _
  | requests =>
    rw [handleKey, screen]
    dsimp only
    split
    · rename_i decides
      rw [requestsKey_decides decides]
      exact decideInSteps_uninterrupted _ s
    · exact whole_uninterrupted _
  | _ => exact whole_uninterrupted _

theorem networkInSteps_sectioned (type : UInt32) (payload : Pointer) (len : UInt32) :
    Sectioned false (networkInSteps allocates type payload len) := by
  unfold networkInSteps
  cases MessageType.ofCode type with
  | none => rfl
  | some message =>
    cases message with
    | respConversations | respHistory | respContacts | respRequests | respMembers =>
      cases payload with
      | none => exact rfl
      | some block => exact ⟨rfl, rfl, rfl⟩
    | rteText => exact ⟨rfl, rfl, rfl⟩
    | _ => rfl

theorem sectioned_nil : Sectioned false ([] : List Instr) := rfl

theorem appCleanup_sectioned : Sectioned false appCleanup := ⟨rfl, rfl, rfl⟩

def AsksForAccount (ch : Int) (s : MainState) : Prop :=
  s.currentState = .settings ∧ (ch = letter 'e' ∨ ch = letter 'E')

/- Up to the lock a handler is one piece, and it has none of the lock's sections when it
leaves the loop. -/
inductive KeyPieces (ch : Int) (s : MainState) : Handling → Prop
  | whole (turn : Turn) (plain : ¬ AsksForAccount ch s) : KeyPieces ch s ⟨turn, []⟩
  | locks {turn : Turn} {rest : List Instr} (plain : ¬ AsksForAccount ch s)
      (stays : turn.quit = false) (fits : Sectioned true rest) :
      KeyPieces ch s ⟨turn, .lock :: rest⟩
  | keeps {turn : Turn} (asks : AsksForAccount ch s) (stays : turn.quit = false)
      (sent : List Request) : KeyPieces ch s ⟨turn, [.lock, sends sent]⟩

theorem whole_pieces {ch : Int} {s : MainState} (plain : ¬ AsksForAccount ch s)
    {outcome : KeyOutcome} {h : Handling} (handled : whole outcome = .ok h) :
    KeyPieces ch s h := by
  cases outcome with
  | error fault => cases handled
  | ok turn =>
    cases handled
    exact .whole turn plain

theorem keyInSteps_pieces {ch : Int} {prompts : Prompts} {s : MainState} {h : Handling}
    (handled : keyInSteps allocates ch prompts s = .ok h) : KeyPieces ch s h := by
  unfold keyInSteps at handled
  cases screen : s.currentState with
  | home =>
    have plain : ¬ AsksForAccount ch s := fun asks => by cases screen.symm.trans asks.1
    rw [screen] at handled
    dsimp only at handled
    split at handled
    · unfold openInSteps at handled
      split at handled
      · split at handled
        · obtain ⟨c, -, opened⟩ := ok_bind_iff.mp handled
          cases opened
          exact .locks plain rfl ⟨rfl, rfl⟩
        · exact whole_pieces plain handled
      · exact whole_pieces plain handled
    · exact whole_pieces plain handled
  | chat =>
    have plain : ¬ AsksForAccount ch s := fun asks => by cases screen.symm.trans asks.1
    rw [screen] at handled
    dsimp only at handled
    split at handled
    · unfold sendInSteps at handled
      split at handled
      · cases handled
        exact .locks plain rfl ⟨rfl, rfl⟩
      · exact whole_pieces plain handled
    · exact whole_pieces plain handled
  | settings =>
    rw [screen] at handled
    dsimp only at handled
    split at handled
    · rename_i edits
      cases handled
      exact .keeps ⟨screen, edits⟩ rfl _
    · rename_i other
      exact whole_pieces (fun asks => other asks.2) handled
  | requests =>
    have plain : ¬ AsksForAccount ch s := fun asks => by cases screen.symm.trans asks.1
    rw [screen] at handled
    dsimp only at handled
    split at handled
    · unfold decideInSteps at handled
      split at handled
      · split at handled
        · obtain ⟨r, -, decided⟩ := ok_bind_iff.mp handled
          cases decided
          exact .locks plain rfl ⟨rfl, rfl⟩
        · exact whole_pieces plain handled
      · exact whole_pieces plain handled
    · exact whole_pieces plain handled
  | _ =>
    have plain : ¬ AsksForAccount ch s := fun asks => by cases screen.symm.trans asks.1
    rw [screen] at handled
    exact whole_pieces plain handled

inductive ThreadEffect (s : ClientThreads) : ThreadEvent → ClientThreads → Prop
  | main {e : ThreadEvent} (idle : s.todo .mainLoop = [])
      (plain : ∀ ch prompts, e = .key ch prompts → ¬ AsksForAccount ch s.shared)
      {rest : List Instr} (fits : Sectioned false rest)
      (closed : rest = [] ∨ ∃ after, rest = .lock :: after) (shared : MainState) :
      ThreadEffect s e { s.begin .mainLoop rest with shared := shared }
  | asks {ch : Int} {prompts : Prompts} (idle : s.todo .mainLoop = [])
      (asks : AsksForAccount ch s.shared) (shared : MainState) (sent : List Request) :
      ThreadEffect s (.key ch prompts)
        { s.begin .mainLoop [.lock, sends sent] with shared := shared }
  | receives {e : ThreadEvent} (other : ∀ ch prompts, e ≠ .key ch prompts)
      (idle : s.todo .network = []) {rest : List Instr} (fits : Sectioned false rest) :
      ThreadEffect s e (s.begin .network rest)
  | goes {t : Thread} {s' : ClientThreads} {sent : List Request} (goes : go t s = some (s', sent)) :
      ThreadEffect s (.go t) s'

theorem begin_idle {s : ClientThreads} {t : Thread} (idle : s.todo t = []) : s.begin t [] = s := by
  rw [Threads.begin, ← idle, Function.update_eq_self]

theorem threadStep_effect {s s' : ClientThreads} {e : ThreadEvent} {sent : List Request}
    (stepped : threadStep allocates s e = some (s', sent)) : ThreadEffect s e s' := by
  cases e with
  | draw =>
    obtain ⟨⟨idle, -⟩, same⟩ := Option.ite_none_right_eq_some.mp stepped
    have idle := List.isEmpty_iff.mp idle
    cases same
    have drawn : ThreadEffect s .draw { s.begin .mainLoop [] with
        shared := { render s.shared with phase := .reading } } :=
      .main idle (fun _ _ same => by cases same) sectioned_nil (.inl rfl) _
    rw [begin_idle idle] at drawn
    exact drawn
  | key ch prompts =>
    obtain ⟨ready, handled⟩ := Option.ite_none_left_eq_some.mp stepped
    have idle : s.todo .mainLoop = [] := by
      by_contra busy
      exact ready (.inl fun empty => busy (List.isEmpty_iff.mp empty))
    split at handled
    · rename_i nothing
      cases handled
      have plain : ¬ AsksForAccount ch s.shared := by
        rw [nothing]
        rintro ⟨-, edits | edits⟩ <;> cases edits
      have quiet : ThreadEffect s (.key ch prompts) { s.begin .mainLoop [] with
          shared := { s.shared with phase := .drawing } } :=
        .main idle (fun _ _ same => by cases same; exact plain) sectioned_nil (.inl rfl) _
      rw [begin_idle idle] at quiet
      exact quiet
    · cases pressed : keyInSteps allocates ch prompts { s.shared with needsRedraw := true } with
      | error fault =>
        rw [pressed] at handled
        cases handled
      | ok h =>
        rw [pressed] at handled
        cases handled
        cases keyInSteps_pieces pressed with
        | whole turn plain =>
          have others : ∀ ch' prompts', ThreadEvent.key ch prompts = .key ch' prompts' →
              ¬ AsksForAccount ch' s.shared := fun _ _ same => by cases same; exact plain
          cases turn.quit with
          | false => exact .main idle others sectioned_nil (.inl rfl) _
          | true => exact .main idle others appCleanup_sectioned (.inr ⟨_, rfl⟩) _
        | @locks turn rest plain stays fits =>
          rw [stays]
          have fits : Sectioned false (Lock.Instr.lock :: rest) := ⟨rfl, fits⟩
          exact .main idle (fun _ _ same => by cases same; exact plain) fits (.inr ⟨_, rfl⟩) _
        | keeps asks stays updates =>
          rw [stays]
          exact .asks idle asks _ updates
  | receive type payload len =>
    obtain ⟨idle, same⟩ := Option.ite_none_right_eq_some.mp stepped
    cases same
    exact .receives (fun _ _ same => by cases same) (List.isEmpty_iff.mp idle)
      (networkInSteps_sectioned type payload len)
  | go t => exact .goes stepped

theorem threadStep_orderly {s s' : ClientThreads} {e : ThreadEvent} {sent : List Request}
    (orderly : Lock.Orderly s) (stepped : threadStep allocates s e = some (s', sent))
    (plain : ∀ ch prompts, e = .key ch prompts → ¬ AsksForAccount ch s.shared) : Lock.Orderly s' := by
  cases threadStep_effect stepped with
  | main idle plain fits closed shared => exact orderly.begin idle fits shared
  | asks idle asks shared sent => exact absurd asks (plain _ _ rfl)
  | receives other idle fits => exact orderly.begin idle fits s.shared
  | goes goes => exact orderly.go goes

variable {uid : UInt32} {past later : List ThreadMoment} {m : ThreadMoment} {s : ClientThreads}

def AccountKey (m : ThreadMoment) : Prop :=
  ∃ ch prompts, m.event = .key ch prompts ∧ AsksForAccount ch m.before.shared

theorem clientThreads_orderly (run : Run (clientThreads allocates uid) past s)
    (never : ∀ m ∈ past, ¬ AccountKey m) : Lock.Orderly s := by
  induction run with
  | start => exact fun _ => rfl
  | @step past s t e sent before stepped ih =>
    have orderly := ih fun m member => never m (List.mem_cons_of_mem _ member)
    apply threadStep_orderly orderly stepped
    rintro ch prompts rfl asks
    exact never _ List.mem_cons_self ⟨ch, prompts, rfl, asks⟩

/- The main loop is about to take the lock for the account, or has it and will not come to an
`unlock`: the next thing to do with a lock is to take it again. -/
def Keeping (s : ClientThreads) : Prop :=
  (∃ sent, s.todo .mainLoop = [.lock, sends sent]) ∨
  s.holder = some .mainLoop ∧ (s.todo .mainLoop = [] ∨ (∃ f, s.todo .mainLoop = [.work f]) ∨
    ∃ after, s.todo .mainLoop = .lock :: after)

theorem threadStep_keeping {s s' : ClientThreads} {e : ThreadEvent} {sent : List Request}
    (keeping : Keeping s) (stepped : threadStep allocates s e = some (s', sent)) :
    Keeping s' := by
  cases threadStep_effect stepped with
  | main idle plain fits closed shared =>
    rcases keeping with ⟨sent, waits⟩ | ⟨mine, -⟩
    · cases idle.symm.trans waits
    · rcases closed with rfl | ⟨after, rfl⟩
      · exact .inr ⟨mine, .inl rfl⟩
      · exact .inr ⟨mine, .inr (.inr ⟨after, rfl⟩)⟩
  | asks idle asks shared sent => exact .inl ⟨sent, rfl⟩
  | receives other idle fits => exact keeping
  | @goes t _ _ goes =>
    rcases go_cases goes with ⟨rest, todo, free, rfl⟩ | ⟨rest, todo, held, rfl⟩ |
      ⟨f, rest, shared, todo, -, rfl⟩
    · rcases keeping with ⟨sent, waits⟩ | ⟨mine, -⟩
      · cases t with
        | mainLoop =>
          cases waits.symm.trans todo
          exact .inr ⟨rfl, .inr (.inl ⟨_, rfl⟩)⟩
        | network => exact .inl ⟨sent, waits⟩
      · cases free.symm.trans mine
    · rcases keeping with ⟨sent, waits⟩ | ⟨mine, left⟩
      · cases t with
        | mainLoop => cases waits.symm.trans todo
        | network => exact .inl ⟨sent, waits⟩
      · cases held.symm.trans mine
        rw [todo] at left
        rcases left with done | ⟨f, works⟩ | ⟨after, locks⟩
        · cases done
        · cases works
        · cases locks
    · cases t with
      | mainLoop =>
        rcases keeping with ⟨sent, waits⟩ | ⟨mine, left⟩
        · cases waits.symm.trans todo
        · rw [todo] at left
          rcases left with done | ⟨f, works⟩ | ⟨after, locks⟩
          · cases done
          · cases works
            exact .inr ⟨mine, .inl rfl⟩
          · cases locks
      | network => exact keeping

/-- Once the account key is pressed, the lock is never free again for the receiving thread and
for the cleanup: the main loop keeps it for good as soon as it gets it. -/
theorem keeping_after (run : Run (clientThreads allocates uid) (later ++ m :: past) s)
    (asks : AccountKey m) : Keeping s := by
  apply run.persists Keeping fun _ _ _ _ keeping stepped => threadStep_keeping keeping stepped
  obtain ⟨before, -, stepped⟩ := run.cut
  obtain ⟨ch, prompts, key, asks⟩ := asks
  have stepped : threadStep allocates m.before m.event = some (m.after, m.output) := stepped
  rw [key] at stepped
  generalize m.after = after at stepped
  cases threadStep_effect stepped with
  | main idle plain fits closed shared => exact absurd asks (plain _ _ rfl)
  | asks idle asks shared sent => exact .inl ⟨sent, rfl⟩
  | receives other idle fits => exact absurd rfl (other _ _)

/-- The lock is handled with discipline as long as nobody asks for a new name and password, and
no longer once that key has been handled. -/
theorem state_lock_iff (run : Run (clientThreads allocates uid) past s) :
    ((∀ m ∈ past, ¬ AccountKey m) → Disciplined s) ∧
      (s.todo .mainLoop = [] → Disciplined s → ∀ m ∈ past, ¬ AccountKey m) := by
  constructor
  · intro never
    exact (clientThreads_orderly run never).disciplined
  · intro idle disciplined m member asks
    obtain ⟨later, earlier, rfl⟩ := List.append_of_mem member
    rcases keeping_after run asks with ⟨sent, waits⟩ | ⟨mine, -⟩
    · cases idle.symm.trans waits
    · exact disciplined.finished .mainLoop idle mine

def openedAndLeft : List ThreadEvent :=
  [.draw,
    .receive MessageType.respConversations.code
      (some (List.replicate ConversationSummary.size 0)) (UInt32.ofNat ConversationSummary.size),
    .go .network, .go .network, .go .network, .go .network,
    .key 10 unprompted, .go .mainLoop, .go .mainLoop, .go .mainLoop, .go .mainLoop, .draw,
    .key keyEsc unprompted, .draw,
    .key (letter 'q') unprompted, .go .mainLoop, .go .mainLoop, .go .mainLoop]

theorem openedAndLeft_completes : ((clientThreads (fun _ => true) 1).trace []
    (clientThreads (fun _ => true) 1).start openedAndLeft).isSome := by decide +kernel

abbrev leftSession := (clientThreads (fun _ => true) 1).history _ openedAndLeft_completes

theorem state_lock_iff_left : leftSession.2.shared.phase = .ended ∧ Disciplined leftSession.2 := by
  refine ⟨by decide +kernel, ?_⟩
  have elsewhere : (leftSession.1.all fun m => m.before.shared.currentState ≠ .settings) = true := by
    decide +kernel
  apply (state_lock_iff (Run.history _ openedAndLeft_completes)).1
  rintro m member ⟨ch, prompts, -, settings, -⟩
  exact of_decide_eq_true (List.all_eq_true.mp elsewhere m member) settings

def askedForAccount : List ThreadEvent :=
  [.draw, .key (letter 's') unprompted, .draw, .key (letter 'e') unprompted,
    .go .mainLoop, .go .mainLoop]

theorem askedForAccount_completes : ((clientThreads (fun _ => true) 1).trace []
    (clientThreads (fun _ => true) 1).start askedForAccount).isSome := by decide +kernel

abbrev lockedSession := (clientThreads (fun _ => true) 1).history _ askedForAccount_completes

theorem account_key_keeps_lock :
    ¬ ∀ past s, Run (clientThreads (fun _ => true) 1) past s → Disciplined s := by
  intro claimed
  have disciplined := claimed _ _ (Run.history _ askedForAccount_completes)
  have idle : (lockedSession.2.todo .mainLoop).isEmpty = true := by decide +kernel
  have held : lockedSession.2.holder = some .mainLoop := by decide +kernel
  exact disciplined.finished .mainLoop (List.isEmpty_iff.mp idle) held

end MoT
