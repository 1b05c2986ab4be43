import MoT.Link
import MoT.RequestList

/-! The requests a client shows and those in the server's table. A decision is sent first and
taken out of the client's own array afterwards, by its place, and packets arrive in between. -/
namespace MoT
open CMemory Relational Transition

variable {P : Platform} {key : Key} {allocates : Nat → Bool} {fd : Int} {uid : UInt32}
  {out : List Sent} {ch : Int} {prompts : Prompts} {s t : MainState}

def sendDecision (accept : Bool) (s : MainState) : Except Fault (List Request × Option Int) :=
  match s.requests with
  | some requests =>
    if s.requestsCount > 0 then do
      let r ← element requests s.requestsCount s.selection
      return ([serviceDecideRequest r.uid (if accept then 1 else 0)], some s.selection)
    else .ok ([], none)
  | none => .ok ([], none)

/- The removal that is still to come. -/
def removePending (pending : Option Int) (s : MainState) : MainState :=
  match pending with
  | some index => appRemoveRequest index s
  | none => s

theorem decideSelected_steps (accept : Bool) (s : MainState) :
    decideSelected accept s = (sendDecision accept s).map fun r =>
      ⟨removePending r.2 s, r.1, false⟩ := by
  unfold decideSelected sendDecision
  cases listed : s.requests with
  | none => rfl
  | some requests =>
    dsimp only
    split
    · cases found : element requests s.requestsCount s.selection with
      | error fault => rfl
      | ok r => rfl
    · rfl

/-- A link whose client may be between the two steps. -/
structure Deciding extends Link where
  pending : Option Int

inductive DecideEvent where
  | link (e : LinkEvent)
  | remove

def linkMoves (P : Platform) (allocates : Nat → Bool) (fd : Int) (s : Deciding) (e : LinkEvent) :
    Option (Deciding × Unit) :=
  (linkStep P allocates fd s.toLink e).map fun r => ({ s with toLink := r.1 }, ())

/- The first step; the loop goes on after the second. -/
def decideFirst (ch : Int) (s : Deciding) : Option (Deciding × Unit) :=
  match sendDecision (ch = 10) s.client with
  | .error _ => none
  | .ok (sent, index) =>
    some ({ s with
      client := { s.client with needsRedraw := true, phase := .drawing }
      toServer := s.toServer ++ sent
      pending := index }, ())

def decidingStep (P : Platform) (allocates : Nat → Bool) (fd : Int) (s : Deciding) :
    DecideEvent → Option (Deciding × Unit)
  | .remove =>
    match s.pending with
    | some index => some ({ s with client := appRemoveRequest index s.client, pending := none }, ())
    | none => none
  | .link e =>
    match e with
    | .draw => if s.pending = none then linkMoves P allocates fd s .draw else none
    | .key ch prompts =>
      if s.pending ≠ none then none
      else if s.client.phase = .reading ∧ DecideKey ch s.client then decideFirst ch s
      else linkMoves P allocates fd s (.key ch prompts)
    | .receive junk => linkMoves P allocates fd s (.receive junk)
    | .serve env => linkMoves P allocates fd s (.serve env)
    | .other e => linkMoves P allocates fd s (.other e)

/-- The user's client on connection `fd` of this server, with decisions in two steps. -/
def deciding (P : Platform) (allocates : Nat → Bool) (fd : Int) (uid : UInt32) (s : Server) :
    System Deciding DecideEvent Unit :=
  ⟨⟨(link P allocates fd uid s).start, none⟩, decidingStep P allocates fd⟩

abbrev DecidingMoment := Moment Deciding DecideEvent Unit

theorem appRemoveRequest_drawn (index : Int) (redraw : Bool) (phase : Phase) (s : MainState) :
    appRemoveRequest index { s with needsRedraw := redraw, phase := phase } =
      { appRemoveRequest index s with needsRedraw := redraw, phase := phase } := by
  cases array : s.requests with
  | none => simp only [appRemoveRequest, array]
  | some requests =>
    simp only [appRemoveRequest, array]
    split
    · rfl
    · rw [array]

theorem handleKey_decides (decides : DecideKey ch s) :
    handleKey allocates ch prompts s = decideSelected (ch = 10) s := by
  rw [handleKey, decides.1]
  exact requestsKey_decides decides.2 s

theorem decideKey_ne (decides : DecideKey ch s) : ch ≠ keyErr := by
  rcases decides.2 with same | same
  · subst same
    decide
  · subst same
    decide

theorem clientStep_decides (reading : s.phase = .reading) (decides : DecideKey ch s) :
    clientStep allocates s (.key ch prompts) =
      (sendDecision (ch = 10) s).toOption.map fun r =>
        ({ removePending r.2 { s with needsRedraw := true } with phase := .drawing }, r.1) := by
  have pressed : handleKey allocates ch prompts { s with needsRedraw := true } =
      decideSelected (ch = 10) { s with needsRedraw := true } :=
    handleKey_decides (s := { s with needsRedraw := true }) decides
  have steps := decideSelected_steps (ch = 10) { s with needsRedraw := true }
  have same : sendDecision (ch = 10) { s with needsRedraw := true } = sendDecision (ch = 10) s := rfl
  rw [same] at steps
  rw [clientStep, if_neg (not_not_intro reading), if_neg (decideKey_ne decides), pressed, steps]
  cases sendDecision (ch = 10) s with
  | error fault => rfl
  | ok r => rfl

/-- With nothing in between, the two steps are the key of the link. -/
theorem two_steps_link {s t u : Deciding} {o o' : Unit} (idle : s.pending = none)
    (reading : s.client.phase = .reading) (decides : DecideKey ch s.client)
    (first : decidingStep P allocates fd s (.link (.key ch prompts)) = some (t, o))
    (second : decidingStep P allocates fd t .remove = some (u, o')) :
    linkStep P allocates fd s.toLink (.key ch prompts) = some (u.toLink, ()) := by
  have step : decidingStep P allocates fd s (.link (.key ch prompts)) = decideFirst ch s := by
    rw [decidingStep, if_neg (not_not_intro idle), if_pos ⟨reading, decides⟩]
  rw [step, decideFirst] at first
  rw [linkStep, clientMoves, clientStep_decides reading decides]
  cases sending : sendDecision (ch = 10) s.client with
  | error fault =>
    rw [sending] at first
    cases first
  | ok r =>
    obtain ⟨sent, pending⟩ := r
    rw [sending] at first
    cases first
    cases pending with
    | none => cases second
    | some index =>
      cases second
      have after : ({ removePending (some index) { s.client with needsRedraw := true } with
            phase := .drawing } : MainState) =
          appRemoveRequest index { s.client with needsRedraw := true, phase := .drawing } := by
        have redrawn := appRemoveRequest_drawn index true s.client.phase s.client
        have drawn := appRemoveRequest_drawn index true .drawing s.client
        exact (congrArg (fun c : MainState => { c with phase := .drawing }) redrawn).trans drawn.symm
      exact congrArg (fun client => some (({ s with
        client := client
        toServer := s.toServer ++ sent } : Deciding).toLink, ())) after

def listOf : Packet → Option (List ContactSummary)
  | .respRequests list => some list
  | _ => none

def newest (queue : List Incoming) : Option (List ContactSummary) :=
  (queue.filterMap fun m => listOf m.packet).getLast?

theorem newest_append (queue queue' : List Incoming) :
    newest (queue ++ queue') = (newest queue').or (newest queue) := by
  rw [newest, List.filterMap_append, List.getLast?_append]
  rfl

theorem newest_cons (m : Incoming) (queue : List Incoming) :
    newest (m :: queue) = (newest queue).or (listOf m.packet) := by
  have first : newest [m] = listOf m.packet := by
    cases list : listOf m.packet with
    | none => simp [newest, list]
    | some l => simp [newest, list]
  rw [← List.singleton_append, newest_append, first]

theorem listOf_some {packet : Packet} {list : List ContactSummary}
    (is : listOf packet = some list) : packet = .respRequests list := by
  unfold listOf at is
  split at is
  · cases is
    rfl
  · cases is

theorem newest_inbox_some {about : UInt32} {list : List ContactSummary}
    (last : newest (inbox fd about out) = some list) : ⟨fd, .respRequests list⟩ ∈ out := by
  obtain ⟨m, member, is⟩ := List.mem_filterMap.mp (List.mem_of_getLast? last)
  obtain ⟨sent, kept, rfl⟩ := List.mem_map.mp member
  obtain ⟨there, here⟩ := List.mem_filter.mp kept
  obtain ⟨target, packet⟩ := sent
  cases of_decide_eq_true here
  cases listOf_some is
  exact there

theorem newest_inbox_isSome {about : UInt32} {list : List ContactSummary}
    (sent : ⟨fd, .respRequests list⟩ ∈ out) : newest (inbox fd about out) ≠ none := by
  intro nothing
  rw [newest, List.getLast?_eq_none_iff, List.filterMap_eq_nil_iff] at nothing
  have none_left := nothing ⟨.respRequests list, about⟩
    (List.mem_map.mpr ⟨_, List.mem_filter.mpr ⟨sent, decide_eq_true rfl⟩, rfl⟩)
  cases none_left

/-- The connection stays the user's, and the newest list on its way is the one in the table. -/
structure Tracked (P : Platform) (key : Key) (fd : Int) (uid : UInt32) (s : Deciding) : Prop where
  reached : Reachable (server P key) s.server
  seated : Seated s.server fd uid
  known : Acquainted s.server.db uid
  calm : ∀ r ∈ s.toServer, r.1 ≠ .login
  list : ∀ list, newest s.toClient = some list → list.length ≤ 50 ∧
    (list.map ContactSummary.uid).Perm (askers s.server.db uid)

/-- With no list on its way and none asked for, the client has the requests of the table as
soon as it has made its removal. -/
def CaughtUp (uid : UInt32) (s : Deciding) : Prop :=
  newest s.toClient = none → (∀ r ∈ s.toServer, ¬ Refreshes r) →
    (shownRequests (removePending s.pending s.client)).Perm (askers s.server.db uid)

/-- The client shows nothing but what it is about to remove. -/
def NothingElse (pending : Option Int) (s : MainState) : Prop :=
  shownRequests s = [] ∨ pending = some 0 ∧ (shownRequests s).length = 1

/-- The newest list comes to a client that has made its removal, unless the removal is none of
its places; and where it is empty, the client shows nothing else. -/
def InTime (m : DecidingMoment) : Prop :=
  match m.event with
  | .link (.receive _) =>
    ∀ first ∈ m.before.toClient.head?, ∀ list ∈ listOf first.packet,
      newest m.before.toClient.tail = none → (∀ r ∈ m.before.toServer, ¬ Refreshes r) →
        if list = [] then NothingElse m.before.pending m.before.client
        else ∀ index ∈ m.before.pending, ¬ (0 ≤ index ∧ index < list.length)
  | _ => True

theorem inTime_receive {s t : Deciding} {junk : Nat → UInt8} {o : Unit} {first : Incoming}
    {rest : List Incoming} (queue : s.toClient = first :: rest) :
    InTime ⟨s, .link (.receive junk), t, o⟩ ↔
      ∀ list ∈ listOf first.packet, newest rest = none → (∀ r ∈ s.toServer, ¬ Refreshes r) →
        if list = [] then NothingElse s.pending s.client
        else ∀ index ∈ s.pending, ¬ (0 ≤ index ∧ index < list.length) := by
  rw [InTime]
  dsimp only
  rw [queue]
  constructor
  · exact fun timely => timely first rfl
  · rintro timely first' ⟨⟩
    exact timely

def NoStranger (uid : UInt32) (m : DecidingMoment) : Prop :=
  match m.event with
  | .link (.other e) => Introduced m.before.server e uid
  | _ => True

theorem Tracked.served {s : Deciding} {e : Event} {server' : Server} {left : List Request}
    (about : UInt32) (tracked : Tracked P key fd uid s)
    (stepped : (server P key).step s.server e = some (server', out)) (keeps : Keeps fd e)
    (introduced : ∀ a, a ≠ uid → Asks ⟨s.server, e, s.server, []⟩ a uid →
      HasUser s.server.db (bindInt a))
    (single : SingleSession server' fd uid) (few : (askers server'.db uid).length ≤ 50)
    (fewer : ∀ r ∈ left, r ∈ s.toServer) :
    Tracked P key fd uid { s with
      server := server', toServer := left, toClient := s.toClient ++ inbox fd about out } := by
  have seated := tracked.seated.step tracked.reached stepped keeps
  have known := step_acquainted tracked.known stepped introduced
  refine ⟨tracked.reached.step stepped, seated, known, fun r member => tracked.calm r (fewer r member),
    ?_⟩
  intro list last
  change newest (s.toClient ++ inbox fd about out) = some list at last
  rw [newest_append] at last
  cases arrived : newest (inbox fd about out) with
  | some list' =>
    rw [arrived] at last
    cases last
    obtain ⟨plan, rfl⟩ := sent_requests tracked.reached stepped seated (newest_inbox_some arrived)
    have perm := served_requests plan known few
    refine ⟨?_, perm⟩
    have size := perm.length_eq
    rw [List.length_map] at size
    exact size.trans_le few
  | none =>
    rw [arrived] at last
    rcases step_askers stepped seated single with same | ⟨list', sent⟩
    · have before := tracked.list list last
      rw [same]
      exact before
    · exact absurd arrived (newest_inbox_isSome sent)

theorem CaughtUp.served {s : Deciding} {e : Event} {server' : Server} {about : UInt32}
    {left : List Request} (caught : CaughtUp uid s)
    (stepped : (server P key).step s.server e = some (server', out))
    (seated : Seated server' fd uid) (single : SingleSession server' fd uid)
    (answered : (∀ list, ⟨fd, .respRequests list⟩ ∉ out) → (∀ r ∈ left, ¬ Refreshes r) →
      ∀ r ∈ s.toServer, ¬ Refreshes r) :
    CaughtUp uid { s with
      server := server', toServer := left, toClient := s.toClient ++ inbox fd about out } := by
  intro nothing unasked
  change newest (s.toClient ++ inbox fd about out) = none at nothing
  rw [newest_append, Option.or_eq_none_iff] at nothing
  have unsent : ∀ list, ⟨fd, .respRequests list⟩ ∉ out := fun list sent =>
    newest_inbox_isSome sent nothing.1
  rcases step_askers stepped seated single with same | ⟨list, sent⟩
  · change (shownRequests (removePending s.pending s.client)).Perm (askers server'.db uid)
    rw [same]
    exact caught nothing.2 (answered unsent unasked)
  · exact absurd sent (unsent list)

theorem shownRequests_same {s t : MainState} (same : t.requests = s.requests)
    (count : t.requestsCount = s.requestsCount) (pending : Option Int) :
    shownRequests (removePending pending t) = shownRequests (removePending pending s) := by
  cases pending with
  | none => rw [removePending, removePending, shownRequests, shownRequests, same, count]
  | some index =>
    cases array : s.requests with
    | none => simp only [removePending, appRemoveRequest, shownRequests, same, array, count]
    | some requests =>
      simp only [removePending, appRemoveRequest, same, array, count]
      split
      · rfl
      · rw [shownRequests, shownRequests, same, count]

theorem CaughtUp.moved {s : Deciding} (caught : CaughtUp uid s) (client : MainState)
    (same : client.requests = s.client.requests)
    (count : client.requestsCount = s.client.requestsCount) (sent : List Request) :
    CaughtUp uid { s with client := client, toServer := s.toServer ++ sent } := by
  intro nothing unasked
  have before := caught nothing fun r member => unasked r (List.mem_append_left _ member)
  change (shownRequests (removePending s.pending client)).Perm (askers s.server.db uid)
  rw [shownRequests_same same count]
  exact before

theorem received_requests {junk : Nat → UInt8} {packet : Packet} {app app' : AppState}
    {sent : List Request} (other : listOf packet = none)
    (received : networkThreadOn allocates junk packet app = .ok (app', sent)) :
    app'.requests = app.requests ∧ app'.requestsCount = app.requestsCount := by
  cases networkThreadOn_effect received with
  | requests list array => cases other
  | line here read appended =>
    obtain ⟨history, len, rfl⟩ := appAppendHistory_screen appended
    exact ⟨rfl, rfl⟩
  | skips | conversations | contacts | members | history | unread => exact ⟨rfl, rfl⟩

theorem handleKey_requests {turn : Turn} (undecided : ¬ DecideKey ch s)
    (pressed : handleKey allocates ch prompts s = .ok turn) :
    turn.state.requests = s.requests ∧ turn.state.requestsCount = s.requestsCount := by
  by_cases opens : s.currentState = .home ∧ Enter ch
  · rw [handleKey, opens.1] at pressed
    dsimp only at pressed
    rw [homeKey_enter opens.2] at pressed
    have opened : Ensures (fun turn => turn.state.requests = s.requests ∧
        turn.state.requestsCount = s.requestsCount) (openSelected s) :=
      ensures_openSelected ⟨rfl, rfl⟩ fun c conversations => ⟨rfl, rfl⟩
    exact opened turn pressed
  · have left := handleKey_leavesLists opens undecided turn pressed
    exact ⟨left.requests, left.requestsCount⟩

theorem clientStep_requests {e : ClientEvent} {sent : List Request}
    (undecided : ∀ ch prompts, e = .key ch prompts → ¬ (s.phase = .reading ∧ DecideKey ch s))
    (other : ∀ junk packet, e = .receive junk packet → listOf packet = none)
    (stepped : clientStep allocates s e = some (t, sent)) :
    t.requests = s.requests ∧ t.requestsCount = s.requestsCount := by
  cases clientStep_effect stepped with
  | draws drawing =>
    obtain ⟨state, redraw, drawn, -⟩ := render_screen s
    rw [drawn]
    exact ⟨rfl, rfl⟩
  | silent reading => exact ⟨rfl, rfl⟩
  | @pressed ch prompts turn reading pressed =>
    have idle : ¬ DecideKey ch { s with needsRedraw := true } := fun decides =>
      undecided ch prompts rfl ⟨reading, decides⟩
    exact handleKey_requests (s := { s with needsRedraw := true }) idle pressed
  | @received junk packet app sent' received =>
    exact received_requests (other junk packet rfl) received

theorem sendDecision_ok {accept : Bool} {sent : List Request} {index : Option Int}
    (sending : sendDecision accept s = .ok (sent, index)) :
    (sent = [] ∧ index = none) ∨ ∃ r, sent = [r] ∧ r.1 = .decideRequest := by
  unfold sendDecision at sending
  split at sending
  · split at sending
    · obtain ⟨r, -, same⟩ := ok_bind_iff.mp sending
      cases same
      exact .inr ⟨_, rfl, rfl⟩
    · cases sending
      exact .inl ⟨rfl, rfl⟩
  · cases sending
    exact .inl ⟨rfl, rfl⟩

section Steps

variable {s t : Deciding}

theorem Tracked.moved {client : MainState} {sent : List Request} {queue : List Incoming}
    {pending : Option Int} (tracked : Tracked P key fd uid s) (calm : ∀ r ∈ sent, r.1 ≠ .login)
    (newer : ∀ list, newest queue = some list → newest s.toClient = some list) :
    Tracked P key fd uid { s with
      client := client, toServer := s.toServer ++ sent, toClient := queue, pending := pending } where
  reached := tracked.reached
  seated := tracked.seated
  known := tracked.known
  calm r member := by
    rcases List.mem_append.mp member with old | new
    · exact tracked.calm r old
    · exact calm r new
  list list last := tracked.list list (newer list last)

theorem caughtUp_client {e : ClientEvent} {client : MainState} {sent : List Request}
    (undecided : ∀ ch prompts, e = .key ch prompts →
      ¬ (s.client.phase = .reading ∧ DecideKey ch s.client))
    (other : ∀ junk packet, e = .receive junk packet → listOf packet = none)
    (stepped : clientStep allocates s.client e = some (client, sent)) (caught : CaughtUp uid s) :
    CaughtUp uid { s with client := client, toServer := s.toServer ++ sent } := by
  obtain ⟨same, count⟩ := clientStep_requests undecided other stepped
  exact caught.moved client same count sent

theorem decideFirst_caughtUp (idle : s.pending = none) {o : Unit}
    (stepped : decideFirst ch s = some (t, o)) (tracked : Tracked P key fd uid s) :
    Tracked P key fd uid t ∧ (CaughtUp uid s → CaughtUp uid t) := by
  unfold decideFirst at stepped
  split at stepped
  · cases stepped
  · rename_i sent index sending
    cases stepped
    rcases sendDecision_ok sending with ⟨rfl, rfl⟩ | ⟨r, rfl, type⟩
    · refine ⟨tracked.moved (List.forall_mem_nil _) fun list last => last, ?_⟩
      intro caught
      rw [← idle]
      exact caught.moved { s.client with needsRedraw := true, phase := .drawing } rfl rfl []
    · refine ⟨tracked.moved ?_ fun list last => last, ?_⟩
      · intro r' member
        cases List.mem_singleton.mp member
        simp [type]
      · -- The decision itself is what is asked for.
        intro _ _ unasked
        exact absurd (.inr type) (unasked r (List.mem_append_right _ (List.mem_singleton.mpr rfl)))

theorem caughtUp_removes {index : Int} (waits : s.pending = some index) (caught : CaughtUp uid s) :
    CaughtUp uid { s with client := appRemoveRequest index s.client, pending := none } := by
  intro nothing unasked
  have before := caught nothing unasked
  rw [waits] at before
  exact before

theorem shownRequests_length_le (s : MainState) :
    (shownRequests s).length ≤ s.requestsCount.toNat := by
  rw [shownRequests, List.length_map]
  exact List.length_take_le _ _

theorem appRemoveRequest_count {index : Int} {s : MainState} {requests : List ContactSummary}
    (array : s.requests = some requests) (inside : 0 ≤ index ∧ index < s.requestsCount) :
    (appRemoveRequest index s).requestsCount = s.requestsCount - 1 := by
  rw [appRemoveRequest, array]
  dsimp only
  rw [if_pos inside]

theorem shown_removed {index : Int} {s : MainState} {requests : List ContactSummary}
    (array : s.requests = some requests) (inside : 0 ≤ index ∧ index < s.requestsCount) :
    shownRequests (appRemoveRequest index s) =
      ((requests.take s.requestsCount.toNat).eraseIdx index.toNat).map ContactSummary.uid := by
  have count : (s.requestsCount - 1).toNat = s.requestsCount.toNat - 1 := by omega
  have removed : ((requests.take s.requestsCount.toNat).eraseIdx index.toNat ++
      requests.drop (s.requestsCount.toNat - 1)).take (s.requestsCount.toNat - 1) =
        (requests.take s.requestsCount.toNat).eraseIdx index.toNat := by
    by_cases full : s.requestsCount.toNat ≤ requests.length
    · apply List.take_left'
      rw [List.length_eraseIdx_of_lt (by rw [List.length_take]; omega), List.length_take,
        Nat.min_eq_left full]
    · have short := List.length_eraseIdx_le (requests.take s.requestsCount.toNat) index.toNat
      rw [List.length_take] at short
      rw [List.drop_eq_nil_of_le (by omega), List.append_nil, List.take_of_length_le (by omega)]
  rw [appRemoveRequest, array]
  dsimp only
  rw [if_pos inside, shownRequests]
  dsimp only
  rw [count, Option.getD_some, removed]

theorem removed_all_iff (pending : Option Int) (s : MainState) :
    shownRequests (removePending pending s) = [] ↔ NothingElse pending s := by
  cases pending with
  | none => simp [removePending, NothingElse]
  | some index =>
    cases array : s.requests with
    | none =>
      have empty : shownRequests s = [] := by
        rw [shownRequests, array, Option.getD_none, List.take_nil, List.map_nil]
      have same : appRemoveRequest index s = s := by rw [appRemoveRequest, array]
      rw [removePending, same]
      exact iff_of_true empty (.inl empty)
    | some requests =>
      have shown : shownRequests s =
          (requests.take s.requestsCount.toNat).map ContactSummary.uid := by
        rw [shownRequests, array, Option.getD_some]
      by_cases inside : 0 ≤ index ∧ index < s.requestsCount
      · have first : index.toNat = 0 ↔ some index = some 0 := by
          rw [Option.some_inj]
          omega
        rw [removePending, shown_removed array inside, NothingElse, shown, List.map_eq_nil_iff,
          List.map_eq_nil_iff, List.length_map, List.eraseIdx_eq_nil_iff, first, and_comm]
      · have same : appRemoveRequest index s = s := by
          rw [appRemoveRequest, array]
          dsimp only
          rw [if_neg inside]
        rw [removePending, same]
        constructor
        · exact .inl
        · rintro (empty | ⟨zero, one⟩)
          · exact empty
          · cases zero
            have none_current : s.requestsCount.toNat = 0 := by omega
            rw [shown, none_current] at one
            cases one

/- The array of a list that arrives has what the list has, after the removal that is to come,
exactly when that takes nothing out of it. -/
theorem shown_arrived_iff {junk : Nat → UInt8} {list : List ContactSummary} {app : AppState}
    {sent : List Request} {pending : Option Int} {s : MainState} (few : list.length ≤ 50)
    (received : networkThreadOn allocates junk (.respRequests list) s.toAppState = .ok (app, sent)) :
    (shownRequests (removePending pending { s with toAppState := app })).Perm
        (list.map ContactSummary.uid) ↔
      if list = [] then NothingElse pending s
      else ∀ index ∈ pending, ¬ (0 ≤ index ∧ index < list.length) := by
  obtain ⟨-, ⟨rfl, rfl⟩ | ⟨nonempty, uids, count⟩⟩ := requests_arrive few received
  · rw [if_pos rfl, ← removed_all_iff]
    exact List.perm_nil
  · rw [if_neg nonempty]
    have length : (app.requests.getD []).length = list.length := by
      have same := congrArg List.length uids
      rwa [List.length_map, List.length_map] at same
    constructor
    · rintro perm index waits ⟨from_start, inside⟩
      cases waits
      cases array : app.requests with
      | none =>
        rw [array] at length
        exact nonempty (List.length_eq_zero_iff.mp length.symm)
      | some requests =>
        have size := perm.length_eq
        have fewer := shownRequests_length_le (appRemoveRequest index { s with toAppState := app })
        rw [appRemoveRequest_count (s := { s with toAppState := app }) array
          ⟨from_start, count ▸ inside⟩, count] at fewer
        rw [removePending, List.length_map] at size
        omega
    · intro timely
      have whole : shownRequests { s with toAppState := app } = list.map ContactSummary.uid := by
        change ((app.requests.getD []).take app.requestsCount.toNat).map ContactSummary.uid = _
        rw [count, Int.toNat_natCast, ← length, List.take_length]
        exact uids
      have kept : removePending pending { s with toAppState := app } =
          { s with toAppState := app } := by
        cases pending with
        | none => rfl
        | some index =>
          rw [removePending, appRemoveRequest]
          split
          · rw [if_neg]
            intro inside
            rw [count] at inside
            exact timely index rfl inside
          · rfl
      rw [kept, whole]

/-- A packet that comes in keeps the agreement exactly when it comes in time. -/
theorem receives_caughtUp_iff {first : Incoming} {rest : List Incoming} {junk : Nat → UInt8}
    {client : MainState} {sent : List Request} (queue : s.toClient = first :: rest)
    (stepped : clientStep allocates s.client (.receive junk first.packet) = some (client, sent))
    (tracked : Tracked P key fd uid s) (caught : CaughtUp uid s) :
    CaughtUp uid { s with client := client, toServer := s.toServer ++ sent, toClient := rest } ↔
      ∀ list ∈ listOf first.packet, newest rest = none → (∀ r ∈ s.toServer, ¬ Refreshes r) →
        if list = [] then NothingElse s.pending s.client
        else ∀ index ∈ s.pending, ¬ (0 ≤ index ∧ index < list.length) := by
  cases is : listOf first.packet with
  | none =>
    have undecided : ∀ ch prompts, ClientEvent.receive junk first.packet = .key ch prompts →
        ¬ (s.client.phase = .reading ∧ DecideKey ch s.client) := by
      rintro ch prompts ⟨⟩
    have other : ∀ junk' packet, ClientEvent.receive junk first.packet = .receive junk' packet →
        listOf packet = none := by
      rintro junk' packet ⟨⟩
      exact is
    obtain ⟨same, count⟩ := clientStep_requests undecided other stepped
    apply iff_of_true
    · intro nothing unasked
      change newest rest = none at nothing
      have before : newest s.toClient = none := by
        rw [queue, newest_cons, nothing, is]
        rfl
      change (shownRequests (removePending s.pending client)).Perm (askers s.server.db uid)
      rw [shownRequests_same same count]
      exact caught before fun r member => unasked r (List.mem_append_left _ member)
    · rintro list ⟨⟩
  | some list =>
    have last : newest rest = none → newest s.toClient = some list := by
      intro nothing
      rw [queue, newest_cons, nothing, is]
      rfl
    rw [listOf_some is] at stepped
    cases clientStep_effect stepped with
    | received received =>
      constructor
      · rintro after list' ⟨⟩ nothing unasked
        obtain ⟨few, perm⟩ := tracked.list list (last nothing)
        obtain ⟨rfl, -⟩ := requests_arrive few received
        rw [List.append_nil] at after
        exact (shown_arrived_iff few received).mp ((after nothing unasked).trans perm.symm)
      · intro timely nothing unasked
        obtain ⟨few, perm⟩ := tracked.list list (last nothing)
        have now := timely list rfl nothing fun r member => unasked r (List.mem_append_left _ member)
        exact ((shown_arrived_iff few received).mpr now).trans perm

/-- One step of any of them keeps the two in agreement exactly when it comes in time. -/
theorem decidingStep_caughtUp_iff {e : DecideEvent} {o : Unit}
    (stepped : decidingStep P allocates fd s e = some (t, o))
    (single : SingleSession t.server fd uid) (few : (askers t.server.db uid).length ≤ 50)
    (introduced : NoStranger uid ⟨s, e, t, o⟩) (tracked : Tracked P key fd uid s) :
    Tracked P key fd uid t ∧ (CaughtUp uid s → (CaughtUp uid t ↔ InTime ⟨s, e, t, o⟩)) := by
  cases e with
  | remove =>
    rw [decidingStep] at stepped
    split at stepped
    · rename_i index waits
      cases stepped
      refine ⟨⟨tracked.reached, tracked.seated, tracked.known, tracked.calm, tracked.list⟩, ?_⟩
      exact fun caught => iff_of_true (caughtUp_removes waits caught) trivial
    · cases stepped
  | link e =>
    cases e with
    | draw =>
      obtain ⟨-, alone⟩ := Option.ite_none_right_eq_some.mp stepped
      obtain ⟨⟨after, _⟩, moved, same⟩ := Option.map_eq_some_iff.mp alone
      cases same
      cases linkStep_effect moved with
      | draw drawn =>
        refine ⟨tracked.moved (clientStep_calm drawn) fun list last => last, fun caught => ?_⟩
        exact iff_of_true (caughtUp_client (by rintro ch prompts ⟨⟩) (by rintro junk packet ⟨⟩)
          drawn caught) trivial
    | key ch prompts =>
      rw [decidingStep] at stepped
      split_ifs at stepped with idle decides
      · obtain ⟨after, kept⟩ := decideFirst_caughtUp (not_not.mp idle) stepped tracked
        exact ⟨after, fun caught => iff_of_true (kept caught) trivial⟩
      · obtain ⟨⟨after, _⟩, moved, same⟩ := Option.map_eq_some_iff.mp stepped
        cases same
        have undecided : ∀ ch' prompts', ClientEvent.key ch prompts = .key ch' prompts' →
            ¬ (s.client.phase = .reading ∧ DecideKey ch' s.client) := by
          rintro ch' prompts' ⟨⟩
          exact decides
        cases linkStep_effect moved with
        | key pressed =>
          refine ⟨tracked.moved (clientStep_calm pressed) fun list last => last, fun caught => ?_⟩
          exact iff_of_true
            (caughtUp_client undecided (by rintro junk packet ⟨⟩) pressed caught) trivial
    | receive junk =>
      obtain ⟨⟨after, _⟩, moved, same⟩ := Option.map_eq_some_iff.mp stepped
      cases same
      cases linkStep_effect moved with
      | @receive junk first rest client sent queue received =>
        have newer : ∀ list, newest rest = some list → newest s.toClient = some list := by
          intro list last
          rw [queue, newest_cons, last]
          rfl
        refine ⟨tracked.moved (clientStep_calm received) newer, fun caught => ?_⟩
        rw [inTime_receive queue]
        exact receives_caughtUp_iff queue received tracked caught
    | serve env =>
      obtain ⟨⟨after, _⟩, moved, same⟩ := Option.map_eq_some_iff.mp stepped
      cases same
      cases linkStep_effect moved with
      | @serve env r rest server' out queue handled =>
        have served : (server P key).step s.server (r.event fd env) = some (server', out) := handled
        have keeps : Keeps fd (r.event fd env) :=
          .inr ⟨r, env, rfl, tracked.calm r (queue ▸ List.mem_cons_self)⟩
        have fewer : ∀ r' ∈ rest, r' ∈ s.toServer := fun r' member =>
          queue ▸ List.mem_cons_of_mem r member
        have introduced : ∀ a, a ≠ uid → Asks ⟨s.server, r.event fd env, s.server, []⟩ a uid →
            HasUser s.server.db (bindInt a) := fun a other asks =>
          absurd (own_introduced tracked.seated r env a asks) other
        have after := tracked.served (askedAbout r) served keeps introduced single few fewer
        refine ⟨after, fun caught => iff_of_true ?_ trivial⟩
        apply caught.served served after.seated single
        intro unsent unasked r' member
        rw [queue] at member
        rcases List.mem_cons.mp member with rfl | later
        · intro refreshes
          obtain ⟨list, sent⟩ := step_refreshes refreshes tracked.seated served
          exact unsent list sent
        · exact unasked r' later
    | other e =>
      obtain ⟨⟨after, _⟩, moved, same⟩ := Option.map_eq_some_iff.mp stepped
      cases same
      cases linkStep_effect moved with
      | @other e server' out elsewhere handled =>
        have served : (server P key).step s.server e = some (server', out) := handled
        have after := tracked.served 0 served (.inl elsewhere) (fun a _ asks => introduced a asks)
          single few fun r member => member
        refine ⟨after, fun caught => iff_of_true ?_ trivial⟩
        exact caught.served served after.seated single fun _ unasked => unasked

end Steps

theorem start_tracked (allocates : Nat → Bool) {start : Server}
    (reached : Reachable (server P key) start) (seated : Seated start fd uid)
    (known : Acquainted start.db uid) :
    Tracked P key fd uid (deciding P allocates fd uid start).start ∧
      CaughtUp uid (deciding P allocates fd uid start).start := by
  constructor
  · refine ⟨reached, seated, known, ?_, ?_⟩
    · intro r member
      simp only [deciding, link, List.mem_cons, List.not_mem_nil, or_false] at member
      rcases member with rfl | rfl | rfl
      · decide
      · decide
      · decide
    · rintro list ⟨⟩
  · intro _ unasked
    have asked : Refreshes serviceRefreshRequests := .inl rfl
    exact absurd asked (unasked serviceRefreshRequests (List.mem_cons_of_mem _ List.mem_cons_self))

/-- The user has one session and at most fifty requests after this step, none of a stranger. -/
structure Ordinary (fd : Int) (uid : UInt32) (m : DecidingMoment) : Prop where
  single : SingleSession m.after.server fd uid
  few : (askers m.after.server.db uid).length ≤ 50
  introduced : NoStranger uid m

theorem run_tracked {start : Server} {past : List DecidingMoment} {s : Deciding}
    (reached : Reachable (server P key) start) (seated : Seated start fd uid)
    (known : Acquainted start.db uid) (run : Run (deciding P allocates fd uid start) past s)
    (ordinary : ∀ m ∈ past, Ordinary fd uid m) : Tracked P key fd uid s := by
  induction run with
  | start => exact (start_tracked allocates reached seated known).1
  | step before stepped ih =>
    have earlier := ih fun m member => ordinary m (List.mem_cons_of_mem _ member)
    have now := ordinary _ List.mem_cons_self
    exact (decidingStep_caughtUp_iff stepped now.single now.few now.introduced earlier).1

/-- The client keeps up with the table throughout a run exactly when every list that is to stay
comes in time. -/
theorem caughtUp_throughout_iff {start : Server} {past : List DecidingMoment} {s : Deciding}
    (reached : Reachable (server P key) start) (seated : Seated start fd uid)
    (known : Acquainted start.db uid) (run : Run (deciding P allocates fd uid start) past s)
    (ordinary : ∀ m ∈ past, Ordinary fd uid m) :
    (∀ m ∈ past, CaughtUp uid m.after) ↔ ∀ m ∈ past, InTime m := by
  apply run.always_iff (fun past _ => ∀ m ∈ past, Ordinary fd uid m) (CaughtUp uid) InTime
    (start_tracked allocates reached seated known).2 _ _ ordinary
  · exact fun past s e t o _ all m member => all m (List.mem_cons_of_mem _ member)
  · intro past s e t o before stepped all caught
    have tracked := run_tracked reached seated known before fun m member =>
      all m (List.mem_cons_of_mem _ member)
    have now := all _ List.mem_cons_self
    exact (decidingStep_caughtUp_iff stepped now.single now.few now.introduced tracked).2 caught

theorem run_caughtUp {start : Server} {past : List DecidingMoment} {s : Deciding}
    (reached : Reachable (server P key) start) (seated : Seated start fd uid)
    (known : Acquainted start.db uid) (run : Run (deciding P allocates fd uid start) past s)
    (ordinary : ∀ m ∈ past, Ordinary fd uid m) (timely : ∀ m ∈ past, InTime m) :
    CaughtUp uid s := by
  have throughout := (caughtUp_throughout_iff reached seated known run ordinary).mpr timely
  cases run with
  | start => exact (start_tracked allocates reached seated known).2
  | step before stepped => exact throughout _ List.mem_cons_self

structure AtRest (s : Deciding) : Prop where
  toServer : s.toServer = []
  toClient : s.toClient = []
  pending : s.pending = none

/-- The client has every request to the user that is in the table, and no other. -/
structure RequestsAgree (uid : UInt32) (s : Deciding) : Prop where
  exactly : (shownRequests s.client).Perm (askers s.server.db uid)
  kept : ∀ r ∈ s.server.db.requests.rows, r.receiverId = bindInt uid →
    columnInt r.senderId ∈ shownRequests s.client

theorem requestsAgree_of_perm {s : Deciding}
    (perm : (shownRequests s.client).Perm (askers s.server.db uid)) : RequestsAgree uid s := by
  refine ⟨perm, fun r member mine => perm.mem_iff.mpr ?_⟩
  rw [askers_eq]
  exact List.mem_map.mpr ⟨r, List.mem_filter.mpr ⟨member, decide_eq_true mine⟩, rfl⟩

/-- However key presses, packets and the work of the server come between each other: in a run
where each newest list comes in time, the client shows the requests of the table whenever
nothing is on its way. -/
theorem requests_agree {start : Server} {past : List DecidingMoment} {s : Deciding}
    (reached : Reachable (server P key) start) (seated : Seated start fd uid)
    (known : Acquainted start.db uid) (run : Run (deciding P allocates fd uid start) past s)
    (single : ∀ m ∈ past, SingleSession m.after.server fd uid)
    (few : ∀ m ∈ past, (askers m.after.server.db uid).length ≤ 50)
    (timely : ∀ m ∈ past, InTime m) (introduced : ∀ m ∈ past, NoStranger uid m)
    (rest : AtRest s) : RequestsAgree uid s := by
  have ordinary : ∀ m ∈ past, Ordinary fd uid m := fun m member =>
    ⟨single m member, few m member, introduced m member⟩
  have caught := run_caughtUp reached seated known run ordinary timely
  have unlisted : newest s.toClient = none := by
    rw [rest.toClient]
    rfl
  have unasked : ∀ r ∈ s.toServer, ¬ Refreshes r := by
    rw [rest.toServer]
    intro r member
    cases member
  have perm := caught unlisted unasked
  rw [rest.pending] at perm
  exact requestsAgree_of_perm perm

instance (s : Server) (fd : Int) (uid : UInt32) : Decidable (SingleSession s fd uid) :=
  inferInstanceAs (Decidable (∀ c ∈ s.clients, c.uid = uid → c.fd = fd))

instance (db : Database) (uid : UInt32) : Decidable (Acquainted db uid) :=
  inferInstanceAs (Decidable (∀ r ∈ (requestListing db uid).rows, HasUser db r.senderId))

instance (pending : Option Int) (s : MainState) : Decidable (NothingElse pending s) :=
  inferInstanceAs (Decidable (_ ∨ _ ∧ _))

instance (r : Request) : Decidable (Refreshes r) :=
  inferInstanceAs (Decidable (r.1 = .getRequests ∨ r.1 = .decideRequest))

instance : (m : DecidingMoment) → Decidable (InTime m)
  | ⟨s, .link (.receive _), _, _⟩ =>
    inferInstanceAs (Decidable (∀ first ∈ s.toClient.head?, ∀ list ∈ listOf first.packet,
      newest s.toClient.tail = none → (∀ r ∈ s.toServer, ¬ Refreshes r) →
        if list = [] then NothingElse s.pending s.client
        else ∀ index ∈ s.pending, ¬ (0 ≤ index ∧ index < list.length)))
  | ⟨_, .link .draw, _, _⟩ | ⟨_, .link (.key _ _), _, _⟩ | ⟨_, .link (.serve _), _, _⟩
  | ⟨_, .link (.other _), _, _⟩ | ⟨_, .remove, _, _⟩ => .isTrue trivial

def ownEvent : DecideEvent → Bool
  | .link (.other _) => false
  | _ => true

theorem noStranger_of_own {m : DecidingMoment} (nobody : ownEvent m.event = true) :
    NoStranger uid m := by
  obtain ⟨before, event, after, output⟩ := m
  cases event with
  | remove => trivial
  | link e =>
    cases e with
    | other e => cases nobody
    | draw | key | receive | serve => trivial

def twoAskSession : List Event :=
  aliceArrives ++ [.disconnect 7] ++ bobArrives ++
    arrival 9 3 (CString.lit "c@x") (CString.lit "carol") ++
    [(serviceAddContact (CString.lit "000001")).event 8 (recordedEnv 4),
      (serviceAddContact (CString.lit "000001")).event 9 (recordedEnv 5),
      .connect 7,
      (serviceLogin (CString.lit "a@x") (CString.lit "pw")).event 7 (recordedEnv 6)]

theorem twoAskSession_completes :
    (recordedServer.exec recordedServer.start twoAskSession).isSome := by decide +kernel

abbrev twoAsk : Server := recordedServer.after twoAskSession twoAskSession_completes

theorem twoAsk_seated : Seated twoAsk 7 1 := by
  have listed : (getClientByFd 7 twoAsk.clients).any fun c => c.uid = 1 ∧ c.isOnline := by
    decide +kernel
  obtain ⟨c, found, user⟩ := (Option.any_eq_true _ _).mp listed
  exact ⟨c, found, of_decide_eq_true user⟩

abbrev recordedDeciding := deciding recordedPlatform (fun _ => true) 7 1 twoAsk

def firstAccepted : List DecideEvent :=
  List.map .link ([served, served, served, taken, taken, taken] ++ press (letter 'f') ++
    [served, served, taken, taken] ++ press (letter 'r') ++ press 10)

def removedInTime : List DecideEvent :=
  firstAccepted ++ [.remove] ++ List.map .link [served, taken, taken, taken]

theorem requests_agree_removed :
    ∃ past s, recordedDeciding.trace [] recordedDeciding.start removedInTime = some (past, s) ∧
      shownRequests s.client = [3] ∧ RequestsAgree 1 s := by
  have inTime : (recordedDeciding.trace [] recordedDeciding.start removedInTime).any fun r =>
      (∀ m ∈ r.1, SingleSession m.after.server 7 1 ∧
        (askers m.after.server.db 1).length ≤ 50 ∧ InTime m ∧ ownEvent m.event) ∧
      (r.2.toServer = [] ∧ r.2.toClient.length = 0 ∧ r.2.pending = none) ∧
      shownRequests r.2.client = [3] := by decide +kernel
  obtain ⟨⟨past, s⟩, traced, seen⟩ := (Option.any_eq_true _ _).mp inTime
  obtain ⟨steps, ⟨toServer, toClient, pending⟩, shown⟩ := of_decide_eq_true seen
  have rest : AtRest s := ⟨toServer, List.length_eq_zero_iff.mp toClient, pending⟩
  exact ⟨past, s, traced, shown, requests_agree (.after twoAskSession twoAskSession_completes)
    twoAsk_seated (by decide +kernel) (Run.start.trace traced)
    (fun m member => (steps m member).1) (fun m member => (steps m member).2.1)
    (fun m member => (steps m member).2.2.1)
    (fun m member => noStranger_of_own (steps m member).2.2.2) rest⟩

def removedLate : List DecideEvent :=
  firstAccepted ++ List.map .link [served, taken, taken, taken] ++ [.remove]

theorem undecided_request_vanishes :
    ¬ ∀ (P : Platform) (key : Key) (allocates : Nat → Bool) (fd : Int) (uid : UInt32)
        (start : Server) (past : List DecidingMoment) (s : Deciding),
      Reachable (server P key) start → Seated start fd uid →
      Run (deciding P allocates fd uid start) past s →
      (∀ m ∈ past, SingleSession m.after.server fd uid) →
      (∀ m ∈ past, (askers m.after.server.db uid).length ≤ 50) → AtRest s →
      RequestsAgree uid s := by
  intro claimed
  have late : (recordedDeciding.trace [] recordedDeciding.start removedLate).any fun r =>
      (∀ m ∈ r.1, SingleSession m.after.server 7 1 ∧ (askers m.after.server.db 1).length ≤ 50) ∧
      (r.2.toServer = [] ∧ r.2.toClient.length = 0 ∧ r.2.pending = none) ∧
      shownRequests r.2.client = [] ∧ askers r.2.server.db 1 = [3] := by decide +kernel
  obtain ⟨⟨past, s⟩, traced, seen⟩ := (Option.any_eq_true _ _).mp late
  obtain ⟨steps, ⟨toServer, toClient, pending⟩, shown, held⟩ := of_decide_eq_true seen
  have rest : AtRest s := ⟨toServer, List.length_eq_zero_iff.mp toClient, pending⟩
  have agree := claimed recordedPlatform recordedKey (fun _ => true) 7 1 twoAsk past s
    (.after twoAskSession twoAskSession_completes) twoAsk_seated (Run.start.trace traced)
    (fun m member => (steps m member).1) (fun m member => (steps m member).2) rest
  have same := agree.exactly.length_eq
  rw [shown, held] at same
  cases same

end MoT
