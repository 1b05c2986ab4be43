import MoT.Connections
import MoT.Routing

/-! To whom the packets go: what one connection is sent, whoever's packet caused it. -/
namespace MoT
open CMemory Relational Transition

variable {P : Platform} {key : Key} {env : Env} {s t : Server} {cli c : Client} {p : Pointer}
  {out : List Sent} {packet : Packet} {m : Sent} {u : UInt32}

/-- What the sender `cli` may cause to be sent to connection `c`: the lists that storage
has for the user of `c`, texts of conversations that user takes part in, and for `cli`
itself the answers. -/
def Rightful (env : Env) (t : Server) (cli c : Client) : Packet → Prop
  | .respConversations conversations =>
    conversations = storageGetUserConversations env.plan t.db c.uid 50
  | .respContacts contacts => contacts = storageGetContactsData env.plan t.db c.uid 50
  | .respRequests requests => requests = storageGetRequestsData env.plan t.db c.uid 50
  | .rteText message => c.isOnline = true ∧ Participant t.db message.convId c.uid ∧
      message.senderUid = cli.uid ∧ c.uid ≠ cli.uid
  | _ => c.fd = cli.fd

def Addressed (env : Env) (t : Server) (cli : Client) (m : Sent) : Prop :=
  ∃ c ∈ t.clients, c.fd = m.fd ∧ (c.fd = cli.fd ∨ c.isOnline = true) ∧
    Rightful env t cli c m.packet

theorem Addressed.reply (member : cli ∈ t.clients) (rightful : Rightful env t cli cli packet) :
    Addressed env t cli ⟨cli.fd, packet⟩ :=
  ⟨cli, member, rfl, .inl rfl, rightful⟩

theorem Addressed.answer (same : t.clients.map Client.fd = s.clients.map Client.fd)
    (member : cli ∈ s.clients) (rightful : ∀ c : Client, c.fd = cli.fd →
      Rightful env t cli c packet) : Addressed env t cli ⟨cli.fd, packet⟩ := by
  have listed : cli.fd ∈ t.clients.map Client.fd := same ▸ List.mem_map.mpr ⟨cli, member, rfl⟩
  obtain ⟨c, there, fd⟩ := List.mem_map.mp listed
  exact ⟨c, there, fd, .inl fd, rightful c fd⟩

theorem Addressed.push (pushed : m ∈ pushTo t u packet)
    (rightful : ∀ c : Client, c.uid = u → c.isOnline = true → Rightful env t cli c packet) :
    Addressed env t cli m := by
  rcases pushTo_cases t u packet with ⟨c, member, uid, online, pushes⟩ | ⟨-, silent⟩
  · rw [pushes, List.mem_singleton] at pushed
    subst pushed
    exact ⟨c, member, rfl, .inr online, rightful c uid online⟩
  · rw [silent] at pushed
    cases pushed

theorem Addressed.conversations (pushed : m ∈ pushConversations env t u) :
    Addressed env t cli m := by
  refine Addressed.push pushed fun c uid _ => ?_
  rw [Rightful, uid]

theorem Addressed.each {uids : List UInt32}
    (pushed : m ∈ uids.flatMap fun uid => pushConversations env t uid) :
    Addressed env t cli m := by
  obtain ⟨uid, -, sent⟩ := List.mem_flatMap.mp pushed
  exact .conversations sent

theorem Addressed.others {uids : List UInt32} {excluded : UInt32}
    (pushed : m ∈ uids.flatMap fun uid =>
      if uid = excluded then [] else pushConversations env t uid) : Addressed env t cli m := by
  obtain ⟨uid, -, sent⟩ := List.mem_flatMap.mp pushed
  split at sent
  · cases sent
  · exact .conversations sent

theorem sendText_addressed (reached : Reachable (server P key) s)
    (done : handleSendText P env s cli p = .ok (t, out)) (sent : m ∈ out) :
    Addressed env t cli m := by
  obtain ⟨k, text, -, -, after, rfl⟩ := handleSendText_ok done
  obtain ⟨uid, member, pushed⟩ := List.mem_flatMap.mp sent
  split at pushed
  · cases pushed
  · rename_i other
    obtain ⟨messages, logged⟩ := storageLogMessage_frame P (some s.masterKey) env.randBytes env.now
      s.db k cli.uid text
    have bound : ∀ r ∈ t.db.participants.rows, ∃ u, r.userId = bindInt u := by
      have before := participants_bound reached
      rw [after, logged]
      exact before
    obtain ⟨r, early, user⟩ := (mem_storageGetConvParticipants bound).mp member
    refine Addressed.push pushed fun c same online => ⟨online, ⟨r, ?_, ?_⟩, rfl, ?_⟩
    · exact mem_firstParticipants early
    · rw [same]
      exact user
    · rw [same]
      exact other

/- The lists about the new conversation are computed before the request goes, and say
the same after it. -/
theorem decideRequest_addressed (member : cli ∈ s.clients)
    (done : handleDecideRequest env s cli p = .ok (t, out)) (sent : m ∈ out) :
    Addressed env t cli m := by
  obtain ⟨accepted, target, -, -, rfl, rfl⟩ := handleDecideRequest_ok done
  simp only [List.mem_append] at sent
  rcases sent with ((chat | contacts) | requests) | refresh
  · split at chat
    · rename_i yes
      simp only [acceptRequest] at chat
      split at chat
      · rename_i missing
        have conversations (uid : UInt32) : storageGetUserConversations env.plan
            (storageCreateConversation (storageAddFriendship s.db cli.uid target) convTypePrivate
              (CString.lit "Private Chat") CString.empty [cli.uid, target]).1 uid 50 =
            storageGetUserConversations env.plan
              (decideDb env.plan s.db cli.uid target accepted) uid 50 := by
          simp only [decideDb, if_pos yes, acceptDb, if_pos missing]
          rfl
        rcases List.mem_cons.mp chat with rfl | pushed
        · exact .reply member (conversations cli.uid)
        · refine Addressed.push (t := { s with db := _ }) pushed fun c uid _ => ?_
          rw [Rightful, uid]
          exact conversations target
      · cases chat
    · cases chat
  · cases List.mem_singleton.mp contacts
    exact .reply member rfl
  · cases List.mem_singleton.mp requests
    exact .reply member rfl
  · split at refresh
    · refine Addressed.push refresh fun c uid _ => ?_
      rw [Rightful, uid]
    · cases refresh

theorem dispatch_addressed {code : UInt32} (reached : Reachable (server P key) s)
    (member : cli ∈ s.clients) (done : dispatch P env s cli code p = .ok (t, out)) (sent : m ∈ out) :
    Addressed env t cli m := by
  unfold dispatch at done
  cases coded : MessageType.ofCode code with
  | none =>
    rw [coded] at done
    cases done
    cases sent
  | some type =>
    rw [coded] at done
    cases type with
    | register =>
      obtain ⟨_, _, _, -, -, -, ⟨rfl, rfl⟩ | ⟨_, _, _, -, -, rfl, rfl⟩⟩ := handleRegister_ok done
      · cases List.mem_singleton.mp sent
        exact .reply member rfl
      · cases List.mem_singleton.mp sent
        exact .reply member rfl
    | login =>
      obtain ⟨rfl, rfl⟩ | ⟨u, rfl, rfl, -⟩ := handleLogin_ok done
      · cases List.mem_singleton.mp sent
        exact .reply member rfl
      · cases List.mem_singleton.mp sent
        exact .answer (writeClient_fds cli.fd (signedIn u) (fun _ => rfl) s.clients) member
          fun _ same => same
    | updateUser =>
      obtain ⟨newUsername, _, -, -, -, clients, rfl⟩ := handleUpdateUser_ok done
      cases List.mem_singleton.mp sent
      refine .answer (s := s) ?_ member fun _ same => same
      rw [clients]
      split
      · apply writeClient_fds
        intro c
        rfl
      · rfl
    | sendText => exact sendText_addressed reached done sent
    | reqHistory =>
      obtain ⟨_, _, _, -, -, -, rfl, rfl⟩ := handleReqHistory_ok done
      cases List.mem_singleton.mp sent
      exact .reply member rfl
    | createConv =>
      obtain ⟨_, uids, _, -, -, -, ⟨-, rfl, rfl⟩ | ⟨-, _, _, -, -, rfl, rfl⟩⟩ :=
        handleCreateConv_ok done
      · cases List.mem_singleton.mp sent
        exact .reply member rfl
      · rcases List.mem_cons.mp sent with rfl | pushed
        · exact .reply member rfl
        · split at pushed
          · exact .others pushed
          · cases pushed
    | reqConversations =>
      cases done
      cases List.mem_singleton.mp sent
      exact .reply member rfl
    | updateGroup =>
      obtain ⟨_, -, ⟨-, rfl, rfl⟩ | ⟨-, _, _, -, -, -, rfl⟩⟩ := handleUpdateGroup_ok done
      · cases sent
      · exact .others sent
    | addMember =>
      obtain ⟨_, -, ⟨-, rfl, rfl⟩ | ⟨-, _, -, ⟨-, rfl, rfl⟩ | ⟨_, -, rfl, rfl⟩⟩⟩ :=
        handleAddMember_ok done
      · cases sent
      · cases sent
      · rcases List.mem_cons.mp sent with rfl | pushed
        · exact .reply member rfl
        · exact .others pushed
    | reqMembers =>
      obtain ⟨_, -, rfl, rfl⟩ := handleReqMembers_ok done
      cases List.mem_singleton.mp sent
      exact .reply member rfl
    | kickMember =>
      obtain ⟨_, -, ⟨-, rfl, rfl⟩ | ⟨-, _, -, ⟨-, rfl, rfl⟩ | ⟨-, rfl, rfl⟩⟩⟩ :=
        handleKickMember_ok done
      · cases sent
      · cases sent
      · rcases List.mem_append.mp sent with pushed | pushed
        · exact .others pushed
        · exact .conversations pushed
    | deleteGroup =>
      obtain ⟨_, -, ⟨-, rfl, rfl⟩ | ⟨-, -, rfl⟩⟩ := handleDeleteGroup_ok done
      · cases sent
      · exact .each sent
    | reqContacts =>
      cases done
      cases List.mem_singleton.mp sent
      exact .reply member rfl
    | getRequests =>
      cases done
      cases List.mem_singleton.mp sent
      exact .reply member rfl
    | addByCode =>
      obtain ⟨rfl, rfl, -⟩ | ⟨_, target, _, -, -, -, -, rfl, rfl⟩ := handleAddByCode_ok done
      · cases List.mem_singleton.mp sent
        exact .reply member rfl
      · rcases List.mem_cons.mp sent with rfl | pushed
        · exact .reply member rfl
        · refine Addressed.push pushed fun c uid _ => ?_
          rw [Rightful, uid]
    | decideRequest => exact decideRequest_addressed member done sent
    | _ =>
      cases done
      cases sent

/-- Whatever packet the server handles, each packet it sends reaches the sender or a
logged-in connection, and carries what the user of that connection is entitled to. -/
theorem packets_addressed (P : Platform) (key : Key) (s : Server)
    (reached : Reachable (server P key) s) (fd : Int) (code : UInt32) (bytes : List UInt8)
    (env : Env) (t : Server) (out : List Sent)
    (stepped : (server P key).step s (.packet fd code bytes env) = some (t, out)) :
    ∀ m ∈ out, ∃ cli c, getClientByFd fd s.clients = some cli ∧
      getClientByFd m.fd t.clients = some c ∧ (c.fd = fd ∨ c.isOnline = true) ∧
      Rightful env t cli c m.packet := by
  intro m sent
  have handled := (handleEvent_of_step stepped).2
  simp only [handleEvent] at handled
  split at handled
  · cases handled
    cases sent
  · rename_i cli listed
    obtain ⟨member, rfl⟩ := getClientByFd_some listed
    obtain ⟨c, there, same, answered, rightful⟩ := dispatch_addressed reached member handled sent
    have distinct := (reachable_connected (reached.step stepped)).distinct
    refine ⟨cli, c, listed, ?_, answered, rightful⟩
    rw [← same]
    exact getClientByFd_of_mem distinct there

theorem packets_addressed_pair :
    ∃ t out, recordedServer.step pairState
        ((serviceSendText 1 (CString.lit "hi")).event 7 (recordedEnv 4)) = some (t, out) ∧
      out.map Sent.fd = [8] ∧
      ∀ m ∈ out, ∃ cli c, getClientByFd 7 pairState.clients = some cli ∧
        getClientByFd m.fd t.clients = some c ∧ (c.fd = 7 ∨ c.isOnline = true) ∧
        Rightful (recordedEnv 4) t cli c m.packet := by
  have reaches : (recordedServer.step pairState
      ((serviceSendText 1 (CString.lit "hi")).event 7 (recordedEnv 4))).map
        (fun result => result.2.map Sent.fd) = some [8] := by decide +kernel
  obtain ⟨⟨t, out⟩, stepped, bob⟩ := Option.map_eq_some_iff.mp reaches
  exact ⟨t, out, stepped, bob, packets_addressed recordedPlatform recordedKey _
    (.after pairSession pairSession_completes) 7 _ _ _ t out stepped⟩

/-- The packets the connection has sent since it was accepted, oldest first. -/
def requests (fd : Int) : List ServerMoment → List ServerMoment
  | [] => []
  | m :: past =>
    if m.event.fd ≠ fd then requests fd past
    else match m.event with
      | .packet .. => requests fd past ++ [m]
      | _ => []

def sentTo (fd : Int) (out : List Sent) : List Packet :=
  (out.filter fun m => m.fd = fd).map Sent.packet

/-- The packets it has been sent since then, oldest first. -/
def received (fd : Int) : List ServerMoment → List Packet
  | [] => []
  | m :: past =>
    if m.event.fd ≠ fd then received fd past ++ sentTo fd m.output
    else match m.event with
      | .packet .. => received fd past ++ sentTo fd m.output
      | _ => []

/-- The packet is all that this moment sends, and it answers a register or a login. What
a client that reads it takes for the outcome is the outcome. -/
structure Answers (fd : Int) (m : ServerMoment) (answer : Packet) : Prop where
  only : m.output = [⟨fd, answer⟩]
  register : packetType m = some .register →
    (answer = .registerSuccess ∨ answer = .registerFail) ∧
    (serviceRegisterReturns answer = true ↔
      m.after.db.users.entries ≠ m.before.db.users.entries)
  login : packetType m = some .login →
    (answer = .loginFail ∨ ∃ info, answer = .loginSuccess info) ∧
    ∀ u, (∃ info, serviceLoginReturns answer = some info ∧ info.uid = u) ↔
      ∃ c, getClientByFd fd m.after.clients = some c ∧ c.uid = u ∧ c.isOnline = true

/-- Every packet has its answer, in order; what else arrives comes after the answer to
the last packet, and only if that was a login with success. -/
def Lockstep (fd : Int) (past : List ServerMoment) : Prop :=
  ∃ answers pushes, received fd past = answers ++ pushes ∧
    List.Forall₂ (Answers fd) (requests fd past) answers ∧
    (pushes ≠ [] → ∃ m ∈ (requests fd past).getLast?, loggedIn m ≠ none)

theorem sessions_of_failed {fd : Int} {past : List ServerMoment}
    (failed : ∀ m ∈ requests fd past, loggedIn m = none) (u : UInt32) :
    sessions past fd ≠ some (some u) := by
  induction past with
  | nil => simp [sessions]
  | cons m past ih =>
    obtain ⟨s, e, t, out⟩ := m
    by_cases other : e.fd ≠ fd
    · rw [sessions_of_ne other]
      rw [requests, if_pos other] at failed
      exact ih failed
    · rw [requests, if_neg other] at failed
      obtain rfl := not_not.mp other
      cases e with
      | connect fd => simp [sessions, Event.fd]
      | disconnect fd => simp [sessions, Event.fd]
      | packet fd code bytes env =>
        simp only [List.mem_append, List.mem_singleton] at failed
        have refused := failed _ (.inr rfl)
        simp only [sessions, refused]
        exact ih fun m member => failed m (.inl member)

theorem register_answers {fd : Int} {code : UInt32} {bytes : List UInt8} (sender : cli.fd = fd)
    (type : MessageType.ofCode code = some .register)
    (done : handleRegister P env s cli p = .ok (t, out)) :
    ∃ answer, Answers fd ⟨s, .packet fd code bytes env, t, out⟩ answer := by
  have notLogin : packetType ⟨s, .packet fd code bytes env, t, out⟩ ≠ some .login := by
    simp [packetType, type]
  obtain ⟨_, _, _, -, -, -, ⟨rfl, rfl⟩ | ⟨_, users, uid, -, inserted, rfl, rfl⟩⟩ :=
    handleRegister_ok done
  · refine ⟨.registerFail, by rw [sender], fun _ => ⟨.inr rfl, ?_⟩, fun login => absurd login notLogin⟩
    simp [serviceRegisterReturns]
  · refine ⟨.registerSuccess, by rw [sender], fun _ => ⟨.inl rfl, ?_⟩,
      fun login => absurd login notLogin⟩
    have grown := (AutoTable.insert?_spec inserted).1
    simp [serviceRegisterReturns, grown]

theorem login_answers {fd : Int} {code : UInt32} {bytes : List UInt8}
    (listed : getClientByFd fd s.clients = some cli) (guest : cli.isOnline = false)
    (type : MessageType.ofCode code = some .login)
    (done : handleLogin P s cli p = .ok (t, out)) :
    ∃ answer, Answers fd ⟨s, .packet fd code bytes env, t, out⟩ answer := by
  have notRegister : packetType ⟨s, .packet fd code bytes env, t, out⟩ ≠ some .register := by
    simp [packetType, type]
  have sender := (getClientByFd_some listed).2
  obtain ⟨rfl, rfl⟩ | ⟨v, rfl, rfl, -⟩ := handleLogin_ok done
  · refine ⟨.loginFail, by rw [sender], fun register => absurd register notRegister,
      fun _ => ⟨.inl rfl, fun u => ?_⟩⟩
    simp [serviceLoginReturns, listed, guest]
  · refine ⟨.loginSuccess (loginInfo v), by rw [sender],
      fun register => absurd register notRegister, fun _ => ⟨.inr ⟨_, rfl⟩, fun u => ?_⟩⟩
    have written : getClientByFd fd (writeClient cli.fd (signedIn v) s.clients) =
        some (signedIn v cli) := by
      rw [getClientByFd_writeClient cli.fd (f := signedIn v) (fun _ => rfl), if_pos sender, sender,
        listed, Option.map_some]
    simp [serviceLoginReturns, written, loginInfo, signedIn]

theorem pushed_to_online {fd : Int} {code : UInt32} {bytes : List UInt8}
    (reached : Reachable (server P key) s)
    (stepped : (server P key).step s (.packet fd code bytes env) = some (t, out))
    (sent : m ∈ out) (other : m.fd ≠ fd) : ∃ c ∈ t.clients, c.fd = m.fd ∧ c.isOnline = true := by
  have handled := (handleEvent_of_step stepped).2
  simp only [handleEvent] at handled
  split at handled
  · cases handled
    cases sent
  · rename_i cli listed
    obtain ⟨member, sender⟩ := getClientByFd_some listed
    obtain ⟨c, there, here, own | online, -⟩ := dispatch_addressed reached member handled sent
    · exact absurd (here.symm.trans (own.trans sender)) other
    · exact ⟨c, there, here, online⟩

/- What another connection's packet sends here finds somebody logged in. -/
theorem pushed_online {fd fd' : Int} {code : UInt32} {bytes : List UInt8}
    {past : List ServerMoment} (run : Run (server P key) past s) (other : fd' ≠ fd)
    (stepped : (server P key).step s (.packet fd' code bytes env) = some (t, out))
    (pushed : sentTo fd out ≠ []) : ∃ u, sessions past fd = some (some u) := by
  obtain ⟨packet, member⟩ := List.exists_mem_of_ne_nil _ pushed
  obtain ⟨m, selected, -⟩ := List.mem_map.mp member
  obtain ⟨sent, same⟩ := List.mem_filter.mp selected
  obtain rfl := of_decide_eq_true same
  obtain ⟨c, there, here, online⟩ := pushed_to_online run.reachable stepped sent (Ne.symm other)
  obtain ⟨session, isOpen, stands⟩ := (run_refines (run.step stepped)).session there
  rw [online] at stands
  rw [here, sessions_of_ne (e := .packet fd' code bytes env) other, standing_eq_online stands]
    at isOpen
  exact ⟨c.uid, isOpen⟩

/-- Only registers and logins so far, and no login before the last packet succeeded. -/
structure Preliminary (fd : Int) (past : List ServerMoment) : Prop where
  only : ∀ m ∈ requests fd past, packetType m = some .register ∨ packetType m = some .login
  failed : ∀ m ∈ (requests fd past).dropLast, loggedIn m = none

theorem Preliminary.last {fd : Int} {past : List ServerMoment} (preliminary : Preliminary fd past)
    {u : UInt32} (session : sessions past fd = some (some u)) :
    ∃ m ∈ (requests fd past).getLast?, loggedIn m ≠ none := by
  by_contra none
  push Not at none
  refine sessions_of_failed (fun m member => ?_) u session
  cases ending : (requests fd past).getLast? with
  | none =>
    rw [List.getLast?_eq_none_iff.mp ending] at member
    cases member
  | some last =>
    rw [← List.dropLast_append_getLast? last ending, List.mem_append, List.mem_singleton] at member
    rcases member with earlier | rfl
    · exact preliminary.failed m earlier
    · exact none m ending

theorem Lockstep.step_other {fd : Int} {e : Event} {past : List ServerMoment}
    (run : Run (server P key) past s) (stepped : (server P key).step s e = some (t, out))
    (other : e.fd ≠ fd) (preliminary : Preliminary fd past) (lockstep : Lockstep fd past) :
    Lockstep fd (⟨s, e, t, out⟩ :: past) := by
  obtain ⟨answers, pushes, stream, answered, late⟩ := lockstep
  refine ⟨answers, pushes ++ sentTo fd out, ?_, ?_, fun more => ?_⟩
  · rw [received, if_pos other, stream, List.append_assoc]
  · rw [requests, if_pos other]
    exact answered
  · rw [requests, if_pos other]
    by_cases quiet : pushes = []
    · rw [quiet, List.nil_append] at more
      obtain ⟨-, handled⟩ := handleEvent_of_step stepped
      cases e with
      | connect fd' =>
        cases handled
        exact absurd rfl more
      | disconnect fd' =>
        cases handled
        exact absurd rfl more
      | packet fd' code bytes env =>
        obtain ⟨u, session⟩ := pushed_online run other stepped more
        exact preliminary.last session
    · exact late quiet

theorem Lockstep.step_own {fd : Int} {code : UInt32} {bytes : List UInt8}
    {past : List ServerMoment} (run : Run (server P key) past s)
    (listed : getClientByFd fd s.clients = some cli)
    (handled : dispatch P env s cli code (deliver bytes) = .ok (t, out))
    (failed : ∀ m ∈ requests fd past, loggedIn m = none)
    (type : MessageType.ofCode code = some .register ∨ MessageType.ofCode code = some .login)
    (lockstep : Lockstep fd past) :
    Lockstep fd (⟨s, .packet fd code bytes env, t, out⟩ :: past) := by
  obtain ⟨answers, pushes, stream, answered, late⟩ := lockstep
  have quiet : pushes = [] := by
    by_contra more
    obtain ⟨m, last, succeeded⟩ := late more
    exact succeeded (failed m (List.mem_of_getLast? last))
  obtain ⟨member, sender⟩ := getClientByFd_some listed
  obtain ⟨session, isOpen, stands⟩ := (run_refines run).session member
  have guest : cli.isOnline = false := by
    cases session with
    | none => exact (Prod.mk.inj stands).2.symm
    | some u => exact absurd (sender ▸ isOpen) (sessions_of_failed failed u)
  have own : ∃ answer, Answers fd ⟨s, .packet fd code bytes env, t, out⟩ answer := by
    rcases type with register | login
    · simp only [dispatch, register] at handled
      exact register_answers sender register handled
    · simp only [dispatch, login] at handled
      exact login_answers listed guest login handled
  obtain ⟨answer, answers'⟩ := own
  have here : ¬ (Event.packet fd code bytes env).fd ≠ fd := fun other => other rfl
  have only : out = [⟨fd, answer⟩] := answers'.only
  refine ⟨answers ++ [answer], [], ?_, ?_, fun more => absurd rfl more⟩
  · rw [received, if_neg here, stream, quiet]
    simp [sentTo, only]
  · rw [requests, if_neg here]
    exact List.rel_append answered (.cons answers' .nil)

theorem run_lockstep {past : List ServerMoment} (run : Run (server P key) past s) :
    ∀ fd, (sessions past fd).isSome → Preliminary fd past → Lockstep fd past := by
  refine run.invariant (fun past _ => ∀ fd, (sessions past fd).isSome → Preliminary fd past →
    Lockstep fd past) ?_ ?_
  · exact fun fd _ _ => ⟨[], [], rfl, .nil, fun more => absurd rfl more⟩
  · intro past s e t out run ih stepped fd isOpen preliminary
    by_cases other : e.fd ≠ fd
    · have before : Preliminary fd past := by
        have same : requests fd (⟨s, e, t, out⟩ :: past) = requests fd past := if_pos other
        exact ⟨same ▸ preliminary.only, same ▸ preliminary.failed⟩
      rw [sessions_of_ne other] at isOpen
      exact .step_other run stepped other before (ih fd isOpen before)
    · obtain rfl := not_not.mp other
      cases e with
      | connect fd => exact ⟨[], [], by simp [received, Event.fd], by simp [requests, Event.fd],
          fun more => absurd rfl more⟩
      | disconnect fd => simp [sessions, Event.fd] at isOpen
      | packet fd code bytes env =>
        have grown : requests fd (⟨s, .packet fd code bytes env, t, out⟩ :: past) =
            requests fd past ++ [⟨s, .packet fd code bytes env, t, out⟩] :=
          if_neg fun other => other rfl
        obtain ⟨only, failed⟩ := preliminary
        simp only [Event.fd, grown, List.dropLast_concat, List.mem_append, List.mem_singleton]
          at only failed
        obtain ⟨-, handled⟩ := handleEvent_of_step stepped
        cases listed : getClientByFd fd s.clients with
        | none =>
          -- the packet of a closed connection leaves it closed
          rw [handleEvent, listed] at handled
          cases handled
          have found := ((run_refines (run.step stepped)).open_iff fd).mpr isOpen
          rw [getClientByFd_removeClient fd fd (run_refines run).distinct, if_pos rfl] at found
          cases found
        | some cli =>
          have opened := ((run_refines run).open_iff fd).mp (Option.isSome_of_eq_some listed)
          have before : Preliminary fd past := ⟨fun m member => only m (.inl member),
            fun m member => failed m (List.dropLast_subset _ member)⟩
          simp only [handleEvent, listed] at handled
          exact .step_own run listed handled failed (only _ (.inr rfl)) (ih fd opened before)

/-- Over all interleavings: while a connection has only registered and logged in, and no
login before its last packet succeeded, what it reads is its own answers in order. -/
theorem login_lockstep (P : Platform) (key : Key) (past : List ServerMoment) (s : Server)
    (run : Run (server P key) past s) (fd : Int) (cli : Client)
    (listed : getClientByFd fd s.clients = some cli)
    (only : ∀ m ∈ requests fd past, packetType m = some .register ∨ packetType m = some .login)
    (failed : ∀ m ∈ (requests fd past).dropLast, loggedIn m = none) :
    ∃ answers pushes, received fd past = answers ++ pushes ∧
      List.Forall₂ (Answers fd) (requests fd past) answers ∧
      (pushes ≠ [] → ∃ m ∈ (requests fd past).getLast?, loggedIn m ≠ none) := by
  have opened := ((run_refines run).open_iff fd).mp (Option.isSome_of_eq_some listed)
  exact run_lockstep run fd opened ⟨only, failed⟩

def askedSession : List Event :=
  aliceArrives ++ bobArrives ++
    [(serviceAddContact (CString.lit "000001")).event 8 (recordedEnv 3)]

theorem askedSession_recorded :
    (recordedServer.trace [] recordedServer.start askedSession).isSome := by decide +kernel

theorem login_lockstep_asked :
    ∃ answers pushes,
      received 7 (recordedServer.history askedSession askedSession_recorded).1 =
        answers ++ pushes ∧
      answers.length = 2 ∧ pushes ≠ [] := by
  -- The session is run once for all that is to be read off it.
  have seen : getClientByFd 7 (recordedServer.history askedSession askedSession_recorded).2.clients
        = some ⟨7, 1, strncpy maxNameLen (CString.lit "alice"), true⟩ ∧
      (∀ m ∈ requests 7 (recordedServer.history askedSession askedSession_recorded).1,
        packetType m = some .register ∨ packetType m = some .login) ∧
      (∀ m ∈ (requests 7
        (recordedServer.history askedSession askedSession_recorded).1).dropLast,
          loggedIn m = none) ∧
      (requests 7 (recordedServer.history askedSession askedSession_recorded).1).length = 2 ∧
      (received 7 (recordedServer.history askedSession askedSession_recorded).1).length = 3 := by
    decide +kernel
  obtain ⟨listed, only, failed, counts⟩ := seen
  have run : Run recordedServer (recordedServer.history askedSession askedSession_recorded).1
      (recordedServer.history askedSession askedSession_recorded).2 :=
    .history askedSession askedSession_recorded
  obtain ⟨answers, pushes, stream, answered, -⟩ :=
    login_lockstep recordedPlatform recordedKey _ _ run 7 _ listed only failed
  have length := answered.length_eq
  refine ⟨answers, pushes, stream, by omega, fun none => ?_⟩
  rw [stream, none, List.append_nil] at counts
  omega

def fullSize (m : ServerMoment) : Bool :=
  match m.event with
  | .packet _ code bytes _ =>
    match MessageType.ofCode code with
    | some .register => bytes.length = maxEmailLen + maxNameLen + maxPassLen
    | some .login => bytes.length = maxEmailLen + maxPassLen
    | _ => false
  | _ => false

def interruptedSession : List Event :=
  askedSession ++ [(serviceRegister (CString.lit "c@x") (CString.lit "carol")
    (CString.lit "pw")).event 7 (recordedEnv 4)]

theorem interruptedSession_recorded :
    (recordedServer.trace [] recordedServer.start interruptedSession).isSome := by decide +kernel

abbrev interruptedHistory :=
  recordedServer.history interruptedSession interruptedSession_recorded

theorem push_between_answers :
    ¬ ∀ (P : Platform) (key : Key) (past : List ServerMoment) (s : Server),
      Run (server P key) past s → ∀ (fd : Int) (cli : Client),
      getClientByFd fd s.clients = some cli →
      (∀ m ∈ requests fd past, packetType m = some .register ∨ packetType m = some .login) →
      (∀ m ∈ requests fd past, fullSize m) →
      (∀ m ∈ ((requests fd past).filter fun m => packetType m = some .login).dropLast,
        loggedIn m = none) →
      ∃ answers pushes, received fd past = answers ++ pushes ∧
        List.Forall₂ (Answers fd) (requests fd past) answers := by
  intro claimed
  have seen : getClientByFd 7 interruptedHistory.2.clients =
        some ⟨7, 1, strncpy maxNameLen (CString.lit "alice"), true⟩ ∧
      (∀ m ∈ requests 7 interruptedHistory.1,
        packetType m = some .register ∨ packetType m = some .login) ∧
      (∀ m ∈ requests 7 interruptedHistory.1, fullSize m) ∧
      (∀ m ∈ ((requests 7 interruptedHistory.1).filter fun m =>
        packetType m = some .login).dropLast, loggedIn m = none) ∧
      (requests 7 interruptedHistory.1).map packetType =
        [some .register, some .login, some .register] ∧
      ∀ packet ∈ (received 7 interruptedHistory.1)[2]?,
        packet ≠ .registerSuccess ∧ packet ≠ .registerFail := by decide +kernel
  obtain ⟨listed, only, full, failed, types, pushed⟩ := seen
  have run : Run recordedServer interruptedHistory.1 interruptedHistory.2 :=
    .history interruptedSession interruptedSession_recorded
  obtain ⟨answers, pushes, stream, answered⟩ := claimed recordedPlatform recordedKey
    interruptedHistory.1 interruptedHistory.2 run 7 _ listed only full failed
  have three : 2 < (requests 7 interruptedHistory.1).length := by
    rw [← List.length_map packetType, types]
    decide
  have third : 2 < answers.length := answered.length_eq ▸ three
  have answer := answered.get three third
  have register := congrArg (fun types => types[2]?) types
  rw [List.getElem?_map, List.getElem?_eq_getElem three] at register
  have place : answers.get ⟨2, third⟩ ∈ (received 7 interruptedHistory.1)[2]? := by
    rw [stream, List.getElem?_append_left third]
    exact List.getElem?_eq_getElem third
  rcases (answer.register (Option.some.inj register)).1 with success | fail
  · exact (pushed _ place).1 success
  · exact (pushed _ place).2 fail

end MoT
