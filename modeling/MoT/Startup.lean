import MoT.Session

/-! The exchange before a login is accepted: the client sends one request from the start menu,
and the server answers it before anything else goes to that connection. -/
namespace MoT
open CMemory Relational Transition

variable {P : Platform} {key : Key} {env : Env} {out : List Sent} {uid : UInt32} {fd : Int}

def mails (db : Database) : List (Int × CString) :=
  db.users.entries.map fun e => (e.rowid, e.row.email)

theorem mails_updateUsers (db : Database) (uid : UInt32) {f : UserRow → UserRow}
    (keeps : ∀ r, (f r).email = r.email) : mails (updateUsers db uid f) = mails db := by
  simp only [updateUsers]
  cases updated : db.users.updateWhere? (fun e => e.rowid = bindInt uid) f with
  | none => rfl
  | some users =>
    rw [Option.getD_some, mails, mails, (AutoTable.updateWhere?_spec updated).1, List.map_map]
    refine List.map_congr_left fun e _ => ?_
    simp only [Function.comp_apply, AutoTable.assign]
    split
    · rw [keeps]
    · rfl

theorem mails_storageUpdateUser (P : Platform) (db : Database) (salt : List.Vector (Fin 64) 16)
    (uid : UInt32) (name password : CString) :
    mails (storageUpdateUser P db salt uid name password) = mails db := by
  have renamed : mails (if name.length > 0 then updateUsers db uid fun r => { r with username := name }
      else db) = mails db := by
    split
    · exact mails_updateUsers db uid fun _ => rfl
    · rfl
  unfold storageUpdateUser
  dsimp only
  split
  · split
    · exact renamed
    · rename_i hash _
      exact (mails_updateUsers (f := fun r => { r with passwordHash := hash }) _ uid fun _ => rfl).trans
        renamed
  · exact renamed

theorem step_mails {s t : Server} {e : Event} (stepped : serverStep P s e = some (t, out))
    {n : Int × CString} (member : n ∈ mails s.db) : n ∈ mails t.db := by
  have moved : (server P s.masterKey).step s e = some (t, out) := stepped
  rcases step_accounts moved with ⟨same, -⟩ | ⟨fd, code, bytes, env, cli, -, -, change⟩
  · rw [same]
    exact member
  · generalize MessageType.ofCode code = type at change
    cases change with
    | same _ _ users | login _ _ _ _ _ users =>
      rw [mails, users]
      exact member
    | register _ _ _ _ _ _ _ _ _ inserted =>
      rw [mails, (AutoTable.insert?_spec inserted).1, List.map_append]
      exact List.mem_append_left _ member
    | updateUser newUsername newPassword _ db =>
      rw [db, mails_storageUpdateUser]
      exact member

def Identifies (db : Database) (r : Request) (uid : UInt32) : Prop :=
  ∃ n ∈ mails db, readString (deliver r.2) LoginPayload.email = .ok n.2 ∧ columnInt n.1 = uid

theorem Identifies.unique {db : Database} {r : Request} {u v : UInt32} (first : Identifies db r u)
    (second : Identifies db r v) : u = v := by
  obtain ⟨n, member, read, rfl⟩ := first
  obtain ⟨n', member', read', rfl⟩ := second
  obtain ⟨e, he, rfl⟩ := List.mem_map.mp member
  obtain ⟨e', he', rfl⟩ := List.mem_map.mp member'
  have email : e.row.email = e'.row.email := Except.ok.inj (read.symm.trans read')
  rw [same_email he he' email]

/-- The login request has the right password for the account that it names. -/
def Opens (P : Platform) (db : Database) (r : Request) (uid : UInt32) : Prop :=
  ∃ e ∈ db.users.entries, columnInt e.rowid = uid ∧
    readString (deliver r.2) LoginPayload.email = .ok e.row.email ∧
    ∃ password, readString (deliver r.2) LoginPayload.password = .ok password ∧
      P.crypt password e.row.passwordHash = some e.row.passwordHash

theorem Opens.identifies {db : Database} {r : Request} (opens : Opens P db r uid) :
    Identifies db r uid := by
  obtain ⟨e, member, same, readEmail, -⟩ := opens
  exact ⟨(e.rowid, e.row.email), List.mem_map_of_mem member, readEmail, same⟩

theorem MachineEffect.identifies {s t : Machine} {e : MachineEvent} {r : Request}
    (effect : MachineEffect P s e t) (identifies : Identifies s.server.db r uid) :
    Identifies t.server.db r uid := by
  rcases effect.handles with same | ⟨e, out, -, handled⟩
  · rw [same]
    exact identifies
  · obtain ⟨n, member, named⟩ := identifies
    exact ⟨n, step_mails handled member, named⟩

/-- The server knows the connection, and nobody is logged in on it. -/
def Anonymous (s : Server) (fd : Int) : Prop :=
  ∃ cli, getClientByFd fd s.clients = some cli ∧ cli.isOnline = false

theorem anonymous_connected {s t : Server}
    (stepped : serverStep P s (.connect fd) = some (t, out)) :
    Anonymous t fd := by
  have moved : (server P s.masterKey).step s (.connect fd) = some (t, out) := stepped
  obtain ⟨-, handled⟩ := handleEvent_of_step moved
  cases handled
  exact ⟨_, by rw [addClient, getClientByFd_cons, if_pos rfl], rfl⟩

theorem step_other_node {s t : Server} (reached : Reachable (server P key) s) {e : Event}
    (stepped : (server P key).step s e = some (t, out)) (other : e.fd ≠ fd) :
    getClientByFd fd t.clients = getClientByFd fd s.clients := by
  have distinct := (reachable_connected reached).distinct
  obtain ⟨-, handled⟩ := handleEvent_of_step stepped
  cases e with
  | connect fd' =>
    cases handled
    exact (getClientByFd_cons fd _ s.clients).trans (if_neg other)
  | disconnect fd' =>
    cases handled
    exact (getClientByFd_removeClient fd' fd distinct).trans (if_neg other)
  | packet fd' code bytes env =>
    simp only [handleEvent] at handled
    split at handled
    · cases handled
      exact (getClientByFd_removeClient fd' fd distinct).trans (if_neg other)
    · rename_i cli listed
      have sender : cli.fd ≠ fd := (getClientByFd_some listed).2 ▸ other
      have apart {f : Client → Client} (keeps : ∀ c, (f c).fd = c.fd) :
          getClientByFd fd (writeClient cli.fd f s.clients) = getClientByFd fd s.clients := by
        rw [getClientByFd_writeClient _ keeps, if_neg sender]
      rcases dispatch_clients handled with same | ⟨uid, username, -, written⟩ | ⟨username, -, written⟩
      · rw [same]
      · rw [written]
        exact apart fun _ => rfl
      · rw [written]
        exact apart fun _ => rfl

theorem Anonymous.step_other {s t : Server} (reached : Reachable (server P key) s) {e : Event}
    (stepped : (server P key).step s e = some (t, out)) (other : e.fd ≠ fd)
    (anonymous : Anonymous s fd) :
    Anonymous t fd ∧ sentTo fd out = [] := by
  obtain ⟨cli, listed, offline⟩ := anonymous
  have listed' := step_other_node reached stepped other ▸ listed
  refine ⟨⟨cli, listed', offline⟩, ?_⟩
  by_contra pushed
  obtain ⟨packet, member⟩ := List.exists_mem_of_ne_nil _ pushed
  obtain ⟨m, selected, -⟩ := List.mem_map.mp member
  obtain ⟨sent, here⟩ := List.mem_filter.mp selected
  obtain rfl := of_decide_eq_true here
  cases e with
  | connect fd' | disconnect fd' =>
    cases (handleEvent_of_step stepped).2
    cases sent
  | packet fd' code bytes env =>
    obtain ⟨c, there, same, online⟩ := pushed_to_online reached stepped sent (Ne.symm other)
    obtain ⟨member, node⟩ := getClientByFd_some listed'
    have self := (reachable_connected (reached.step stepped)).same there member (same.trans node.symm)
    rw [self, offline] at online
    cases online

theorem Anonymous.login {s t : Server} {r : Request} (anonymous : Anonymous s fd)
    (login : r.1 = .login) (stepped : serverStep P s (r.event fd env) = some (t, out)) :
    t.db = s.db ∧ (t = s ∧ out = [⟨fd, .loginFail⟩] ∨
      ∃ info, out = [⟨fd, .loginSuccess info⟩] ∧ Opens P s.db r info.uid) := by
  obtain ⟨cli, listed, -⟩ := anonymous
  have sender := (getClientByFd_some listed).2
  have moved : (server P s.masterKey).step s (r.event fd env) = some (t, out) := stepped
  obtain ⟨-, handled⟩ := handleEvent_of_step moved
  simp only [Request.event, handleEvent, listed, dispatch, MessageType.ofCode_code, login] at handled
  rcases handleLogin_ok handled with
    ⟨rfl, rfl⟩ | ⟨v, rfl, rfl, email, password, readEmail, readPassword, checked⟩
  · exact ⟨rfl, .inl ⟨rfl, by rw [sender]⟩⟩
  · obtain ⟨e, member, rfl, hashed, rfl⟩ := storageCheckCredentials_ok checked
    exact ⟨rfl, .inr ⟨loginInfo (accountOf e), by rw [sender],
      ⟨e, member, rfl, readEmail, password, readPassword, hashed⟩⟩⟩

theorem Anonymous.register {s t : Server} {r : Request} (anonymous : Anonymous s fd)
    (register : r.1 = .register) (stepped : serverStep P s (r.event fd env) = some (t, out)) :
    t.clients = s.clients ∧ ∃ answer, out = [⟨fd, answer⟩] ∧ serviceLoginReturns answer = none := by
  obtain ⟨cli, listed, -⟩ := anonymous
  have sender := (getClientByFd_some listed).2
  have moved : (server P s.masterKey).step s (r.event fd env) = some (t, out) := stepped
  obtain ⟨-, handled⟩ := handleEvent_of_step moved
  simp only [Request.event, handleEvent, listed, dispatch, MessageType.ofCode_code, register]
    at handled
  obtain ⟨_, _, _, -, -, -, ⟨rfl, rfl⟩ | ⟨_, _, _, -, -, rfl, rfl⟩⟩ := handleRegister_ok handled
  · exact ⟨rfl, .registerFail, by rw [sender], rfl⟩
  · exact ⟨rfl, .registerSuccess, by rw [sender], rfl⟩

/-- The connection is closed, or known to the server with nobody logged in on it. -/
def Unnamed (s : Machine) : Prop := s.connected → Anonymous s.server s.fd

/-- How far a request from the start menu has come. What follows the answer to a login that
was accepted is for the main loop. -/
inductive Progress (s : Machine) (r : Request) : Prop
  | waiting (sent : s.toServer = if s.connected then [r] else []) (received : s.toClient = [])
      (unnamed : Unnamed s)
  | refused {answer : Packet} (sent : s.toServer = []) (received : s.toClient = [answer])
      (refusal : serviceLoginReturns answer = none) (unnamed : Unnamed s)
  | accepted {info : MyInfoPayload} {rest : List Packet} (login : r.1 = .login)
      (sent : s.toServer = []) (received : s.toClient = .loginSuccess info :: rest)
      (identifies : Identifies s.server.db r info.uid)

/-- What holds in each stage. -/
def InStep (s : Machine) : Prop :=
  match s.stage with
  | .closed | .inside _ => s.toServer = []
  | .menu => s.toServer = [] ∧ s.toClient = [] ∧ Unnamed s
  | .registering => ∃ r : Request, r.1 = .register ∧ Progress s r
  | .automatic => ∃ session, loadSession s.file = some session ∧ Progress s (sessionLogin session)
  | .loggingIn email password _ => Progress s (serviceLogin email password)

theorem Progress.begin {s : Machine} (r : Request) (sent : s.toServer = [])
    (received : s.toClient = []) (unnamed : Unnamed s) : Progress (s.request r) r := by
  refine .waiting ?_ received unnamed
  simp [Machine.request, sent]

theorem Unnamed.elsewhere {s : Machine} (reached : Reachable (server P key) s.server)
    {e : Event} {server' : Server} (unnamed : Unnamed s) (starting : s.stage.starting)
    (other : ¬ s.Held e.fd) (handled : serverStep P s.server e = some (server', out)) :
    (if s.connected then sentTo s.fd out else []) = [] ∧
      (s.connected → Anonymous server' s.fd) := by
  by_cases connected : s.connected
  · have distant : e.fd ≠ s.fd := fun same => other ⟨connected, starting, same⟩
    obtain ⟨kept, silent⟩ := (unnamed connected).step_other reached handled distant
    exact ⟨by rw [if_pos connected, silent], fun _ => kept⟩
  · exact ⟨if_neg connected, fun still => absurd still connected⟩

theorem Progress.elsewhere {s : Machine} {r : Request}
    (reached : Reachable (server P key) s.server) {e : Event} {server' : Server}
    (progress : Progress s r) (starting : s.stage.starting) (other : ¬ s.Held e.fd)
    (handled : serverStep P s.server e = some (server', out)) :
    Progress { s with
      server := server'
      toClient := s.toClient ++ if s.connected then sentTo s.fd out else [] } r := by
  cases progress with
  | waiting sent received unnamed =>
    obtain ⟨silent, unnamed⟩ := unnamed.elsewhere reached starting other handled
    exact .waiting sent (by rw [silent, List.append_nil, received]) unnamed
  | refused sent received refusal unnamed =>
    obtain ⟨silent, unnamed⟩ := unnamed.elsewhere reached starting other handled
    exact .refused sent (by rw [silent, List.append_nil, received]) refusal unnamed
  | accepted login sent received identifies =>
    obtain ⟨n, member, named⟩ := identifies
    have queue := congrArg (· ++ if s.connected then sentTo s.fd out else []) received
    exact .accepted login sent queue ⟨n, step_mails handled member, named⟩

theorem Progress.pending {s : Machine} {r first : Request} {rest : List Request}
    (progress : Progress s r) (queue : s.toServer = first :: rest) :
    first = r ∧ rest = [] ∧ s.connected = true ∧ s.toClient = [] ∧ Anonymous s.server s.fd := by
  cases progress with
  | waiting sent received unnamed =>
    by_cases connected : s.connected
    · rw [sent, if_pos connected] at queue
      cases queue
      exact ⟨rfl, rfl, connected, received, unnamed connected⟩
    · rw [sent, if_neg connected] at queue
      cases queue
  | refused sent | accepted _ sent =>
    rw [sent] at queue
    cases queue

theorem Progress.served {s : Machine} {r first : Request} {rest : List Request}
    (progress : Progress s r) (kind : r.1 = .login ∨ r.1 = .register)
    (queue : s.toServer = first :: rest) {server' : Server}
    (handled : serverStep P s.server (first.event s.fd env) = some (server', out)) :
    Progress { s with
      server := server'
      toServer := rest
      toClient := s.toClient ++ if s.connected then sentTo s.fd out else [] } r := by
  obtain ⟨rfl, rfl, connected, received, anonymous⟩ := progress.pending queue
  have only (answer : Packet) : s.toClient ++ (if s.connected then
      sentTo s.fd [⟨s.fd, answer⟩] else []) = [answer] := by
    simp [received, connected, sentTo]
  rcases kind with login | register
  · obtain ⟨db, ⟨rfl, rfl⟩ | ⟨info, rfl, opens⟩⟩ := anonymous.login login handled
    · exact .refused rfl (only .loginFail) rfl fun _ => anonymous
    · exact .accepted login rfl (only (.loginSuccess info)) (db ▸ opens.identifies)
  · obtain ⟨same, answer, rfl, refusal⟩ := anonymous.register register handled
    obtain ⟨cli, listed, offline⟩ := anonymous
    exact .refused rfl (only answer) refusal fun _ => ⟨cli, same ▸ listed, offline⟩

/- The server gives the connection up. What it had answered can still be read. -/
theorem Progress.dropped {s : Machine} {r : Request} (progress : Progress s r) {e : Event}
    {server' : Server} (handled : serverStep P s.server e = some (server', out)) :
    Progress { s with server := server', connected := false, toServer := [] } r := by
  cases progress with
  | waiting sent received unnamed => exact .waiting rfl received fun still => by cases still
  | refused sent received refusal unnamed =>
    exact .refused rfl received refusal fun still => by cases still
  | accepted login sent received identifies =>
    obtain ⟨n, member, named⟩ := identifies
    exact .accepted login rfl received ⟨n, step_mails handled member, named⟩

theorem Progress.settled {s : Machine} {r : Request} {first : Packet} {rest : List Packet}
    (progress : Progress s r) (queue : s.toClient = first :: rest)
    (refusal : serviceLoginReturns first = none) : s.toServer = [] ∧ rest = [] ∧ Unnamed s := by
  cases progress with
  | waiting sent received =>
    rw [received] at queue
    cases queue
  | refused sent received _ unnamed =>
    rw [received] at queue
    cases queue
    exact ⟨sent, rfl, unnamed⟩
  | accepted login sent received =>
    rw [received] at queue
    cases queue
    cases refusal

/- An answer that does is about the account that the request names. -/
theorem Progress.let_in {s : Machine} {r : Request} {first : Packet} {rest : List Packet}
    {info : MyInfoPayload} (progress : Progress s r) (queue : s.toClient = first :: rest)
    (acceptance : serviceLoginReturns first = some info) :
    s.toServer = [] ∧ r.1 = .login ∧ Identifies s.server.db r info.uid := by
  cases progress with
  | waiting sent received =>
    rw [received] at queue
    cases queue
  | refused sent received refusal =>
    rw [received] at queue
    cases queue
    rw [refusal] at acceptance
    cases acceptance
  | accepted login sent received identifies =>
    rw [received] at queue
    cases queue
    cases acceptance
    exact ⟨sent, login, identifies⟩

theorem InStep.moved {s t : Machine} (sound : InStep s) (stage : t.stage = s.stage)
    (file : t.file = s.file) (still : s.toServer = [] → t.toServer = [])
    (menu : s.stage = .menu → s.toServer = [] → s.toClient = [] → Unnamed s →
      t.toClient = [] ∧ Unnamed t)
    (progress : ∀ r : Request, s.stage.starting → (r.1 = .login ∨ r.1 = .register) →
      Progress s r → Progress t r) : InStep t := by
  unfold InStep at sound ⊢
  rw [stage, file]
  cases now : s.stage with
  | closed | inside info =>
    rw [now] at sound
    exact still sound
  | menu =>
    rw [now] at sound
    obtain ⟨sent, received, unnamed⟩ := sound
    exact ⟨still sent, menu now sent received unnamed⟩
  | registering =>
    rw [now] at sound progress
    obtain ⟨r, register, underway⟩ := sound
    exact ⟨r, register, progress r rfl (.inr register) underway⟩
  | automatic =>
    rw [now] at sound progress
    obtain ⟨session, loaded, underway⟩ := sound
    exact ⟨session, loaded, progress _ rfl (.inl rfl) underway⟩
  | loggingIn email password remember =>
    rw [now] at sound progress
    exact progress _ rfl (.inl rfl) sound

theorem InStep.step {s t : Machine} (reached : Reachable (server P key) s.server)
    (sound : InStep s) {e : MachineEvent} (effect : MachineEffect P s e t) : InStep t := by
  cases effect with
  | resumed closed accepted loaded =>
    exact ⟨_, loaded, .waiting rfl rfl fun _ => anonymous_connected accepted⟩
  | started closed accepted missing => exact ⟨rfl, rfl, fun _ => anonymous_connected accepted⟩
  | registers email username password menu =>
    rw [InStep, menu] at sound
    obtain ⟨sent, received, unnamed⟩ := sound
    exact ⟨_, rfl, .begin _ sent received unnamed⟩
  | logsIn email password remember menu =>
    rw [InStep, menu] at sound
    obtain ⟨sent, received, unnamed⟩ := sound
    exact .begin _ sent received unnamed
  | served queue handled =>
    have busy (idle : s.toServer = []) : False := by
      rw [idle] at queue
      cases queue
    exact sound.moved rfl rfl (fun idle => (busy idle).elim) (fun _ idle => (busy idle).elim)
      fun r _ kind progress => progress.served kind queue handled
  | @answered first rest t queue heard =>
    cases heard with
    | registered stage =>
      rw [InStep, show s.stage = _ from stage] at sound
      obtain ⟨r, register, progress⟩ := sound
      cases returns : serviceLoginReturns first with
      | none =>
        obtain ⟨sent, rfl, unnamed⟩ := progress.settled queue returns
        exact ⟨sent, rfl, unnamed⟩
      | some info =>
        obtain ⟨-, login, -⟩ := progress.let_in queue returns
        rw [register] at login
        cases login
    | restored stage accepted =>
      rw [InStep, show s.stage = _ from stage] at sound
      obtain ⟨session, loaded, progress⟩ := sound
      exact (progress.let_in queue accepted).1
    | forgotten stage refused =>
      rw [InStep, show s.stage = _ from stage] at sound
      obtain ⟨session, loaded, progress⟩ := sound
      obtain ⟨sent, rfl, unnamed⟩ := progress.settled queue refused
      exact ⟨sent, rfl, unnamed⟩
    | entered stage accepted =>
      rw [InStep, show s.stage = _ from stage] at sound
      exact (sound.let_in queue accepted).1
    | refused stage refused =>
      rw [InStep, show s.stage = _ from stage] at sound
      obtain ⟨sent, rfl, unnamed⟩ := sound.settled queue refused
      exact ⟨sent, rfl, unnamed⟩
  | broke heard =>
    cases heard with
    | registered | forgotten | refused => exact ⟨rfl, rfl, fun still => by cases still⟩
    | restored stage accepted | entered stage accepted => cases accepted
  | dropped held handled =>
    exact sound.moved rfl rfl (fun _ => rfl)
      (fun _ _ received _ => ⟨received, fun still => by cases still⟩) fun r _ _ progress => progress.dropped handled
  | loggedOut | exited => exact rfl
  | elsewhere other handled =>
    refine sound.moved rfl rfl id (fun menu _ received unnamed => ?_) fun r starting _ progress =>
      progress.elsewhere reached starting other handled
    obtain ⟨silent, unnamed⟩ := unnamed.elsewhere reached (by rw [menu]; rfl) other handled
    exact ⟨by rw [silent, List.append_nil, received], unnamed⟩

theorem machine_sound {s₀ : Server} (reached : Reachable (server P key) s₀)
    {past : List MachineMoment} {s : Machine} (run : Run (machine P s₀) past s) : InStep s := by
  have initial : InStep (machine P s₀).start := rfl
  refine run.invariant (fun _ s => InStep s) initial ?_
  intro past s e t o before sound stepped
  exact sound.step (machine_server reached before) (machineStep_effect stepped)

end MoT
