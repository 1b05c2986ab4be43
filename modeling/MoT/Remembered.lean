import MoT.Startup

/-! What a remembered login comes to in later launches. -/
namespace MoT
open CMemory Transition

variable {P : Platform} {uid : UInt32}

/-- The user enters by a login that is to be remembered. -/
def Remembers (m : MachineMoment) (email password : CString) (info : MyInfoPayload) : Prop :=
  m.before.stage = .loggingIn email password true ∧ m.after.stage = .inside info

/-- The user logs out or enters by a login that is not to be remembered, or the saved login is
turned down. -/
def Forgets (m : MachineMoment) : Prop :=
  m.event = .logout ∨
  (∃ email password info, m.before.stage = .loggingIn email password false ∧
    m.after.stage = .inside info) ∨
  m.before.stage = .automatic ∧ m.after.stage = .menu

def Rewrites (m : MachineMoment) : Prop :=
  Forgets m ∨ ∃ email password info, Remembers m email password info

theorem not_rewrites {s t : Machine} {e : MachineEvent} (event : e ≠ .logout)
    (stage : t.stage = s.stage ∨ (∀ info, t.stage ≠ .inside info) ∧
      (s.stage = .automatic → t.stage ≠ .menu)) :
    ¬ Rewrites ⟨s, e, t, ()⟩ := by
  rintro ((logout | ⟨email, password, info, before, after⟩ | ⟨before, after⟩) |
    ⟨email, password, info, before, after⟩)
  · exact event logout
  · rcases stage with same | ⟨elsewhere, -⟩
    · cases before.symm.trans (same.symm.trans after)
    · exact elsewhere info after
  · rcases stage with same | ⟨-, manual⟩
    · cases before.symm.trans (same.symm.trans after)
    · exact manual before after
  · rcases stage with same | ⟨elsewhere, -⟩
    · cases before.symm.trans (same.symm.trans after)
    · exact elsewhere info after

inductive FileChange (m : MachineMoment) : Prop
  | kept (same : m.after.file = m.before.file) (quiet : ¬ Rewrites m)
  | cleared (gone : m.after.file = none) (forgets : Forgets m)
      (other : ∀ email password info, ¬ Remembers m email password info)
  | saved {email password : CString} {info : MyInfoPayload}
      (written : m.after.file = some (saveSession email password))
      (remembers : Remembers m email password info)

theorem Heard.file {s s' t : Machine} {packet : Option Packet} {e : MachineEvent}
    (heard : Heard s' packet t) (event : e ≠ .logout) (stage : s'.stage = s.stage)
    (file : s'.file = s.file) : FileChange ⟨s, e, t, ()⟩ := by
  cases heard with
  | registered now =>
    exact .kept file (not_rewrites event (.inr ⟨fun info => by simp, by simp [← stage, now]⟩))
  | restored now accepted =>
    refine .kept file ?_
    rintro ((logout | ⟨_, _, _, before, -⟩ | ⟨-, after⟩) | ⟨_, _, _, before, -⟩)
    · exact event logout
    · cases before.symm.trans (stage.symm.trans now)
    · cases after
    · cases before.symm.trans (stage.symm.trans now)
  | forgotten now refused =>
    refine .cleared rfl (.inr (.inr ⟨stage.symm.trans now, rfl⟩)) ?_
    rintro _ _ _ ⟨-, after⟩
    cases after
  | @entered email password remember info now accepted =>
    cases remember with
    | false =>
      refine .cleared rfl (.inr (.inl ⟨email, password, info, stage.symm.trans now, rfl⟩)) ?_
      rintro _ _ _ ⟨before, -⟩
      cases before.symm.trans (stage.symm.trans now)
    | true => exact .saved rfl ⟨stage.symm.trans now, rfl⟩
  | refused now refused =>
    exact .kept file (not_rewrites event (.inr ⟨fun info => by simp, by simp [← stage, now]⟩))

theorem MachineEffect.file {s t : Machine} {e : MachineEvent} (effect : MachineEffect P s e t) :
    FileChange ⟨s, e, t, ()⟩ := by
  cases effect with
  | answered queue heard => exact heard.file (by simp) rfl rfl
  | broke heard => exact heard.file (by simp) rfl rfl
  | loggedOut stage =>
    refine .cleared rfl (.inl rfl) ?_
    rintro _ _ _ ⟨-, after⟩
    cases after
  | served | dropped | elsewhere => exact .kept rfl (not_rewrites (by simp) (.inl rfl))
  | exited running =>
    exact .kept rfl (not_rewrites (by simp)
      (.inr ⟨fun info => by simp [Machine.close], by simp [Machine.close]⟩))
  | resumed closed | started closed =>
    exact .kept rfl (not_rewrites (by simp) (.inr ⟨fun info => by simp, by simp [closed]⟩))
  | registers _ _ _ menu | logsIn _ _ _ menu =>
    exact .kept rfl (not_rewrites (by simp)
      (.inr ⟨fun info => by simp [Machine.request], by simp [menu]⟩))

/-- The file holds what was last remembered, unless it was given up since. -/
theorem run_file {s₀ : Server} {past : List MachineMoment} {s : Machine}
    (run : Run (machine P s₀) past s) (f : List UInt8) :
    s.file = some f ↔ Since (fun m => ∃ email password info, Remembers m email password info ∧
      f = saveSession email password) Rewrites past := by
  refine run.since_iff (fun _ _ => True) (fun s => s.file = some f) _ Rewrites ?_ ?_ ?_ trivial
  · simp [machine]
  · exact fun _ _ _ _ _ _ _ => trivial
  · intro past s e t o before stepped _
    cases (machineStep_effect stepped).file with
    | kept same quiet =>
      rw [show t.file = s.file from same]
      constructor
      · exact fun held => .inr ⟨held, quiet⟩
      · rintro (⟨email, password, info, remembers, -⟩ | ⟨held, -⟩)
        · exact absurd (.inr ⟨email, password, info, remembers⟩) quiet
        · exact held
    | cleared gone forgets other =>
      rw [show t.file = none from gone]
      refine iff_of_false (by simp) ?_
      rintro (⟨email, password, info, remembers, -⟩ | ⟨-, quiet⟩)
      · exact other email password info remembers
      · exact quiet (.inl forgets)
    | @saved email password info written remembers =>
      rw [show t.file = _ from written]
      constructor
      · intro same
        exact .inl ⟨email, password, info, remembers, (Option.some.inj same).symm⟩
      · rintro (⟨email', password', info', remembers', rfl⟩ | ⟨-, quiet⟩)
        · cases remembers.1.symm.trans remembers'.1
          rfl
        · exact absurd (.inr ⟨email, password, info, remembers⟩) quiet

theorem MachineEffect.entered {s t : Machine} {e : MachineEvent} {info : MyInfoPayload}
    (effect : MachineEffect P s e t) (inside : t.stage = .inside info)
    (waiting : s.stage.starting) :
    ∃ first rest, s.toClient = first :: rest ∧ serviceLoginReturns first = some info := by
  cases effect with
  | @answered first rest t queue heard =>
    cases heard with
    | restored stage accepted | entered stage accepted =>
      cases inside
      exact ⟨first, rest, queue, accepted⟩
    | registered | forgotten | refused => cases inside
  | broke heard =>
    cases heard with
    | restored stage accepted | entered stage accepted => cases accepted
    | registered | forgotten | refused => cases inside
  | served | dropped | elsewhere =>
    rw [show s.stage = _ from inside] at waiting
    cases waiting
  | resumed | started | registers | logsIn | loggedOut | exited => cases inside

/-- Whoever the saved login lets in is the user who last logged in to be remembered, in this
launch or an earlier one, and nothing was to be forgotten since. -/
theorem automatic_login_restores (P : Platform) (key : Key) (s₀ : Server)
    (reached : Reachable (server P key) s₀) (later earlier : List MachineMoment) (m : MachineMoment)
    (s : Machine) (run : Run (machine P s₀) (later ++ m :: earlier) s) (info : MyInfoPayload)
    (automatic : m.before.stage = .automatic) (entered : m.after.stage = .inside info) :
    ∃ between n before email password first, earlier = between ++ n :: before ∧
      Remembers n email password first ∧ (∀ x ∈ between, ¬ Rewrites x) ∧
      m.before.file = some (saveSession email password) ∧ info.uid = first.uid := by
  obtain ⟨until_m, -, valid⟩ := run.cut
  have sound := machine_sound reached until_m
  rw [InStep, automatic] at sound
  obtain ⟨session, loaded, progress⟩ := sound
  obtain ⟨packet, rest, queue, accepted⟩ :=
    (machineStep_effect valid).entered entered (by rw [automatic]; rfl)
  have now := (progress.let_in queue accepted).2.2
  obtain ⟨f, file⟩ : ∃ f, m.before.file = some f := by
    cases file : m.before.file with
    | some f => exact ⟨f, rfl⟩
    | none =>
      rw [file] at loaded
      cases loaded
  obtain ⟨between, n, before, rfl, ⟨email, password, first, remembers, rfl⟩, quiet⟩ :=
    since_iff_exists.mp ((run_file until_m f).mp file)
  -- the account that was named then is still the one that the same request names
  obtain ⟨until_n, -, valid'⟩ := until_m.cut
  have sound' := machine_sound reached until_n
  rw [InStep, remembers.1] at sound'
  obtain ⟨packet', rest', queue', accepted'⟩ :=
    (machineStep_effect valid').entered remembers.2 (by rw [remembers.1]; rfl)
  have first_time := (sound'.let_in queue' accepted').2.2
  have kept : Identifies m.before.server.db (serviceLogin email password) first.uid := by
    refine until_m.persists (fun s => Identifies s.server.db (serviceLogin email password) first.uid)
      ?_ ((machineStep_effect valid').identifies first_time)
    exact fun s e t o held stepped => (machineStep_effect stepped).identifies held
  rw [file, loadSession_saved] at loaded
  cases loaded
  rw [sessionLogin_saved] at now
  exact ⟨between, n, before, email, password, first, rfl, remembers, quiet, file, now.unique kept⟩

def remembered : List MachineEvent :=
  [.launch 7, .register (CString.lit "a@x") (CString.lit "alice") (CString.lit "pw"),
    .serve (recordedEnv 1), .answer, .login (CString.lit "a@x") (CString.lit "pw") true,
    .serve (recordedEnv 2), .answer, .exit, .elsewhere (.disconnect 7), .launch 8]

abbrev recordedMachine := machine recordedPlatform recordedServer.start

def aliceInfo : MyInfoPayload where
  uid := 1
  username := strncpy maxNameLen (CString.lit "alice")
  email := strncpy maxEmailLen (CString.lit "a@x")
  friendCode := strncpy friendCodeLen (CString.lit "000001")

theorem remembered_recorded :
    (recordedMachine.trace [] recordedMachine.start remembered).isSome := by decide +kernel

theorem restored_recorded :
    (recordedMachine.trace [] recordedMachine.start
      (remembered ++ [.serve (recordedEnv 3), .answer])).isSome := by decide +kernel

theorem automatic_login_restores_alice :
    ∃ n ∈ (recordedMachine.history _ restored_recorded).1, ∃ email password first,
      Remembers n email password first ∧ aliceInfo.uid = first.uid := by
  have run := Run.history _ restored_recorded
  have seen : ((recordedMachine.history _ restored_recorded).1[0]?.map fun m =>
        (m.before.stage, m.after.stage)) = some (.automatic, .inside aliceInfo) := by
    decide +kernel
  generalize recordedMachine.history _ restored_recorded = recorded at *
  obtain ⟨m, place, pair⟩ := Option.map_eq_some_iff.mp seen
  obtain ⟨automatic, entered⟩ := Prod.mk.inj pair
  obtain ⟨within, here⟩ := List.getElem?_eq_some_iff.mp place
  have split : recorded.1 = [] ++ m :: recorded.1.drop 1 := by
    rw [← here, List.getElem_cons_drop, List.drop_zero, List.nil_append]
  rw [split] at run
  obtain ⟨between, n, before, email, password, first, earlier, remembers, -, -, same⟩ :=
    automatic_login_restores recordedPlatform recordedKey _ .start _ _ m _ run aliceInfo automatic
      entered
  refine ⟨n, ?_, email, password, first, remembers, same⟩
  rw [split, earlier]
  simp

/-- The user changes the name or the password on some connection. -/
def Updates (m : MachineMoment) (uid : UInt32) : Prop :=
  ∃ fd code bytes env cli, serverEvent m.before m.event = some (.packet fd code bytes env) ∧
    getClientByFd fd m.before.server.clients = some cli ∧ cli.uid = uid ∧
    MessageType.ofCode code = some .updateUser

theorem MachineEffect.opens {s t : Machine} {e : MachineEvent} {r : Request}
    (effect : MachineEffect P s e t) (untouched : ¬ Updates ⟨s, e, t, ()⟩ uid)
    (opens : Opens P s.server.db r uid) : Opens P t.server.db r uid := by
  rcases effect.handles with same | ⟨e', out, event, handled⟩
  · rw [same]
    exact opens
  · obtain ⟨row, member, rfl, rest⟩ := opens
    have moved : (server P s.server.masterKey).step s.server e' = some (t.server, out) := handled
    rcases step_accounts moved with ⟨same, -⟩ | ⟨fd, code, bytes, env, cli, rfl, listed, change⟩
    · rw [same]
      exact ⟨row, member, rfl, rest⟩
    · refine ⟨row, change.keeps member fun update own => ?_, rfl, rest⟩
      exact untouched ⟨fd, code, bytes, env, cli, event, listed, own, update⟩

theorem answer_restores {s : Machine} {info : MyInfoPayload} {rest : List Packet}
    (automatic : s.stage = .automatic) (queue : s.toClient = .loginSuccess info :: rest) :
    machineStep P s .answer = some ({ s with toClient := rest, stage := .inside info }, ()) := by
  simp [machineStep, queue, hear, automatic, serviceLoginReturns]

/-- Once a login that is to be remembered was accepted, every later launch that finds it in the
file is let in as the same user, until that user changes the name or the password. -/
theorem remembered_login_accepted (P : Platform) (key : Key) (s₀ : Server)
    (reached : Reachable (server P key) s₀) (later earlier : List MachineMoment) (n : MachineMoment)
    (s : Machine) (run : Run (machine P s₀) (later ++ n :: earlier) s) (email password : CString)
    (first : MyInfoPayload) (env₀ : Env)
    (asked : n.before.stage = .loggingIn email password true) (served : n.event = .serve env₀)
    (accepted : n.after.toClient = [.loginSuccess first])
    (untouched : ∀ x ∈ later, ¬ Updates x first.uid) (automatic : s.stage = .automatic)
    (saved : s.file = some (saveSession email password)) (sent : s.toServer ≠ []) (env : Env) :
    ∃ t u info, machineStep P s (.serve env) = some (t, ()) ∧
      machineStep P t .answer = some (u, ()) ∧ u.stage = .inside info ∧ info.uid = first.uid := by
  obtain ⟨until_n, -, valid⟩ := run.cut
  have sound := machine_sound reached until_n
  rw [InStep, asked] at sound
  have opens : Opens P n.after.server.db (serviceLogin email password) first.uid := by
    have effect := machineStep_effect valid
    rw [served] at effect
    generalize after : n.after = t at effect accepted
    cases effect with
    | served queue handled =>
      obtain ⟨rfl, -, connected, received, anonymous⟩ := sound.pending queue
      have outcome := anonymous.login (r := serviceLogin email password) rfl handled
      obtain ⟨db, ⟨rfl, rfl⟩ | ⟨info, rfl, opens⟩⟩ := outcome
      · simp [received, connected, sentTo] at accepted
      · have same : info = first := by simpa [received, connected, sentTo] using accepted
        rw [db, ← same]
        exact opens
  have still : Opens P s.server.db (serviceLogin email password) first.uid := by
    refine run.persists_while (fun s => Opens P s.server.db (serviceLogin email password) first.uid)
      (fun x => ¬ Updates x first.uid) ?_ untouched opens
    exact fun s e t o held stepped quiet => (machineStep_effect stepped).opens quiet held
  have sound := machine_sound reached run
  rw [InStep, automatic] at sound
  obtain ⟨session, loaded, progress⟩ := sound
  rw [saved, loadSession_saved] at loaded
  cases loaded
  rw [sessionLogin_saved] at progress
  obtain ⟨r, rest, queue⟩ := List.exists_cons_of_ne_nil sent
  obtain ⟨rfl, rfl, connected, received, cli, listed, -⟩ := progress.pending queue
  obtain ⟨e, member, same, readEmail, typed, readPassword, hashed⟩ := still
  have handled := handleLogin_known cli member hashed readEmail readPassword
  have sender := (getClientByFd_some listed).2
  have answers : serverStep P s.server ((serviceLogin email password).event s.fd env) =
      some ({ s.server with clients := writeClient cli.fd (signedIn (accountOf e)) s.server.clients },
        [⟨s.fd, .loginSuccess (loginInfo (accountOf e))⟩]) := by
    have coded : MessageType.ofCode (serviceLogin email password).1.code = some .login :=
      MessageType.ofCode_code .login
    simp only [serverStep, Request.event, Event.possible, handleEvent, listed, dispatch, coded,
      handled, if_true, Except.toOption, sender]
  have served : machineStep P s (.serve env) = some ({ s with
      server := { s.server with
        clients := writeClient cli.fd (signedIn (accountOf e)) s.server.clients }
      toServer := []
      toClient := [.loginSuccess (loginInfo (accountOf e))] }, ()) := by
    simp [machineStep, queue, Machine.serverMoves, answers, received, connected, sentTo]
  exact ⟨_, _, loginInfo (accountOf e), served, answer_restores automatic rfl, rfl, same⟩

theorem remembered_login_accepted_alice :
    ∃ t u info,
      machineStep recordedPlatform (recordedMachine.history remembered remembered_recorded).2
        (.serve (recordedEnv 3)) = some (t, ()) ∧
      machineStep recordedPlatform t .answer = some (u, ()) ∧ u.stage = .inside info ∧
        info.uid = aliceInfo.uid := by
  have run := Run.history remembered remembered_recorded
  have events := System.history_events remembered remembered_recorded
  have seen : ((recordedMachine.history remembered remembered_recorded).1[4]?.map fun m =>
        (m.before.stage, m.after.toClient)) =
        some (.loggingIn (CString.lit "a@x") (CString.lit "pw") true, [.loginSuccess aliceInfo]) ∧
      (recordedMachine.history remembered remembered_recorded).2.stage = .automatic ∧
      (recordedMachine.history remembered remembered_recorded).2.file =
        some (saveSession (CString.lit "a@x") (CString.lit "pw")) ∧
      (recordedMachine.history remembered remembered_recorded).2.toServer ≠ [] := by
    decide +kernel
  generalize recordedMachine.history remembered remembered_recorded = recorded at *
  obtain ⟨login, automatic, saved, sent⟩ := seen
  obtain ⟨n, place, pair⟩ := Option.map_eq_some_iff.mp login
  obtain ⟨asked, accepted⟩ := Prod.mk.inj pair
  obtain ⟨within, here⟩ := List.getElem?_eq_some_iff.mp place
  have event := congrArg (fun es => es[4]?) events
  rw [List.getElem?_map, place] at event
  have split : recorded.1 = recorded.1.take 4 ++ n :: recorded.1.drop 5 := by
    rw [← here, List.getElem_cons_drop, List.take_append_drop]
  rw [split] at run
  refine remembered_login_accepted recordedPlatform recordedKey _ .start _ _ n _ run _ _ aliceInfo
    (recordedEnv 2) asked (Option.some.inj event) accepted ?_ automatic saved sent (recordedEnv 3)
  rintro x member ⟨fd, code, bytes, env, cli, handles, -⟩
  have recent : x.event ∈ (recorded.1.map Moment.event).take 4 := by
    rw [← List.map_take]
    exact List.mem_map_of_mem member
  rw [events] at recent
  simp only [remembered, List.reverse_cons, List.reverse_nil, List.nil_append, List.cons_append,
    List.take_succ_cons, List.take_zero, List.mem_cons, List.not_mem_nil, or_false] at recent
  rcases recent with same | same | same | same <;> rw [same] at handles <;> cases handles

end MoT
