import Mathlib.Logic.Function.Basic
import MoT.Effects
import MoT.Services

/-! The list of connections against what it stands for: a map from the descriptors that
are open to who is logged in there. -/
namespace MoT
open CMemory Transition

variable {P : Platform} {key : Key} {s t : Server} {past : List ServerMoment}
  {clients : List Client} {fd : Int}

/-- Who is logged in on an open connection, if anybody. -/
abbrev Session := Option UInt32

/-- The open connections; `none` is a descriptor that is not open. -/
abbrev Sessions := Int → Option Session

/-- The user whom this moment logs in: the login was answered with success. -/
def loggedIn (m : ServerMoment) : Option UInt32 :=
  match m.event, m.output with
  | .packet _ code _ _, [⟨_, .loginSuccess info⟩] =>
    if MessageType.ofCode code = some .login then some info.uid else none
  | _, _ => none

/-- Accepting opens a connection with nobody on it, a successful login on it puts its
user there, and disconnecting closes it. -/
def sessions : List ServerMoment → Sessions
  | [] => fun _ => none
  | m :: past =>
    match m.event with
    | .connect fd => Function.update (sessions past) fd (some none)
    | .disconnect fd => Function.update (sessions past) fd none
    | .packet fd _ _ _ =>
      match loggedIn m with
      | some uid => Function.update (sessions past) fd (some (some uid))
      | none => sessions past

theorem sessions_of_ne {e : Event} {out : List Sent} (other : e.fd ≠ fd) :
    sessions (⟨s, e, t, out⟩ :: past) fd = sessions past fd := by
  cases e with
  | connect fd' => exact Function.update_of_ne (Ne.symm other) _ _
  | disconnect fd' => exact Function.update_of_ne (Ne.symm other) _ _
  | packet fd' code bytes env =>
    simp only [sessions]
    cases loggedIn ⟨s, .packet fd' code bytes env, t, out⟩ with
    | none => rfl
    | some uid => exact Function.update_of_ne (Ne.symm other) _ _

def standing (session : Session) : UInt32 × Bool := (session.getD 0, session.isSome)

/-- One node for each open connection, with the user of its session. -/
structure Refines (clients : List Client) (open? : Sessions) : Prop where
  distinct : (clients.map Client.fd).Nodup
  node : ∀ fd, (getClientByFd fd clients).map (fun c => (c.uid, c.isOnline)) =
    (open? fd).map standing

theorem Refines.open_iff {open? : Sessions} (refines : Refines clients open?) (fd : Int) :
    (getClientByFd fd clients).isSome ↔ (open? fd).isSome := by
  rw [← Option.isSome_map (f := fun c : Client => (c.uid, c.isOnline)), refines.node fd,
    Option.isSome_map]

theorem Refines.connect {open? : Sessions} (refines : Refines clients open?)
    (closed : getClientByFd fd clients = none) :
    Refines (addClient fd clients) (Function.update open? fd (some none)) where
  distinct := by
    refine List.nodup_cons.mpr ⟨fun member => ?_, refines.distinct⟩
    obtain ⟨c, hc, same⟩ := List.mem_map.mp member
    rw [← show c.fd = fd from same, getClientByFd_of_mem refines.distinct hc] at closed
    cases closed
  node fd' := by
    rw [addClient, getClientByFd_cons]
    by_cases same : fd = fd'
    · subst same
      simp [standing]
    · rw [if_neg same, Function.update_of_ne (Ne.symm same)]
      exact refines.node fd'

theorem Refines.disconnect {open? : Sessions} (refines : Refines clients open?) (fd : Int) :
    Refines (removeClient fd clients) (Function.update open? fd none) where
  distinct := refines.distinct.sublist ((removeClient_sublist fd clients).map _)
  node fd' := by
    rw [getClientByFd_removeClient fd fd' refines.distinct]
    by_cases same : fd = fd'
    · subst same
      simp
    · rw [if_neg same, Function.update_of_ne (Ne.symm same)]
      exact refines.node fd'

theorem Refines.write {open? : Sessions} (refines : Refines clients open?) {c : Client}
    (listed : getClientByFd fd clients = some c) {f : Client → Client}
    (keeps : ∀ c, (f c).fd = c.fd) {session : Session}
    (stands : ((f c).uid, (f c).isOnline) = standing session) :
    Refines (writeClient fd f clients) (Function.update open? fd (some session)) where
  distinct := by
    rw [writeClient_fds fd f keeps]
    exact refines.distinct
  node fd' := by
    rw [getClientByFd_writeClient fd keeps]
    by_cases same : fd = fd'
    · subst same
      simp [listed, stands]
    · rw [if_neg same, Function.update_of_ne (Ne.symm same)]
      exact refines.node fd'

theorem loggedIn_of_ne {fd : Int} {code : UInt32} {bytes : List UInt8} {env : Env}
    {out : List Sent} (other : MessageType.ofCode code ≠ some .login) :
    loggedIn ⟨s, .packet fd code bytes env, t, out⟩ = none := by
  simp only [loggedIn]
  split
  · rename_i event
    injection event with _ coded
    rw [← coded]
    exact if_neg other
  · rfl

/-- A packet logs its connection in, or leaves the two fields of every node alone. -/
theorem dispatch_session {env : Env} {cli : Client} {code : UInt32} {bytes : List UInt8}
    {out : List Sent} (done : dispatch P env s cli code (deliver bytes) = .ok (t, out)) :
    (∃ u, t.clients = writeClient cli.fd (signedIn u) s.clients ∧
      loggedIn ⟨s, .packet cli.fd code bytes env, t, out⟩ = some u.uid) ∨
    loggedIn ⟨s, .packet cli.fd code bytes env, t, out⟩ = none ∧ (t.clients = s.clients ∨
      ∃ username, t.clients =
        writeClient cli.fd (fun c => { c with username := username }) s.clients) := by
  by_cases login : MessageType.ofCode code = some .login
  · have handled := done
    simp only [dispatch, login] at handled
    obtain ⟨rfl, rfl⟩ | ⟨u, rfl, rfl, -⟩ := handleLogin_ok handled
    · exact .inr ⟨rfl, .inl rfl⟩
    · exact .inl ⟨u, rfl, if_pos login⟩
  · refine .inr ⟨loggedIn_of_ne login, ?_⟩
    rcases dispatch_clients done with same | ⟨uid, username, coded, -⟩ | ⟨username, -, written⟩
    · exact .inl same
    · exact absurd coded login
    · exact .inr ⟨username, written⟩

theorem Refines.step {e : Event} {out : List Sent} {past : List ServerMoment}
    (refines : Refines s.clients (sessions past))
    (stepped : (server P key).step s e = some (t, out)) :
    Refines t.clients (sessions (⟨s, e, t, out⟩ :: past)) := by
  obtain ⟨possible, handled⟩ := handleEvent_of_step stepped
  cases e with
  | connect fd =>
    cases handled
    exact refines.connect (Option.isNone_iff_eq_none.mp possible)
  | disconnect fd =>
    cases handled
    exact refines.disconnect fd
  | packet fd code bytes env =>
    simp only [handleEvent] at handled
    split at handled
    · -- nobody has this descriptor, so there is nothing to remove
      rename_i unlisted
      cases handled
      have absent : removeClient fd s.clients = s.clients := by
        rw [removeClient_eq_filter fd refines.distinct, List.filter_eq_self]
        refine fun c member => decide_eq_true fun same => ?_
        rw [← same, getClientByFd_of_mem refines.distinct member] at unlisted
        cases unlisted
      rw [absent]
      exact refines
    · rename_i cli listed
      obtain ⟨-, rfl⟩ := getClientByFd_some listed
      have session := refines.node cli.fd
      rw [listed] at session
      rcases dispatch_session handled with
        ⟨u, written, logged⟩ | ⟨logged, same | ⟨username, written⟩⟩
      · have stands : ((signedIn u cli).uid, (signedIn u cli).isOnline) =
            standing (some u.uid) := rfl
        have write := refines.write listed (f := signedIn u) (fun _ => rfl) stands
        simp only [sessions, logged, written]
        exact write
      · simp only [sessions, logged, same]
        exact refines
      · obtain ⟨old, isOpen, stands⟩ := Option.map_eq_some_iff.mp session.symm
        have write := refines.write listed (f := fun c => { c with username := username })
          (fun _ => rfl) stands.symm
        rw [Function.update_eq_self_iff.mpr isOpen.symm] at write
        simp only [sessions, logged, written]
        exact write

theorem standing_eq_online {session : Session} {u : UInt32}
    (online : standing session = (u, true)) : session = some u := by
  cases session with
  | none => cases online
  | some v =>
    cases online
    rfl

theorem Refines.session {open? : Sessions} (refines : Refines clients open?) {c : Client}
    (member : c ∈ clients) : ∃ session, open? c.fd = some session ∧
      standing session = (c.uid, c.isOnline) := by
  have node := refines.node c.fd
  rw [getClientByFd_of_mem refines.distinct member, Option.map_some] at node
  exact Option.map_eq_some_iff.mp node.symm

theorem Refines.online {open? : Sessions} (refines : Refines clients open?) (u : UInt32) :
    (getClientByUid u clients).isSome ↔ ∃ fd, open? fd = some (some u) := by
  rw [getClientByUid_isSome]
  constructor
  · rintro ⟨c, member, rfl, online⟩
    obtain ⟨session, isOpen, stands⟩ := refines.session member
    rw [online] at stands
    exact ⟨c.fd, isOpen.trans (congrArg some (standing_eq_online stands))⟩
  · rintro ⟨fd, isOpen⟩
    have node := refines.node fd
    rw [isOpen] at node
    obtain ⟨c, found, stands⟩ := Option.map_eq_some_iff.mp node
    obtain ⟨user, online⟩ := Prod.mk.inj stands
    exact ⟨c, (getClientByFd_some found).1, user, online⟩

theorem run_refines (run : Run (server P key) past s) : Refines s.clients (sessions past) := by
  refine run.invariant (fun past s => Refines s.clients (sessions past)) ?_ ?_
  · exact ⟨.nil, fun _ => rfl⟩
  · intro past s e t out _ refines stepped
    exact refines.step stepped

/-- In every run the list has one node for each open connection, with the user of the
last successful login on that very connection. Removing a node leaves the others in their
order, and looking a user up finds a connection where that user is logged in, if any. -/
theorem clients_refine_sessions (P : Platform) (key : Key) (past : List ServerMoment) (s : Server)
    (run : Run (server P key) past s) :
    (s.clients.map Client.fd).Nodup ∧
    (∀ fd, ((getClientByFd fd s.clients).isSome ↔ (sessions past fd).isSome) ∧
      ∀ c, getClientByFd fd s.clients = some c → c ∈ s.clients ∧ c.fd = fd ∧
        ∃ session, sessions past fd = some session ∧ (c.uid, c.isOnline) = standing session) ∧
    (∀ fd, removeClient fd s.clients = s.clients.filter fun c => c.fd ≠ fd) ∧
    ∀ u, ((getClientByUid u s.clients).isSome ↔ ∃ fd, sessions past fd = some (some u)) ∧
      ∀ c, getClientByUid u s.clients = some c →
        c ∈ s.clients ∧ sessions past c.fd = some (some u) := by
  have refines := run_refines run
  refine ⟨refines.distinct, fun fd => ⟨refines.open_iff fd, fun c found => ?_⟩,
    fun fd => removeClient_eq_filter fd refines.distinct,
    fun u => ⟨refines.online u, fun c found => ?_⟩⟩
  · obtain ⟨member, rfl⟩ := getClientByFd_some found
    obtain ⟨session, isOpen, stands⟩ := refines.session member
    exact ⟨member, rfl, session, isOpen, stands.symm⟩
  · obtain ⟨member, rfl, online⟩ := getClientByUid_some found
    obtain ⟨session, isOpen, stands⟩ := refines.session member
    rw [online] at stands
    exact ⟨member, isOpen.trans (congrArg some (standing_eq_online stands))⟩

def reusedSession : List Event :=
  aliceArrives ++ bobArrives ++ [.disconnect 8, .connect 8]

theorem reusedSession_recorded :
    (recordedServer.trace [] recordedServer.start reusedSession).isSome := by decide +kernel

theorem clients_refine_sessions_reused :
    sessions (recordedServer.history reusedSession reusedSession_recorded).1 8 = some none ∧
      ∀ c, getClientByFd 8 (recordedServer.history reusedSession reusedSession_recorded).2.clients =
        some c → (c.uid, c.isOnline) = (0, false) := by
  have nobody : sessions (recordedServer.history reusedSession reusedSession_recorded).1 8 =
      some none := by decide +kernel
  refine ⟨nobody, fun c found => ?_⟩
  obtain ⟨-, -, session, isOpen, stands⟩ := ((clients_refine_sessions recordedPlatform recordedKey
    _ _ (.history reusedSession reusedSession_recorded)).2.1 8).2 c found
  rw [nobody] at isOpen
  cases isOpen
  exact stands

end MoT
