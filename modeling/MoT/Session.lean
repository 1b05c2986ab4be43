import MoT.Accounts
import MoT.Delivery

/-! A computer on which the client is started again and again: the login that the start menu
asks for, and the session file that spares it. Between the launches, and on all other
connections, the server goes on. -/
namespace MoT
open CMemory Relational Transition

variable {P : Platform} {key : Key}

/- `save_session`: both strings in a `LoginPayload`, and that in the file. -/
def saveSession (email password : CString) : List UInt8 :=
  (strncpy maxEmailLen email).toList ++ (strncpy maxPassLen password).toList

/- `load_session`: nothing unless a whole structure can be read. -/
def loadSession (file : Option (List UInt8)) : Option (List UInt8) :=
  match file with
  | some bytes => if LoginPayload.size ≤ bytes.length then some (bytes.take LoginPayload.size) else none
  | none => none

/- `service_login` on the arrays of the loaded structure. It copies one byte less than each
array has, so it stays inside them whether they end in a NUL or not. -/
def sessionLogin (session : List UInt8) : Request :=
  serviceLogin (CString.cut ((session.drop LoginPayload.email).take (maxEmailLen - 1)))
    (CString.cut ((session.drop LoginPayload.password).take (maxPassLen - 1)))

theorem cut_take_strncpy {n m : Nat} (less : m ≤ n) (s : CString) (rest : List UInt8) :
    CString.cut (((strncpy n s).toList ++ rest).take m) = s.truncate m := by
  have front : (strncpy n s).toList.length = n := (strncpy n s).toList_length
  have same : (strncpy n s).toList.take m = (strncpy m s).toList := by
    change ((s.bytes ++ List.replicate n 0).take n).take m = (s.bytes ++ List.replicate m 0).take m
    rw [List.take_take, Nat.min_eq_left less, List.take_append, List.take_append,
      List.take_replicate, List.take_replicate]
    congr 2
    omega
  rw [List.take_append_of_le_length (by omega), same]
  exact fieldString_strncpy m s

theorem field_truncate (n : Nat) (s : CString) : field n (s.truncate (n - 1)) = field n s := by
  have twice : (s.truncate (n - 1)).truncate (n - 1) = s.truncate (n - 1) := by
    ext1
    rw [CString.truncate_bytes, CString.truncate_bytes, List.take_take, Nat.min_self]
  rw [field, field, twice]

theorem loadSession_saved (email password : CString) :
    loadSession (some (saveSession email password)) = some (saveSession email password) := by
  have size : (saveSession email password).length = LoginPayload.size := by
    rw [saveSession, List.length_append, List.Vector.toList_length, List.Vector.toList_length]
  rw [loadSession, if_pos size.ge, List.take_of_length_le size.le]

theorem sessionLogin_saved (email password : CString) :
    sessionLogin (saveSession email password) = serviceLogin email password := by
  have first : ((saveSession email password).drop LoginPayload.email).take (maxEmailLen - 1) =
      ((strncpy maxEmailLen email).toList ++ (strncpy maxPassLen password).toList).take
        (maxEmailLen - 1) := rfl
  have second : (saveSession email password).drop LoginPayload.password =
      (strncpy maxPassLen password).toList ++ [] := by
    rw [saveSession, List.append_nil]
    exact List.drop_left' (strncpy maxEmailLen email).toList_length
  rw [sessionLogin, first, second, cut_take_strncpy (by decide), cut_take_strncpy (by decide),
    serviceLogin, serviceLogin, field_truncate, field_truncate]

inductive Stage where
  | closed
  | menu
  | registering
  | automatic
  | loggingIn (email password : CString) (remember : Bool)
  | inside (myInfo : MyInfoPayload)
deriving DecidableEq

def Stage.starting : Stage → Bool
  | .closed | .inside _ => false
  | _ => true

/-- One computer and the server. `connected` says that what is sent still arrives. -/
structure Machine where
  server : Server
  file : Option (List UInt8)
  stage : Stage
  fd : Int
  connected : Bool
  toServer : List Request
  toClient : List Packet

/-- `lost` is a `recv_packet` that fails, `dropped` the server giving the connection up. -/
inductive MachineEvent where
  | launch (fd : Int)
  | register (email username password : CString)
  | login (email password : CString) (remember : Bool)
  | serve (env : Env)
  | answer
  | lost
  | dropped
  | logout
  | exit
  | elsewhere (e : Event)

/- `send_packet` on a connection that is gone is not noticed. -/
def Machine.request (s : Machine) (r : Request) : Machine :=
  { s with toServer := if s.connected then s.toServer ++ [r] else [] }

def Machine.serverMoves (P : Platform) (s : Machine) (e : Event) : Option (Machine × Unit) :=
  (serverStep P s.server e).map fun r =>
    ({ s with
      server := r.1
      toClient := s.toClient ++ if s.connected then sentTo s.fd r.2 else [] }, ())

def launch (P : Platform) (s : Machine) (fd : Int) : Option (Machine × Unit) :=
  (serverStep P s.server (.connect fd)).map fun r =>
    let s := { s with server := r.1, fd := fd, connected := true, toServer := [], toClient := [] }
    match loadSession s.file with
    | some session => ({ s with stage := .automatic }.request (sessionLogin session), ())
    | none => ({ s with stage := .menu }, ())

/- The packet that `service_register` or `service_login` waits for, or `none` when the
connection broke. -/
def hear (s : Machine) (packet : Option Packet) : Option (Machine × Unit) :=
  match s.stage with
  | .registering => some ({ s with stage := .menu }, ())
  | .automatic =>
    match packet.bind serviceLoginReturns with
    | some info => some ({ s with stage := .inside info }, ())
    | none => some ({ s with stage := .menu, file := none }, ())
  | .loggingIn email password remember =>
    match packet.bind serviceLoginReturns with
    | some info =>
      let file := if remember then some (saveSession email password) else none
      some ({ s with stage := .inside info, file := file }, ())
    | none => some ({ s with stage := .menu }, ())
  | _ => none

def Machine.close (s : Machine) : Machine :=
  { s with stage := .closed, connected := false, toServer := [], toClient := [] }

/- Between the connect and the login nobody else sends on this connection. Inside, the main
loop sends what it likes. -/
def Machine.Held (s : Machine) (fd : Int) : Prop :=
  s.connected ∧ s.stage.starting ∧ fd = s.fd

instance (s : Machine) (fd : Int) : Decidable (s.Held fd) :=
  inferInstanceAs (Decidable (_ ∧ _ ∧ _))

def machineStep (P : Platform) (s : Machine) : MachineEvent → Option (Machine × Unit)
  | .launch fd => if s.stage = .closed then launch P s fd else none
  | .register email username password =>
    if s.stage = .menu then
      some ({ s with stage := .registering }.request
        (serviceRegister (email.truncate (maxEmailLen - 1)) (username.truncate (maxNameLen - 1))
          (password.truncate (maxPassLen - 1))), ())
    else none
  | .login email password remember =>
    let email := email.truncate (maxEmailLen - 1)
    let password := password.truncate (maxPassLen - 1)
    if s.stage = .menu then
      some ({ s with stage := .loggingIn email password remember }.request
        (serviceLogin email password), ())
    else none
  | .serve env =>
    match s.toServer with
    | r :: rest => { s with toServer := rest }.serverMoves P (r.event s.fd env)
    | [] => none
  | .answer =>
    match s.toClient with
    | first :: rest => hear { s with toClient := rest } (some first)
    | [] => none
  | .lost => hear { s with connected := false, toServer := [], toClient := [] } none
  | .dropped =>
    if s.Held s.fd then
      ({ s with connected := false, toServer := [] } : Machine).serverMoves P (.disconnect s.fd)
    else none
  | .logout =>
    match s.stage with
    | .inside _ => some ({ s with file := none }.close, ())
    | _ => none
  | .exit => if s.stage = .closed then none else some (s.close, ())
  | .elsewhere e => if s.Held e.fd then none else s.serverMoves P e

/-- The computer before the client was ever started on it. -/
def machine (P : Platform) (s : Server) : System Machine MachineEvent Unit where
  start :=
    { server := s
      file := none
      stage := .closed
      fd := 0
      connected := false
      toServer := []
      toClient := [] }
  step := machineStep P

abbrev MachineMoment := Moment Machine MachineEvent Unit

theorem Machine.serverMoves_some {s t : Machine} {e : Event} {o : Unit}
    (moved : s.serverMoves P e = some (t, o)) :
    ∃ server out, serverStep P s.server e = some (server, out) ∧
      t = { s with
        server := server
        toClient := s.toClient ++ if s.connected then sentTo s.fd out else [] } := by
  obtain ⟨⟨server, out⟩, stepped, same⟩ := Option.map_eq_some_iff.mp moved
  cases same
  exact ⟨server, out, stepped, rfl⟩

inductive Heard (s : Machine) (packet : Option Packet) : Machine → Prop
  | registered (stage : s.stage = .registering) : Heard s packet { s with stage := .menu }
  | restored {info : MyInfoPayload} (stage : s.stage = .automatic)
      (accepted : packet.bind serviceLoginReturns = some info) :
      Heard s packet { s with stage := .inside info }
  | forgotten (stage : s.stage = .automatic) (refused : packet.bind serviceLoginReturns = none) :
      Heard s packet { s with stage := .menu, file := none }
  | entered {email password : CString} {remember : Bool} {info : MyInfoPayload}
      (stage : s.stage = .loggingIn email password remember)
      (accepted : packet.bind serviceLoginReturns = some info) :
      Heard s packet { s with
        stage := .inside info
        file := if remember then some (saveSession email password) else none }
  | refused {email password : CString} {remember : Bool}
      (stage : s.stage = .loggingIn email password remember)
      (refused : packet.bind serviceLoginReturns = none) : Heard s packet { s with stage := .menu }

theorem hear_some {s t : Machine} {packet : Option Packet} {o : Unit}
    (heard : hear s packet = some (t, o)) : Heard s packet t := by
  unfold hear at heard
  cases stage : s.stage with
  | registering =>
    rw [stage] at heard
    cases heard
    exact .registered stage
  | automatic =>
    rw [stage] at heard
    dsimp only at heard
    split at heard
    · rename_i info accepted
      cases heard
      exact .restored stage accepted
    · rename_i refused
      cases heard
      exact .forgotten stage refused
  | loggingIn email password remember =>
    rw [stage] at heard
    dsimp only at heard
    split at heard
    · rename_i info accepted
      cases heard
      exact .entered stage accepted
    · rename_i refused
      cases heard
      exact .refused stage refused
  | closed | menu | inside info =>
    rw [stage] at heard
    cases heard

inductive MachineEffect (P : Platform) (s : Machine) : MachineEvent → Machine → Prop
  | resumed {fd : Int} {server : Server} {out : List Sent} {session : List UInt8}
      (closed : s.stage = .closed) (accepted : serverStep P s.server (.connect fd) = some (server, out))
      (loaded : loadSession s.file = some session) :
      MachineEffect P s (.launch fd) { s with
        server := server
        stage := .automatic
        fd := fd
        connected := true
        toServer := [sessionLogin session]
        toClient := [] }
  | started {fd : Int} {server : Server} {out : List Sent} (closed : s.stage = .closed)
      (accepted : serverStep P s.server (.connect fd) = some (server, out))
      (missing : loadSession s.file = none) :
      MachineEffect P s (.launch fd) { s with
        server := server
        stage := .menu
        fd := fd
        connected := true
        toServer := []
        toClient := [] }
  | registers (email username password : CString) (menu : s.stage = .menu) :
      MachineEffect P s (.register email username password)
        (Machine.request { s with stage := .registering }
          (serviceRegister (email.truncate (maxEmailLen - 1)) (username.truncate (maxNameLen - 1))
            (password.truncate (maxPassLen - 1))))
  | logsIn (email password : CString) (remember : Bool) (menu : s.stage = .menu) :
      MachineEffect P s (.login email password remember)
        (Machine.request { s with
            stage := .loggingIn (email.truncate (maxEmailLen - 1))
              (password.truncate (maxPassLen - 1)) remember }
          (serviceLogin (email.truncate (maxEmailLen - 1)) (password.truncate (maxPassLen - 1))))
  | served {env : Env} {r : Request} {rest : List Request} {server : Server} {out : List Sent}
      (queue : s.toServer = r :: rest)
      (handled : serverStep P s.server (r.event s.fd env) = some (server, out)) :
      MachineEffect P s (.serve env) { s with
        server := server
        toServer := rest
        toClient := s.toClient ++ if s.connected then sentTo s.fd out else [] }
  | answered {first : Packet} {rest : List Packet} {t : Machine} (queue : s.toClient = first :: rest)
      (heard : Heard { s with toClient := rest } (some first) t) : MachineEffect P s .answer t
  | broke {t : Machine}
      (heard : Heard { s with connected := false, toServer := [], toClient := [] } none t) :
      MachineEffect P s .lost t
  | dropped {server : Server} {out : List Sent} (held : s.Held s.fd)
      (handled : serverStep P s.server (.disconnect s.fd) = some (server, out)) :
      MachineEffect P s .dropped { s with server := server, connected := false, toServer := [] }
  | loggedOut {info : MyInfoPayload} (stage : s.stage = .inside info) :
      MachineEffect P s .logout ({ s with file := none } : Machine).close
  | exited (running : s.stage ≠ .closed) : MachineEffect P s .exit s.close
  | elsewhere {e : Event} {server : Server} {out : List Sent} (other : ¬ s.Held e.fd)
      (handled : serverStep P s.server e = some (server, out)) :
      MachineEffect P s (.elsewhere e) { s with
        server := server
        toClient := s.toClient ++ if s.connected then sentTo s.fd out else [] }

theorem machineStep_effect {s t : Machine} {e : MachineEvent} {o : Unit}
    (stepped : machineStep P s e = some (t, o)) : MachineEffect P s e t := by
  cases e with
  | launch fd =>
    obtain ⟨closed, launched⟩ := Option.ite_none_right_eq_some.mp stepped
    obtain ⟨⟨server, out⟩, accepted, same⟩ := Option.map_eq_some_iff.mp launched
    cases loaded : loadSession s.file with
    | some session =>
      simp only [loaded] at same
      cases same
      exact .resumed closed accepted loaded
    | none =>
      simp only [loaded] at same
      cases same
      exact .started closed accepted loaded
  | register email username password =>
    obtain ⟨menu, same⟩ := Option.ite_none_right_eq_some.mp stepped
    cases same
    exact .registers email username password menu
  | login email password remember =>
    obtain ⟨menu, same⟩ := Option.ite_none_right_eq_some.mp stepped
    cases same
    exact .logsIn email password remember menu
  | serve env =>
    rw [machineStep] at stepped
    split at stepped
    · rename_i r rest queue
      obtain ⟨server, out, handled, rfl⟩ := Machine.serverMoves_some stepped
      exact .served queue handled
    · cases stepped
  | answer =>
    rw [machineStep] at stepped
    split at stepped
    · rename_i first rest queue
      exact .answered queue (hear_some stepped)
    · cases stepped
  | lost => exact .broke (hear_some stepped)
  | dropped =>
    obtain ⟨held, moved⟩ := Option.ite_none_right_eq_some.mp stepped
    obtain ⟨server, out, handled, rfl⟩ := Machine.serverMoves_some moved
    simp only [Bool.false_eq_true, if_false, List.append_nil]
    exact .dropped held handled
  | logout =>
    rw [machineStep] at stepped
    split at stepped
    · rename_i info stage
      cases stepped
      exact .loggedOut stage
    · cases stepped
  | exit =>
    obtain ⟨running, same⟩ := Option.ite_none_left_eq_some.mp stepped
    cases same
    exact .exited running
  | elsewhere e =>
    obtain ⟨other, moved⟩ := Option.ite_none_left_eq_some.mp stepped
    obtain ⟨server, out, handled, rfl⟩ := Machine.serverMoves_some moved
    exact .elsewhere other handled

def serverEvent (s : Machine) : MachineEvent → Option Event
  | .launch fd => some (.connect fd)
  | .serve env => s.toServer.head?.map fun r => r.event s.fd env
  | .dropped => some (.disconnect s.fd)
  | .elsewhere e => some e
  | _ => none

theorem MachineEffect.handles {s t : Machine} {e : MachineEvent} (effect : MachineEffect P s e t) :
    t.server = s.server ∨
      ∃ e' out, serverEvent s e = some e' ∧ serverStep P s.server e' = some (t.server, out) := by
  cases effect with
  | resumed closed accepted loaded => exact .inr ⟨_, _, rfl, accepted⟩
  | started closed accepted missing => exact .inr ⟨_, _, rfl, accepted⟩
  | served queue handled => exact .inr ⟨_, _, by rw [serverEvent, queue]; rfl, handled⟩
  | dropped held handled => exact .inr ⟨_, _, rfl, handled⟩
  | elsewhere other handled => exact .inr ⟨_, _, rfl, handled⟩
  | answered queue heard => cases heard <;> exact .inl rfl
  | broke heard => cases heard <;> exact .inl rfl
  | registers | logsIn | loggedOut | exited => exact .inl rfl

theorem machine_server {s₀ : Server} (reached : Reachable (server P key) s₀)
    {past : List MachineMoment} {s : Machine} (run : Run (machine P s₀) past s) :
    Reachable (server P key) s.server := by
  refine run.reachable.invariant (fun s => Reachable (server P key) s.server) reached ?_
  intro s e t o before stepped
  rcases (machineStep_effect stepped).handles with same | ⟨e, out, -, handled⟩
  · rw [same]
    exact before
  · exact before.step handled

end MoT
