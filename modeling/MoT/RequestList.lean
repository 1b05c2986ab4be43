import MoT.ClientEffects
import MoT.Listings

/-! The requests to a user: those in the table, the list that the server sends of them, and the
array that a client makes of it. -/
namespace MoT
open CMemory Relational Transition

variable {P : Platform} {key : Key} {env : Env} {allocates : Nat → Bool} {fd : Int} {uid : UInt32}
  {db : Database} {out : List Sent}

def shownRequests (s : MainState) : List UInt32 :=
  ((s.requests.getD []).take s.requestsCount.toNat).map ContactSummary.uid

/-- Who waits for an answer of the user. -/
def askers (db : Database) (uid : UInt32) : List UInt32 :=
  (requestListing db uid).rows.map fun r => columnInt r.senderId

theorem askers_eq (db : Database) (uid : UInt32) : askers db uid =
    (db.requests.rows.filter fun r => r.receiverId = bindInt uid).map
      fun r => columnInt r.senderId := rfl

/-- The table holds no request from anybody without an account. -/
def Acquainted (db : Database) (uid : UInt32) : Prop :=
  ∀ r ∈ (requestListing db uid).rows, HasUser db r.senderId

theorem contactSummary_bytes_uid (c : ContactSummary) : (ContactSummary.ofBytes c.bytes).uid = c.uid :=
  wordAt_append [] rfl c.uid _

theorem uids_read {list array : List ContactSummary}
    (read : List.Forall₂ (fun c e => ∃ junk, e = ContactSummary.ofBytes (fill junk (c.bytes.map some)))
      list array) : array.map ContactSummary.uid = list.map ContactSummary.uid := by
  induction read with
  | nil => rfl
  | cons first _ ih =>
    obtain ⟨junk, rfl⟩ := first
    rw [List.map_cons, List.map_cons, fill_written, contactSummary_bytes_uid, ih]

/- The array of a list that arrives; an empty list changes nothing. -/
theorem requests_arrive {junk : Nat → UInt8} {list : List ContactSummary} {app app' : AppState}
    {sent : List Request} (few : list.length ≤ 50)
    (received : networkThreadOn allocates junk (.respRequests list) app = .ok (app', sent)) :
    sent = [] ∧ ((list = [] ∧ app' = app) ∨
      (list ≠ [] ∧ (app'.requests.getD []).map ContactSummary.uid = list.map ContactSummary.uid ∧
        app'.requestsCount = list.length)) := by
  unfold networkThreadOn networkThread at received
  rw [MessageType.ofCode_code] at received
  dsimp only [Packet.type] at received
  have sizes : ∀ c ∈ list, (c.bytes.map some).length = ContactSummary.size := fun c _ =>
    (List.length_map _).trans c.bytes_length
  have short : list.length * ContactSummary.size < 2 ^ 32 :=
    Nat.lt_of_le_of_lt (Nat.mul_le_mul_right _ few) (by decide)
  obtain ⟨array, owned, shown⟩ :=
    ownedArray_fill ContactSummary.ofBytes (by decide : 0 < ContactSummary.size) sizes short junk
  by_cases nothing : list = []
  · subst nothing
    cases received
    exact ⟨rfl, .inl ⟨rfl, rfl⟩⟩
  · have nonempty : Packet.payload junk (.respRequests list) ≠ [] := by
      apply List.ne_nil_of_length_pos
      rw [show (Packet.payload junk (.respRequests list)).length = list.length * ContactSummary.size
        from (fill_length _ _).trans (array_length sizes)]
      exact Nat.mul_pos (List.length_pos_of_ne_nil nothing) (by decide)
    rw [deliver_eq nonempty] at received
    cases received
    have taken := congrArg (fun r => (r.1.getD []).map ContactSummary.uid) owned
    exact ⟨rfl, .inr ⟨nothing, taken.trans (uids_read shown), congrArg Prod.snd owned⟩⟩

def asking (db : Database) (uid : UInt32) : List (RequestRow × Entry UserRow) :=
  withUsers db.requests RequestRow.senderId (fun r => r.receiverId = bindInt uid) db

theorem asking_perm (plan : Plan) (known : Acquainted db uid) :
    ((asking db uid).map fun x => columnInt x.2.rowid).Perm (askers db uid) := by
  have all : (requestListing db uid).rows.filter (requestListing db uid).known =
      (requestListing db uid).rows :=
    List.filter_eq_self.mpr fun r member => decide_eq_true (known r member)
  have found : ((asking db uid).map Prod.fst).Perm
      ((requestListing db uid).rows.filter (requestListing db uid).known) :=
    (requestTransport plan db uid).found_perm
  have senders : (asking db uid).map (fun x => columnInt x.2.rowid) =
      ((asking db uid).map Prod.fst).map fun r => columnInt r.senderId := by
    rw [List.map_map]
    apply List.map_congr_left
    intro x member
    obtain ⟨-, -, id, -⟩ := (mem_withUsers db.requests RequestRow.senderId _).mp member
    exact congrArg columnInt id.symm
  rw [senders]
  exact (all ▸ found).map _

theorem served_requests (plan : Plan) (known : Acquainted db uid)
    (few : (askers db uid).length ≤ 50) :
    ((storageGetRequestsData plan db uid 50).map ContactSummary.uid).Perm (askers db uid) := by
  have perm := asking_perm plan known
  have arranged := plan.requests.perm (asking db uid)
  have page : (plan.requests.arrange (asking db uid)).take 50 =
      plan.requests.arrange (asking db uid) := by
    have size := perm.length_eq
    rw [List.length_map] at size
    apply List.take_of_length_le
    rw [arranged.length_eq, size]
    exact few
  have listed : (storageGetRequestsData plan db uid 50).map ContactSummary.uid =
      ((plan.requests.arrange (asking db uid)).take 50).map fun x => columnInt x.2.rowid := by
    rw [storageGetRequestsData, List.map_map]
    rfl
  rw [listed, page]
  exact (arranged.map _).trans perm

section Server

variable {s t : Server} {cli : Client} {p : Pointer} {code : UInt32} {e : Event}

/-- The user is logged in on this connection. -/
def Seated (s : Server) (fd : Int) (uid : UInt32) : Prop :=
  ∃ c, getClientByFd fd s.clients = some c ∧ c.uid = uid ∧ c.isOnline = true

def SingleSession (s : Server) (fd : Int) (uid : UInt32) : Prop :=
  ∀ c ∈ s.clients, c.uid = uid → c.fd = fd

theorem Seated.pushed (seated : Seated s fd uid) (single : SingleSession s fd uid)
    (packet : Packet) : ⟨fd, packet⟩ ∈ pushTo s uid packet := by
  rcases pushTo_cases s uid packet with ⟨c, member, user, -, pushes⟩ | ⟨offline, -⟩
  · rw [pushes, single c member user]
    exact List.mem_singleton.mpr rfl
  · obtain ⟨c, found, user, online⟩ := seated
    exact absurd ⟨c, (getClientByFd_some found).1, user, online⟩ offline

theorem askers_added {a b : UInt32} {requests : Table RequestRow RequestRow.clash}
    (inserted : s.db.requests.insert? ⟨bindInt a, bindInt b⟩ = some requests) (other : b ≠ uid) :
    askers { s.db with requests := requests } uid = askers s.db uid := by
  have elsewhere : ¬ bindInt b = bindInt uid := fun same => other (bindInt_inj same)
  rw [askers_eq, askers_eq, Table.insert?_rows inserted, List.filter_append,
    List.filter_cons_of_neg (by simpa using elsewhere), List.filter_nil, List.append_nil]

theorem askers_decided (plan : Plan) {a target : UInt32} (accepted : UInt8) (other : a ≠ uid) :
    askers (decideDb plan db a target accepted) uid = askers db uid := by
  have requests : (decideDb plan db a target accepted).requests =
      db.requests.deleteWhere fun r => r.senderId = bindInt target ∧ r.receiverId = bindInt a := by
    rw [decideDb, storageRemoveRequest]
    split
    · rw [acceptDb_requests]
    · rfl
  rw [askers_eq, askers_eq, requests, Table.deleteWhere_rows, List.filter_filter]
  congr 1
  apply List.filter_congr
  intro r _
  by_cases mine : r.receiverId = bindInt uid
  · have elsewhere : ¬ bindInt uid = bindInt a := fun same => other (bindInt_inj same).symm
    simp [mine, elsewhere]
  · simp [mine]

theorem Change.requests_same {type : Option MessageType} {db : Database}
    (change : Change P env s cli p type db) (unasked : type ≠ some .addByCode)
    (undecided : type ≠ some .decideRequest) : db.requests = s.db.requests := by
  cases change with
  | same | register | updateGroup | addMember | kickMember | deleteGroup => rfl
  | updateUser newUsername newPassword =>
    obtain ⟨users, updated⟩ :=
      storageUpdateUser_frame P s.db env.salt cli.uid newUsername newPassword
    rw [updated]
  | sendText k text readK =>
    obtain ⟨messages, logged⟩ := storageLogMessage_frame P (some s.masterKey) env.randBytes env.now
      s.db k cli.uid text
    rw [logged]
  | createConv => rw [storageCreateConversation_requests]
  | addByCode => exact absurd rfl unasked
  | decideRequest => exact absurd rfl undecided

theorem decide_answers (done : handleDecideRequest env s cli p = .ok (t, out)) :
    t.clients = s.clients ∧
      ⟨cli.fd, .respRequests (storageGetRequestsData env.plan t.db cli.uid 50)⟩ ∈ out := by
  obtain ⟨accepted, target, -, -, rfl, rfl⟩ := handleDecideRequest_ok done
  refine ⟨rfl, ?_⟩
  apply List.mem_append_left
  exact List.mem_append_right _ (List.mem_singleton.mpr rfl)

theorem dispatch_askers (uid : UInt32) (done : dispatch P env s cli code p = .ok (t, out)) :
    askers t.db uid = askers s.db uid ∨
    (∃ list, ∀ m ∈ pushTo t uid (.respRequests list), m ∈ out) ∨
    (cli.uid = uid ∧ t.clients = s.clients ∧ ∃ list, ⟨cli.fd, .respRequests list⟩ ∈ out) := by
  have change := dispatch_change done
  unfold dispatch at done
  by_cases asks : MessageType.ofCode code = some .addByCode
  · rw [asks] at done
    obtain ⟨rfl, -⟩ | ⟨friendCode, target, requests, -, -, -, inserted, rfl, rfl⟩ :=
      handleAddByCode_ok done
    · exact .inl rfl
    · by_cases mine : target = uid
      · subst mine
        exact .inr (.inl ⟨_, fun m pushed => List.mem_cons_of_mem _ pushed⟩)
      · exact .inl (askers_added inserted mine)
  · by_cases decides : MessageType.ofCode code = some .decideRequest
    · rw [decides] at done
      by_cases mine : cli.uid = uid
      · obtain ⟨same, answer⟩ := decide_answers done
        exact .inr (.inr ⟨mine, same, _, answer⟩)
      · obtain ⟨accepted, target, -, -, rfl, -⟩ := handleDecideRequest_ok done
        exact .inl (askers_decided env.plan accepted mine)
    · have same := change.requests_same asks decides
      exact .inl (by rw [askers_eq, askers_eq, same])

/-- What makes the server send the list back. -/
def Refreshes (r : Request) : Prop := r.1 = .getRequests ∨ r.1 = .decideRequest

theorem dispatch_refreshes {r : Request} (refreshes : Refreshes r)
    (done : dispatch P env s cli r.1.code p = .ok (t, out)) :
    ∃ list, ⟨cli.fd, .respRequests list⟩ ∈ out := by
  unfold dispatch at done
  rw [MessageType.ofCode_code] at done
  rcases refreshes with type | type
  · rw [type] at done
    cases done
    exact ⟨_, List.mem_singleton.mpr rfl⟩
  · rw [type] at done
    exact ⟨_, (decide_answers done).2⟩

/- An event that is somebody else's, or a packet of the user but no login. -/
def Keeps (fd : Int) (e : Event) : Prop :=
  e.fd ≠ fd ∨ ∃ r env, e = Request.event r fd env ∧ r.1 ≠ .login

theorem Seated.removed {c : Client} {fd' : Int} (connected : Connected s.clients)
    (found : getClientByFd fd s.clients = some c) (other : fd' ≠ fd) :
    getClientByFd fd (removeClient fd' s.clients) = some c :=
  (getClientByFd_removeClient fd' fd connected.distinct).trans ((if_neg other).trans found)

theorem Seated.step (reached : Reachable (server P key) s) (seated : Seated s fd uid)
    (stepped : (server P key).step s e = some (t, out)) (keeps : Keeps fd e) :
    Seated t fd uid := by
  obtain ⟨c, found, user, online⟩ := seated
  have connected := reachable_connected reached
  have handled := (handleEvent_of_step stepped).2
  rcases keeps with other | ⟨r, env, rfl, unlogged⟩
  · cases e with
    | connect fd' =>
      cases handled
      exact ⟨c, (getClientByFd_cons fd _ s.clients).trans ((if_neg other).trans found), user, online⟩
    | disconnect fd' =>
      cases handled
      exact ⟨c, Seated.removed connected found other, user, online⟩
    | packet fd' code bytes env =>
      simp only [handleEvent] at handled
      split at handled
      · cases handled
        exact ⟨c, Seated.removed connected found other, user, online⟩
      · rename_i cli listed
        have elsewhere : ¬ cli.fd = fd := (getClientByFd_some listed).2 ▸ other
        have written (f : Client → Client) (keeps : ∀ d, (f d).fd = d.fd) :
            getClientByFd fd (writeClient cli.fd f s.clients) = some c :=
          (getClientByFd_writeClient cli.fd keeps fd s.clients).trans ((if_neg elsewhere).trans found)
        refine ⟨c, ?_, user, online⟩
        rcases dispatch_clients handled with same | ⟨u, name, -, same⟩ | ⟨name, -, same⟩
        · rw [same, found]
        · rw [same, written]
          exact fun _ => rfl
        · rw [same, written]
          exact fun _ => rfl
  · simp only [Request.event, handleEvent, found] at handled
    have sender := (getClientByFd_some found).2
    rcases dispatch_clients handled with same | ⟨u, name, login, -⟩ | ⟨name, -, same⟩
    · exact ⟨c, same ▸ found, user, online⟩
    · rw [MessageType.ofCode_code] at login
      exact absurd (Option.some.inj login) unlogged
    · refine ⟨{ c with username := name }, ?_, user, online⟩
      subst sender
      have renamed := getClientByFd_writeClient c.fd
        (f := fun d : Client => { d with username := name }) (fun _ => rfl) c.fd s.clients
      rw [same, renamed, if_pos rfl, found]
      rfl

theorem sent_requests (reached : Reachable (server P key) s)
    (stepped : (server P key).step s e = some (t, out)) (seated : Seated t fd uid)
    {list : List ContactSummary} (sent : ⟨fd, .respRequests list⟩ ∈ out) :
    ∃ plan, list = storageGetRequestsData plan t.db uid 50 := by
  have distinct := (reachable_connected (reached.step stepped)).distinct
  have handled := (handleEvent_of_step stepped).2
  cases e with
  | connect | disconnect =>
    cases handled
    cases sent
  | packet fd' code bytes env =>
    simp only [handleEvent] at handled
    split at handled
    · cases handled
      cases sent
    · rename_i cli listed
      obtain ⟨c, there, same, -, rightful⟩ :=
        dispatch_addressed reached (getClientByFd_some listed).1 handled sent
      obtain ⟨d, found, user, -⟩ := seated
      have here := getClientByFd_of_mem distinct there
      rw [same] at here
      cases found.symm.trans here
      exact ⟨env.plan, user ▸ rightful⟩

theorem step_askers (stepped : (server P key).step s e = some (t, out)) (seated : Seated t fd uid)
    (single : SingleSession t fd uid) :
    askers t.db uid = askers s.db uid ∨ ∃ list, ⟨fd, .respRequests list⟩ ∈ out := by
  have handled := (handleEvent_of_step stepped).2
  cases e with
  | connect | disconnect =>
    cases handled
    exact .inl rfl
  | packet fd' code bytes env =>
    simp only [handleEvent] at handled
    split at handled
    · cases handled
      exact .inl rfl
    · rename_i cli listed
      rcases dispatch_askers uid handled with same | ⟨list, pushes⟩ | ⟨user, same, list, answer⟩
      · exact .inl same
      · exact .inr ⟨list, pushes _ (seated.pushed single _)⟩
      · have here := single cli (same ▸ (getClientByFd_some listed).1) user
        exact .inr ⟨list, here ▸ answer⟩

theorem step_refreshes {r : Request} (refreshes : Refreshes r) (seated : Seated s fd uid)
    (stepped : (server P key).step s (r.event fd env) = some (t, out)) :
    ∃ list, ⟨fd, .respRequests list⟩ ∈ out := by
  obtain ⟨c, found, -, -⟩ := seated
  have handled := (handleEvent_of_step stepped).2
  simp only [Request.event, handleEvent, found] at handled
  rw [← (getClientByFd_some found).2]
  exact dispatch_refreshes refreshes handled

theorem step_users (stepped : (server P key).step s e = some (t, out)) {id : Int}
    (has : HasUser s.db id) : HasUser t.db id := by
  have handled := (handleEvent_of_step stepped).2
  cases e with
  | connect | disconnect =>
    cases handled
    exact has
  | packet fd' code bytes env =>
    simp only [handleEvent] at handled
    split at handled
    · cases handled
      exact has
    · exact (dispatch_accounts handled).kept has

/-- Whoever asks the user in this event has an account. -/
def Introduced (s : Server) (e : Event) (uid : UInt32) : Prop :=
  ∀ a, Asks ⟨s, e, s, []⟩ a uid → HasUser s.db (bindInt a)

theorem own_introduced (seated : Seated s fd uid) (r : Request) (env : Env)
    (a : UInt32) (asks : Asks ⟨s, r.event fd env, s, []⟩ a uid) : a = uid := by
  obtain ⟨c, found, user, -⟩ := seated
  obtain ⟨p, env', code, ⟨fd', code', bytes, cli, event, listed, sender, -, -⟩, -, -⟩ := asks
  cases event
  cases found.symm.trans listed
  exact sender.symm.trans user

theorem step_acquainted (known : Acquainted s.db uid)
    (stepped : (server P key).step s e = some (t, out))
    (introduced : ∀ a, a ≠ uid → Asks ⟨s, e, s, []⟩ a uid → HasUser s.db (bindInt a)) :
    Acquainted t.db uid := by
  intro r member
  obtain ⟨held, mine⟩ := List.mem_filter.mp member
  apply step_users stepped
  rcases step_requests stepped held with old | ⟨a, b, asks, distinct, rfl⟩
  · exact known r (List.mem_filter.mpr ⟨old, mine⟩)
  · cases bindInt_inj (of_decide_eq_true mine)
    exact introduced a distinct asks

end Server

end MoT
