import Mathlib.Combinatorics.SimpleGraph.Operations
import MoT.Effects
import MoT.Services

/-! Contacts and requests over whole runs. Abstractly the component keeps a simple
graph of friends, to which edges are only ever added; the contacts table refines it.
Where the edges come from is a second question, about the past of a run. -/
namespace MoT
open CMemory Relational Transition

variable {P : Platform} {key : Key} {env : Env} {s t : Server} {cli : Client} {p : Pointer}

theorem acceptDb_contacts (plan : Plan) (db : Database) (uid target : UInt32) :
    (acceptDb plan db uid target).contacts = (storageAddFriendship db uid target).contacts := by
  simp only [acceptDb]
  split <;> simp

theorem acceptDb_requests (plan : Plan) (db : Database) (uid target : UInt32) :
    (acceptDb plan db uid target).requests = db.requests := by
  simp only [acceptDb]
  split <;> simp [storageAddFriendship]

/-- With MSG_ADD_BY_CODE user `a` asks the owner `b` of a friend code. -/
def Asks (m : ServerMoment) (a b : UInt32) : Prop :=
  ∃ p env code, Sends m .addByCode a p env ∧
    readString p AddContactPayload.friendCode = .ok code ∧
    storageGetUidByCode m.before.db code = some b

/-- With MSG_DECIDE_REQUEST user `r` accepts, naming `t`. -/
def Accepts (m : ServerMoment) (r t : UInt32) : Prop :=
  ∃ p env accepted, Sends m .decideRequest r p env ∧
    readByte p DecideRequestPayload.accepted = .ok accepted ∧ accepted ≠ 0 ∧
    readUInt32 p DecideRequestPayload.targetUid = .ok t

def Pending (s : Server) (a b : UInt32) : Prop := ⟨bindInt a, bindInt b⟩ ∈ s.db.requests.rows

def Contact (s : Server) (a b : UInt32) : Prop := ⟨bindInt a, bindInt b⟩ ∈ s.db.contacts.rows

theorem Change.contacts {type : Option MessageType} {db : Database}
    (change : Change P env s cli p type db) :
    db.contacts = s.db.contacts ∨ ∃ accepted target, type = some .decideRequest ∧
      readByte p DecideRequestPayload.accepted = .ok accepted ∧ accepted ≠ 0 ∧
      readUInt32 p DecideRequestPayload.targetUid = .ok target ∧
      db.contacts = (storageAddFriendship s.db cli.uid target).contacts := by
  cases change with
  | same | register | addByCode | updateGroup | addMember | kickMember | deleteGroup =>
    exact .inl rfl
  | updateUser newUsername newPassword =>
    obtain ⟨users, updated⟩ :=
      storageUpdateUser_frame P s.db env.salt cli.uid newUsername newPassword
    exact .inl (by rw [updated])
  | sendText k text readK =>
    obtain ⟨messages, logged⟩ := storageLogMessage_frame P (some s.masterKey) env.randBytes env.now
      s.db k cli.uid text
    exact .inl (by rw [logged])
  | createConv => exact .inl (storageCreateConversation_contacts _ _ _ _ _)
  | decideRequest accepted target readAccepted readTarget =>
    by_cases yes : accepted ≠ 0
    · refine .inr ⟨accepted, target, rfl, readAccepted, yes, readTarget, ?_⟩
      simp only [decideDb, if_pos yes, storageRemoveRequest, acceptDb_contacts]
    · exact .inl (by simp only [decideDb, if_neg yes, storageRemoveRequest])

theorem Change.requests {type : Option MessageType} {db : Database}
    (change : Change P env s cli p type db) {row : RequestRow} (member : row ∈ db.requests.rows) :
    row ∈ s.db.requests.rows ∨ ∃ code target, type = some .addByCode ∧
      readString p AddContactPayload.friendCode = .ok code ∧
      storageGetUidByCode s.db code = some target ∧ cli.uid ≠ target ∧
      row = ⟨bindInt cli.uid, bindInt target⟩ := by
  cases change with
  | same | register | updateGroup | addMember | kickMember | deleteGroup => exact .inl member
  | updateUser newUsername newPassword =>
    obtain ⟨users, updated⟩ :=
      storageUpdateUser_frame P s.db env.salt cli.uid newUsername newPassword
    exact .inl (by simpa [updated] using member)
  | sendText k text readK =>
    obtain ⟨messages, logged⟩ := storageLogMessage_frame P (some s.masterKey) env.randBytes env.now
      s.db k cli.uid text
    exact .inl (by simpa [logged] using member)
  | createConv => exact .inl (by simpa using member)
  | decideRequest accepted target readAccepted readTarget =>
    have kept := List.mem_of_mem_filter member
    by_cases yes : accepted ≠ 0
    · exact .inl (by simpa only [if_pos yes, acceptDb_requests] using kept)
    · exact .inl (by simpa only [if_neg yes] using kept)
  | addByCode code target requests readCode known distinct inserted =>
    have rows := Table.insert?_rows inserted
    rcases List.mem_append.mp (rows ▸ member) with old | new
    · exact .inl old
    · exact .inr ⟨code, target, rfl, readCode, known, distinct, List.mem_singleton.mp new⟩

theorem step_contacts {e : Event} {out : List Sent}
    (stepped : (server P key).step s e = some (t, out)) :
    t.db.contacts = s.db.contacts ∨ ∃ r target, Accepts ⟨s, e, t, out⟩ r target ∧
      t.db.contacts = (storageAddFriendship s.db r target).contacts := by
  rcases step_change stepped with same | ⟨fd, code, bytes, env, cli, rfl, listed, change⟩
  · exact .inl (by rw [same])
  · rcases change.contacts with same | ⟨accepted, target, type, readAccepted, yes, readTarget, rows⟩
    · exact .inl same
    · exact .inr ⟨cli.uid, target, ⟨_, env, accepted,
        ⟨fd, code, bytes, cli, rfl, listed, rfl, type, rfl⟩, readAccepted, yes, readTarget⟩, rows⟩

theorem step_requests {e : Event} {out : List Sent}
    (stepped : (server P key).step s e = some (t, out)) {row : RequestRow}
    (member : row ∈ t.db.requests.rows) :
    row ∈ s.db.requests.rows ∨
      ∃ a b, Asks ⟨s, e, t, out⟩ a b ∧ a ≠ b ∧ row = ⟨bindInt a, bindInt b⟩ := by
  rcases step_change stepped with same | ⟨fd, code, bytes, env, cli, rfl, listed, change⟩
  · exact .inl (same ▸ member)
  · rcases change.requests member with old | ⟨friendCode, target, type, readCode, known, distinct, row⟩
    · exact .inl old
    · exact .inr ⟨cli.uid, target, ⟨_, env, friendCode,
        ⟨fd, code, bytes, cli, rfl, listed, rfl, type, rfl⟩, readCode, known⟩, distinct, row⟩

/-- The contacts table holds exactly the ordered pairs of adjacent users. -/
def Represents (db : Database) (G : SimpleGraph Int) : Prop :=
  ∀ a b, ⟨a, b⟩ ∈ db.contacts.rows ↔ G.Adj a b

/-- The one thing that happens to the graph: two users become friends. -/
def Befriend (G G' : SimpleGraph Int) : Prop := ∃ a b, G' = G ⊔ SimpleGraph.edge a b

theorem storageAddFriendship_represents {db : Database} {G : SimpleGraph Int} (uidA uidB : UInt32)
    (represents : Represents db G) :
    Represents (storageAddFriendship db uidA uidB)
      (G ⊔ SimpleGraph.edge (bindInt uidA) (bindInt uidB)) := by
  have there : (⟨bindInt uidB, bindInt uidA⟩ : ContactRow) ∈ db.contacts.rows ↔
      (⟨bindInt uidA, bindInt uidB⟩ : ContactRow) ∈ db.contacts.rows := by
    rw [represents, represents, G.adj_comm]
  intro a b
  rw [storageAddFriendship_rows, SimpleGraph.sup_adj, SimpleGraph.edge_adj, ← represents a b]
  split
  · rename_i refused
    -- the pair is one user, or already there in both directions
    constructor
    · exact .inl
    · rintro (old | ⟨⟨rfl, rfl⟩ | ⟨rfl, rfl⟩, apart⟩)
      · exact old
      · rcases refused with same | forth | back
        · exact absurd (congrArg bindInt same) apart
        · exact forth
        · exact there.mp back
      · rcases refused with same | forth | back
        · exact absurd (congrArg bindInt same).symm apart
        · exact there.mpr forth
        · exact back
  · rename_i fresh
    have apart : bindInt uidA ≠ bindInt uidB := fun same => fresh (.inl (bindInt_inj same))
    simp only [List.mem_append, List.mem_cons, ContactRow.mk.injEq, List.not_mem_nil, or_false]
    constructor
    · rintro (old | ⟨rfl, rfl⟩ | ⟨rfl, rfl⟩)
      · exact .inl old
      · exact .inr ⟨.inl ⟨rfl, rfl⟩, apart⟩
      · exact .inr ⟨.inr ⟨rfl, rfl⟩, apart.symm⟩
    · rintro (old | ⟨pair, -⟩)
      · exact .inl old
      · exact .inr pair

/-- Every step of the server is matched by the graph: it stays, or gains one edge. -/
theorem step_befriends {e : Event} {out : List Sent} {G : SimpleGraph Int}
    (represents : Represents s.db G) (stepped : (server P key).step s e = some (t, out)) :
    ∃ G', Relation.ReflTransGen Befriend G G' ∧ Represents t.db G' := by
  rcases step_contacts stepped with same | ⟨r, target, -, rows⟩
  · exact ⟨G, .refl, fun a b => same ▸ represents a b⟩
  · refine ⟨_, .single ⟨bindInt r, bindInt target, rfl⟩, fun a b => ?_⟩
    rw [rows]
    exact storageAddFriendship_represents r target represents a b

theorem reachable_represents (reached : Reachable (server P key) s) :
    ∃ G, Relation.ReflTransGen Befriend ⊥ G ∧ Represents s.db G :=
  reached.simulation (fun s G => Represents s.db G) Befriend
    (fun _ _ => by simp [server, storageInit])
    fun _ _ _ _ _ represents stepped => step_befriends represents stepped

theorem contact_comm (reached : Reachable (server P key) s) (a b : Int) :
    (⟨a, b⟩ : ContactRow) ∈ s.db.contacts.rows ↔ (⟨b, a⟩ : ContactRow) ∈ s.db.contacts.rows := by
  obtain ⟨G, -, represents⟩ := reachable_represents reached
  rw [represents, represents, G.adj_comm]

theorem contact_irrefl (reached : Reachable (server P key) s) (a : Int) :
    (⟨a, a⟩ : ContactRow) ∉ s.db.contacts.rows := by
  intro self
  obtain ⟨G, -, represents⟩ := reachable_represents reached
  exact G.irrefl ((represents a a).mp self)

/-- Contacts are mutual and nobody is their own contact, whatever is accepted in
whatever order. -/
theorem contacts_symmetric_irreflexive (P : Platform) (key : Key) (s : Server)
    (reached : Reachable (server P key) s) :
    (∀ a b : Int, (⟨a, b⟩ : ContactRow) ∈ s.db.contacts.rows ↔
      (⟨b, a⟩ : ContactRow) ∈ s.db.contacts.rows) ∧
    ∀ a : Int, (⟨a, a⟩ : ContactRow) ∉ s.db.contacts.rows :=
  ⟨contact_comm reached, contact_irrefl reached⟩

def acceptedSession : List Event :=
  aliceArrives ++ bobArrives ++
    [(serviceAddContact (CString.lit "000002")).event 7 (recordedEnv 3),
      (serviceDecideRequest 1 1).event 8 (recordedEnv 4)]

theorem acceptedSession_completes :
    (recordedServer.exec recordedServer.start acceptedSession).isSome := by decide +kernel

abbrev acceptedState : Server := recordedServer.after acceptedSession acceptedSession_completes

theorem contacts_symmetric_irreflexive_accepted :
    acceptedState.db.contacts.rows = [⟨2, 1⟩, ⟨1, 2⟩] ∧
      (∀ a b : Int, (⟨a, b⟩ : ContactRow) ∈ acceptedState.db.contacts.rows ↔
        (⟨b, a⟩ : ContactRow) ∈ acceptedState.db.contacts.rows) ∧
      ∀ a : Int, (⟨a, a⟩ : ContactRow) ∉ acceptedState.db.contacts.rows :=
  ⟨by decide +kernel, contacts_symmetric_irreflexive recordedPlatform recordedKey _
    (.after acceptedSession acceptedSession_completes)⟩

variable {past : List ServerMoment}

/-- In this past one of the two asked the other, and later the one who was asked
accepted while the request was pending. -/
def Consented (past : List ServerMoment) (a b : Int) : Prop :=
  ∃ later m earlier r u, past = later ++ m :: earlier ∧ Accepts m r u ∧ Pending m.before u r ∧
    (∃ q ∈ earlier, Asks q u r) ∧
    ((a = bindInt u ∧ b = bindInt r) ∨ (a = bindInt r ∧ b = bindInt u))

theorem Consented.later {a b : Int} (m : ServerMoment) (consented : Consented past a b) :
    Consented (m :: past) a b := by
  obtain ⟨later, n, earlier, r, u, rfl, rest⟩ := consented
  exact ⟨m :: later, n, earlier, r, u, rfl, rest⟩

theorem Accepts.unique {m : ServerMoment} {r u r' u' : UInt32} (one : Accepts m r u)
    (two : Accepts m r' u') : r = r' ∧ u = u' := by
  obtain ⟨p, env, a, ⟨fd, code, bytes, cli, event, listed, rfl, -, rfl⟩, -, -, readU⟩ := one
  obtain ⟨p', env', a', ⟨fd', code', bytes', cli', event', listed', rfl, -, rfl⟩, -, -, readU'⟩ :=
    two
  cases event.symm.trans event'
  cases Option.some.inj (listed.symm.trans listed')
  exact ⟨rfl, Except.ok.inj (readU.symm.trans readU')⟩

theorem accepts_contacts {m : ServerMoment} {r u : UInt32} (valid : m.Valid (server P key))
    (accepts : Accepts m r u) :
    m.after.db.contacts = (storageAddFriendship m.before.db r u).contacts := by
  obtain ⟨p, env, a, ⟨fd, code, bytes, cli, event, listed, rfl, type, rfl⟩, readA, yes, readU⟩ :=
    accepts
  have handled := (handleEvent_of_step valid).2
  rw [event] at handled
  simp only [handleEvent, listed, dispatch, type] at handled
  obtain ⟨a', u', readA', readU', after, -⟩ := handleDecideRequest_ok handled
  cases Except.ok.inj (readA.symm.trans readA')
  cases Except.ok.inj (readU.symm.trans readU')
  rw [after]
  simp only [decideDb, if_pos yes, storageRemoveRequest, acceptDb_contacts]

theorem pending_asked (run : Run (server P key) past s) {a b : UInt32} (pending : Pending s a b) :
    ∃ q ∈ past, Asks q a b := by
  have sent : ∀ row ∈ s.db.requests.rows, ∃ q ∈ past, ∃ u v, Asks q u v ∧
      row = ⟨bindInt u, bindInt v⟩ := by
    refine run.invariant (fun past s => ∀ row ∈ s.db.requests.rows, ∃ q ∈ past, ∃ u v,
      Asks q u v ∧ row = ⟨bindInt u, bindInt v⟩) (by simp [server, storageInit]) ?_
    intro past s e t out _ ih stepped row member
    rcases step_requests stepped member with old | ⟨u, v, asks, -, new⟩
    · obtain ⟨q, hq, rest⟩ := ih row old
      exact ⟨q, List.mem_cons_of_mem _ hq, rest⟩
    · exact ⟨_, List.mem_cons_self, u, v, asks, new⟩
  obtain ⟨q, hq, u, v, asks, same⟩ := sent _ pending
  obtain ⟨same, same'⟩ := RequestRow.mk.inj same
  cases bindInt_inj same
  cases bindInt_inj same'
  exact ⟨q, hq, asks⟩

theorem contact_persists {later earlier : List ServerMoment} {m : ServerMoment} {row : ContactRow}
    (run : Run (server P key) (later ++ m :: earlier) s)
    (held : row ∈ m.after.db.contacts.rows) : row ∈ s.db.contacts.rows := by
  refine run.persists (fun s => row ∈ s.db.contacts.rows) ?_ held
  intro s e t out member stepped
  rcases step_contacts stepped with same | ⟨r, target, -, rows⟩
  · exact same ▸ member
  · exact rows ▸ mem_storageAddFriendship s.db r target member

/-- What an accepted decision needs, so that it makes no friendship without a request:
the named user has asked, or the decision changes nothing. -/
def Warranted (m : ServerMoment) : Prop :=
  ∀ r u, Accepts m r u → Pending m.before u r ∨ Contact m.before r u ∨ r = u

/- Where contacts are mutual, a friendship leaves the pair in both directions. -/
theorem storageAddFriendship_both (reached : Reachable (server P key) s) {r u : UInt32}
    (distinct : r ≠ u) :
    (⟨bindInt r, bindInt u⟩ : ContactRow) ∈ (storageAddFriendship s.db r u).contacts.rows ∧
      (⟨bindInt u, bindInt r⟩ : ContactRow) ∈ (storageAddFriendship s.db r u).contacts.rows := by
  have comm := contact_comm reached (bindInt r) (bindInt u)
  rw [storageAddFriendship_rows]
  split
  · rename_i refused
    rcases refused with same | forth | back
    · exact absurd same distinct
    · exact ⟨forth, comm.mp forth⟩
    · exact ⟨comm.mpr back, back⟩
  · simp

theorem accepted_contact {m : ServerMoment} {r u : UInt32}
    (reached : Reachable (server P key) m.before) (valid : m.Valid (server P key))
    (accepts : Accepts m r u) (distinct : r ≠ u) :
    (⟨bindInt r, bindInt u⟩ : ContactRow) ∈ m.after.db.contacts.rows ∧
      (⟨bindInt u, bindInt r⟩ : ContactRow) ∈ m.after.db.contacts.rows := by
  rw [accepts_contacts valid accepts]
  exact storageAddFriendship_both reached distinct

theorem consented_of_warranted (run : Run (server P key) past s)
    (warranted : ∀ m ∈ past, Warranted m) :
    ∀ row ∈ s.db.contacts.rows, Consented past row.userId row.contactId := by
  refine run.invariant (fun past s => (∀ m ∈ past, Warranted m) →
    ∀ row ∈ s.db.contacts.rows, Consented past row.userId row.contactId)
    (by simp [server, storageInit]) ?_ warranted
  intro past s e t out before ih stepped warranted row member
  have earlier := ih fun m hm => warranted m (List.mem_cons_of_mem _ hm)
  rcases step_contacts stepped with same | ⟨r, u, accepts, rows⟩
  · exact (earlier row (same ▸ member)).later _
  · rw [rows, storageAddFriendship_rows] at member
    split at member
    · exact (earlier row member).later _
    · rename_i fresh
      simp only [not_or] at fresh
      rcases List.mem_append.mp member with old | new
      · exact (earlier row old).later _
      · have pending : Pending s u r := by
          rcases warranted _ List.mem_cons_self r u accepts with pending | contact | same
          · exact pending
          · exact absurd contact fresh.2.1
          · exact absurd same fresh.1
        refine ⟨[], _, past, r, u, rfl, accepts, pending, pending_asked before pending, ?_⟩
        simp only [List.mem_cons, List.not_mem_nil, or_false] at new
        rcases new with rfl | rfl
        · exact .inr ⟨rfl, rfl⟩
        · exact .inl ⟨rfl, rfl⟩

theorem warranted_of_consented {m : ServerMoment} {earlier : List ServerMoment}
    (run : Run (server P key) earlier m.before) (valid : m.Valid (server P key))
    (consented : ∀ row ∈ m.after.db.contacts.rows,
      Consented (m :: earlier) row.userId row.contactId) : Warranted m := by
  intro r u accepts
  by_cases distinct : r = u
  · exact .inr (.inr distinct)
  · obtain ⟨later, n, before, r', u', split, accepts', pending, -, pair⟩ :=
      consented _ (accepted_contact run.reachable valid accepts distinct).1
    cases later with
    | nil =>
      -- the consenting moment is this one
      obtain ⟨rfl, rfl⟩ := List.cons.inj split
      obtain ⟨rfl, rfl⟩ := accepts.unique accepts'
      exact .inl pending
    | cons m' later =>
      -- an earlier accept had already made the pair a contact
      obtain ⟨rfl, rfl⟩ := List.cons.inj split
      obtain ⟨reached, -, valid'⟩ := run.cut
      have distinct' : r' ≠ u' := by
        rintro rfl
        rcases pair with ⟨one, two⟩ | ⟨one, two⟩ <;>
          exact distinct (bindInt_inj (one.trans two.symm))
      have made := accepted_contact reached.reachable valid' accepts' distinct'
      rcases pair with ⟨one, two⟩ | ⟨one, two⟩
      · cases bindInt_inj one
        cases bindInt_inj two
        exact .inr (.inl (contact_persists run made.2))
      · cases bindInt_inj one
        cases bindInt_inj two
        exact .inr (.inl (contact_persists run made.1))

/-- Every friendship of a run, at every moment of it, rests on an accepted request,
exactly when each accepted decision of the run was warranted. -/
theorem friendship_consented_iff (P : Platform) (key : Key) (past : List ServerMoment) (s : Server)
    (run : Run (server P key) past s) :
    (∀ later m earlier, past = later ++ m :: earlier → ∀ row ∈ m.after.db.contacts.rows,
      Consented (m :: earlier) row.userId row.contactId) ↔ ∀ m ∈ past, Warranted m := by
  constructor
  · intro consented m member
    obtain ⟨later, earlier, rfl⟩ := List.append_of_mem member
    obtain ⟨before, -, valid⟩ := run.cut
    exact warranted_of_consented before valid (consented later m earlier rfl)
  · rintro warranted later m earlier rfl
    exact consented_of_warranted run.cut.2.1 fun n hn =>
      warranted n (List.mem_append_right _ hn)

theorem acceptedSession_recorded :
    (recordedServer.trace [] recordedServer.start acceptedSession).isSome := by decide +kernel

theorem friendship_consented_iff_accepted :
    (∀ later m earlier,
        (recordedServer.history acceptedSession acceptedSession_recorded).1 = later ++ m :: earlier →
        ∀ row ∈ m.after.db.contacts.rows, Consented (m :: earlier) row.userId row.contactId) ↔
      ∀ m ∈ (recordedServer.history acceptedSession acceptedSession_recorded).1, Warranted m :=
  friendship_consented_iff recordedPlatform recordedKey _ _
    (.history acceptedSession acceptedSession_recorded)

def unaskedSession : List Event :=
  aliceArrives ++ [(serviceDecideRequest 2 1).event 7 (recordedEnv 2)]

theorem unaskedSession_recorded :
    (recordedServer.trace [] recordedServer.start unaskedSession).isSome := by decide +kernel

theorem friendship_without_request :
    ¬ ∀ (P : Platform) (key : Key) (past : List ServerMoment) (s : Server),
      Run (server P key) past s →
      ∀ row ∈ s.db.contacts.rows, Consented past row.userId row.contactId := by
  intro claimed
  have seen : (⟨1, 2⟩ : ContactRow) ∈
        (recordedServer.history unaskedSession unaskedSession_recorded).2.db.contacts.rows ∧
      ∀ m ∈ (recordedServer.history unaskedSession unaskedSession_recorded).1,
        m.before.db.requests.rows = [] := by decide +kernel
  obtain ⟨contact, noRequest⟩ := seen
  obtain ⟨later, m, earlier, r, u, past, -, pending, -⟩ :=
    claimed recordedPlatform recordedKey _ _ (.history unaskedSession unaskedSession_recorded) _
      contact
  have member : m ∈ (recordedServer.history unaskedSession unaskedSession_recorded).1 := by
    rw [past]
    simp
  rw [Pending, noRequest m member] at pending
  cases pending

/-- No two friends have a request between them, in either direction. -/
def FriendsSettled (s : Server) : Prop :=
  ∀ row ∈ s.db.contacts.rows, ⟨row.userId, row.contactId⟩ ∉ s.db.requests.rows ∧
    ⟨row.contactId, row.userId⟩ ∉ s.db.requests.rows

instance (s : Server) : Decidable (FriendsSettled s) :=
  inferInstanceAs (Decidable (∀ row ∈ s.db.contacts.rows,
    ⟨row.userId, row.contactId⟩ ∉ s.db.requests.rows ∧
      ⟨row.contactId, row.userId⟩ ∉ s.db.requests.rows))

/-- Nobody asks a friend, and nobody accepts somebody whom they have asked themselves. -/
def Settles (m : ServerMoment) : Prop :=
  (∀ a b, Asks m a b → ¬ Contact m.before a b) ∧
  ∀ r u, Accepts m r u → ¬ Pending m.before r u

theorem request_irrefl (reached : Reachable (server P key) s) (a : Int) :
    (⟨a, a⟩ : RequestRow) ∉ s.db.requests.rows := by
  refine reached.invariant (fun s => (⟨a, a⟩ : RequestRow) ∉ s.db.requests.rows)
    (by simp [server, storageInit]) ?_
  intro s e t out absent stepped member
  rcases step_requests stepped member with old | ⟨u, v, -, distinct, row⟩
  · exact absent old
  · obtain ⟨one, two⟩ := RequestRow.mk.inj row
    exact distinct (bindInt_inj (one.symm.trans two))

theorem asks_pending {m : ServerMoment} {a b : UInt32} (valid : m.Valid (server P key))
    (asks : Asks m a b) (distinct : a ≠ b) : Pending m.after a b := by
  obtain ⟨p, env, friendCode, ⟨fd, code, bytes, cli, event, listed, rfl, type, rfl⟩, readCode,
    known⟩ := asks
  have handled := (handleEvent_of_step valid).2
  rw [event] at handled
  simp only [handleEvent, listed, dispatch, type] at handled
  obtain ⟨after, -, refused⟩ |
    ⟨friendCode', target, requests, readCode', known', -, inserted, after, -⟩ :=
      handleAddByCode_ok handled
  · rcases (storageAddRequest_refused_iff _ _ _).mp (refused friendCode b readCode known) with
      same | there
    · exact absurd same distinct
    · rw [Pending, after]
      exact there
  · cases Except.ok.inj (readCode.symm.trans readCode')
    cases Option.some.inj (known.symm.trans known')
    rw [Pending, after, Table.insert?_rows inserted]
    exact List.mem_append_right _ List.mem_cons_self

theorem accepts_requests {m : ServerMoment} {r u : UInt32} (valid : m.Valid (server P key))
    (accepts : Accepts m r u) (row : RequestRow) :
    row ∈ m.after.db.requests.rows ↔
      row ∈ m.before.db.requests.rows ∧ row ≠ ⟨bindInt u, bindInt r⟩ := by
  obtain ⟨p, env, a, ⟨fd, code, bytes, cli, event, listed, rfl, type, rfl⟩, readA, yes, readU⟩ :=
    accepts
  have handled := (handleEvent_of_step valid).2
  rw [event] at handled
  simp only [handleEvent, listed, dispatch, type] at handled
  obtain ⟨a', u', readA', readU', after, -⟩ := handleDecideRequest_ok handled
  cases Except.ok.inj (readA.symm.trans readA')
  cases Except.ok.inj (readU.symm.trans readU')
  rw [after]
  simp only [decideDb, if_pos yes, storageRemoveRequest, acceptDb_requests, Table.deleteWhere_rows,
    List.mem_filter]
  obtain ⟨sender, receiver⟩ := row
  simp [imp_iff_not_or]

theorem Asks.not_accepts {m : ServerMoment} {a b r u : UInt32} (asks : Asks m a b)
    (accepts : Accepts m r u) : False := by
  obtain ⟨_, _, _, sends, -⟩ := asks
  obtain ⟨_, _, _, sends', -⟩ := accepts
  cases sends.type.symm.trans sends'.type

theorem settled_of_settles {m : ServerMoment} (reached : Reachable (server P key) m.before)
    (valid : m.Valid (server P key)) (before : FriendsSettled m.before) (settles : Settles m) :
    FriendsSettled m.after := by
  have apart : ∀ a b : Int, (⟨a, b⟩ : ContactRow) ∈ m.after.db.contacts.rows →
      (⟨a, b⟩ : RequestRow) ∉ m.after.db.requests.rows := by
    intro a b contact request
    have friends : (⟨a, b⟩ : ContactRow) ∈ m.before.db.contacts.rows ∨
        ∃ r u, Accepts m r u ∧
          ((a = bindInt r ∧ b = bindInt u) ∨ (a = bindInt u ∧ b = bindInt r)) := by
      rcases step_contacts valid with same | ⟨r, u, accepts, rows⟩
      · exact .inl (same ▸ contact)
      · rw [rows, storageAddFriendship_rows] at contact
        split at contact
        · exact .inl contact
        · simp only [List.mem_append, List.mem_cons, ContactRow.mk.injEq, List.not_mem_nil,
            or_false] at contact
          exact contact.imp id fun new => ⟨r, u, accepts, new⟩
    rcases step_requests valid request with asked | ⟨u, v, asks, -, row⟩
    · rcases friends with old | ⟨r, u, accepts, ⟨rfl, rfl⟩ | ⟨rfl, rfl⟩⟩
      · exact (before _ old).1 asked
      · exact settles.2 r u accepts asked
      · exact ((accepts_requests valid accepts _).mp request).2 rfl
    · obtain ⟨rfl, rfl⟩ := RequestRow.mk.inj row
      rcases friends with old | ⟨r, w, accepts, -⟩
      · exact settles.1 u v asks old
      · exact asks.not_accepts accepts
  intro row member
  refine ⟨apart _ _ member, apart _ _ ?_⟩
  exact (contact_comm (reached.step valid) _ _).mp member

theorem settles_of_settled {m : ServerMoment} (reached : Reachable (server P key) m.before)
    (valid : m.Valid (server P key)) (after : FriendsSettled m.after) : Settles m := by
  constructor
  · intro a b asks contact
    have distinct : a ≠ b := by
      rintro rfl
      exact contact_irrefl reached _ contact
    have kept : Contact m.after a b := by
      rcases step_contacts valid with same | ⟨r, u, -, rows⟩
      · rw [Contact, same]
        exact contact
      · rw [Contact, rows]
        exact mem_storageAddFriendship _ r u contact
    exact (after _ kept).1 (asks_pending valid asks distinct)
  · intro r u accepts pending
    have distinct : r ≠ u := by
      rintro rfl
      exact request_irrefl reached _ pending
    have contact := (accepted_contact reached valid accepts distinct).1
    refine (after _ contact).1 ((accepts_requests valid accepts _).mpr ⟨pending, ?_⟩)
    rintro row
    exact distinct (bindInt_inj (RequestRow.mk.inj row).1)

/-- In a run no request is ever pending between friends exactly when nobody asks a friend
and nobody accepts while a request of their own to the same user is pending. -/
theorem friends_settled_iff (P : Platform) (key : Key) (past : List ServerMoment) (s : Server)
    (run : Run (server P key) past s) :
    (∀ m ∈ past, FriendsSettled m.after) ↔ ∀ m ∈ past, Settles m := by
  apply run.always_iff (fun _ _ => True) FriendsSettled Settles
  · intro row member
    cases member
  · exact fun _ _ _ _ _ _ _ => trivial
  · intro past s e t out run stepped _ before
    constructor
    · exact settles_of_settled (m := ⟨s, e, t, out⟩) run.reachable stepped
    · exact settled_of_settles (m := ⟨s, e, t, out⟩) run.reachable stepped before
  · exact trivial

theorem friends_settled_iff_accepted :
    (∀ m ∈ (recordedServer.history acceptedSession acceptedSession_recorded).1,
        FriendsSettled m.after) ∧
      ∀ m ∈ (recordedServer.history acceptedSession acceptedSession_recorded).1, Settles m := by
  have settled : ∀ m ∈ (recordedServer.history acceptedSession acceptedSession_recorded).1,
      FriendsSettled m.after := by decide +kernel
  exact ⟨settled, (friends_settled_iff recordedPlatform recordedKey _ _
    (.history acceptedSession acceptedSession_recorded)).mp settled⟩

def crossedSession : List Event :=
  aliceArrives ++ bobArrives ++
    [(serviceAddContact (CString.lit "000002")).event 7 (recordedEnv 3),
      (serviceAddContact (CString.lit "000001")).event 8 (recordedEnv 4),
      (serviceDecideRequest 1 1).event 8 (recordedEnv 5)]

theorem crossedSession_recorded :
    (recordedServer.trace [] recordedServer.start crossedSession).isSome := by decide +kernel

def FromUser (m : ServerMoment) : Prop :=
  packetType m = some .addByCode ∨ packetType m = some .decideRequest →
    ∀ cli ∈ getClientByFd m.event.fd m.before.clients, cli.isOnline = true

instance (m : ServerMoment) : Decidable (FromUser m) :=
  inferInstanceAs (Decidable (packetType m = some .addByCode ∨
    packetType m = some .decideRequest →
      ∀ cli ∈ getClientByFd m.event.fd m.before.clients, cli.isOnline = true))

theorem request_left_between_friends :
    ¬ ∀ (P : Platform) (key : Key) (past : List ServerMoment) (s : Server),
      Run (server P key) past s → (∀ m ∈ past, FromUser m) → FriendsSettled s := by
  intro claimed
  have seen : (∀ m ∈ (recordedServer.history crossedSession crossedSession_recorded).1,
        FromUser m) ∧
      ¬ FriendsSettled (recordedServer.history crossedSession crossedSession_recorded).2 := by
    decide +kernel
  obtain ⟨fromUsers, unsettled⟩ := seen
  exact unsettled (claimed recordedPlatform recordedKey _ _
    (.history crossedSession crossedSession_recorded) fromUsers)

end MoT
