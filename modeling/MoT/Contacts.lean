import MoT.Lib.Queue
import MoT.Admission
import MoT.Net

/-! The contacts that a client shows. Every step that changes the contacts of a user sends that
user the list, unless the user waits for it anyway, so that in a net that has come to rest all
clients show the contacts of the table. -/
namespace MoT
open CMemory Relational Transition

variable {P : Platform} {key : Key} {env : Env} {allocates : Nat → Bool} {fd : Int} {uid u : UInt32}
  {db db' : Database} {out : List Sent} {s t : Server} {cli : Client} {p : Pointer} {e : Event}

/-- The contacts of the user who have an account. -/
def acquaintances (db : Database) (uid : UInt32) : List UInt32 :=
  ((contactListing db uid).rows.filter (contactListing db uid).known).map
    fun r => columnInt r.contactId

/-- Each of them once, but no more than fifty. -/
def Pictured (db : Database) (uid : UInt32) (shown : List UInt32) : Prop :=
  shown.Subperm (acquaintances db uid) ∧ shown.length = min 50 (acquaintances db uid).length

theorem acquaintances_eq (db : Database) (uid : UInt32) : acquaintances db uid =
    ((db.contacts.rows.filter fun r => r.userId = bindInt uid).filter
      fun r => HasUser db r.contactId).map fun r => columnInt r.contactId := rfl

theorem contacts_pictured (plan : Plan) (db : Database) (uid : UInt32) :
    Pictured db uid ((storageGetContactsData plan db uid 50).map ContactSummary.uid) := by
  let found := withUsers db.contacts ContactRow.contactId (fun r => r.userId = bindInt uid) db
  have all : (found.map fun x => columnInt x.1.contactId).Perm (acquaintances db uid) := by
    have perm := ((contactTransport plan db uid).found_perm).map fun r => columnInt r.contactId
    rwa [List.map_map] at perm
  have listed : (storageGetContactsData plan db uid 50).map ContactSummary.uid =
      ((plan.contacts.arrange found).take 50).map fun x => columnInt x.1.contactId := by
    rw [storageGetContactsData, List.map_map]
    apply List.map_congr_left
    intro x picked
    have member : x ∈ found := plan.contacts.mem_arrange.mp (List.mem_of_mem_take picked)
    obtain ⟨-, -, id, -⟩ := (mem_withUsers db.contacts ContactRow.contactId _).mp member
    exact congrArg columnInt id.symm
  rw [listed]
  exact plan.contacts.page all 50

/-- The id has been given out, or never will be. -/
def Issued (db : Database) (u : UInt32) : Prop := bindInt u ≤ db.users.seq

/-- No contact of the user is still to get an account. -/
def NoneToCome (db : Database) (uid : UInt32) : Prop :=
  ∀ r ∈ db.contacts.rows, r.userId = bindInt uid → r.contactId ≤ db.users.seq

theorem bindInt_columnInt_le {i : Int} (low : 0 ≤ i) : bindInt (columnInt i) ≤ i := by
  have small : (i % 2 ^ 32).toNat < 2 ^ 32 := by omega
  have word : (columnInt i).toNat = (i % 2 ^ 32).toNat := by
    rw [columnInt, UInt32.toNat_ofNat_of_lt' small]
  unfold bindInt
  rw [word]
  split <;> omega

theorem issued_account {d : Entry UserRow} (member : d ∈ db.users.entries) :
    Issued db (columnInt d.rowid) := by
  obtain ⟨low, high⟩ := db.users.issued d member
  exact (bindInt_columnInt_le (by omega)).trans high

theorem AccountChange.opened {type : Option MessageType}
    (change : AccountChange P env s cli p t out type) {id : Int} (has : HasUser t.db id) :
    HasUser s.db id ∨ s.db.users.seq < id := by
  obtain ⟨d, hd, rfl⟩ := has
  cases change with
  | same type other users => exact .inl ⟨d, users ▸ hd, rfl⟩
  | register email username password hash uid _ _ _ _ inserted =>
    rw [(AutoTable.insert?_spec inserted).1] at hd
    rcases List.mem_append.mp hd with old | new
    · exact .inl ⟨d, old, rfl⟩
    · cases List.mem_singleton.mp new
      exact .inr (Int.lt_succ _)
  | login email e' _ _ _ users => exact .inl ⟨d, users ▸ hd, rfl⟩
  | updateUser newUsername newPassword _ after =>
    have named : (d.rowid, d.row.username) ∈ names t.db := mem_names.mpr ⟨d, hd, rfl, rfl⟩
    have before : ∃ name, (d.rowid, name) ∈ names s.db := by
      rw [after] at named
      rcases storageUpdateUser_names P s.db env.salt cli.uid newUsername newPassword with
        ⟨same, -⟩ | ⟨renamed, -⟩
      · exact ⟨_, same ▸ named⟩
      · rw [renamed] at named
        rcases mem_rename.mp named with ⟨-, old⟩ | ⟨own, -, name, old⟩
        · exact ⟨_, old⟩
        · have same : d.rowid = bindInt cli.uid := own
          exact ⟨name, same ▸ old⟩
    obtain ⟨name, old⟩ := before
    obtain ⟨d', hd', same, -⟩ := mem_names.mp old
    exact .inl ⟨d', hd', same⟩

theorem step_opened (stepped : (server P key).step s e = some (t, out)) {id : Int}
    (has : HasUser t.db id) : HasUser s.db id ∨ s.db.users.seq < id := by
  rcases step_accounts stepped with ⟨same, -⟩ | ⟨fd, code, bytes, env, cli, -, -, change⟩
  · exact .inl (same ▸ has)
  · exact change.opened has

theorem Issued.step (stepped : (server P key).step s e = some (t, out)) (issued : Issued s.db u) :
    Issued t.db u :=
  issued.trans (step_users_seq_le stepped)

theorem AccountChange.clients_issued {type : Option MessageType}
    (change : AccountChange P env s cli p t out type)
    (before : ∀ c ∈ s.clients, Issued s.db c.uid) :
    ∀ c ∈ t.clients, Issued t.db c.uid := by
  have later (c : Client) (member : c ∈ s.clients) : Issued t.db c.uid :=
    (before c member).trans change.seq_le
  intro c member
  cases change with
  | same type other users clients => exact later c (clients ▸ member)
  | register email username password hash uid _ _ _ _ inserted clients =>
    exact later c (clients ▸ member)
  | login email d _ known _ users clients =>
    rw [clients] at member
    rcases mem_writeClient member with old | ⟨b, -, -, rfl⟩
    · exact later c old
    · rw [Issued, users]
      exact issued_account known
  | updateUser newUsername newPassword _ _ clients =>
    rw [clients] at member
    split at member
    · rcases mem_writeClient member with old | ⟨b, hb, -, rfl⟩
      · exact later c old
      · exact later b hb
    · exact later c member

theorem reachable_issued (reached : Reachable (server P key) s) :
    ∀ c ∈ s.clients, Issued s.db c.uid := by
  refine reached.invariant (fun s => ∀ c ∈ s.clients, Issued s.db c.uid) (List.forall_mem_nil _) ?_
  intro s e t out before stepped c member
  have handled := (handleEvent_of_step stepped).2
  cases e with
  | connect fd =>
    cases handled
    rcases List.mem_cons.mp member with rfl | old
    · exact s.db.users.started
    · exact before c old
  | disconnect fd =>
    cases handled
    exact before c ((removeClient_sublist fd s.clients).subset member)
  | packet fd code bytes env =>
    simp only [handleEvent] at handled
    split at handled
    · cases handled
      exact before c ((removeClient_sublist fd s.clients).subset member)
    · exact (dispatch_accounts handled).clients_issued before c member

theorem acquaintances_same (rows : (db'.contacts.rows.filter fun r => r.userId = bindInt uid) =
      db.contacts.rows.filter fun r => r.userId = bindInt uid)
    (nobody : NoneToCome db uid) (kept : ∀ id, HasUser db id → HasUser db' id)
    (opened : ∀ id, HasUser db' id → HasUser db id ∨ db.users.seq < id) :
    acquaintances db' uid = acquaintances db uid := by
  rw [acquaintances_eq, acquaintances_eq, rows]
  congr 1
  apply List.filter_congr
  intro r member
  obtain ⟨there, mine⟩ := List.mem_filter.mp member
  have early := nobody r there (of_decide_eq_true mine)
  have same : HasUser db' r.contactId ↔ HasUser db r.contactId := by
    constructor
    · intro has
      rcases opened _ has with before | late
      · exact before
      · exact absurd early (not_le.mpr late)
    · exact kept _
  simp only [same]

theorem acquaintances_grow (rows : ∃ new, db'.contacts.rows = db.contacts.rows ++ new)
    (kept : ∀ id, HasUser db id → HasUser db' id) :
    (acquaintances db uid).Sublist (acquaintances db' uid) := by
  obtain ⟨new, rows⟩ := rows
  rw [acquaintances_eq, acquaintances_eq, rows]
  apply List.Sublist.map
  refine List.Sublist.trans (List.monotone_filter_right _ fun r known => ?_)
    (((List.sublist_append_left db.contacts.rows new).filter _).filter _)
  exact decide_eq_true (kept _ (of_decide_eq_true known))

theorem storageAddFriendship_new (db : Database) (a b : UInt32) : ∃ new,
    (storageAddFriendship db a b).contacts.rows = db.contacts.rows ++ new ∧
      ∀ r ∈ new, r = ⟨bindInt a, bindInt b⟩ ∨ r = ⟨bindInt b, bindInt a⟩ := by
  rw [storageAddFriendship_rows]
  split
  · exact ⟨[], (List.append_nil _).symm, List.forall_mem_nil _⟩
  · exact ⟨_, rfl, by simp⟩

theorem step_new_contacts (stepped : (server P key).step s e = some (t, out)) :
    t.db.contacts = s.db.contacts ∨ ∃ fd code bytes env cli accepted target,
      e = .packet fd code bytes env ∧ getClientByFd fd s.clients = some cli ∧
      MessageType.ofCode code = some .decideRequest ∧ accepted ≠ 0 ∧
      readByte (deliver bytes) DecideRequestPayload.accepted = .ok accepted ∧
      readUInt32 (deliver bytes) DecideRequestPayload.targetUid = .ok target ∧
      ∃ new, t.db.contacts.rows = s.db.contacts.rows ++ new ∧
        ∀ r ∈ new, r = ⟨bindInt cli.uid, bindInt target⟩ ∨ r = ⟨bindInt target, bindInt cli.uid⟩ := by
  rcases step_change stepped with same | ⟨fd, code, bytes, env, cli, rfl, listed, change⟩
  · exact .inl (congrArg Database.contacts same)
  · rcases change.contacts with same | ⟨accepted, target, type, readAccepted, yes, readTarget, rows⟩
    · exact .inl same
    · refine .inr ⟨fd, code, bytes, env, cli, accepted, target, rfl, listed, type, yes, readAccepted,
        readTarget, ?_⟩
      rw [rows]
      exact storageAddFriendship_new s.db cli.uid target

theorem decide_sends_contacts (done : handleDecideRequest env s cli p = .ok (t, out)) :
    ∃ list, ⟨cli.fd, .respContacts list⟩ ∈ out := by
  obtain ⟨accepted, target, -, -, -, rfl⟩ := handleDecideRequest_ok done
  refine ⟨storageGetContactsData env.plan t.db cli.uid 50, ?_⟩
  apply List.mem_append_left
  apply List.mem_append_left
  exact List.mem_append_right _ (List.mem_singleton.mpr rfl)

theorem accept_pushes_contacts {accepted : UInt8} {target : UInt32}
    (readAccepted : readByte p DecideRequestPayload.accepted = .ok accepted) (yes : accepted ≠ 0)
    (readTarget : readUInt32 p DecideRequestPayload.targetUid = .ok target)
    (done : handleDecideRequest env s cli p = .ok (t, out)) :
    ∃ list, ∀ m ∈ pushTo t target (.respContacts list), m ∈ out := by
  obtain ⟨accepted', target', readAccepted', readTarget', -, rfl⟩ := handleDecideRequest_ok done
  cases readAccepted.symm.trans readAccepted'
  cases readTarget.symm.trans readTarget'
  refine ⟨storageGetContactsData env.plan t.db target 50, fun m pushed => ?_⟩
  apply List.mem_append_right
  rwa [if_pos yes]

/-- The contacts of the user change only in steps that send the list. -/
theorem step_acquaintances (stepped : (server P key).step s e = some (t, out))
    (seated : Seated t fd uid) (single : SingleSession t fd uid) (nobody : NoneToCome s.db uid) :
    acquaintances t.db uid = acquaintances s.db uid ∨ ∃ list, ⟨fd, .respContacts list⟩ ∈ out := by
  have kept (id : Int) (has : HasUser s.db id) : HasUser t.db id := step_users stepped has
  have opened (id : Int) (has : HasUser t.db id) := step_opened stepped has
  rcases step_new_contacts stepped with same | ⟨fd', code, bytes, env, cli, accepted, target, rfl,
    listed, type, yes, readAccepted, readTarget, new, rows, pair⟩
  · exact .inl (acquaintances_same (by rw [same]) nobody kept opened)
  · have handled := (handleEvent_of_step stepped).2
    simp only [handleEvent, listed] at handled
    have clients : t.clients = s.clients := by
      rcases dispatch_clients handled with same | ⟨_, _, login, -⟩ | ⟨_, update, -⟩
      · exact same
      · cases type.symm.trans login
      · cases type.symm.trans update
    have done : handleDecideRequest env s cli (deliver bytes) = .ok (t, out) := by
      rwa [dispatch, type] at handled
    by_cases own : cli.uid = uid
    · obtain ⟨list, answer⟩ := decide_sends_contacts done
      have here := single cli (clients ▸ (getClientByFd_some listed).1) own
      exact .inr ⟨list, here ▸ answer⟩
    · by_cases named : target = uid
      · obtain ⟨list, pushes⟩ := accept_pushes_contacts readAccepted yes readTarget done
        exact .inr ⟨list, pushes _ (named ▸ seated.pushed single _)⟩
      · refine .inl (acquaintances_same ?_ nobody kept opened)
        have others : (new.filter fun r => r.userId = bindInt uid) = [] := by
          apply List.filter_eq_nil_iff.mpr
          intro r member
          rcases pair r member with rfl | rfl
          · simpa using own
          · simpa using named
        rw [rows, List.filter_append, others, List.append_nil]

/- The user decides only about ids that have been given out. -/
def Deliberate (m : ServerMoment) (uid : UInt32) : Prop :=
  ∀ target, Decides m uid target → Issued m.before.db target

theorem NoneToCome.step (reached : Reachable (server P key) s) (nobody : NoneToCome s.db uid)
    (stepped : (server P key).step s e = some (t, out))
    (deliberate : Deliberate ⟨s, e, t, out⟩ uid) :
    NoneToCome t.db uid := by
  intro r member mine
  refine le_trans ?_ (step_users_seq_le stepped)
  rcases step_new_contacts stepped with same | ⟨fd', code, bytes, env, cli, accepted, target, rfl,
    listed, type, -, -, readTarget, new, rows, pair⟩
  · exact nobody r (same ▸ member) mine
  · rw [rows] at member
    rcases List.mem_append.mp member with old | added
    · exact nobody r old mine
    · rcases pair r added with rfl | rfl
      · cases bindInt_inj mine
        exact deliberate target ⟨_, env, ⟨fd', code, bytes, cli, rfl, listed, rfl, type, rfl⟩,
          readTarget⟩
      · exact reachable_issued reached cli (getClientByFd_some listed).1

theorem step_acquaintances_grow (stepped : (server P key).step s e = some (t, out)) :
    (acquaintances s.db uid).Sublist (acquaintances t.db uid) := by
  apply acquaintances_grow
  · rcases step_new_contacts stepped with same | ⟨_, _, _, _, _, _, _, -, -, -, -, -, -, new, rows, -⟩
    · exact ⟨[], by rw [same, List.append_nil]⟩
    · exact ⟨new, rows⟩
  · exact fun id has => step_users stepped has

/-- What makes the server send the contacts back. -/
def Recalls (r : Request) : Prop := r.1 = .reqContacts ∨ r.1 = .decideRequest

theorem step_recalls {r : Request} (recalls : Recalls r) (seated : Seated s fd uid)
    (stepped : (server P key).step s (r.event fd env) = some (t, out)) :
    ∃ list, ⟨fd, .respContacts list⟩ ∈ out := by
  obtain ⟨c, found, -, -⟩ := seated
  have handled := (handleEvent_of_step stepped).2
  simp only [Request.event, handleEvent, found] at handled
  rw [← (getClientByFd_some found).2]
  unfold dispatch at handled
  rw [MessageType.ofCode_code] at handled
  rcases recalls with type | type
  · rw [type] at handled
    cases handled
    exact ⟨_, List.mem_singleton.mpr rfl⟩
  · rw [type] at handled
    exact decide_sends_contacts handled

theorem sent_contacts (reached : Reachable (server P key) s)
    (stepped : (server P key).step s e = some (t, out)) (seated : Seated t fd uid)
    {list : List ContactSummary} (sent : ⟨fd, .respContacts list⟩ ∈ out) :
    ∃ plan, list = storageGetContactsData plan t.db uid 50 := by
  have distinct := (reachable_connected (reached.step stepped)).distinct
  have handled := (handleEvent_of_step stepped).2
  cases e with
  | connect | disconnect =>
    cases handled
    cases sent
  | packet fd' code bytes env =>
    simp only [handleEvent] at handled
    split at handled
    · cases handled
      cases sent
    · rename_i cli listed
      obtain ⟨c, there, same, -, rightful⟩ :=
        dispatch_addressed reached (getClientByFd_some listed).1 handled sent
      obtain ⟨d, found, user, -⟩ := seated
      have here := getClientByFd_of_mem distinct there
      rw [same] at here
      cases found.symm.trans here
      exact ⟨env.plan, user ▸ rightful⟩

def shownContacts (app : AppState) : List UInt32 :=
  ((app.contacts.getD []).take app.contactsCount.toNat).map ContactSummary.uid

/-- What a packet tells about the contacts; an empty list tells nothing. -/
def contactsOf : Packet → Option (List UInt32)
  | .respContacts list => if list = [] then none else some (list.map ContactSummary.uid)
  | _ => none

section Client

variable {junk : Nat → UInt8} {packet : Packet} {app app' : AppState} {c d : MainState} {ch : Int}

theorem contacts_arrive {list : List ContactSummary} {sent : List Request} (somebody : list ≠ [])
    (few : list.length ≤ 50)
    (received : networkThreadOn allocates junk (.respContacts list) app = .ok (app', sent)) :
    shownContacts app' = list.map ContactSummary.uid := by
  have sizes : ∀ c ∈ list, (c.bytes.map some).length = ContactSummary.size := fun c _ =>
    (List.length_map _).trans c.bytes_length
  have short : list.length * ContactSummary.size < 2 ^ 32 :=
    Nat.lt_of_le_of_lt (Nat.mul_le_mul_right _ few) (by decide)
  have nonempty : Packet.payload junk (.respContacts list) ≠ [] := by
    apply List.ne_nil_of_length_pos
    rw [show (Packet.payload junk (.respContacts list)).length = list.length * ContactSummary.size
      from (fill_length _ _).trans (array_length sizes)]
    exact Nat.mul_pos (List.length_pos_of_ne_nil somebody) (by decide)
  obtain ⟨array, owned, shown⟩ :=
    ownedArray_fill ContactSummary.ofBytes (by decide : 0 < ContactSummary.size) sizes short junk
  change ownedArray _ _ (Packet.payload junk (.respContacts list) ++ [0])
    (UInt32.ofNat (Packet.payload junk (.respContacts list)).length) = _ at owned
  unfold networkThreadOn networkThread at received
  rw [MessageType.ofCode_code] at received
  dsimp only [Packet.type] at received
  rw [deliver_eq nonempty] at received
  cases received
  rw [shownContacts]
  dsimp only
  rw [owned]
  dsimp only [Option.getD_some]
  rw [Int.toNat_natCast, List.take_of_length_le shown.length_eq.ge, uids_read shown]

theorem received_contacts {sent : List Request} (few : ∀ uids ∈ contactsOf packet, uids.length ≤ 50)
    (received : networkThreadOn allocates junk packet app = .ok (app', sent)) :
    shownContacts app' = (contactsOf packet).getD (shownContacts app) := by
  have effect := networkThreadOn_effect received
  cases packet with
  | respContacts list =>
    by_cases nobody : list = []
    · subst nobody
      cases received
      rfl
    · rw [contactsOf, if_neg nobody] at few ⊢
      exact contacts_arrive nobody ((List.length_map _).symm.trans_le (few _ rfl)) received
  | rteText message =>
    cases effect with
    | line here read appended =>
      obtain ⟨history, len, rfl⟩ := appAppendHistory_screen appended
      rfl
    | skips | unread => rfl
  | _ => cases effect <;> rfl

theorem appRemoveRequest_shown (index : Int) (c : MainState) :
    (shownRequests (appRemoveRequest index c)).Sublist (shownRequests c) := by
  cases array : c.requests with
  | none =>
    rw [appRemoveRequest, array]
  | some requests =>
    by_cases inside : 0 ≤ index ∧ index < c.requestsCount
    · rw [shown_removed array inside, shownRequests, array]
      exact (List.eraseIdx_sublist _ _).map _
    · rw [appRemoveRequest, array]
      dsimp only
      rw [if_neg inside]

/-- A key press leaves the contacts, and nobody else comes to be decided about. -/
def PeopleStay (c d : MainState) : Prop :=
  shownContacts d.toAppState = shownContacts c.toAppState ∧
    (shownRequests d).Sublist (shownRequests c)

theorem PeopleStay.refl (c : MainState) : PeopleStay c c := ⟨rfl, .refl _⟩

theorem KeyEffect.people {r : KeyOutcome} (effect : KeyEffect allocates ch c r) :
    Ensures (fun turn => PeopleStay c turn.state) r := by
  cases effect with
  | opens home => exact ensures_openSelected (.refl c) fun _ _ => ⟨rfl, .refl _⟩
  | sends chat enter =>
    rw [sendInput]
    split
    · intro turn sent
      obtain ⟨grown, appended, sent⟩ := ok_bind_iff.mp sent
      obtain ⟨history, len, rfl⟩ := appAppendHistory_screen appended
      cases sent
      exact ⟨rfl, .refl _⟩
    · exact ensures_ok (.refl c)
  | edits edited sent quit =>
    obtain ⟨input, idx, members, name, desc, rfl⟩ := edited
    exact ensures_ok ⟨rfl, .refl _⟩
  | goes way edited sent =>
    obtain ⟨input, idx, members, name, desc, rfl⟩ := edited
    exact ensures_ok ⟨rfl, .refl _⟩
  | resets | downHome | downFriends | up | memberDown | memberUp | manages =>
    exact ensures_ok ⟨rfl, .refl _⟩
  | toggles form =>
    rw [toggleMember]
    split
    · exact ensures_ok ⟨rfl, .refl _⟩
    · rintro turn ⟨⟩
  | submits form =>
    apply ensures_bind
    intro uids
    split
    · exact ensures_ok (.refl c)
    · exact ensures_ok ⟨rfl, .refl _⟩
  | chats friends enter => exact ensures_chatWithSelected (.refl c) fun _ => ⟨rfl, .refl _⟩
  | decides requests accept =>
    refine ensures_decideSelected (.refl c) fun r => ⟨?_, appRemoveRequest_shown _ c⟩
    obtain ⟨requests, count, removed⟩ := appRemoveRequest_requests c.selection c
    rw [removed]
    rfl
  | kicks manage => exact ensures_kickSelected (.refl c) fun _ => .refl c

def tidings : ClientEvent → Option (List UInt32)
  | .receive _ packet => contactsOf packet
  | .draw | .key _ _ => none

theorem clientStep_contacts {e : ClientEvent} {sent : List Request}
    (few : ∀ uids ∈ tidings e, uids.length ≤ 50)
    (stepped : clientStep allocates c e = some (d, sent)) :
    shownContacts d.toAppState = (tidings e).getD (shownContacts c.toAppState) := by
  cases clientStep_effect stepped with
  | draws drawing =>
    obtain ⟨state, redraw, drawn, -⟩ := render_screen c
    rw [drawn]
    rfl
  | silent reading => rfl
  | @pressed ch prompts turn reading pressed =>
    have stay := handleKey_effect allocates ch prompts { c with needsRedraw := true }
    exact (stay.people turn pressed).1
  | received received => exact received_contacts few received

theorem clientStep_offered {e : ClientEvent} {sent : List Request}
    (few : ∀ junk list, e = .receive junk (.respRequests list) → list.length ≤ 50)
    (stepped : clientStep allocates c e = some (d, sent)) {u : UInt32}
    (offered : u ∈ shownRequests d) :
    u ∈ shownRequests c ∨
      ∃ junk list, e = .receive junk (.respRequests list) ∧ u ∈ list.map ContactSummary.uid := by
  cases clientStep_effect stepped with
  | draws drawing =>
    obtain ⟨state, redraw, drawn, -⟩ := render_screen c
    rw [drawn] at offered
    exact .inl offered
  | silent reading => exact .inl offered
  | @pressed ch prompts turn reading pressed =>
    have stay := handleKey_effect allocates ch prompts { c with needsRedraw := true }
    exact .inl ((stay.people turn pressed).2.subset offered)
  | @received junk packet app sent received =>
    cases listed : listOf packet with
    | none =>
      obtain ⟨same, count⟩ := received_requests listed received
      rw [shownRequests] at offered ⊢
      dsimp only at offered
      rw [same, count] at offered
      exact .inl offered
    | some list =>
      cases listOf_some listed
      rcases (requests_arrive (few junk list rfl) received).2 with ⟨-, rfl⟩ | ⟨-, array, count⟩
      · exact .inl offered
      · refine .inr ⟨junk, list, rfl, ?_⟩
        rw [← array]
        exact List.map_subset _ (List.take_subset _ _) offered

end Client

/-- What the client will show when it has taken all that is on its way. -/
def coming (l : Link) : List UInt32 :=
  settled (fun m => contactsOf m.packet) (shownContacts l.client.toAppState) l.toClient

/-- The user is there, and the client is told everything; whom it may decide about has an id. -/
structure Informed (P : Platform) (key : Key) (fd : Int) (uid : UInt32) (l : Link) : Prop
    extends Present P key fd uid l where
  nobody : NoneToCome l.server.db uid
  offered : ∀ u ∈ shownRequests l.client, Issued l.server.db u
  requests : ∀ m ∈ l.toClient, ∀ list, m.packet = .respRequests list →
    list.length ≤ 50 ∧ ∀ u ∈ list.map ContactSummary.uid, Issued l.server.db u
  asked : ∀ r ∈ l.toServer, Service (Issued l.server.db) (fun _ _ => True) r
  few : ∀ m ∈ l.toClient, ∀ uids ∈ contactsOf m.packet, uids.length ≤ 50
  sound : (coming l).Subperm (acquaintances l.server.db uid)
  full : (∀ r ∈ l.toServer, ¬ Recalls r) → Pictured l.server.db uid (coming l)

theorem Informed.moved {l : Link} {c : ClientEvent} {client : MainState} {sent : List Request}
    {toClient : List Incoming} (informed : Informed P key fd uid l)
    (stepped : clientStep allocates l.client c = some (client, sent))
    (fewer : ∀ m ∈ toClient, m ∈ l.toClient)
    (small : ∀ uids ∈ tidings c, uids.length ≤ 50)
    (vouched : ∀ junk list, c = .receive junk (.respRequests list) →
      list.length ≤ 50 ∧ ∀ u ∈ list.map ContactSummary.uid, Issued l.server.db u)
    (same : settled (fun m => contactsOf m.packet)
      ((tidings c).getD (shownContacts l.client.toAppState)) toClient = coming l) :
    Informed P key fd uid { l with
      client := client, toClient := toClient, toServer := l.toServer ++ sent } := by
  have still : coming { l with
      client := client, toClient := toClient, toServer := l.toServer ++ sent } =
      coming l := by
    rw [coming]
    dsimp only
    rw [clientStep_contacts small stepped, same]
  exact
    { toPresent := informed.toPresent.moved stepped toClient
      nobody := informed.nobody
      offered := fun u offered => by
        rcases clientStep_offered (fun junk list is => (vouched junk list is).1) stepped offered with
          old | ⟨junk, list, is, listed⟩
        · exact informed.offered u old
        · exact (vouched junk list is).2 u listed
      requests := fun m member => informed.requests m (fewer m member)
      asked := fun r member => by
        rcases List.mem_append.mp member with old | new
        · exact informed.asked r old
        · refine (clientStep_asks stepped r new).mono (fun u offered => ?_) fun _ _ _ => trivial
          exact informed.offered u (List.mem_map.mpr offered)
      few := fun m member => informed.few m (fewer m member)
      sound := still ▸ informed.sound
      full := fun unasked => still ▸ informed.full fun r member =>
        unasked r (List.mem_append_left _ member) }

theorem inbox_contacts {about : UInt32} {m : Incoming} {uids : List UInt32}
    (reached : Reachable (server P key) s) (stepped : (server P key).step s e = some (t, out))
    (seated : Seated t fd uid) (member : m ∈ inbox fd about out)
    (tells : contactsOf m.packet = some uids) : Pictured t.db uid uids := by
  have sent := (mem_inbox member).2
  obtain ⟨packet, about⟩ := m
  cases packet with
  | respContacts list =>
    obtain ⟨plan, rfl⟩ := sent_contacts reached stepped seated sent
    obtain ⟨-, same⟩ := Option.ite_none_left_eq_some.mp tells
    cases same
    exact contacts_pictured plan t.db uid
  | _ => cases tells

theorem inbox_requests {about : UInt32} {m : Incoming} {list : List ContactSummary}
    (reached : Reachable (server P key) s) (stepped : (server P key).step s e = some (t, out))
    (seated : Seated t fd uid) (member : m ∈ inbox fd about out)
    (is : m.packet = .respRequests list) :
    list.length ≤ 50 ∧ ∀ u ∈ list.map ContactSummary.uid, Issued t.db u := by
  have sent := (mem_inbox member).2
  rw [is] at sent
  obtain ⟨plan, rfl⟩ := sent_requests reached stepped seated sent
  constructor
  · rw [storageGetRequestsData, List.length_map]
    exact List.length_take_le 50 _
  · intro u listed
    obtain ⟨item, there, rfl⟩ := List.mem_map.mp listed
    obtain ⟨x, picked, rfl⟩ := List.mem_map.mp there
    have found := plan.requests.mem_arrange.mp (List.mem_of_mem_take picked)
    exact issued_account (mem_join.mp (List.mem_of_mem_filter found)).2.1

/- When nothing is told about the contacts, they are those of before, or there are none. -/
theorem silent_pictured {l : Link} {server' : Server} {about : UInt32}
    (informed : Informed P key fd uid l)
    (stepped : (server P key).step l.server e = some (server', out))
    (seated : Seated server' fd uid) (single : SingleSession server' fd uid)
    (silent : ∀ m ∈ inbox fd about out, contactsOf m.packet = none)
    (unanswered : (∀ list, ⟨fd, .respContacts list⟩ ∉ out) → ∀ r ∈ l.toServer, ¬ Recalls r) :
    Pictured server'.db uid (coming l) := by
  by_cases sent : ∃ list, ⟨fd, .respContacts list⟩ ∈ out
  · -- Only an empty list tells nothing.
    obtain ⟨list, sent⟩ := sent
    obtain ⟨plan, is⟩ := sent_contacts informed.reached stepped seated sent
    have quiet := silent ⟨.respContacts list, about⟩
      (List.mem_map.mpr ⟨_, List.mem_filter.mpr ⟨sent, decide_eq_true rfl⟩, rfl⟩)
    have empty : list = [] := by
      by_contra somebody
      rw [contactsOf, if_neg somebody] at quiet
      cases quiet
    have pictured := contacts_pictured plan server'.db uid
    rw [← is, empty, List.map_nil] at pictured
    have deserted : acquaintances server'.db uid = [] := by
      have length := pictured.2
      rw [List.length_nil] at length
      exact List.eq_nil_of_length_eq_zero (by omega)
    have grown := informed.sound.trans (step_acquaintances_grow stepped).subperm
    rw [deserted] at grown
    rw [List.subperm_nil.mp grown]
    exact pictured
  · have unsent : ∀ list, ⟨fd, .respContacts list⟩ ∉ out := fun list there => sent ⟨list, there⟩
    rcases step_acquaintances stepped seated single informed.nobody with unchanged | told
    · rw [Pictured, unchanged]
      exact informed.full (unanswered unsent)
    · exact absurd told sent

theorem Informed.served {l : Link} {server' : Server} {left : List Request} (about : UInt32)
    (informed : Informed P key fd uid l)
    (stepped : (server P key).step l.server e = some (server', out))
    (keeps : Keeps fd e) (single : SingleSession server' fd uid)
    (deliberate : Deliberate ⟨l.server, e, server', out⟩ uid) (fewer : ∀ r ∈ left, r ∈ l.toServer)
    (answered : (∀ list, ⟨fd, .respContacts list⟩ ∉ out) → (∀ r ∈ left, ¬ Recalls r) →
      ∀ r ∈ l.toServer, ¬ Recalls r) :
    Informed P key fd uid { l with
      server := server', toServer := left, toClient := l.toClient ++ inbox fd about out } := by
  have seated := informed.seated.step informed.reached stepped keeps
  have kept (u : UInt32) (issued : Issued l.server.db u) : Issued server'.db u :=
    issued.step stepped
  have next : coming { l with
      server := server', toServer := left, toClient := l.toClient ++ inbox fd about out } =
      settled (fun m => contactsOf m.packet) (coming l) (inbox fd about out) := settled_append _ _ _ _
  have outcome := settled_cases (fun m : Incoming => contactsOf m.packet) (coming l)
    (inbox fd about out)
  exact
    { toPresent := informed.toPresent.served stepped keeps single fewer _
      nobody := informed.nobody.step informed.reached stepped deliberate
      offered := fun u offered => kept u (informed.offered u offered)
      requests := fun m member list is => by
        rcases List.mem_append.mp member with old | new
        · obtain ⟨few, issued⟩ := informed.requests m old list is
          exact ⟨few, fun u listed => kept u (issued u listed)⟩
        · exact inbox_requests informed.reached stepped seated new is
      asked := fun r member => (informed.asked r (fewer r member)).mono kept fun _ _ _ => trivial
      few := fun m member uids tells => by
        rcases List.mem_append.mp member with old | new
        · exact informed.few m old uids tells
        · have pictured := inbox_contacts informed.reached stepped seated new tells
          exact pictured.2.trans_le (Nat.min_le_left 50 _)
      sound := by
        rw [next]
        rcases outcome with ⟨same, -⟩ | ⟨m, member, tells⟩
        · rw [same]
          exact informed.sound.trans (step_acquaintances_grow stepped).subperm
        · exact (inbox_contacts informed.reached stepped seated member tells).1
      full := fun unasked => by
        rw [next]
        rcases outcome with ⟨same, silent⟩ | ⟨m, member, tells⟩
        · rw [same]
          exact silent_pictured informed stepped seated single silent fun unsent =>
            answered unsent unasked
        · exact inbox_contacts informed.reached stepped seated member tells }

theorem service_deliberate {r : Request} {fd' : Int} {env : Env}
    (service : Service (Issued s.db) (fun _ _ => True) r) :
    Deliberate ⟨s, r.event fd' env, t, out⟩ uid := by
  rintro target ⟨p, env', ⟨fd'', code, bytes, cli, event, -, -, type, rfl⟩, readTarget⟩
  cases event
  rw [MessageType.ofCode_code] at type
  cases service with
  | decide targetUid accept issued =>
    have read : readUInt32 (deliver (serviceDecideRequest targetUid accept).2)
        DecideRequestPayload.targetUid = .ok targetUid := readUInt32_written [] _ targetUid
    cases readTarget.symm.trans read
    exact issued
  | _ => cases type

theorem LinkEffect.informed {l l' : Link} {e : LinkEvent} (informed : Informed P key fd uid l)
    (effect : LinkEffect P allocates fd l e l') (single : SingleSession l'.server fd uid) :
    Informed P key fd uid l' := by
  cases effect with
  | draw drawn =>
    exact informed.moved drawn (fun _ member => member) nofun nofun rfl
  | key pressed =>
    exact informed.moved pressed (fun _ member => member) nofun nofun rfl
  | @receive junk first rest client sent queue received =>
    have front : first ∈ l.toClient := queue ▸ List.mem_cons_self
    refine informed.moved received (fun m member => queue ▸ List.mem_cons_of_mem first member)
      (informed.few first front) (fun _ list is => ?_) ?_
    · exact informed.requests first front list (ClientEvent.receive.inj is).2
    · rw [coming, queue, settled_take]
      rfl
  | @serve env r rest server' out queue handled =>
    have front : r ∈ l.toServer := queue ▸ List.mem_cons_self
    have service := informed.asked r front
    change (server P key).step l.server (r.event fd env) = some (server', out) at handled
    refine informed.served (askedAbout r) handled (.inr ⟨r, env, rfl, service.not_login⟩) single
      (service_deliberate service) (fun r' member => queue ▸ List.mem_cons_of_mem r member) ?_
    intro unsent unasked
    rw [queue]
    refine List.forall_mem_cons.mpr ⟨fun recalls => ?_, unasked⟩
    obtain ⟨list, sent⟩ := step_recalls recalls informed.seated handled
    exact unsent list sent
  | @other e server' out elsewhere handled =>
    change (server P key).step l.server e = some (server', out) at handled
    refine informed.served 0 handled (.inl elsewhere) single ?_ (fun r member => member)
      fun _ unasked => unasked
    rintro target ⟨p, env, ⟨fd', code, bytes, cli, event, listed, user, -, -⟩, -⟩
    -- Another connection is another user's.
    obtain ⟨member, rfl⟩ := getClientByFd_some listed
    refine absurd (informed.single cli member user).symm ?_
    have sender : e.fd = cli.fd := by
      rw [show e = _ from event]
      rfl
    exact fun same => elsewhere (sender.trans same.symm)

section Net

variable {ι : Type} {fd : ι → Int} {uid : ι → UInt32} {s₀ : Server}

variable [DecidableEq ι]

theorem Seen.informed {n n' : Net ι} {j : ι} {e : NetEvent ι}
    (informed : Informed P key (fd j) (uid j) (n.seat j)) (seen : Seen P allocates fd j n n' e)
    (single : OneEach fd uid n'.server) : Informed P key (fd j) (uid j) (n'.seat j) := by
  cases seen with
  | nothing unseen same =>
    rw [same]
    exact informed
  | step sees stepped => exact (linkStep_effect stepped).informed informed (single j)

variable [Fintype ι]

end Net

instance (db : Database) (uid : UInt32) : Decidable (NoneToCome db uid) :=
  inferInstanceAs (Decidable
    (∀ r ∈ db.contacts.rows, r.userId = bindInt uid → r.contactId ≤ db.users.seq))

def befriendEvents : List (NetEvent (Fin 2)) :=
  List.replicate 3 (.serve bob (recordedEnv 6)) ++ List.replicate 3 (.receive bob fun _ => 0) ++
    pressed alice (letter 'f') ++
    [.draw alice, .key alice (letter 'a') ⟨CString.lit "000002", CString.empty⟩] ++
    List.replicate 6 (.serve alice (recordedEnv 7)) ++ [.receive bob fun _ => 0] ++
    pressed bob (letter 'f') ++ pressed bob (letter 'r') ++ pressed bob 10

end MoT
