import MoT.Friendship
import MoT.Outsiders

/-! What a connection that never logged in can do. The dispatcher asks nobody for a
login, so every handler runs for it with uid 0. -/
namespace MoT
open CMemory Relational Transition

variable {P : Platform} {key : Key} {env : Env} {s t : Server} {cli : Client} {p : Pointer}
  {out : List Sent} {k u : UInt32} {packet : Packet}

structure SameTables (db db' : Database) : Prop where
  users : db'.users.entries = db.users.entries
  contacts : db'.contacts.rows = db.contacts.rows
  requests : db'.requests.rows = db.requests.rows
  conversations : db'.conversations.entries = db.conversations.entries
  participants : db'.participants.rows = db.participants.rows
  messages : db'.messages.entries = db.messages.entries

theorem SameTables.refl (db : Database) : SameTables db db := ⟨rfl, rfl, rfl, rfl, rfl, rfl⟩

/-- The packet changed no table and was heard of by nobody else. -/
def Quiet (s t : Server) (cli : Client) (out : List Sent) : Prop :=
  SameTables s.db t.db ∧ ∀ m ∈ out, m.fd = cli.fd

/-- A listed connection on which nobody logged in. -/
structure Guest (s : Server) (cli : Client) : Prop where
  connected : Connected s.clients
  listed : cli ∈ s.clients
  offline : cli.isOnline = false

theorem Guest.uid (guest : Guest s cli) : cli.uid = 0 :=
  guest.connected.guests cli guest.listed guest.offline

/- A push goes to somebody else's connection, since a guest is not online. -/
theorem Guest.pushTo_quiet (guest : Guest s cli) (u : UInt32) (packet : Packet) :
    (∀ m ∈ pushTo s u packet, m.fd = cli.fd) ↔ ¬ Online s u := by
  rcases pushTo_cases s u packet with ⟨c, member, uid, online, pushed⟩ | ⟨offline, pushed⟩
  · refine iff_of_false (fun same => ?_) (not_not.mpr ⟨c, member, uid, online⟩)
    have fds := same ⟨c.fd, packet⟩ (pushed ▸ List.mem_singleton_self _)
    have self : c = cli := guest.connected.same member guest.listed fds
    rw [self, guest.offline] at online
    cases online
  · rw [pushed]
    exact iff_of_true (by simp) offline

/-- None of these participants, uid 0 apart, is online. -/
def Nobody (s : Server) (rows : List ParticipantRow) : Prop :=
  ∀ r ∈ rows, ∀ u, u ≠ 0 → r.userId = bindInt u → ¬ Online s u

theorem Guest.members_quiet (guest : Guest s cli) {db : Database} (f : UInt32 → Packet)
    (bound : ∀ r ∈ db.participants.rows, ∃ u, r.userId = bindInt u) :
    (∀ m ∈ (storageGetConvParticipants env.plan db k maxParticipants).flatMap
        (fun u => if u = 0 then [] else pushTo s u (f u)), m.fd = cli.fd) ↔
      Nobody s (firstParticipants env.plan db k) := by
  simp only [List.forall_mem_flatMap, mem_storageGetConvParticipants bound]
  constructor
  · intro quiet r member u other user
    have silent := quiet u ⟨r, member, user⟩
    rw [if_neg other] at silent
    exact (guest.pushTo_quiet u (f u)).mp silent
  · rintro nobody u ⟨r, member, user⟩
    split
    · simp
    · rename_i other
      exact (guest.pushTo_quiet u (f u)).mpr (nobody r member u other user)

/-- What keeps a guest's packet from doing anything, by its type. -/
def Harmless (P : Platform) (env : Env) (s : Server) (p : Pointer) : Option MessageType → Prop
  | some .sendText => ∀ k, readUInt32 p SendMessagePayload.convId = .ok k →
      ∀ text, readString p SendMessagePayload.text = .ok text →
      cryptoEncrypt P (some s.masterKey) env.randBytes text = none ∧
        Nobody s (firstParticipants env.plan s.db k)
  | some .createConv => ∀ type uids, ¬ Requested env s p type uids
  | some .addByCode => ∀ code, readString p AddContactPayload.friendCode = .ok code →
      ∀ target, storageGetUidByCode s.db code = some target → target = 0 ∨ Pending s 0 target
  | some .decideRequest => ∀ target, readUInt32 p DecideRequestPayload.targetUid = .ok target →
      ∀ accepted, readByte p DecideRequestPayload.accepted = .ok accepted →
      ¬ Pending s target 0 ∧ (accepted ≠ 0 →
        (target = 0 ∨ Contact s 0 target) ∧
        storageFindPrivateConversation env.plan s.db 0 target ≠ 0 ∧ ¬ Online s target)
  | some .updateGroup => ∀ k, readUInt32 p UpdateGroupPayload.convId = .ok k →
      storageIsAdmin s.db k 0 = true →
      ∀ name, readString p UpdateGroupPayload.newName = .ok name →
      ∀ desc, readString p UpdateGroupPayload.newDesc = .ok desc →
      (∀ e ∈ s.db.conversations.entries, e.rowid = bindInt k →
        e.row.name = name ∧ e.row.description = some desc) ∧
        Nobody s (firstParticipants env.plan s.db k)
  | some .addMember => ∀ k, readUInt32 p AddMemberPayload.convId = .ok k →
      storageIsAdmin s.db k 0 = true →
      ∀ code, readString p AddMemberPayload.targetFriendCode = .ok code →
      ∀ target, storageGetUidByCode s.db code = some target →
      Participant s.db k target ∧ Nobody s (firstParticipants env.plan s.db k)
  | some .kickMember => ∀ k, readUInt32 p KickMemberPayload.convId = .ok k →
      storageIsAdmin s.db k 0 = true →
      ∀ target, readUInt32 p KickMemberPayload.targetUid = .ok target → target ≠ 0 →
      ¬ Participant s.db k target ∧ Nobody s (firstParticipants env.plan s.db k) ∧
        ¬ Online s target
  | some .deleteGroup => ∀ k, readUInt32 p DeleteGroupPayload.convId = .ok k →
      storageIsAdmin s.db k 0 = false
  | _ => True

theorem quiet_updateUser (guest : Guest s cli)
    (handled : handleUpdateUser P env s cli p = .ok (t, out)) : Quiet s t cli out := by
  obtain ⟨newUsername, newPassword, -, -, tables, -, rfl⟩ := handleUpdateUser_ok handled
  obtain ⟨users, updated⟩ :=
    storageUpdateUser_frame P s.db env.salt cli.uid newUsername newPassword
  have same := storageUpdateUser_guest P s.db env.salt newUsername newPassword
  rw [← guest.uid, updated] at same
  rw [Quiet, tables, updated]
  exact ⟨⟨same, rfl, rfl, rfl, rfl, rfl⟩, by simp⟩

theorem quiet_sendText_iff (guest : Guest s cli)
    (bound : ∀ r ∈ s.db.participants.rows, ∃ u, r.userId = bindInt u)
    (handled : handleSendText P env s cli p = .ok (t, out)) :
    Quiet s t cli out ↔ Harmless P env s p (some .sendText) := by
  obtain ⟨k, text, readK, readText, rfl, rfl⟩ := handleSendText_ok handled
  have entries := storageLogMessage_entries P (some s.masterKey) env.randBytes env.now s.db k
    cli.uid text
  obtain ⟨messages, logged⟩ := storageLogMessage_frame P (some s.masterKey) env.randBytes env.now
    s.db k cli.uid text
  have tables : SameTables s.db
      (storageLogMessage P (some s.masterKey) env.randBytes env.now s.db k cli.uid text) ↔
        cryptoEncrypt P (some s.masterKey) env.randBytes text = none := by
    constructor
    · intro same
      have grown := same.messages
      rwa [entries, List.append_right_eq_self, Option.toList_eq_nil_iff,
        Option.map_eq_none_iff] at grown
    · intro failed
      have same : messages.entries = s.db.messages.entries := by
        rw [logged, failed] at entries
        simpa using entries
      rw [logged]
      exact ⟨rfl, rfl, rfl, rfl, rfl, same⟩
  have sends : (∀ m ∈ (storageGetConvParticipants env.plan s.db k maxParticipants).flatMap
      fun uid => if uid = 0 then [] else pushTo s uid (.rteText (routed cli k text)),
        m.fd = cli.fd) ↔ Nobody s (firstParticipants env.plan s.db k) :=
    guest.members_quiet _ bound
  simp only [Harmless, readK, readText, Except.ok.injEq, forall_eq']
  rw [Quiet, guest.uid]
  refine and_congr (guest.uid ▸ tables) ?_
  obtain ⟨messages, logged⟩ := storageLogMessage_frame P (some s.masterKey) env.randBytes env.now
    s.db k 0 text
  rw [logged]
  exact sends

theorem quiet_createConv_iff (handled : handleCreateConv env s cli p = .ok (t, out)) :
    Quiet s t cli out ↔ Harmless P env s p (some .createConv) := by
  obtain ⟨n, uids, type, readN, copied, readType,
    ⟨existing, rfl, rfl⟩ | ⟨missing, name, description, -, -, rfl, -⟩⟩ :=
      handleCreateConv_ok handled
  · refine iff_of_true ⟨.refl _, by simp⟩ ?_
    rintro type' uids' ⟨n', readN', copied', readType', missing⟩
    cases Except.ok.inj (readN.symm.trans readN')
    cases Except.ok.inj (copied.symm.trans copied')
    cases Except.ok.inj (readType.symm.trans readType')
    exact existing missing
  · refine iff_of_false (fun quiet => ?_) fun harmless =>
      harmless type uids ⟨n, readN, copied, readType, missing⟩
    obtain ⟨_, _, grown⟩ :=
      (storageCreateConversation_made s.db type name description uids).entries
    have same := quiet.1.conversations
    rw [grown, List.append_right_eq_self] at same
    cases same

theorem quiet_addByCode_iff (guest : Guest s cli)
    (handled : handleAddByCode env s cli p = .ok (t, out)) :
    Quiet s t cli out ↔ Harmless P env s p (some .addByCode) := by
  obtain ⟨rfl, rfl, refused⟩ |
    ⟨code, target, requests, readCode, known, distinct, inserted, rfl, -⟩ :=
      handleAddByCode_ok handled
  · refine iff_of_true ⟨.refl _, by simp⟩ fun code readCode target known => ?_
    have clash := (storageAddRequest_refused_iff _ _ _).mp (refused code target readCode known)
    rw [guest.uid] at clash
    exact clash.imp_left Eq.symm
  · have fresh : ¬ Pending s cli.uid target := by
      intro pending
      have free := (Table.insert?_isSome _ _).mp (Option.isSome_of_eq_some inserted) _ pending
      simp [RequestRow.clash] at free
    refine iff_of_false (fun quiet => ?_) fun harmless => ?_
    · have same := quiet.1.requests
      rw [Table.insert?_rows inserted, List.append_right_eq_self] at same
      cases same
    · rw [guest.uid] at distinct fresh
      rcases harmless code readCode target known with self | pending
      · exact distinct self.symm
      · exact fresh pending

theorem storageRemoveRequest_same_iff (s : Server) (a b : UInt32) :
    (storageRemoveRequest s.db a b).requests.rows = s.db.requests.rows ↔ ¬ Pending s a b := by
  rw [storageRemoveRequest, Table.deleteWhere_same_iff]
  constructor
  · intro kept pending
    have row := kept _ pending
    simp at row
  · intro absent row member
    refine decide_eq_false fun hit => absent ?_
    rw [Pending, ← hit.1, ← hit.2]
    exact member

theorem storageAddFriendship_same_iff (reached : Reachable (server P key) s) (a b : UInt32) :
    (storageAddFriendship s.db a b).contacts.rows = s.db.contacts.rows ↔ b = a ∨ Contact s a b := by
  have back : (⟨bindInt b, bindInt a⟩ : ContactRow) ∈ s.db.contacts.rows ↔ Contact s a b :=
    contact_comm reached (bindInt b) (bindInt a)
  rw [storageAddFriendship_rows]
  split
  · rename_i refused
    refine iff_of_true rfl ?_
    rcases refused with same | forth | other
    · exact .inl same.symm
    · exact .inr forth
    · exact .inr (back.mp other)
  · rename_i fresh
    refine iff_of_false (fun same => ?_) ?_
    · rw [List.append_right_eq_self] at same
      cases same
    · rintro (same | contact)
      · exact fresh (.inl same.symm)
      · exact fresh (.inr (.inl contact))

theorem sameTables_decideDb_iff (reached : Reachable (server P key) s) (env : Env)
    (target : UInt32) (accepted : UInt8) :
    SameTables s.db (decideDb env.plan s.db 0 target accepted) ↔
      ¬ Pending s target 0 ∧ (accepted ≠ 0 → (target = 0 ∨ Contact s 0 target) ∧
        storageFindPrivateConversation env.plan s.db 0 target ≠ 0) := by
  by_cases yes : accepted ≠ 0
  · have found : storageFindPrivateConversation env.plan (storageAddFriendship s.db 0 target) 0
        target = storageFindPrivateConversation env.plan s.db 0 target := rfl
    rw [forall_prop_of_true yes]
    simp only [decideDb, if_pos yes, acceptDb, found]
    split
    · rename_i missing
      refine iff_of_false (fun same => ?_) fun harmless => harmless.2.2 missing
      obtain ⟨_, _, grown⟩ := (storageCreateConversation_made (storageAddFriendship s.db 0 target)
        convTypePrivate (CString.lit "Private Chat") CString.empty [0, target]).entries
      have conversations := same.conversations
      rw [storageRemoveRequest, grown] at conversations
      exact absurd (List.append_right_eq_self.mp conversations) (by simp)
    · rename_i existing
      rw [← storageAddFriendship_same_iff reached, ← storageRemoveRequest_same_iff]
      constructor
      · intro same
        exact ⟨same.requests, same.contacts, existing⟩
      · rintro ⟨requests, contacts, -⟩
        exact ⟨rfl, contacts, requests, rfl, rfl, rfl⟩
  · rw [← storageRemoveRequest_same_iff, and_iff_left fun accepts => absurd accepts yes]
    simp only [decideDb, if_neg yes]
    constructor
    · exact fun same => same.requests
    · exact fun requests => ⟨rfl, rfl, requests, rfl, rfl, rfl⟩

theorem quiet_decideRequest_iff (reached : Reachable (server P key) s) (guest : Guest s cli)
    (handled : handleDecideRequest env s cli p = .ok (t, out)) :
    Quiet s t cli out ↔ Harmless P env s p (some .decideRequest) := by
  obtain ⟨accepted, target, readAccepted, readTarget, rfl, rfl⟩ := handleDecideRequest_ok handled
  have tables := sameTables_decideDb_iff reached env target accepted
  simp only [Harmless, readAccepted, readTarget, Except.ok.injEq, forall_eq']
  rw [Quiet, guest.uid, tables, and_assoc]
  refine and_congr_right fun _ => ?_
  by_cases yes : accepted ≠ 0
  · rw [forall_prop_of_true yes, forall_prop_of_true yes, and_assoc]
    refine and_congr_right fun _ => and_congr_right fun existing => ?_
    have chat : (acceptRequest env s cli target).2 = [] := by
      have found : storageFindPrivateConversation env.plan (storageAddFriendship s.db 0 target) 0
          target ≠ 0 := existing
      simp only [acceptRequest, guest.uid, if_neg found]
    have push := guest.pushTo_quiet target
      (.respContacts (storageGetContactsData env.plan (decideDb env.plan s.db 0 target accepted)
        target 50))
    rw [if_pos yes, if_pos yes, chat]
    simp only [List.nil_append, List.forall_mem_append, handleReqContacts, handleGetRequests,
      List.forall_mem_singleton, true_and]
    exact push
  · refine iff_of_true ⟨fun accepts => absurd accepts yes, ?_⟩ fun accepts => absurd accepts yes
    rw [if_neg yes, if_neg yes]
    simp [handleReqContacts, handleGetRequests]

theorem Guest.notifyGroupUpdate_quiet (guest : Guest s cli) (env : Env) (k : UInt32)
    (bound : ∀ r ∈ s.db.participants.rows, ∃ u, r.userId = bindInt u) :
    (∀ m ∈ notifyGroupUpdate env s k 0, m.fd = cli.fd) ↔
      Nobody s (firstParticipants env.plan s.db k) :=
  guest.members_quiet (fun u => .respConversations (storageGetUserConversations env.plan s.db u 50))
    bound

theorem Guest.withDb (guest : Guest s cli) (db : Database) : Guest { s with db := db } cli :=
  ⟨guest.connected, guest.listed, guest.offline⟩

theorem quiet_updateGroup_iff (guest : Guest s cli)
    (bound : ∀ r ∈ s.db.participants.rows, ∃ u, r.userId = bindInt u)
    (handled : handleUpdateGroup env s cli p = .ok (t, out)) :
    Quiet s t cli out ↔ Harmless P env s p (some .updateGroup) := by
  obtain ⟨k, readK, ⟨stranger, rfl, rfl⟩ | ⟨admin, name, desc, readName, readDesc, rfl, rfl⟩⟩ :=
    handleUpdateGroup_ok handled
  · rw [guest.uid] at stranger
    refine iff_of_true ⟨.refl _, by simp⟩ ?_
    simp [Harmless, readK, stranger]
  · rw [guest.uid] at admin
    have tables : SameTables s.db (storageUpdateGroup s.db k name desc) ↔
        ∀ e ∈ s.db.conversations.entries, e.rowid = bindInt k →
          e.row.name = name ∧ e.row.description = some desc := by
      rw [← storageUpdateGroup_same_iff]
      exact ⟨fun same => same.conversations, fun same => ⟨rfl, rfl, rfl, same, rfl, rfl⟩⟩
    simp only [Harmless, readK, readName, readDesc, Except.ok.injEq, forall_eq', admin,
      forall_const]
    exact and_congr tables ((guest.withDb _).notifyGroupUpdate_quiet env k bound)

theorem storageAddParticipant_same_iff (db : Database) (k target : UInt32) (role : Int) :
    (storageAddParticipant db k target role).participants.rows = db.participants.rows ↔
      Participant db k target := by
  rw [storageAddParticipant, Table.insertIgnored_same_iff]
  simp [Participant, memberRows, ParticipantRow.clash, and_assoc]

theorem storageRemoveParticipant_same_iff (db : Database) (k target : UInt32) :
    (storageRemoveParticipant db k target).participants.rows = db.participants.rows ↔
      ¬ Participant db k target := by
  rw [storageRemoveParticipant, Table.deleteWhere_same_iff]
  simp [Participant, memberRows]

theorem quiet_addMember_iff (guest : Guest s cli)
    (bound : ∀ r ∈ t.db.participants.rows, ∃ u, r.userId = bindInt u)
    (handled : handleAddMember env s cli p = .ok (t, out)) :
    Quiet s t cli out ↔ Harmless P env s p (some .addMember) := by
  obtain ⟨k, readK, ⟨stranger, rfl, rfl⟩ | ⟨admin, code, readCode,
    ⟨unknown, rfl, rfl⟩ | ⟨target, known, rfl, rfl⟩⟩⟩ := handleAddMember_ok handled
  · rw [guest.uid] at stranger
    refine iff_of_true ⟨.refl _, by simp⟩ ?_
    simp [Harmless, readK, stranger]
  · refine iff_of_true ⟨.refl _, by simp⟩ ?_
    simp [Harmless, readK, readCode, unknown]
  · rw [guest.uid] at admin
    have tables : SameTables s.db (storageAddParticipant s.db k target 0) ↔
        Participant s.db k target := by
      rw [← storageAddParticipant_same_iff s.db k target 0]
      exact ⟨fun same => same.participants, fun same => ⟨rfl, rfl, rfl, rfl, same, rfl⟩⟩
    simp only [Harmless, readK, readCode, known, Except.ok.injEq, Option.some.injEq, forall_eq',
      admin, forall_const]
    rw [Quiet, tables]
    refine and_congr_right fun there => ?_
    have first : firstParticipants env.plan (storageAddParticipant s.db k target 0) k =
        firstParticipants env.plan s.db k :=
      firstParticipants_congr (tables.mpr there).participants
    have sends := (guest.withDb _).notifyGroupUpdate_quiet env k bound
    rw [List.forall_mem_cons, and_iff_right rfl, sends, first]
    rfl

theorem quiet_kickMember_iff (guest : Guest s cli)
    (bound : ∀ r ∈ t.db.participants.rows, ∃ u, r.userId = bindInt u)
    (handled : handleKickMember env s cli p = .ok (t, out)) :
    Quiet s t cli out ↔ Harmless P env s p (some .kickMember) := by
  obtain ⟨k, readK, ⟨stranger, rfl, rfl⟩ | ⟨admin, target, readTarget,
    ⟨self, rfl, rfl⟩ | ⟨other, rfl, rfl⟩⟩⟩ := handleKickMember_ok handled
  · rw [guest.uid] at stranger
    refine iff_of_true ⟨.refl _, by simp⟩ ?_
    simp [Harmless, readK, stranger]
  · rw [guest.uid] at self
    refine iff_of_true ⟨.refl _, by simp⟩ ?_
    simp [Harmless, readK, readTarget, self]
  · rw [guest.uid] at admin other
    have tables : SameTables s.db (storageRemoveParticipant s.db k target) ↔
        ¬ Participant s.db k target := by
      rw [← storageRemoveParticipant_same_iff]
      exact ⟨fun same => same.participants, fun same => ⟨rfl, rfl, rfl, rfl, same, rfl⟩⟩
    simp only [Harmless, readK, readTarget, Except.ok.injEq, forall_eq', admin, forall_const,
      ne_eq, other, not_false_eq_true]
    rw [Quiet, tables]
    refine and_congr_right fun absent => ?_
    have first : firstParticipants env.plan (storageRemoveParticipant s.db k target) k =
        firstParticipants env.plan s.db k :=
      firstParticipants_congr (tables.mpr absent).participants
    have sends := (guest.withDb _).notifyGroupUpdate_quiet env k bound
    have push := (guest.withDb (storageRemoveParticipant s.db k target)).pushTo_quiet target
      (.respConversations
        (storageGetUserConversations env.plan (storageRemoveParticipant s.db k target) target 50))
    rw [List.forall_mem_append, sends, first]
    exact and_congr Iff.rfl push

theorem quiet_deleteGroup_iff (guest : Guest s cli)
    (handled : handleDeleteGroup env s cli p = .ok (t, out)) :
    Quiet s t cli out ↔ Harmless P env s p (some .deleteGroup) := by
  obtain ⟨k, readK, ⟨stranger, rfl, rfl⟩ | ⟨admin, rfl, -⟩⟩ := handleDeleteGroup_ok handled
  · rw [guest.uid] at stranger
    refine iff_of_true ⟨.refl _, by simp⟩ ?_
    simp [Harmless, readK, stranger]
  · refine iff_of_false (fun quiet => ?_) ?_
    · -- the row that made it an admin is gone
      obtain ⟨r, member, conv, -⟩ := (storageIsAdmin_iff s.db k cli.uid).mp admin
      have kept := (Table.deleteWhere_same_iff _ _).mp quiet.1.participants r member
      simp [conv] at kept
    · rw [guest.uid] at admin
      simp [Harmless, readK, admin]

theorem quiet_asked (packets : List Packet) :
    Quiet s s cli (packets.map fun packet => ⟨cli.fd, packet⟩) := by
  refine ⟨.refl _, fun m member => ?_⟩
  obtain ⟨packet, -, rfl⟩ := List.mem_map.mp member
  rfl

/-- A packet of a connection that never logged in leaves the tables alone and reaches
nobody else exactly when it is harmless; registering and logging in aside. -/
theorem guest_quiet_iff (P : Platform) (key : Key) (s : Server)
    (reached : Reachable (server P key) s) (fd : Int) (code : UInt32) (bytes : List UInt8)
    (env : Env) (cli : Client) (t : Server) (out : List Sent)
    (listed : getClientByFd fd s.clients = some cli) (offline : cli.isOnline = false)
    (noRegister : MessageType.ofCode code ≠ some .register)
    (noLogin : MessageType.ofCode code ≠ some .login)
    (stepped : (server P key).step s (.packet fd code bytes env) = some (t, out)) :
    Quiet s t cli out ↔ Harmless P env s (deliver bytes) (MessageType.ofCode code) := by
  have guest : Guest s cli := ⟨reachable_connected reached, (getClientByFd_some listed).1, offline⟩
  have bound := participants_bound reached
  have bound' := participants_bound (reached.step stepped)
  have handled := (handleEvent_of_step stepped).2
  simp only [handleEvent, listed, dispatch] at handled
  cases coded : MessageType.ofCode code with
  | none =>
    rw [coded] at handled
    cases handled
    exact iff_of_true (quiet_asked []) trivial
  | some type =>
    rw [coded] at handled noRegister noLogin
    cases type with
    | register => exact absurd rfl noRegister
    | login => exact absurd rfl noLogin
    | updateUser => exact iff_of_true (quiet_updateUser guest handled) trivial
    | sendText => exact quiet_sendText_iff guest bound handled
    | reqHistory =>
      obtain ⟨k, hist, history, -, -, -, rfl, rfl⟩ := handleReqHistory_ok handled
      exact iff_of_true (quiet_asked [_]) trivial
    | createConv => exact quiet_createConv_iff handled
    | updateGroup => exact quiet_updateGroup_iff guest bound handled
    | addMember => exact quiet_addMember_iff guest bound' handled
    | reqMembers =>
      obtain ⟨k, -, rfl, rfl⟩ := handleReqMembers_ok handled
      exact iff_of_true (quiet_asked [_]) trivial
    | kickMember => exact quiet_kickMember_iff guest bound' handled
    | deleteGroup => exact quiet_deleteGroup_iff guest handled
    | addByCode => exact quiet_addByCode_iff guest handled
    | decideRequest => exact quiet_decideRequest_iff reached guest handled
    | reqConversations | reqContacts | getRequests =>
      cases handled
      exact iff_of_true (quiet_asked [_]) trivial
    | _ =>
      cases handled
      exact iff_of_true (quiet_asked []) trivial

def guestSession : List Event := aliceArrives ++ [.connect 9]

theorem guestSession_completes :
    (recordedServer.exec recordedServer.start guestSession).isSome := by decide +kernel

abbrev guestState : Server := recordedServer.after guestSession guestSession_completes

theorem guest_quiet_iff_contacts :
    ∃ t out, recordedServer.step guestState
        (.packet 9 MessageType.reqContacts.code [] (recordedEnv 2)) = some (t, out) ∧
      (Quiet guestState t ⟨9, 0, List.Vector.replicate maxNameLen 0, false⟩ out ↔
        Harmless recordedPlatform (recordedEnv 2) guestState (deliver [])
          (MessageType.ofCode MessageType.reqContacts.code)) := by
  have seen : getClientByFd 9 guestState.clients =
        some ⟨9, 0, List.Vector.replicate maxNameLen 0, false⟩ ∧
      (recordedServer.step guestState
        (.packet 9 MessageType.reqContacts.code [] (recordedEnv 2))).isSome := by decide +kernel
  obtain ⟨listed, completes⟩ := seen
  obtain ⟨⟨t, out⟩, stepped⟩ := Option.isSome_iff_exists.mp completes
  exact ⟨t, out, stepped, guest_quiet_iff recordedPlatform recordedKey guestState
    (.after guestSession guestSession_completes) 9 _ _ _ _ t out listed rfl (by decide)
    (by decide) stepped⟩

theorem guest_creates_conversation :
    ¬ ∀ (P : Platform) (key : Key) (s : Server), Reachable (server P key) s →
      ∀ (fd : Int) (code : UInt32) (bytes : List UInt8) (env : Env) (cli : Client) (t : Server)
        (out : List Sent),
      getClientByFd fd s.clients = some cli → cli.isOnline = false →
      MessageType.ofCode code ≠ some .register → MessageType.ofCode code ≠ some .login →
      (server P key).step s (.packet fd code bytes env) = some (t, out) → Quiet s t cli out := by
  intro claimed
  have seen : getClientByFd 9 guestState.clients =
        some ⟨9, 0, List.Vector.replicate maxNameLen 0, false⟩ ∧
      guestState.db.conversations.entries = [] ∧
      (recordedServer.step guestState
        ((serviceCreateGroup 1 (CString.lit "team") CString.empty []).event 9 (recordedEnv 2))).map
          (fun next => next.1.db.conversations.entries.length) = some 1 := by decide +kernel
  obtain ⟨listed, none, made⟩ := seen
  obtain ⟨⟨t, out⟩, stepped, one⟩ := Option.map_eq_some_iff.mp made
  have quiet := claimed recordedPlatform recordedKey guestState
    (.after guestSession guestSession_completes) 9 _ _ _ _ t out listed rfl (by decide) (by decide)
    stepped
  rw [quiet.1.conversations, none] at one
  cases one

end MoT
