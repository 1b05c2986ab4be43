import MoT.Accounts
import MoT.Private

/-! References between the tables. The schema declares no foreign keys, so a row refers
to a user or a conversation that exists only where the handler that wrote it made sure. -/
namespace MoT
open CMemory Relational Transition

variable {P : Platform} {key : Key} {env : Env} {s t : Server} {cli : Client} {p : Pointer}
  {db db' : Database} {out : List Sent} {type : Option MessageType} {uid : UInt32}

def HasUser (db : Database) (id : Int) : Prop := ∃ e ∈ db.users.entries, e.rowid = id

def HasConv (db : Database) (id : Int) : Prop := ∃ e ∈ db.conversations.entries, e.rowid = id

instance (db : Database) (id : Int) : Decidable (HasUser db id) :=
  inferInstanceAs (Decidable (∃ e ∈ db.users.entries, e.rowid = id))

instance (db : Database) (id : Int) : Decidable (HasConv db id) :=
  inferInstanceAs (Decidable (∃ e ∈ db.conversations.entries, e.rowid = id))

/-- Every reference leads to a row. -/
structure Integrity (db : Database) : Prop where
  messageConv : ∀ e ∈ db.messages.entries, HasConv db e.row.convId
  participantConv : ∀ r ∈ db.participants.rows, HasConv db r.convId
  messageSender : ∀ e ∈ db.messages.entries, HasUser db e.row.senderId
  participantUser : ∀ r ∈ db.participants.rows, HasUser db r.userId
  contacts : ∀ r ∈ db.contacts.rows, HasUser db r.userId ∧ HasUser db r.contactId
  requests : ∀ r ∈ db.requests.rows, HasUser db r.senderId ∧ HasUser db r.receiverId

instance (db : Database) : Decidable (Integrity db) :=
  decidable_of_iff
    ((∀ e ∈ db.messages.entries, HasConv db e.row.convId) ∧
      (∀ r ∈ db.participants.rows, HasConv db r.convId) ∧
      (∀ e ∈ db.messages.entries, HasUser db e.row.senderId) ∧
      (∀ r ∈ db.participants.rows, HasUser db r.userId) ∧
      (∀ r ∈ db.contacts.rows, HasUser db r.userId ∧ HasUser db r.contactId) ∧
      ∀ r ∈ db.requests.rows, HasUser db r.senderId ∧ HasUser db r.receiverId)
    ⟨fun ⟨a, b, c, d, e, f⟩ => ⟨a, b, c, d, e, f⟩, fun ⟨a, b, c, d, e, f⟩ => ⟨a, b, c, d, e, f⟩⟩

theorem Integrity.mono (integrity : Integrity db)
    (users : ∀ id, HasUser db id → HasUser db' id) (convs : ∀ id, HasConv db id → HasConv db' id)
    (messages : ∀ e ∈ db'.messages.entries, e ∈ db.messages.entries)
    (participants : ∀ r ∈ db'.participants.rows, r ∈ db.participants.rows)
    (contacts : ∀ r ∈ db'.contacts.rows, r ∈ db.contacts.rows)
    (requests : ∀ r ∈ db'.requests.rows, r ∈ db.requests.rows) : Integrity db' where
  messageConv e he := convs _ (integrity.messageConv e (messages e he))
  participantConv r hr := convs _ (integrity.participantConv r (participants r hr))
  messageSender e he := users _ (integrity.messageSender e (messages e he))
  participantUser r hr := users _ (integrity.participantUser r (participants r hr))
  contacts r hr := (integrity.contacts r (contacts r hr)).imp (users _) (users _)
  requests r hr := (integrity.requests r (requests r hr)).imp (users _) (users _)

/-- The id of the next conversation still leads to a conversation after its detour through
`uint32_t`, as it does below 2^31. -/
def NextConv (db : Database) : Prop :=
  bindInt (columnInt (db.conversations.seq + 1)) = db.conversations.seq + 1 ∨
    HasConv db (bindInt (columnInt (db.conversations.seq + 1)))

/-- The users and the conversation that the packet's rows will refer to exist. -/
def GroundedPacket (P : Platform) (env : Env) (s : Server) (cli : Client) (p : Pointer) :
    Option MessageType → Prop
  | some .sendText => ∀ k text, readUInt32 p SendMessagePayload.convId = .ok k →
      readString p SendMessagePayload.text = .ok text →
      (cryptoEncrypt P (some s.masterKey) env.randBytes text).isSome →
      HasConv s.db (bindInt k) ∧ HasUser s.db (bindInt cli.uid)
  | some .addByCode => ∀ code target, readString p AddContactPayload.friendCode = .ok code →
      storageGetUidByCode s.db code = some target → cli.uid ≠ target →
      HasUser s.db (bindInt cli.uid) ∧ HasUser s.db (bindInt target)
  | some .decideRequest => ∀ accepted target,
      readByte p DecideRequestPayload.accepted = .ok accepted →
      readUInt32 p DecideRequestPayload.targetUid = .ok target → accepted ≠ 0 →
      HasUser s.db (bindInt cli.uid) ∧ HasUser s.db (bindInt target) ∧
        (storageFindPrivateConversation env.plan s.db cli.uid target = 0 → NextConv s.db)
  | some .createConv => ∀ convType uids, Requested env s p convType uids →
      ∀ u ∈ uids, HasUser s.db (bindInt u) ∧ NextConv s.db
  | some .addMember => ∀ k code target, readUInt32 p AddMemberPayload.convId = .ok k →
      storageIsAdmin s.db k cli.uid = true →
      readString p AddMemberPayload.targetFriendCode = .ok code →
      storageGetUidByCode s.db code = some target → HasUser s.db (bindInt target)
  | _ => True

def Grounded (P : Platform) (m : ServerMoment) : Prop :=
  ∀ fd code bytes env cli, m.event = .packet fd code bytes env →
    getClientByFd fd m.before.clients = some cli →
    GroundedPacket P env m.before cli (deliver bytes) (MessageType.ofCode code)

theorem sendText_integrity (integrity : Integrity s.db)
    (done : handleSendText P env s cli p = .ok (t, out)) :
    Integrity t.db ↔ GroundedPacket P env s cli p (some .sendText) := by
  obtain ⟨k, text, readK, readText, rfl, -⟩ := handleSendText_ok done
  have entries := storageLogMessage_entries P (some s.masterKey) env.randBytes env.now s.db k
    cli.uid text
  obtain ⟨messages, logged⟩ := storageLogMessage_frame P (some s.masterKey) env.randBytes env.now
    s.db k cli.uid text
  dsimp only
  rw [logged] at entries ⊢
  dsimp only at entries
  cases encrypted : cryptoEncrypt P (some s.masterKey) env.randBytes text with
  | none =>
    rw [encrypted, Option.map_none, Option.toList_none, List.append_nil] at entries
    refine iff_of_true ?_ ?_
    · exact integrity.mono (fun _ h => h) (fun _ h => h) (fun e he => entries ▸ he)
        (fun _ h => h) (fun _ h => h) (fun _ h => h)
    · intro k' text' readK' readText' some
      cases Except.ok.inj (readText.symm.trans readText')
      rw [encrypted] at some
      cases some
  | some hex =>
    rw [encrypted, Option.map_some, Option.toList_some] at entries
    constructor
    · intro after k' text' readK' _ _
      cases Except.ok.inj (readK.symm.trans readK')
      have member : (⟨s.db.messages.seq + 1, bindInt k, bindInt cli.uid, hex, env.now⟩ :
          Entry MessageRow) ∈ messages.entries :=
        entries ▸ List.mem_append_right _ List.mem_cons_self
      exact ⟨after.messageConv _ member, after.messageSender _ member⟩
    · intro grounded
      have here := grounded k text readK readText (by simp [encrypted])
      refine ⟨fun e he => ?_, integrity.participantConv, fun e he => ?_, integrity.participantUser,
        integrity.contacts, integrity.requests⟩
      · rcases List.mem_append.mp (entries ▸ he) with old | new
        · exact integrity.messageConv e old
        · rw [List.mem_singleton.mp new]
          exact here.1
      · rcases List.mem_append.mp (entries ▸ he) with old | new
        · exact integrity.messageSender e old
        · rw [List.mem_singleton.mp new]
          exact here.2

theorem addByCode_integrity (integrity : Integrity s.db)
    (done : handleAddByCode env s cli p = .ok (t, out)) :
    Integrity t.db ↔ GroundedPacket P env s cli p (some .addByCode) := by
  obtain ⟨rfl, -, refused⟩ | ⟨code, target, requests, readCode, known, distinct, inserted, rfl, -⟩ :=
    handleAddByCode_ok done
  · refine iff_of_true integrity fun code target readCode known distinct => ?_
    -- a request that was refused, and not for being one to oneself, is there already
    rcases (storageAddRequest_refused_iff _ _ _).mp (refused code target readCode known) with
      self | there
    · exact absurd self distinct
    · exact integrity.requests _ there
  · have rows := Table.insert?_rows inserted
    constructor
    · intro after code' target' readCode' known' _
      cases Except.ok.inj (readCode.symm.trans readCode')
      cases Option.some.inj (known.symm.trans known')
      have member : (⟨bindInt cli.uid, bindInt target⟩ : RequestRow) ∈ requests.rows :=
        rows ▸ List.mem_append_right _ List.mem_cons_self
      exact after.requests _ member
    · intro grounded
      refine ⟨integrity.messageConv, integrity.participantConv, integrity.messageSender,
        integrity.participantUser, integrity.contacts, fun r hr => ?_⟩
      rcases List.mem_append.mp (rows ▸ hr) with old | new
      · exact integrity.requests r old
      · rw [List.mem_singleton.mp new]
        exact grounded code target readCode known distinct

theorem Integrity.befriended (integrity : Integrity db) {a b : UInt32}
    (userA : HasUser db (bindInt a)) (userB : HasUser db (bindInt b)) :
    Integrity (storageAddFriendship db a b) := by
  refine ⟨integrity.messageConv, integrity.participantConv, integrity.messageSender,
    integrity.participantUser, fun r hr => ?_, integrity.requests⟩
  rw [storageAddFriendship_rows] at hr
  split at hr
  · exact integrity.contacts r hr
  · rcases List.mem_append.mp hr with old | new
    · exact integrity.contacts r old
    · simp only [List.mem_cons, List.not_mem_nil, or_false] at new
      rcases new with rfl | rfl
      · exact ⟨userA, userB⟩
      · exact ⟨userB, userA⟩

theorem Integrity.unrequested (integrity : Integrity db) (a b : UInt32) :
    Integrity (storageRemoveRequest db a b) := by
  apply integrity.mono
  · exact fun _ has => has
  · exact fun _ has => has
  · exact fun _ he => he
  · exact fun _ hr => hr
  · exact fun _ hr => hr
  · exact fun r hr => List.mem_of_mem_filter hr

theorem Integrity.created (integrity : Integrity db) (convType : UInt8) (name desc : CString)
    (grounded : ∀ u ∈ uids, HasUser db (bindInt u) ∧ NextConv db) :
    Integrity (storageCreateConversation db convType name desc uids).1 := by
  obtain ⟨conversations, inserted, created⟩ :=
    storageCreateConversation_spec db convType name desc uids
  rw [created]
  have entries := (AutoTable.insert?_spec inserted).1
  have kept (k : Int) (has : HasConv db k) : ∃ e ∈ conversations.entries, e.rowid = k := by
    obtain ⟨e, he, same⟩ := has
    exact ⟨e, entries ▸ List.mem_append_left _ he, same⟩
  refine ⟨fun e he => kept _ (integrity.messageConv e he), fun r hr => ?_,
    integrity.messageSender, fun r hr => ?_, integrity.contacts, integrity.requests⟩
  · rcases Table.mem_insertEach hr with old | new
    · exact kept _ (integrity.participantConv r old)
    · obtain ⟨u, listed, rfl⟩ := List.mem_map.mp new
      rcases (grounded u.1 (List.fst_mem_of_mem_zipIdx listed)).2 with own | old
      · exact ⟨_, entries ▸ List.mem_append_right _ List.mem_cons_self, own.symm⟩
      · exact kept _ old
  · rcases Table.mem_insertEach hr with old | new
    · exact integrity.participantUser r old
    · obtain ⟨u, listed, rfl⟩ := List.mem_map.mp new
      exact (grounded u.1 (List.fst_mem_of_mem_zipIdx listed)).1

theorem Made.grounded (made : Made db convType uids db') (users : db'.users = db.users)
    (after : Integrity db') : ∀ u ∈ uids, HasUser db (bindInt u) ∧ NextConv db := by
  intro u named
  obtain ⟨r, member, conv, user⟩ := made.covers named
  constructor
  · have has := after.participantUser r member
    rw [HasUser, users, user] at has
    exact has
  · obtain ⟨name, desc, entries⟩ := made.entries
    obtain ⟨e, he, same⟩ := after.participantConv r member
    rw [conv] at same
    rcases List.mem_append.mp (entries ▸ he) with old | new
    · exact .inr ⟨e, old, same⟩
    · rw [List.mem_singleton.mp new] at same
      exact .inl same.symm

theorem createConv_integrity (integrity : Integrity s.db)
    (done : handleCreateConv env s cli p = .ok (t, out)) :
    Integrity t.db ↔ GroundedPacket P env s cli p (some .createConv) := by
  obtain ⟨n, uids, convType, readN, copied, readType,
    ⟨existing, rfl, -⟩ | ⟨missing, name, description, -, -, rfl, -⟩⟩ := handleCreateConv_ok done
  · refine iff_of_true integrity ?_
    rintro type uids' ⟨n', readN', copied', readType', missing⟩
    cases Except.ok.inj (readN.symm.trans readN')
    cases Except.ok.inj (copied.symm.trans copied')
    cases Except.ok.inj (readType.symm.trans readType')
    exact absurd missing existing
  · constructor
    · rintro after type uids' ⟨n', readN', copied', -, -⟩
      cases Except.ok.inj (readN.symm.trans readN')
      cases Except.ok.inj (copied.symm.trans copied')
      refine (storageCreateConversation_made s.db convType name description uids).grounded ?_ after
      obtain ⟨conversations, -, created⟩ :=
        storageCreateConversation_spec s.db convType name description uids
      rw [created]
    · intro grounded
      exact integrity.created convType name description
        (grounded convType uids ⟨n, readN, copied, readType, missing⟩)

theorem user_of_found {plan : Plan} {a b : UInt32} (integrity : Integrity db)
    (found : storageFindPrivateConversation plan db a b ≠ 0) : HasUser db (bindInt a) := by
  rcases storageFindPrivateConversation_cases plan db a b with ⟨missing, -⟩ |
    ⟨e, -, -, ⟨r, selected, user⟩, -⟩
  · exact absurd missing found
  · exact user ▸ integrity.participantUser r (List.mem_of_mem_filter selected)

theorem acceptDb_integrity {plan : Plan} {uid target : UInt32} (integrity : Integrity db)
    (user : HasUser db (bindInt uid)) (other : HasUser db (bindInt target))
    (conv : storageFindPrivateConversation plan db uid target = 0 → NextConv db) :
    Integrity (acceptDb plan db uid target) := by
  have friends := integrity.befriended user other
  by_cases missing : storageFindPrivateConversation plan db uid target = 0
  · have same : storageFindPrivateConversation plan (storageAddFriendship db uid target) uid
        target = 0 := missing
    simp only [acceptDb, if_pos same]
    apply friends.created
    intro u named
    simp only [List.mem_cons, List.not_mem_nil, or_false] at named
    rcases named with rfl | rfl
    · exact ⟨user, conv missing⟩
    · exact ⟨other, conv missing⟩
  · have found : ¬ storageFindPrivateConversation plan (storageAddFriendship db uid target) uid
        target = 0 := missing
    simp only [acceptDb, if_neg found]
    exact friends

/- Both users of an accepted request end up in some row that the packet wrote or met. -/
theorem acceptDb_grounded {plan : Plan} {uid target : UInt32} (integrity : Integrity db)
    (after : Integrity (acceptDb plan db uid target)) :
    HasUser db (bindInt uid) ∧ HasUser db (bindInt target) ∧
      (storageFindPrivateConversation plan db uid target = 0 → NextConv db) := by
  have users := acceptDb_users plan db uid target
  have made (missing : storageFindPrivateConversation plan db uid target = 0) :=
    (acceptDb_made plan db missing).grounded users after
  have both : HasUser db (bindInt uid) ∧ HasUser db (bindInt target) := by
    by_cases distinct : uid = target
    · -- there is no friendship with oneself, but there is a private conversation
      subst distinct
      have user : HasUser db (bindInt uid) := by
        by_cases missing : storageFindPrivateConversation plan db uid uid = 0
        · exact (made missing uid List.mem_cons_self).1
        · exact user_of_found integrity missing
      exact ⟨user, user⟩
    · have row : (⟨bindInt uid, bindInt target⟩ : ContactRow) ∈
            (acceptDb plan db uid target).contacts.rows ∨
          (⟨bindInt target, bindInt uid⟩ : ContactRow) ∈
            (acceptDb plan db uid target).contacts.rows := by
        rw [acceptDb_contacts, storageAddFriendship_rows]
        split
        · rename_i there
          exact there.resolve_left distinct
        · exact .inl (List.mem_append_right _ List.mem_cons_self)
      have has := after.contacts
      simp only [HasUser, users] at has
      rcases row with forth | back
      · exact has _ forth
      · exact (has _ back).symm
  exact ⟨both.1, both.2, fun missing => (made missing uid List.mem_cons_self).2⟩

theorem decideRequest_integrity (integrity : Integrity s.db)
    (done : handleDecideRequest env s cli p = .ok (t, out)) :
    Integrity t.db ↔ GroundedPacket P env s cli p (some .decideRequest) := by
  obtain ⟨accepted, target, readAccepted, readTarget, rfl, -⟩ := handleDecideRequest_ok done
  have grounded : GroundedPacket P env s cli p (some .decideRequest) ↔
      (accepted ≠ 0 → HasUser s.db (bindInt cli.uid) ∧ HasUser s.db (bindInt target) ∧
        (storageFindPrivateConversation env.plan s.db cli.uid target = 0 → NextConv s.db)) := by
    constructor
    · exact fun grounded => grounded accepted target readAccepted readTarget
    · intro named accepted' target' readAccepted' readTarget'
      cases Except.ok.inj (readAccepted.symm.trans readAccepted')
      cases Except.ok.inj (readTarget.symm.trans readTarget')
      exact named
  rw [grounded]
  by_cases yes : accepted ≠ 0
  · simp only [decideDb, if_pos yes]
    constructor
    · intro after _
      -- the request that goes away was in order as well
      refine acceptDb_grounded integrity ⟨after.messageConv, after.participantConv,
        after.messageSender, after.participantUser, after.contacts, fun r hr => ?_⟩
      rw [acceptDb_requests] at hr
      have has := integrity.requests r hr
      simp only [HasUser, acceptDb_users] at has ⊢
      exact has
    · intro named
      obtain ⟨user, other, conv⟩ := named yes
      exact (acceptDb_integrity integrity user other conv).unrequested _ _
  · simp only [decideDb, if_neg yes]
    exact iff_of_true (integrity.unrequested _ _) fun accepted => absurd accepted yes

theorem AccountChange.kept (change : AccountChange P env s cli p t out type) {id : Int}
    (has : HasUser s.db id) : HasUser t.db id := by
  obtain ⟨e, he, rfl⟩ := has
  cases change with
  | same type other users => exact ⟨e, users ▸ he, rfl⟩
  | register email username password hash uid _ _ _ _ inserted =>
    exact ⟨e, (AutoTable.insert?_spec inserted).1 ▸ List.mem_append_left _ he, rfl⟩
  | login email e' _ _ _ users => exact ⟨e, users ▸ he, rfl⟩
  | updateUser newUsername newPassword _ db =>
    have old : (e.rowid, e.row.username) ∈ names s.db := mem_names.mpr ⟨e, he, rfl, rfl⟩
    have new : ∃ name, (e.rowid, name) ∈ names t.db := by
      rw [db]
      rcases storageUpdateUser_names P s.db env.salt cli.uid newUsername newPassword with
        ⟨same, -⟩ | ⟨renamed, -⟩
      · exact ⟨_, same ▸ old⟩
      · rw [renamed]
        by_cases own : e.rowid = bindInt cli.uid
        · exact ⟨newUsername, mem_rename.mpr (.inr ⟨own, rfl, _, own ▸ old⟩)⟩
        · exact ⟨_, mem_rename.mpr (.inl ⟨own, old⟩)⟩
    obtain ⟨name, member⟩ := new
    obtain ⟨d, hd, same, -⟩ := mem_names.mp member
    exact ⟨d, hd, same⟩

theorem Integrity.emptied (integrity : Integrity db) (k : UInt32) :
    Integrity (storageDeleteConversation db k) := by
  have kept {c : Int} (has : HasConv db c) (other : c ≠ bindInt k) :
      HasConv (storageDeleteConversation db k) c := by
    obtain ⟨e, he, rfl⟩ := has
    exact ⟨e, List.mem_filter.mpr ⟨he, by simpa using other⟩, rfl⟩
  constructor
  · intro e he
    obtain ⟨old, other⟩ := List.mem_filter.mp he
    exact kept (integrity.messageConv e old) (by simpa using other)
  · intro r hr
    obtain ⟨old, other⟩ := List.mem_filter.mp hr
    exact kept (integrity.participantConv r old) (by simpa using other)
  · exact fun e he => integrity.messageSender e (List.mem_of_mem_filter he)
  · exact fun r hr => integrity.participantUser r (List.mem_of_mem_filter hr)
  · exact integrity.contacts
  · exact integrity.requests

theorem Integrity.accounts (integrity : Integrity db) {users : AutoTable UserRow UserRow.clash}
    (kept : ∀ id, HasUser db id → HasUser { db with users := users } id) :
    Integrity { db with users := users } := by
  apply integrity.mono kept
  · exact fun _ has => has
  · exact fun _ he => he
  · exact fun _ hr => hr
  · exact fun _ hr => hr
  · exact fun _ hr => hr

theorem addMember_integrity (integrity : Integrity s.db)
    (done : handleAddMember env s cli p = .ok (t, out)) :
    Integrity t.db ↔ GroundedPacket P env s cli p (some .addMember) := by
  obtain ⟨k, readK, ⟨stranger, rfl, -⟩ |
    ⟨admin, code, readCode, ⟨unknown, rfl, -⟩ | ⟨target, known, rfl, -⟩⟩⟩ := handleAddMember_ok done
  · refine iff_of_true integrity fun k' code' target readK' admin => ?_
    cases Except.ok.inj (readK.symm.trans readK')
    rw [stranger] at admin
    cases admin
  · refine iff_of_true integrity fun k' code' target _ _ readCode' known => ?_
    cases Except.ok.inj (readCode.symm.trans readCode')
    rw [unknown] at known
    cases known
  · have covered : ∃ r ∈ (s.db.participants.insertEach
        [⟨bindInt k, bindInt target, 0⟩]).rows, r = ⟨bindInt k, bindInt target, 0⟩ ∨
          ParticipantRow.clash r ⟨bindInt k, bindInt target, 0⟩ = true :=
      Table.insertEach_covers List.mem_cons_self
    constructor
    · intro after k' code' target' _ _ readCode' known'
      cases Except.ok.inj (readCode.symm.trans readCode')
      cases Option.some.inj (known.symm.trans known')
      obtain ⟨r, member, same⟩ := covered
      have user : r.userId = bindInt target := by
        rcases same with rfl | clashing
        · rfl
        · simp only [ParticipantRow.clash, Bool.and_eq_true, beq_iff_eq] at clashing
          exact clashing.2
      exact user ▸ after.participantUser r member
    · intro grounded
      refine ⟨integrity.messageConv, fun r hr => ?_, integrity.messageSender, fun r hr => ?_,
        integrity.contacts, integrity.requests⟩
      · rcases Table.mem_insertIgnored hr with old | rfl
        · exact integrity.participantConv r old
        · -- the admin's own row refers to the conversation already
          obtain ⟨row, member, conv, -⟩ := (storageIsAdmin_iff s.db k cli.uid).mp admin
          exact conv ▸ integrity.participantConv row member
      · rcases Table.mem_insertIgnored hr with old | rfl
        · exact integrity.participantUser r old
        · exact grounded k code target readK admin readCode known

theorem Change.integrity (change : Change P env s cli p type db') (integrity : Integrity s.db)
    (users : ∀ id, HasUser s.db id → HasUser db' id)
    (other : type ∉ [some .sendText, some .addByCode, some .decideRequest, some .createConv,
      some .addMember]) : Integrity db' := by
  cases change with
  | same => exact integrity
  | register table => exact integrity.accounts users
  | updateUser newUsername newPassword =>
    obtain ⟨table, updated⟩ :=
      storageUpdateUser_frame P s.db env.salt cli.uid newUsername newPassword
    rw [updated] at users ⊢
    exact integrity.accounts users
  | updateGroup k name desc admin =>
    obtain ⟨f, entries, -, keeps⟩ := storageUpdateGroup_spec s.db k name desc
    apply integrity.mono users
    · rintro id ⟨e, he, rfl⟩
      exact ⟨f e, entries ▸ List.mem_map_of_mem he, (keeps e).1⟩
    · exact fun _ he => he
    · exact fun _ hr => hr
    · exact fun _ hr => hr
    · exact fun _ hr => hr
  | kickMember k target admin distinct =>
    apply integrity.mono users
    · exact fun _ has => has
    · exact fun _ he => he
    · exact fun _ hr => List.mem_of_mem_filter hr
    · exact fun _ hr => hr
    · exact fun _ hr => hr
  | deleteGroup k admin => exact integrity.emptied k
  | sendText | addByCode | decideRequest | createConv | addMember => simp at other

theorem dispatch_integrity {code : UInt32} (integrity : Integrity s.db)
    (done : dispatch P env s cli code p = .ok (t, out)) :
    Integrity t.db ↔ GroundedPacket P env s cli p (MessageType.ofCode code) := by
  have change := dispatch_change done
  have accounts := dispatch_accounts done
  have rest := change.integrity integrity fun _ has => accounts.kept has
  unfold dispatch at done
  cases coded : MessageType.ofCode code with
  | none => exact iff_of_true (rest (by simp [coded])) trivial
  | some type =>
    rw [coded] at done rest
    cases type with
    | sendText => exact sendText_integrity integrity done
    | addByCode => exact addByCode_integrity integrity done
    | decideRequest => exact decideRequest_integrity integrity done
    | createConv => exact createConv_integrity integrity done
    | addMember => exact addMember_integrity integrity done
    | _ => exact iff_of_true (rest (by simp)) trivial

theorem Integrity.step {e : Event} (stepped : (server P key).step s e = some (t, out))
    (integrity : Integrity s.db) : Integrity t.db ↔ Grounded P ⟨s, e, t, out⟩ := by
  have handled := (handleEvent_of_step stepped).2
  cases e with
  | connect fd =>
    cases handled
    exact iff_of_true integrity (by simp [Grounded])
  | disconnect fd =>
    cases handled
    exact iff_of_true integrity (by simp [Grounded])
  | packet fd code bytes env =>
    simp only [handleEvent] at handled
    split at handled
    · rename_i unlisted
      cases handled
      refine iff_of_true integrity ?_
      intro fd' code' bytes' env' cli event listed
      cases event
      rw [unlisted] at listed
      cases listed
    · rename_i cli listed
      rw [dispatch_integrity integrity handled]
      constructor
      · intro grounded fd' code' bytes' env' cli' event listed'
        cases event
        cases Option.some.inj (listed.symm.trans listed')
        exact grounded
      · exact fun grounded => grounded fd code bytes env cli rfl listed

/-- Every reference leads to a row at every moment of a run exactly when every packet that
writes one names rows that are there. -/
theorem referential_integrity_iff (P : Platform) (key : Key) (past : List ServerMoment) (s : Server)
    (run : Run (server P key) past s) :
    (∀ m ∈ past, Integrity m.after.db) ↔ ∀ m ∈ past, Grounded P m := by
  refine run.always_iff (fun _ _ => True) (fun s => Integrity s.db) (Grounded P) ?_ ?_ ?_ trivial
  · constructor <;> simp [server, storageInit]
  · exact fun _ _ _ _ _ _ _ => trivial
  · exact fun _ _ _ _ _ _ stepped _ integrity => integrity.step stepped

theorem referential_integrity_iff_group :
    (∀ m ∈ (recordedServer.history groupSession groupSession_recorded).1, Integrity m.after.db) ∧
    ∀ m ∈ (recordedServer.history groupSession groupSession_recorded).1,
      Grounded recordedPlatform m := by
  have holds : ∀ m ∈ (recordedServer.history groupSession groupSession_recorded).1,
      Integrity m.after.db := by decide +kernel
  exact ⟨holds, (referential_integrity_iff recordedPlatform recordedKey _ _
    (.history groupSession groupSession_recorded)).mp holds⟩

def strayTextSession : List Event :=
  aliceArrives ++ [(serviceSendText 99 (CString.lit "hi")).event 7 (recordedEnv 2)]

theorem strayTextSession_completes :
    (recordedServer.exec recordedServer.start strayTextSession).isSome := by decide +kernel

theorem text_to_no_conversation :
    ¬ ∀ (P : Platform) (key : Key) (s : Server), Reachable (server P key) s → Integrity s.db := by
  intro claimed
  have whole := claimed _ _ _ (.after strayTextSession strayTextSession_completes)
  revert whole
  decide +kernel

end MoT
