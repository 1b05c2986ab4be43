import MoT.Effects
import MoT.Services

/-! Conversations, their participants and their admins over whole runs. -/
namespace MoT
open CMemory Relational Transition

variable {P : Platform} {key : Key} {env : Env} {s t : Server} {cli : Client} {p : Pointer}
  {db db' : Database}

def memberRows (db : Database) (k : Int) : List ParticipantRow :=
  db.participants.rows.filter fun r => r.convId = k

def adminRows (db : Database) (k : Int) : List ParticipantRow :=
  db.participants.rows.filter fun r => r.convId = k ∧ r.role = 1

theorem mem_adminRows {k : Int} {r : ParticipantRow} :
    r ∈ adminRows db k ↔ r ∈ db.participants.rows ∧ r.convId = k ∧ r.role = 1 := by
  simp [adminRows]

/-- The packet asks for a new conversation of this type with these users. -/
def Requested (env : Env) (s : Server) (p : Pointer) (type : UInt8) (uids : List UInt32) : Prop :=
  ∃ n, readUInt32 p CreateConvPayload.participantsCount = .ok n ∧
    copyUids p (participantCount n) = .ok uids ∧ readByte p CreateConvPayload.type = .ok type ∧
    findExisting env s type (participantCount n) uids = 0

structure Made (db : Database) (type : UInt8) (uids : List UInt32) (db' : Database) : Prop where
  conversations : ∃ name desc, db.conversations.insert? ⟨type.toNat, name, some desc⟩ =
    some (db'.conversations, db.conversations.seq + 1)
  participants : db'.participants = db.participants.insertEach
    (participantRows type (columnInt (db.conversations.seq + 1)) uids)

theorem storageCreateConversation_made (db : Database) (type : UInt8) (name desc : CString)
    (uids : List UInt32) :
    Made db type uids (storageCreateConversation db type name desc uids).1 := by
  obtain ⟨conversations, inserted, created⟩ := storageCreateConversation_spec db type name desc uids
  rw [created]
  exact ⟨⟨name, desc, inserted⟩, rfl⟩

/-- One packet, as the conversations and their participants see it. -/
inductive GroupChange (env : Env) (s : Server) (cli : Client) (p : Pointer)
    (packetType : Option MessageType) (db' : Database) : Prop where
  | kept (conversations : db'.conversations = s.db.conversations)
      (participants : db'.participants = s.db.participants)
  | created (type : UInt8) (uids : List UInt32) (made : Made s.db type uids db')
      (origin : type = convTypePrivate ∨
        packetType = some .createConv ∧ Requested env s p type uids)
  | updated (k : UInt32) (name desc : CString) (changed : db' = storageUpdateGroup s.db k name desc)
      (admin : storageIsAdmin s.db k cli.uid = true)
  | added (k target : UInt32) (changed : db' = storageAddParticipant s.db k target 0)
      (admin : storageIsAdmin s.db k cli.uid = true)
  | kicked (k target : UInt32) (changed : db' = storageRemoveParticipant s.db k target)
      (admin : storageIsAdmin s.db k cli.uid = true) (other : target ≠ cli.uid)
  | deleted (k : UInt32) (changed : db' = storageDeleteConversation s.db k)
      (admin : storageIsAdmin s.db k cli.uid = true)

theorem acceptDb_groups (plan : Plan) (db : Database) (uid target : UInt32) :
    ((acceptDb plan db uid target).conversations = db.conversations ∧
      (acceptDb plan db uid target).participants = db.participants) ∨
    Made db convTypePrivate [uid, target] (acceptDb plan db uid target) := by
  simp only [acceptDb]
  split
  · have made := storageCreateConversation_made (storageAddFriendship db uid target) convTypePrivate
      (CString.lit "Private Chat") CString.empty [uid, target]
    exact .inr ⟨made.conversations, made.participants⟩
  · exact .inl ⟨rfl, rfl⟩

theorem Change.groups {type : Option MessageType} (change : Change P env s cli p type db') :
    GroupChange env s cli p type db' := by
  cases change with
  | same | register | addByCode => exact .kept rfl rfl
  | updateUser newUsername newPassword =>
    obtain ⟨users, updated⟩ :=
      storageUpdateUser_frame P s.db env.salt cli.uid newUsername newPassword
    rw [updated]
    exact .kept rfl rfl
  | sendText k text readK =>
    obtain ⟨messages, logged⟩ := storageLogMessage_frame P (some s.masterKey) env.randBytes env.now
      s.db k cli.uid text
    rw [logged]
    exact .kept rfl rfl
  | decideRequest accepted target readAccepted readTarget =>
    simp only [decideDb]
    split
    · rcases acceptDb_groups env.plan s.db cli.uid target with ⟨conversations, participants⟩ | made
      · exact .kept conversations participants
      · exact .created _ _ ⟨made.conversations, made.participants⟩ (.inl rfl)
    · exact .kept rfl rfl
  | createConv n uids type name description readN copied readType missing =>
    exact .created type uids (storageCreateConversation_made s.db type name description uids)
      (.inr ⟨rfl, n, readN, copied, readType, missing⟩)
  | updateGroup k name desc admin => exact .updated k name desc rfl admin
  | addMember k target admin => exact .added k target rfl admin
  | kickMember k target admin other => exact .kicked k target rfl admin other
  | deleteGroup k admin => exact .deleted k rfl admin

theorem Made.seq {type : UInt8} {uids : List UInt32} (made : Made db type uids db') :
    db'.conversations.seq = db.conversations.seq + 1 := by
  obtain ⟨name, desc, inserted⟩ := made.conversations
  exact (AutoTable.insert?_spec inserted).2.1

theorem Made.entries {type : UInt8} {uids : List UInt32} (made : Made db type uids db') :
    ∃ name desc, db'.conversations.entries =
      db.conversations.entries ++ [⟨db.conversations.seq + 1, type.toNat, name, some desc⟩] := by
  obtain ⟨name, desc, inserted⟩ := made.conversations
  exact ⟨name, desc, (AutoTable.insert?_spec inserted).1⟩

/- The id of a new conversation, after its detour through `uint32_t`, is no old id. -/
theorem fresh_conversation (db : Database) {k : Int} (low : 1 ≤ k) (high : k ≤ db.conversations.seq)
    (small : db.conversations.seq < 2 ^ 31) :
    bindInt (columnInt (db.conversations.seq + 1)) ≠ k := by
  have word : ((db.conversations.seq + 1) % 2 ^ 32).toNat = (db.conversations.seq + 1).toNat := by
    omega
  have wide : (db.conversations.seq + 1).toNat < 2 ^ 32 := by omega
  have same : (columnInt (db.conversations.seq + 1)).toNat = (db.conversations.seq + 1).toNat := by
    rw [columnInt, word, UInt32.toNat_ofNat_of_lt' wide]
  unfold bindInt
  rw [same]
  split <;> omega

theorem Made.frame {type : UInt8} {uids : List UInt32} (made : Made db type uids db') {k : Int}
    (low : 1 ≤ k) (high : k ≤ db.conversations.seq) (small : db.conversations.seq < 2 ^ 31)
    {q : ParticipantRow → Bool} (about : ∀ r, q r = true → r.convId = k) :
    db'.participants.rows.filter q = db.participants.rows.filter q := by
  rw [made.participants]
  refine Table.filter_insertEach (fun r member => ?_) _
  have fresh := fresh_conversation db low high small
  have conv := (mem_participantRows member).1
  exact Bool.eq_false_iff.mpr fun holds => fresh (conv.symm.trans (about r holds))

/-- Participants belong to conversations, and only groups have admins. -/
structure Membership (db : Database) : Prop where
  placed : ∀ r ∈ db.participants.rows, ∃ e ∈ db.conversations.entries, e.rowid = r.convId
  roles : ∀ r ∈ db.participants.rows, r.role = 0 ∨ r.role = 1
  grouped : ∀ r ∈ db.participants.rows, r.role = 1 →
    ∀ e ∈ db.conversations.entries, e.rowid = r.convId → e.row.type = 1

theorem Membership.known (membership : Membership db) {r : ParticipantRow}
    (member : r ∈ db.participants.rows) : 1 ≤ r.convId ∧ r.convId ≤ db.conversations.seq := by
  obtain ⟨e, he, same⟩ := membership.placed r member
  exact same ▸ db.conversations.issued e he

theorem Membership.admin (membership : Membership db) {k uid : UInt32}
    (admin : storageIsAdmin db k uid = true) :
    ⟨bindInt k, bindInt uid, 1⟩ ∈ adminRows db (bindInt k) := by
  obtain ⟨⟨conv, user, role⟩, member, rfl, rfl, one⟩ := (storageIsAdmin_iff db k uid).mp admin
  refine mem_adminRows.mpr ?_
  rcases membership.roles _ member with zero | unit
  · dsimp only at zero
    rw [zero] at one
    exact absurd (show columnInt 0 = 1 from one) (by decide)
  · dsimp only at unit
    rw [unit] at member
    exact ⟨member, rfl, rfl⟩

theorem Membership.sublist (membership : Membership db)
    (participants : ∀ r ∈ db'.participants.rows, r ∈ db.participants.rows)
    (conversations : db'.conversations = db.conversations) : Membership db' where
  placed r member := conversations ▸ membership.placed r (participants r member)
  roles r member := membership.roles r (participants r member)
  grouped r member := conversations ▸ membership.grouped r (participants r member)

theorem Membership.made (membership : Membership db) {type : UInt8} {uids : List UInt32}
    (made : Made db type uids db') (small : db'.conversations.seq < 2 ^ 31) : Membership db' := by
  have started := db.conversations.started
  have seq := made.seq
  have id : bindInt (columnInt (db.conversations.seq + 1)) = db.conversations.seq + 1 :=
    bindInt_columnInt (by omega) (by omega)
  obtain ⟨name, desc, entries⟩ := made.entries
  have cases : ∀ r ∈ db'.participants.rows, r ∈ db.participants.rows ∨
      r.convId = db.conversations.seq + 1 ∧ (r.role = 0 ∨ r.role = 1 ∧ type = convTypeGroup) := by
    intro r member
    rw [made.participants] at member
    rcases Table.mem_insertEach member with old | new
    · exact .inl old
    · exact .inr (id ▸ mem_participantRows new)
  constructor
  · intro r member
    rw [entries]
    rcases cases r member with old | ⟨conv, -⟩
    · obtain ⟨e, he, same⟩ := membership.placed r old
      exact ⟨e, List.mem_append_left _ he, same⟩
    · exact ⟨_, List.mem_append_right _ List.mem_cons_self, conv.symm⟩
  · intro r member
    rcases cases r member with old | ⟨-, zero | ⟨one, -⟩⟩
    · exact membership.roles r old
    · exact .inl zero
    · exact .inr one
  · intro r member role e he same
    rw [entries] at he
    rcases cases r member with old | ⟨conv, zero | ⟨-, group⟩⟩
    · rcases List.mem_append.mp he with before | new
      · exact membership.grouped r old role e before same
      · -- an old row does not point at the new conversation
        have known := membership.known old
        rw [List.mem_singleton.mp new] at same
        dsimp only at same
        omega
    · omega
    · rcases List.mem_append.mp he with before | new
      · have issued := db.conversations.issued e before
        omega
      · cases List.mem_singleton.mp new
        rw [group]
        rfl

theorem Membership.change {type : Option MessageType} (membership : Membership s.db)
    (change : GroupChange env s cli p type db') (small : db'.conversations.seq < 2 ^ 31) :
    Membership db' := by
  cases change with
  | kept conversations participants =>
    exact membership.sublist (fun r member => participants ▸ member) conversations
  | created type uids made origin => exact membership.made made small
  | updated k name desc changed admin =>
    subst changed
    obtain ⟨f, entries, seq, keeps⟩ := storageUpdateGroup_spec s.db k name desc
    constructor
    · intro r member
      obtain ⟨e, he, same⟩ := membership.placed r member
      rw [entries]
      exact ⟨f e, List.mem_map_of_mem he, (keeps e).1.trans same⟩
    · exact membership.roles
    · intro r member role e he same
      rw [entries] at he
      obtain ⟨d, hd, rfl⟩ := List.mem_map.mp he
      exact (keeps d).2.1.trans
        (membership.grouped r member role d hd ((keeps d).1.symm.trans same))
  | added k target changed admin =>
    subst changed
    have row := (mem_adminRows.mp (membership.admin admin)).1
    have cases : ∀ r ∈ (storageAddParticipant s.db k target 0).participants.rows,
        r ∈ s.db.participants.rows ∨ r = ⟨bindInt k, bindInt target, 0⟩ :=
      fun r member => Table.mem_insertIgnored member
    constructor
    · intro r member
      rcases cases r member with old | rfl
      · exact membership.placed r old
      · exact membership.placed ⟨bindInt k, bindInt cli.uid, 1⟩ row
    · intro r member
      rcases cases r member with old | rfl
      · exact membership.roles r old
      · exact .inl rfl
    · intro r member role
      rcases cases r member with old | rfl
      · exact membership.grouped r old role
      · cases role
  | kicked k target changed admin other =>
    subst changed
    exact membership.sublist (fun r member => List.mem_of_mem_filter member) rfl
  | deleted k changed admin =>
    subst changed
    have left : ∀ r ∈ (storageDeleteConversation s.db k).participants.rows,
        r ∈ s.db.participants.rows ∧ r.convId ≠ bindInt k := by
      intro r member
      simpa [storageDeleteConversation] using member
    constructor
    · intro r member
      obtain ⟨old, other⟩ := left r member
      obtain ⟨e, he, same⟩ := membership.placed r old
      exact ⟨e, List.mem_filter.mpr ⟨he, by simpa [same] using other⟩, same⟩
    · exact fun r member => membership.roles r (left r member).1
    · exact fun r member role e he =>
        membership.grouped r (left r member).1 role e (List.mem_of_mem_filter he)

theorem GroupChange.seq_le {type : Option MessageType} (change : GroupChange env s cli p type db') :
    s.db.conversations.seq ≤ db'.conversations.seq := by
  cases change with
  | kept conversations participants => exact le_of_eq (by rw [conversations])
  | created type uids made origin =>
    have seq := made.seq
    omega
  | updated k name desc changed admin =>
    subst changed
    obtain ⟨f, -, seq, -⟩ := storageUpdateGroup_spec s.db k name desc
    exact le_of_eq seq.symm
  | added k target changed admin => exact le_of_eq (by rw [changed]; rfl)
  | kicked k target changed admin other => exact le_of_eq (by rw [changed]; rfl)
  | deleted k changed admin => exact le_of_eq (by rw [changed]; rfl)

theorem step_seq_le {e : Event} {out : List Sent}
    (stepped : (server P key).step s e = some (t, out)) :
    s.db.conversations.seq ≤ t.db.conversations.seq := by
  rcases step_change stepped with same | ⟨fd, code, bytes, env, cli, -, -, change⟩
  · exact le_of_eq (by rw [same])
  · exact change.groups.seq_le

theorem reachable_membership (reached : Reachable (server P key) s)
    (small : s.db.conversations.seq < 2 ^ 31) : Membership s.db := by
  refine reached.invariant (fun s => s.db.conversations.seq < 2 ^ 31 → Membership s.db) ?_ ?_ small
  · intro _
    constructor <;> simp [server, storageInit]
  · intro s e t out ih stepped small
    have before := ih (lt_of_le_of_lt (step_seq_le stepped) small)
    rcases step_change stepped with same | ⟨fd, code, bytes, env, cli, -, -, change⟩
    · exact same ▸ before
    · exact before.change change.groups small

theorem participants_bound (reached : Reachable (server P key) s) :
    ∀ r ∈ s.db.participants.rows, ∃ u, r.userId = bindInt u := by
  refine reached.invariant (fun s => ∀ r ∈ s.db.participants.rows, ∃ u, r.userId = bindInt u)
    (by simp [server, storageInit]) ?_
  intro s e t out ih stepped r member
  rcases step_change stepped with same | ⟨fd, code, bytes, env, cli, -, -, change⟩
  · exact ih r (same ▸ member)
  · cases change.groups with
    | kept conversations participants => exact ih r (participants ▸ member)
    | created type uids made origin =>
      rw [made.participants] at member
      rcases Table.mem_insertEach member with old | new
      · exact ih r old
      · obtain ⟨u, -, rfl⟩ := List.mem_map.mp new
        exact ⟨u.1, rfl⟩
    | updated k name desc changed admin =>
      rw [changed] at member
      exact ih r member
    | added k target changed admin =>
      rw [changed] at member
      rcases Table.mem_insertIgnored member with old | rfl
      · exact ih r old
      · exact ⟨target, rfl⟩
    | kicked k target changed admin other =>
      rw [changed] at member
      exact ih r (List.mem_of_mem_filter member)
    | deleted k changed admin =>
      rw [changed] at member
      exact ih r (List.mem_of_mem_filter member)

theorem Membership.apart (membership : Membership db) {k uid : UInt32} {id : Int}
    (admin : storageIsAdmin db k uid = true)
    (stranger : ⟨id, bindInt uid, 1⟩ ∉ db.participants.rows) : id ≠ bindInt k := by
  rintro rfl
  exact stranger (mem_adminRows.mp (membership.admin admin)).1

theorem GroupChange.frame {type : Option MessageType} (membership : Membership s.db)
    (small : s.db.conversations.seq < 2 ^ 31) (change : GroupChange env s cli p type db')
    {e : Entry ConversationRow} (he : e ∈ s.db.conversations.entries)
    (stranger : ⟨e.rowid, bindInt cli.uid, 1⟩ ∉ s.db.participants.rows) :
    e ∈ db'.conversations.entries ∧ memberRows db' e.rowid = memberRows s.db e.rowid := by
  cases change with
  | kept conversations participants =>
    exact ⟨conversations ▸ he, by rw [memberRows, memberRows, participants]⟩
  | created type uids made origin =>
    obtain ⟨name, desc, entries⟩ := made.entries
    have issued := s.db.conversations.issued e he
    refine ⟨entries ▸ List.mem_append_left _ he, made.frame issued.1 issued.2 small ?_⟩
    intro r selected
    simpa using selected
  | updated k name desc changed admin =>
    subst changed
    obtain ⟨f, entries, -, keeps⟩ := storageUpdateGroup_spec s.db k name desc
    have kept : f e = e := (keeps e).2.2 (membership.apart admin stranger)
    exact ⟨entries ▸ List.mem_map.mpr ⟨e, he, kept⟩, rfl⟩
  | added k target changed admin =>
    subst changed
    have other := membership.apart admin stranger
    exact ⟨he, Table.filter_insertIgnored _ (by simpa using other.symm)⟩
  | kicked k target changed admin other =>
    subst changed
    have apart := membership.apart admin stranger
    refine ⟨he, Table.filter_deleteWhere _ fun r _ selected => ?_⟩
    simp only [decide_eq_true_eq] at selected
    simp [selected, apart]
  | deleted k changed admin =>
    subst changed
    have apart := membership.apart admin stranger
    refine ⟨List.mem_filter.mpr ⟨he, by simp [apart]⟩,
      Table.filter_deleteWhere _ fun r _ selected => ?_⟩
    simp only [decide_eq_true_eq] at selected
    simp [selected, apart]

theorem step_frame {e : Event} {out : List Sent} (reached : Reachable (server P key) s)
    (small : s.db.conversations.seq < 2 ^ 31) (stepped : (server P key).step s e = some (t, out))
    {c : Entry ConversationRow} (hc : c ∈ s.db.conversations.entries)
    (stranger : ∀ fd code bytes env cli, e = .packet fd code bytes env →
      getClientByFd fd s.clients = some cli →
      ⟨c.rowid, bindInt cli.uid, 1⟩ ∉ s.db.participants.rows) :
    c ∈ t.db.conversations.entries ∧ memberRows t.db c.rowid = memberRows s.db c.rowid := by
  rcases step_change stepped with same | ⟨fd, code, bytes, env, cli, event, listed, change⟩
  · rw [same]
    exact ⟨hc, rfl⟩
  · exact change.groups.frame (reachable_membership reached small) small hc
      (stranger fd code bytes env cli event listed)

/- Without an admin a conversation keeps its row and its participants for good. -/
theorem unheaded_frame {s t : Server} (reached : Reachable (server P key) s)
    (leads : Leads (server P key) s t) (small : t.db.conversations.seq < 2 ^ 31)
    {c : Entry ConversationRow} (hc : c ∈ s.db.conversations.entries) (type : c.row.type ≠ 1) :
    c ∈ t.db.conversations.entries ∧ memberRows t.db c.rowid = memberRows s.db c.rowid := by
  refine (leads.invariant (fun t => Reachable (server P key) t ∧
    (t.db.conversations.seq < 2 ^ 31 → c ∈ t.db.conversations.entries ∧
      memberRows t.db c.rowid = memberRows s.db c.rowid)) ?_ ⟨reached, fun _ => ⟨hc, rfl⟩⟩).2 small
  rintro t e u out ⟨reached, ih⟩ stepped
  refine ⟨reached.step stepped, fun small => ?_⟩
  have before := lt_of_le_of_lt (step_seq_le stepped) small
  obtain ⟨member, rows⟩ := ih before
  have membership := reachable_membership reached before
  have kept := step_frame reached before stepped member fun _ _ _ _ cli _ _ admin =>
    type (membership.grouped _ admin rfl c member rfl)
  exact ⟨kept.1, kept.2.trans rows⟩

/-- Only an admin of a conversation changes its row, its participants or its existence;
so a conversation that is no group never changes in any run. -/
theorem group_mutation_authority (P : Platform) (key : Key) (s : Server)
    (reached : Reachable (server P key) s) (small : s.db.conversations.seq < 2 ^ 31) :
    (∀ fd code bytes env cli t out, getClientByFd fd s.clients = some cli →
      (server P key).step s (.packet fd code bytes env) = some (t, out) →
      ∀ c ∈ s.db.conversations.entries, ⟨c.rowid, bindInt cli.uid, 1⟩ ∉ s.db.participants.rows →
        c ∈ t.db.conversations.entries ∧ memberRows t.db c.rowid = memberRows s.db c.rowid) ∧
    ∀ t, Leads (server P key) s t → t.db.conversations.seq < 2 ^ 31 →
      ∀ c ∈ s.db.conversations.entries, c.row.type ≠ 1 →
        c ∈ t.db.conversations.entries ∧ memberRows t.db c.rowid = memberRows s.db c.rowid := by
  constructor
  · intro fd code bytes env cli t out listed stepped c hc stranger
    refine step_frame reached small stepped hc ?_
    intro fd' code' bytes' env' cli' same listed'
    cases same
    cases Option.some.inj (listed.symm.trans listed')
    exact stranger
  · intro t leads small c hc type
    exact unheaded_frame reached leads small hc type

def groupSession : List Event :=
  aliceArrives ++ bobArrives ++
    [(serviceAddContact (CString.lit "000002")).event 7 (recordedEnv 3),
      (serviceDecideRequest 1 1).event 8 (recordedEnv 4),
      (serviceCreateGroup 1 (CString.lit "team") (CString.lit "all") [2]).event 7 (recordedEnv 5),
      (addMemberRequest 2 (CString.lit "000001")).event 7 (recordedEnv 6),
      (serviceKickMember 2 2).event 7 (recordedEnv 7)]

theorem groupSession_completes :
    (recordedServer.exec recordedServer.start groupSession).isSome := by decide +kernel

abbrev groupState : Server := recordedServer.after groupSession groupSession_completes

theorem group_mutation_authority_session :
    ∃ t out, recordedServer.step groupState
        ((serviceKickMember 2 1).event 8 (recordedEnv 8)) = some (t, out) ∧
      ∀ c ∈ groupState.db.conversations.entries,
        c ∈ t.db.conversations.entries ∧
          memberRows t.db c.rowid = memberRows groupState.db c.rowid := by
  have seen : getClientByFd 8 groupState.clients =
        some ⟨8, 2, strncpy maxNameLen (CString.lit "bob"), true⟩ ∧
      (recordedServer.step groupState
        ((serviceKickMember 2 1).event 8 (recordedEnv 8))).isSome ∧
      ∀ c ∈ groupState.db.conversations.entries,
        ⟨c.rowid, bindInt 2, 1⟩ ∉ groupState.db.participants.rows := by
    decide +kernel
  obtain ⟨bob, completes, stranger⟩ := seen
  obtain ⟨⟨t, out⟩, stepped⟩ := Option.isSome_iff_exists.mp completes
  refine ⟨t, out, stepped, fun c hc => ?_⟩
  exact (group_mutation_authority recordedPlatform recordedKey groupState
    (.after groupSession groupSession_completes) (by decide +kernel)).1
      8 _ _ _ _ t out bob stepped c hc (stranger c hc)

/-- Conversation `k` has been handed out, and while it exists `uid` is its one admin. -/
structure Headed (db : Database) (k : Int) (uid : UInt32) : Prop where
  issued : 1 ≤ k ∧ k ≤ db.conversations.seq
  admins : (∃ e ∈ db.conversations.entries, e.rowid = k) → adminRows db k = [⟨k, bindInt uid, 1⟩]

theorem participantRows_cons (type : UInt8) (convId first : UInt32) (rest : List UInt32) :
    ∃ others, participantRows type convId (first :: rest) =
        ⟨bindInt convId, bindInt first, if type = convTypeGroup then 1 else 0⟩ :: others ∧
      ∀ r ∈ others, r.role = 0 := by
  refine ⟨(rest.zipIdx 1).map fun u =>
    ⟨bindInt convId, bindInt u.1, if u.2 = 0 ∧ type = convTypeGroup then 1 else 0⟩,
    by simp [participantRows, List.zipIdx_cons], ?_⟩
  intro r member
  obtain ⟨u, hu, rfl⟩ := List.mem_map.mp member
  have later := List.le_snd_of_mem_zipIdx hu
  exact if_neg fun first => absurd first.1 (by omega)

theorem Made.headed (membership : Membership db) {first : UInt32} {rest : List UInt32}
    (made : Made db convTypeGroup (first :: rest) db') (small : db'.conversations.seq < 2 ^ 31) :
    Headed db' (db.conversations.seq + 1) first := by
  have started := db.conversations.started
  have seq := made.seq
  have id : bindInt (columnInt (db.conversations.seq + 1)) = db.conversations.seq + 1 :=
    bindInt_columnInt (by omega) (by omega)
  refine ⟨by omega, fun _ => ?_⟩
  obtain ⟨others, split, plain⟩ := participantRows_cons convTypeGroup
    (columnInt (db.conversations.seq + 1)) first rest
  rw [id, if_pos rfl] at split
  have none : ∀ r ∈ db.participants.rows, r.convId ≠ db.conversations.seq + 1 := by
    intro r member
    have known := membership.known member
    omega
  have inserted : (db.participants.insertIgnored
      ⟨db.conversations.seq + 1, bindInt first, 1⟩).rows =
        db.participants.rows ++ [⟨db.conversations.seq + 1, bindInt first, 1⟩] := by
    rcases Table.insertIgnored_rows db.participants
      ⟨db.conversations.seq + 1, bindInt first, 1⟩ with rows | ⟨-, r, member, clashing⟩
    · exact rows
    · simp only [ParticipantRow.clash, Bool.and_eq_true, beq_iff_eq] at clashing
      exact absurd clashing.1 (none r member)
  have noAdmin : ∀ r ∈ others,
      decide (r.convId = db.conversations.seq + 1 ∧ r.role = 1) = false := by
    intro r member
    simp [plain r member]
  have old : db.participants.rows.filter
      (fun r => r.convId = db.conversations.seq + 1 ∧ r.role = 1) = [] := by
    refine List.filter_eq_nil_iff.mpr fun r member => ?_
    simp [none r member]
  calc adminRows db' (db.conversations.seq + 1)
      = (db.participants.insertIgnored ⟨db.conversations.seq + 1, bindInt first, 1⟩).rows.filter
          fun r => r.convId = db.conversations.seq + 1 ∧ r.role = 1 := by
        rw [adminRows, made.participants, split]
        exact Table.filter_insertEach noAdmin _
    _ = [⟨db.conversations.seq + 1, bindInt first, 1⟩] := by
        rw [inserted, List.filter_append, old]
        simp

theorem Headed.change {type : Option MessageType} (membership : Membership s.db)
    (small : s.db.conversations.seq < 2 ^ 31) (change : GroupChange env s cli p type db') {k : Int}
    {uid : UInt32} (headed : Headed s.db k uid) : Headed db' k uid := by
  obtain ⟨low, high⟩ := headed.issued
  refine ⟨⟨low, le_trans high change.seq_le⟩, ?_⟩
  rintro ⟨e, he, rfl⟩
  cases change with
  | kept conversations participants =>
    rw [adminRows, participants]
    exact headed.admins ⟨e, conversations ▸ he, rfl⟩
  | created type uids made origin =>
    obtain ⟨name, desc, entries⟩ := made.entries
    have before : e ∈ s.db.conversations.entries := by
      rcases List.mem_append.mp (entries ▸ he) with before | new
      · exact before
      · -- the new conversation has an id of its own
        rw [List.mem_singleton.mp new] at high
        dsimp only at high
        omega
    refine (made.frame low high small fun r selected => ?_).trans (headed.admins ⟨e, before, rfl⟩)
    simp only [decide_eq_true_eq] at selected
    exact selected.1
  | updated k name desc changed admin =>
    subst changed
    obtain ⟨f, entries, -, keeps⟩ := storageUpdateGroup_spec s.db k name desc
    rw [entries] at he
    obtain ⟨d, hd, rfl⟩ := List.mem_map.mp he
    exact headed.admins ⟨d, hd, (keeps d).1.symm⟩
  | added k target changed admin =>
    subst changed
    exact (Table.filter_insertIgnored _ (by simp)).trans (headed.admins ⟨e, he, rfl⟩)
  | kicked k target changed admin other =>
    subst changed
    have admins := headed.admins ⟨e, he, rfl⟩
    refine (Table.filter_deleteWhere _ fun r member selected => ?_).trans admins
    -- the row of the admin survives, since whoever kicks is the admin
    have row : r ∈ adminRows s.db e.rowid := List.mem_filter.mpr ⟨member, selected⟩
    rw [admins, List.mem_singleton] at row
    subst row
    by_contra removed
    simp only [Bool.not_eq_false, decide_eq_true_eq] at removed
    have kicker := membership.admin admin
    rw [← removed.1, admins, List.mem_singleton] at kicker
    exact other (bindInt_inj (removed.2.symm.trans (ParticipantRow.mk.inj kicker).2.1.symm))
  | deleted k changed admin =>
    subst changed
    obtain ⟨before, left⟩ := List.mem_filter.mp he
    have apart : e.rowid ≠ bindInt k := by simpa using left
    refine (Table.filter_deleteWhere _ fun r _ selected => ?_).trans
      (headed.admins ⟨e, before, rfl⟩)
    simp only [decide_eq_true_eq] at selected
    simp [selected.1, apart]

/-- In moment `m` conversation `k` is made, of this type and for these users. -/
def Creates (m : ServerMoment) (k : Int) (type : UInt8) (uids : List UInt32) : Prop :=
  ∃ uid p env, Sends m .createConv uid p env ∧ Requested env m.before p type uids ∧
    k = m.before.db.conversations.seq + 1

theorem creates_made {m : ServerMoment} {k : Int} {type : UInt8} {uids : List UInt32}
    (valid : m.Valid (server P key)) (creates : Creates m k type uids) :
    Made m.before.db type uids m.after.db := by
  obtain ⟨uid, p, env, ⟨fd, code, bytes, cli, event, listed, -, packetType, rfl⟩,
    ⟨n, readN, copied, readType, missing⟩, -⟩ := creates
  have handled := (handleEvent_of_step valid).2
  rw [event] at handled
  simp only [handleEvent, listed, dispatch, packetType] at handled
  obtain ⟨n', uids', type', readN', copied', readType',
    ⟨existing, -⟩ | ⟨-, name, description, -, -, after, -⟩⟩ := handleCreateConv_ok handled
  · cases Except.ok.inj (readN.symm.trans readN')
    cases Except.ok.inj (copied.symm.trans copied')
    cases Except.ok.inj (readType.symm.trans readType')
    exact absurd missing existing
  · cases Except.ok.inj (readN.symm.trans readN')
    cases Except.ok.inj (copied.symm.trans copied')
    cases Except.ok.inj (readType.symm.trans readType')
    rw [after]
    exact storageCreateConversation_made m.before.db type name description uids

theorem headed_since {past : List ServerMoment} {m : ServerMoment} (member : m ∈ past)
    (run : Run (server P key) past s) (small : s.db.conversations.seq < 2 ^ 31) {k : Int}
    {first : UInt32} {rest : List UInt32} (creates : Creates m k convTypeGroup (first :: rest)) :
    Headed s.db k first := by
  obtain ⟨later, earlier, rfl⟩ := List.append_of_mem member
  obtain ⟨before, after, valid⟩ := run.cut
  have made := creates_made valid creates
  have atOnce : m.after.db.conversations.seq < 2 ^ 31 → Headed m.after.db k first := by
    intro small
    have seq := made.seq
    have membership := reachable_membership before.reachable (by omega)
    obtain ⟨uid, p, env, -, -, rfl⟩ := creates
    exact made.headed membership small
  refine (run.persists (fun s => Reachable (server P key) s ∧
    (s.db.conversations.seq < 2 ^ 31 → Headed s.db k first)) ?_ ⟨after.reachable, atOnce⟩).2 small
  rintro s e t out ⟨reached, ih⟩ stepped
  refine ⟨reached.step stepped, fun small => ?_⟩
  have before := lt_of_le_of_lt (step_seq_le stepped) small
  rcases step_change stepped with same | ⟨fd, code, bytes, env, cli, -, -, change⟩
  · exact same ▸ ih before
  · exact (ih before).change (reachable_membership reached before) before change.groups

theorem group_requested {past : List ServerMoment} (run : Run (server P key) past s) :
    ∀ e ∈ s.db.conversations.entries, e.row.type = 1 →
      ∃ m ∈ past, ∃ uids, Creates m e.rowid convTypeGroup uids := by
  refine run.invariant (fun past s => ∀ e ∈ s.db.conversations.entries, e.row.type = 1 →
    ∃ m ∈ past, ∃ uids, Creates m e.rowid convTypeGroup uids) (by simp [server, storageInit]) ?_
  intro past s event t out _ ih stepped e he type
  have old : ∀ d ∈ s.db.conversations.entries, d.rowid = e.rowid → d.row.type = 1 →
      ∃ m ∈ ⟨s, event, t, out⟩ :: past, ∃ uids, Creates m e.rowid convTypeGroup uids := by
    intro d hd same type
    obtain ⟨m, hm, uids, creates⟩ := ih d hd type
    exact ⟨m, List.mem_cons_of_mem _ hm, uids, same ▸ creates⟩
  rcases step_change stepped with same | ⟨fd, code, bytes, env, cli, rfl, listed, change⟩
  · exact old e (same ▸ he) rfl type
  · cases change.groups with
    | kept conversations participants => exact old e (conversations ▸ he) rfl type
    | created convType uids made origin =>
      obtain ⟨name, desc, entries⟩ := made.entries
      rcases List.mem_append.mp (entries ▸ he) with before | new
      · exact old e before rfl type
      · cases List.mem_singleton.mp new
        have group : convType = convTypeGroup := by
          apply UInt8.toNat_inj.mp
          exact Int.ofNat_inj.mp type
        rcases origin with privately | ⟨packetType, requested⟩
        · exact absurd (privately.symm.trans group) (by decide)
        · subst group
          exact ⟨_, List.mem_cons_self, uids, cli.uid, _, env,
            ⟨fd, code, bytes, cli, rfl, listed, rfl, packetType, rfl⟩, requested, rfl⟩
    | updated k name desc changed admin =>
      rw [changed] at he
      obtain ⟨f, entries, -, keeps⟩ := storageUpdateGroup_spec s.db k name desc
      rw [entries] at he
      obtain ⟨d, hd, rfl⟩ := List.mem_map.mp he
      exact old d hd (keeps d).1.symm ((keeps d).2.1.symm.trans type)
    | added k target changed admin => exact old e (by rw [changed] at he; exact he) rfl type
    | kicked k target changed admin other => exact old e (by rw [changed] at he; exact he) rfl type
    | deleted k changed admin =>
      rw [changed] at he
      exact old e (List.mem_of_mem_filter he) rfl type

/-- Every participant row has its conversation. A group made for at least one user has
that user as its one admin for as long as it exists, and nothing else has an admin. -/
theorem group_roles (P : Platform) (key : Key) (past : List ServerMoment) (s : Server)
    (run : Run (server P key) past s) (small : s.db.conversations.seq < 2 ^ 31) :
    (∀ r ∈ s.db.participants.rows, ∃ e ∈ s.db.conversations.entries, e.rowid = r.convId) ∧
    (∀ e ∈ s.db.conversations.entries, e.row.type = 1 →
      ∃ m ∈ past, ∃ uids, Creates m e.rowid convTypeGroup uids) ∧
    (∀ m ∈ past, ∀ k first rest, Creates m k convTypeGroup (first :: rest) →
      (∃ e ∈ s.db.conversations.entries, e.rowid = k) →
      adminRows s.db k = [⟨k, bindInt first, 1⟩]) ∧
    ∀ e ∈ s.db.conversations.entries, e.row.type ≠ 1 → adminRows s.db e.rowid = [] := by
  have membership := reachable_membership run.reachable small
  refine ⟨membership.placed, group_requested run, ?_, ?_⟩
  · intro m member k first rest creates existing
    exact (headed_since member run small creates).admins existing
  · intro e he type
    refine List.eq_nil_iff_forall_not_mem.mpr fun r member => ?_
    obtain ⟨row, conv, role⟩ := mem_adminRows.mp member
    exact type (membership.grouped r row role e he conv.symm)

theorem groupSession_recorded :
    (recordedServer.trace [] recordedServer.start groupSession).isSome := by decide +kernel

theorem group_roles_session :
    adminRows (recordedServer.history groupSession groupSession_recorded).2.db 2 = [⟨2, 1, 1⟩] ∧
      ∀ e ∈ (recordedServer.history groupSession groupSession_recorded).2.db.conversations.entries,
        e.row.type ≠ 1 →
          adminRows (recordedServer.history groupSession groupSession_recorded).2.db e.rowid = [] :=
  ⟨by decide +kernel, (group_roles recordedPlatform recordedKey _ _
    (.history groupSession groupSession_recorded) (by decide +kernel)).2.2.2⟩

end MoT
