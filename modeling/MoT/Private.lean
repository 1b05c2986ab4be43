import Mathlib.Data.List.Permutation
import MoT.Friendship
import MoT.PayloadBounds
import MoT.Roles

/-! Private conversations. Two handlers make them, each after looking for one that is
there already, and no packet changes who takes part in one. -/
namespace MoT
open CMemory Relational Transition

variable {P : Platform} {key : Key} {env : Env} {s t : Server} {cli : Client} {p : Pointer}
  {db db' : Database} {out : List Sent} {type : Option MessageType} {convType : UInt8}
  {uids : List UInt32}

/-- The packet makes a conversation of this type for these users. -/
inductive Origin (env : Env) (s : Server) (cli : Client) (p : Pointer) :
    Option MessageType → UInt8 → List UInt32 → Prop
  | requested (convType : UInt8) (uids : List UInt32) (requested : Requested env s p convType uids) :
      Origin env s cli p (some .createConv) convType uids
  | accepted (accepted : UInt8) (target : UInt32)
      (readAccepted : readByte p DecideRequestPayload.accepted = .ok accepted) (yes : accepted ≠ 0)
      (readTarget : readUInt32 p DecideRequestPayload.targetUid = .ok target)
      (missing : storageFindPrivateConversation env.plan s.db cli.uid target = 0) :
      Origin env s cli p (some .decideRequest) convTypePrivate [cli.uid, target]

theorem acceptDb_made (plan : Plan) (db : Database) {uid target : UInt32}
    (missing : storageFindPrivateConversation plan db uid target = 0) :
    Made db convTypePrivate [uid, target] (acceptDb plan db uid target) := by
  have same : storageFindPrivateConversation plan (storageAddFriendship db uid target) uid target =
      0 := missing
  have made := storageCreateConversation_made (storageAddFriendship db uid target) convTypePrivate
    (CString.lit "Private Chat") CString.empty [uid, target]
  simp only [acceptDb, if_pos same]
  exact ⟨made.conversations, made.participants⟩

theorem decideDb_made (plan : Plan) (db : Database) {uid target : UInt32} {accepted : UInt8}
    (yes : accepted ≠ 0) (missing : storageFindPrivateConversation plan db uid target = 0) :
    Made db convTypePrivate [uid, target] (decideDb plan db uid target accepted) := by
  have made := acceptDb_made plan db missing
  simp only [decideDb, if_pos yes]
  exact ⟨made.conversations, made.participants⟩

theorem decideDb_seq (plan : Plan) (db : Database) {uid target : UInt32} {accepted : UInt8}
    (idle : ¬ (accepted ≠ 0 ∧ storageFindPrivateConversation plan db uid target = 0)) :
    (decideDb plan db uid target accepted).conversations.seq = db.conversations.seq := by
  by_cases yes : accepted ≠ 0
  · have found : ¬ storageFindPrivateConversation plan (storageAddFriendship db uid target) uid
        target = 0 := fun missing => idle ⟨yes, missing⟩
    simp only [decideDb, if_pos yes, acceptDb, if_neg found]
    rfl
  · simp only [decideDb, if_neg yes]
    rfl

theorem Change.origin (change : Change P env s cli p type db')
    (grown : db'.conversations.seq ≠ s.db.conversations.seq) :
    ∃ convType uids, Origin env s cli p type convType uids ∧ Made s.db convType uids db' := by
  cases change with
  | same | register | addByCode => exact absurd rfl grown
  | updateUser newUsername newPassword =>
    obtain ⟨users, updated⟩ :=
      storageUpdateUser_frame P s.db env.salt cli.uid newUsername newPassword
    rw [updated] at grown
    exact absurd rfl grown
  | sendText k text readK =>
    obtain ⟨messages, logged⟩ := storageLogMessage_frame P (some s.masterKey) env.randBytes env.now
      s.db k cli.uid text
    rw [logged] at grown
    exact absurd rfl grown
  | decideRequest accepted target readAccepted readTarget =>
    by_cases makes : accepted ≠ 0 ∧
        storageFindPrivateConversation env.plan s.db cli.uid target = 0
    · exact ⟨_, _, .accepted accepted target readAccepted makes.1 readTarget makes.2,
        decideDb_made env.plan s.db makes.1 makes.2⟩
    · exact absurd (decideDb_seq env.plan s.db makes) grown
  | createConv n uids type name description readN copied readType missing =>
    exact ⟨type, uids, .requested type uids ⟨n, readN, copied, readType, missing⟩,
      storageCreateConversation_made s.db type name description uids⟩
  | updateGroup k name desc admin =>
    obtain ⟨f, -, seq, -⟩ := storageUpdateGroup_spec s.db k name desc
    exact absurd seq grown
  | addMember | kickMember | deleteGroup => exact absurd rfl grown

/-- While conversation ids fit in 32 bits, participants carry the bits of an id handed
out before, and admins belong to groups. -/
structure Numbered (db : Database) : Prop where
  named : ∀ r ∈ db.participants.rows, ∃ k : UInt32, r.convId = bindInt k ∧ 1 ≤ k.toNat ∧
    (k.toNat : Int) ≤ db.conversations.seq
  roles : ∀ r ∈ db.participants.rows, r.role = 0 ∨ r.role = 1
  grouped : ∀ r ∈ db.participants.rows, r.role = 1 →
    ∀ e ∈ db.conversations.entries, e.rowid = r.convId → e.row.type = 1

theorem bindInt_cases (k : UInt32) : bindInt k = k.toNat ∨ bindInt k < 0 := by
  have bound : k.toNat < 2 ^ 32 := k.toNat_lt
  unfold bindInt
  split
  · exact .inl rfl
  · right
    omega

theorem columnInt_toNat {i : Int} (low : 0 ≤ i) (high : i < 2 ^ 32) :
    ((columnInt i).toNat : Int) = i := by
  have word : (i % 2 ^ 32).toNat = i.toNat := by omega
  have small : i.toNat < 2 ^ 32 := by omega
  rw [columnInt, word, UInt32.toNat_ofNat_of_lt' small]
  omega

theorem Numbered.admin (numbered : Numbered db) {k uid : UInt32}
    (admin : storageIsAdmin db k uid = true) {e : Entry ConversationRow}
    (he : e ∈ db.conversations.entries) (conv : e.rowid = bindInt k) : e.row.type = 1 := by
  obtain ⟨r, member, same, -, one⟩ := (storageIsAdmin_iff db k uid).mp admin
  refine numbered.grouped r member ?_ e he (conv.trans same.symm)
  rcases numbered.roles r member with zero | unit
  · rw [zero] at one
    exact absurd one (by decide)
  · exact unit

theorem Numbered.kept (numbered : Numbered db)
    (participants : ∀ r ∈ db'.participants.rows, r ∈ db.participants.rows)
    (conversations : db'.conversations = db.conversations) : Numbered db' where
  named r member := conversations ▸ numbered.named r (participants r member)
  roles r member := numbered.roles r (participants r member)
  grouped r member := conversations ▸ numbered.grouped r (participants r member)

theorem Numbered.made (numbered : Numbered db) (made : Made db convType uids db')
    (small : db'.conversations.seq < 2 ^ 32) : Numbered db' := by
  have started := db.conversations.started
  have seq := made.seq
  have id := columnInt_toNat (i := db.conversations.seq + 1) (by omega) (by omega)
  obtain ⟨name, desc, entries⟩ := made.entries
  have cases : ∀ r ∈ db'.participants.rows, r ∈ db.participants.rows ∨
      r.convId = bindInt (columnInt (db.conversations.seq + 1)) ∧
        (r.role = 0 ∨ r.role = 1 ∧ convType = convTypeGroup) := by
    intro r member
    rw [made.participants] at member
    rcases Table.mem_insertEach member with old | new
    · exact .inl old
    · exact .inr (mem_participantRows new)
  constructor
  · intro r member
    rcases cases r member with old | ⟨conv, -⟩
    · obtain ⟨k, same, low, high⟩ := numbered.named r old
      exact ⟨k, same, low, by omega⟩
    · exact ⟨_, conv, by omega, by omega⟩
  · intro r member
    rcases cases r member with old | ⟨-, zero | ⟨one, -⟩⟩
    · exact numbered.roles r old
    · exact .inl zero
    · exact .inr one
  · intro r member role e he same
    rw [entries] at he
    rcases cases r member with old | ⟨conv, zero | ⟨-, group⟩⟩
    · rcases List.mem_append.mp he with before | new
      · exact numbered.grouped r old role e before same
      · -- an old row does not point at the new conversation
        obtain ⟨k, bits, low, high⟩ := numbered.named r old
        rw [List.mem_singleton.mp new] at same
        dsimp only at same
        rcases bindInt_cases k with plain | negative <;> omega
    · omega
    · rcases List.mem_append.mp he with before | new
      · have issued := db.conversations.issued e before
        rcases bindInt_cases (columnInt (db.conversations.seq + 1)) with plain | negative <;> omega
      · cases List.mem_singleton.mp new
        rw [group]
        rfl

theorem Numbered.change (numbered : Numbered s.db) (change : GroupChange env s cli p type db')
    (small : db'.conversations.seq < 2 ^ 32) : Numbered db' := by
  cases change with
  | kept conversations participants =>
    exact numbered.kept (fun r member => participants ▸ member) conversations
  | created convType uids made origin => exact numbered.made made small
  | updated k name desc changed admin =>
    subst changed
    obtain ⟨f, entries, seq, keeps⟩ := storageUpdateGroup_spec s.db k name desc
    constructor
    · rw [seq]
      exact numbered.named
    · exact numbered.roles
    · intro r member role e he same
      rw [entries] at he
      obtain ⟨d, hd, rfl⟩ := List.mem_map.mp he
      exact (keeps d).2.1.trans
        (numbered.grouped r member role d hd ((keeps d).1.symm.trans same))
  | added k target changed admin =>
    subst changed
    have cases : ∀ r ∈ (storageAddParticipant s.db k target 0).participants.rows,
        r ∈ s.db.participants.rows ∨ r = ⟨bindInt k, bindInt target, 0⟩ :=
      fun r member => Table.mem_insertIgnored member
    constructor
    · intro r member
      rcases cases r member with old | rfl
      · exact numbered.named r old
      · obtain ⟨row, member, conv, -⟩ := (storageIsAdmin_iff s.db k cli.uid).mp admin
        exact conv ▸ numbered.named row member
    · intro r member
      rcases cases r member with old | rfl
      · exact numbered.roles r old
      · exact .inl rfl
    · intro r member role
      rcases cases r member with old | rfl
      · exact numbered.grouped r old role
      · cases role
  | kicked k target changed admin other =>
    subst changed
    exact numbered.kept (fun r member => List.mem_of_mem_filter member) rfl
  | deleted k changed admin =>
    subst changed
    constructor
    · exact fun r member => numbered.named r (List.mem_of_mem_filter member)
    · exact fun r member => numbered.roles r (List.mem_of_mem_filter member)
    · exact fun r member role e he =>
        numbered.grouped r (List.mem_of_mem_filter member) role e (List.mem_of_mem_filter he)

theorem reachable_numbered (reached : Reachable (server P key) s)
    (small : s.db.conversations.seq < 2 ^ 32) : Numbered s.db := by
  refine reached.invariant (fun s => s.db.conversations.seq < 2 ^ 32 → Numbered s.db) ?_ ?_ small
  · intro _
    constructor <;> simp [server, storageInit]
  · intro s e t out ih stepped small
    have before := ih (lt_of_le_of_lt (step_seq_le stepped) small)
    rcases step_change stepped with same | ⟨fd, code, bytes, env, cli, -, -, change⟩
    · exact same ▸ before
    · exact before.change change.groups small

theorem Made.old_members (made : Made db convType uids db')
    (small : db'.conversations.seq < 2 ^ 32) {e : Entry ConversationRow}
    (he : e ∈ db.conversations.entries) : memberRows db' e.rowid = memberRows db e.rowid := by
  have started := db.conversations.started
  have seq := made.seq
  have issued := db.conversations.issued e he
  have id := columnInt_toNat (i := db.conversations.seq + 1) (by omega) (by omega)
  rw [memberRows, memberRows, made.participants]
  refine Table.filter_insertEach (fun r member => ?_) _
  have conv := (mem_participantRows member).1
  rw [decide_eq_false_iff_not]
  rcases bindInt_cases (columnInt (db.conversations.seq + 1)) with plain | negative <;> omega

theorem Made.secluded (made : Made db convType uids db') {e : Entry ConversationRow}
    (he : e ∈ db'.conversations.entries) (new : e.rowid = db.conversations.seq + 1)
    (secluded : e.row.type = 0) : convType = convTypePrivate := by
  obtain ⟨name, desc, entries⟩ := made.entries
  have last : (⟨db.conversations.seq + 1, convType.toNat, name, some desc⟩ :
      Entry ConversationRow) ∈ db'.conversations.entries := by
    rw [entries]
    exact List.mem_append_right _ List.mem_cons_self
  cases db'.conversations.eq_of_rowid he last new
  exact UInt8.toNat_inj.mp (Int.ofNat_inj.mp secluded)

/-- A private conversation was there before with the same participants, or has just been
made. -/
theorem GroupChange.privates (numbered : Numbered s.db)
    (change : GroupChange env s cli p type db') (small : db'.conversations.seq < 2 ^ 32)
    {e : Entry ConversationRow} (he : e ∈ db'.conversations.entries) (secluded : e.row.type = 0) :
    (∃ d ∈ s.db.conversations.entries, d.rowid = e.rowid ∧ d.row.type = 0 ∧
      memberRows db' e.rowid = memberRows s.db e.rowid) ∨
    e.rowid = s.db.conversations.seq + 1 := by
  have apart {k : UInt32} (admin : storageIsAdmin s.db k cli.uid = true)
      {d : Entry ConversationRow} (hd : d ∈ s.db.conversations.entries) (zero : d.row.type = 0) :
      d.rowid ≠ bindInt k := by
    intro conv
    have group := numbered.admin admin hd conv
    omega
  cases change with
  | kept conversations participants =>
    exact .inl ⟨e, conversations ▸ he, rfl, secluded, by rw [memberRows, memberRows, participants]⟩
  | created convType uids made origin =>
    obtain ⟨name, desc, entries⟩ := made.entries
    rcases List.mem_append.mp (entries ▸ he) with before | new
    · exact .inl ⟨e, before, rfl, secluded, made.old_members small before⟩
    · exact .inr (by rw [List.mem_singleton.mp new])
  | updated k name desc changed admin =>
    subst changed
    obtain ⟨f, entries, -, keeps⟩ := storageUpdateGroup_spec s.db k name desc
    rw [entries] at he
    obtain ⟨d, hd, rfl⟩ := List.mem_map.mp he
    exact .inl ⟨d, hd, (keeps d).1.symm, (keeps d).2.1.symm.trans secluded, rfl⟩
  | added k target changed admin =>
    subst changed
    have other := apart admin he secluded
    exact .inl ⟨e, he, rfl, secluded, Table.filter_insertIgnored _ (by simpa using other.symm)⟩
  | kicked k target changed admin other =>
    subst changed
    have apart := apart admin he secluded
    refine .inl ⟨e, he, rfl, secluded, Table.filter_deleteWhere _ fun r _ selected => ?_⟩
    simp only [decide_eq_true_eq] at selected
    simp [selected, apart]
  | deleted k changed admin =>
    subst changed
    have before := List.mem_of_mem_filter he
    have apart := apart admin before secluded
    refine .inl ⟨e, before, rfl, secluded, Table.filter_deleteWhere _ fun r _ selected => ?_⟩
    simp only [decide_eq_true_eq] at selected
    simp [selected, apart]

def Joined (db : Database) (k : Int) (u : UInt32) : Prop :=
  ∃ r ∈ memberRows db k, r.userId = bindInt u

theorem joined_of_mem {k role : Int} {u : UInt32}
    (member : ⟨k, bindInt u, role⟩ ∈ db.participants.rows) : Joined db k u :=
  ⟨_, List.mem_filter.mpr ⟨member, decide_eq_true rfl⟩, rfl⟩

theorem Made.joined (numbered : Numbered db) (made : Made db convType uids db')
    (small : db'.conversations.seq < 2 ^ 32) {u : UInt32}
    (joined : Joined db' (db.conversations.seq + 1) u) : u ∈ uids := by
  have started := db.conversations.started
  have seq := made.seq
  obtain ⟨r, selected, user⟩ := joined
  obtain ⟨member, conv⟩ := List.mem_filter.mp selected
  rw [decide_eq_true_eq] at conv
  rw [made.participants] at member
  rcases Table.mem_insertEach member with old | new
  · obtain ⟨k, bits, low, high⟩ := numbered.named r old
    rcases bindInt_cases k with plain | negative <;> omega
  · obtain ⟨v, listed, rfl⟩ := List.mem_map.mp new
    rw [← bindInt_inj user]
    exact List.fst_mem_of_mem_zipIdx listed

/-- Two different users share at most one private conversation. -/
def PairUnique (db : Database) : Prop :=
  ∀ a b : UInt32, a ≠ b → ∀ e ∈ db.conversations.entries, ∀ e' ∈ db.conversations.entries,
    e.row.type = 0 → e'.row.type = 0 → Joined db e.rowid a → Joined db e.rowid b →
    Joined db e'.rowid a → Joined db e'.rowid b → e = e'

def Shares (db : Database) (a b : UInt32) : Prop :=
  ∃ e ∈ db.conversations.entries, e.row.type = 0 ∧ Joined db e.rowid a ∧ Joined db e.rowid b

/- The lookup is a self-join: it gives the id of a conversation that both are in, or 0 when
there is none. -/
theorem storageFindPrivateConversation_cases (plan : Plan) (db : Database) (a b : UInt32) :
    (storageFindPrivateConversation plan db a b = 0 ∧ ¬ Shares db a b) ∨
      ∃ e ∈ db.conversations.entries, e.row.type = 0 ∧ Joined db e.rowid a ∧ Joined db e.rowid b ∧
        storageFindPrivateConversation plan db a b = columnInt e.rowid := by
  simp only [storageFindPrivateConversation]
  split
  · rename_i nothing
    refine .inl ⟨rfl, ?_⟩
    rintro ⟨e, he, secluded, ⟨ra, selectedA, userA⟩, rb, selectedB, userB⟩
    obtain ⟨memberA, convA⟩ := List.mem_filter.mp selectedA
    obtain ⟨memberB, convB⟩ := List.mem_filter.mp selectedB
    rw [decide_eq_true_eq] at convA convB
    rw [List.head?_eq_none_iff, ← List.length_eq_zero_iff, (plan.privateConversation.perm _).length_eq,
      List.length_eq_zero_iff, List.filter_eq_nil_iff] at nothing
    refine nothing ((e, ra), rb) (mem_join.mpr ⟨mem_join.mpr ⟨he, memberA, ?_⟩, memberB, ?_⟩) ?_
    · simp [convA]
    · simp [convB]
    · simp [secluded, userA, userB]
  · rename_i row found
    obtain ⟨joined, picked⟩ :=
      List.mem_filter.mp ((RowOrder.mem_arrange _).mp (List.mem_of_mem_head? found))
    obtain ⟨inner, memberB, convB⟩ := mem_join.mp joined
    obtain ⟨he, memberA, convA⟩ := mem_join.mp inner
    rw [decide_eq_true_eq] at picked convA convB
    exact .inr ⟨row.1.1, he, picked.1,
      ⟨row.1.2, List.mem_filter.mpr ⟨memberA, decide_eq_true convA.symm⟩, picked.2.1⟩,
      ⟨row.2, List.mem_filter.mpr ⟨memberB, decide_eq_true convB.symm⟩, picked.2.2⟩, rfl⟩

theorem not_joined_of_missing {plan : Plan} {a b : UInt32} (small : db.conversations.seq < 2 ^ 32)
    (missing : storageFindPrivateConversation plan db a b = 0) {e : Entry ConversationRow}
    (he : e ∈ db.conversations.entries) (secluded : e.row.type = 0) (joinedA : Joined db e.rowid a)
    (joinedB : Joined db e.rowid b) : False := by
  rcases storageFindPrivateConversation_cases plan db a b with ⟨-, alone⟩ | ⟨d, hd, -, -, -, found⟩
  · exact alone ⟨e, he, secluded, joinedA, joinedB⟩
  · -- no conversation has the id 0
    have issued := db.conversations.issued d hd
    have id := columnInt_toNat (i := d.rowid) (by omega) (by omega)
    rw [← found, missing] at id
    have zero : (0 : UInt32).toNat = 0 := rfl
    omega

theorem words_length (bytes : List UInt8) : (words bytes).length = bytes.length / 4 := by
  induction bytes using words.induct with
  | case1 a b c d rest ih =>
    simp only [words, List.length_cons, ih]
    omega
  | case2 bytes short =>
    match bytes, short with
    | [], _ => rfl
    | [_], _ | [_, _], _ | [_, _, _], _ => simp [words]
    | a :: b :: c :: d :: rest, short => exact absurd rfl (short a b c d rest)

theorem copyUids_length {n : UInt32} (few : n.toNat ≤ maxParticipants)
    (copied : copyUids p (participantCount n) = .ok uids) : uids.length = n.toNat := by
  have size : copySize (participantCount n) = 4 * n.toNat := by
    simp only [maxParticipants] at few
    rcases copySize_participantCount n with ⟨size, -⟩ | ⟨-, large⟩
    · rw [size]
      simp only [maxParticipants]
      omega
    · omega
  simp only [copyUids, ok_bind_iff] at copied
  obtain ⟨bytes, read, rest⟩ := copied
  split at rest
  · cases rest
  · cases ok_pure_iff.mp rest
    have loaded : bytes.length = copySize (participantCount n) := by
      unfold readBytes checked at read
      cases done : load p CreateConvPayload.participantUids (copySize (participantCount n)) with
      | error fault =>
        rw [done] at read
        cases read
      | ok block =>
        rw [done] at read
        cases read
        exact load_length done
    rw [words_length, loaded, size, Nat.mul_div_cancel_left _ (by decide)]

/- The participants of the conversation that a packet makes were looked up before. -/
theorem Origin.unmet (origin : Origin env s cli p type convTypePrivate uids)
    (small : s.db.conversations.seq < 2 ^ 32)
    (few : ∀ n, type = some .createConv → readByte p CreateConvPayload.type = .ok convTypePrivate →
      readUInt32 p CreateConvPayload.participantsCount = .ok n → n.toNat ≤ 2)
    {a b : UInt32} (distinct : a ≠ b) (ha : a ∈ uids) (hb : b ∈ uids)
    {e : Entry ConversationRow} (he : e ∈ s.db.conversations.entries) (secluded : e.row.type = 0)
    (joinedA : Joined s.db e.rowid a) (joinedB : Joined s.db e.rowid b) : False := by
  have searched : ∃ x y, uids = [x, y] ∧
      storageFindPrivateConversation env.plan s.db x y = 0 := by
    cases origin with
    | accepted accepted target readAccepted yes readTarget missing =>
      exact ⟨cli.uid, target, rfl, missing⟩
    | requested convType uids requested =>
      obtain ⟨n, readN, copied, readType, missing⟩ := requested
      have two := few n rfl readType readN
      have length := copyUids_length (Nat.le_trans two (by decide)) copied
      match uids, ha, hb with
      | [x, y], _, _ =>
        have count : participantCount n = 2 := by
          have value : bindInt n = 2 := by
            simp only [List.length_cons, List.length_nil] at length
            rw [bindInt]
            split <;> omega
          simp [participantCount, value]
        rw [count] at missing
        exact ⟨x, y, rfl, by simpa [findExisting] using missing⟩
      | [x], ha, hb =>
        rw [List.mem_singleton] at ha hb
        exact absurd (ha.trans hb.symm) distinct
      | x :: y :: z :: rest, _, _ =>
        simp only [List.length_cons] at length
        omega
  obtain ⟨x, y, rfl, missing⟩ := searched
  simp only [List.mem_cons, List.not_mem_nil, or_false] at ha hb
  rcases ha with rfl | rfl <;> rcases hb with rfl | rfl
  · exact distinct rfl
  · exact not_joined_of_missing small missing he secluded joinedA joinedB
  · exact not_joined_of_missing small missing he secluded joinedB joinedA
  · exact distinct rfl

theorem PairUnique.change (numbered : Numbered s.db) (unique : PairUnique s.db)
    (change : Change P env s cli p type db') (small : db'.conversations.seq < 2 ^ 32)
    (few : ∀ n, type = some .createConv → readByte p CreateConvPayload.type = .ok convTypePrivate →
      readUInt32 p CreateConvPayload.participantsCount = .ok n → n.toNat ≤ 2) : PairUnique db' := by
  intro a b distinct
  have before : s.db.conversations.seq < 2 ^ 32 := lt_of_le_of_lt change.groups.seq_le small
  have old {e d : Entry ConversationRow} {u : UInt32} (same : d.rowid = e.rowid)
      (members : memberRows db' e.rowid = memberRows s.db e.rowid)
      (joined : Joined db' e.rowid u) : Joined s.db d.rowid u := by
    obtain ⟨r, member, user⟩ := joined
    exact ⟨r, same ▸ members ▸ member, user⟩
  -- a conversation just made does not share two users with one that was there
  have met {d e : Entry ConversationRow} (hd : d ∈ s.db.conversations.entries)
      (secluded : d.row.type = 0) (oldA : Joined s.db d.rowid a) (oldB : Joined s.db d.rowid b)
      (he : e ∈ db'.conversations.entries) (type0 : e.row.type = 0)
      (new : e.rowid = s.db.conversations.seq + 1) (newA : Joined db' e.rowid a)
      (newB : Joined db' e.rowid b) : False := by
    have issued := db'.conversations.issued e he
    obtain ⟨convType, uids, origin, made⟩ := change.origin (by omega)
    have secludes := made.secluded he new type0
    subst secludes
    rw [new] at newA newB
    exact origin.unmet before few distinct (made.joined numbered small newA)
      (made.joined numbered small newB) hd secluded oldA oldB
  intro e he e' he' secluded secluded' joinedA joinedB joinedA' joinedB'
  rcases change.groups.privates numbered small he secluded with
      ⟨d, hd, same, zero, members⟩ | new
  · have oldA := old same members joinedA
    have oldB := old same members joinedB
    rcases change.groups.privates numbered small he' secluded' with
        ⟨d', hd', same', zero', members'⟩ | new'
    · have one := unique a b distinct d hd d' hd' zero zero' oldA oldB
        (old same' members' joinedA') (old same' members' joinedB')
      subst one
      exact db'.conversations.eq_of_rowid he he' (same.symm.trans same')
    · exact absurd (met hd zero oldA oldB he' secluded' new' joinedA' joinedB') id
  · rcases change.groups.privates numbered small he' secluded' with
        ⟨d', hd', same', zero', members'⟩ | new'
    · exact absurd (met hd' zero' (old same' members' joinedA') (old same' members' joinedB') he
        secluded new joinedA joinedB) id
    · exact db'.conversations.eq_of_rowid he he' (new.trans new'.symm)

/-- A packet that asks for a private conversation names at most two participants. -/
def PrivateForTwo (m : ServerMoment) : Prop :=
  ∀ uid p env n, Sends m .createConv uid p env →
    readByte p CreateConvPayload.type = .ok convTypePrivate →
    readUInt32 p CreateConvPayload.participantsCount = .ok n → n.toNat ≤ 2

/-- While conversation ids fit in 32 bits, two different users share at most one private
conversation, whoever asked for it and by whichever of the two ways. -/
theorem private_conversation_unique (P : Platform) (key : Key) (past : List ServerMoment)
    (s : Server) (run : Run (server P key) past s) (forTwo : ∀ m ∈ past, PrivateForTwo m)
    (small : s.db.conversations.seq < 2 ^ 32) : PairUnique s.db := by
  refine run.invariant (fun past s => (∀ m ∈ past, PrivateForTwo m) →
    s.db.conversations.seq < 2 ^ 32 → PairUnique s.db) ?_ ?_ forTwo small
  · intro _ _ a b _ e he
    simp [server, storageInit] at he
  · intro past s e t out run ih stepped forTwo small
    have before := lt_of_le_of_lt (step_seq_le stepped) small
    have unique := ih (fun m member => forTwo m (List.mem_cons_of_mem _ member)) before
    rcases step_change stepped with same | ⟨fd, code, bytes, env, cli, rfl, listed, change⟩
    · exact same ▸ unique
    · refine unique.change (reachable_numbered run.reachable before) change small ?_
      intro n packetType readType readN
      exact forTwo _ List.mem_cons_self cli.uid (deliver bytes) env n
        ⟨fd, code, bytes, cli, rfl, listed, rfl, packetType, rfl⟩ readType readN

theorem privateForTwo_of_ne {m : ServerMoment} (other : packetType m ≠ some .createConv) :
    PrivateForTwo m := by
  intro uid p env n sends
  exact absurd sends.type other

theorem private_conversation_unique_accepted :
    (recordedServer.history acceptedSession acceptedSession_recorded).2.db.conversations.entries.map
      Entry.rowid = [1] ∧
    PairUnique (recordedServer.history acceptedSession acceptedSession_recorded).2.db := by
  have others : ∀ m ∈ (recordedServer.history acceptedSession acceptedSession_recorded).1,
      packetType m ≠ some .createConv := by decide +kernel
  exact ⟨by decide +kernel, private_conversation_unique recordedPlatform recordedKey _ _
    (.history acceptedSession acceptedSession_recorded)
    (fun m member => privateForTwo_of_ne (others m member)) (by decide +kernel)⟩

/- A state that packets with private conversations for two at most lead to. -/
def Allowed (P : Platform) (key : Key) (s : Server) : Prop :=
  ∃ past, Run (server P key) past s ∧ ∀ m ∈ past, PrivateForTwo m

theorem Allowed.create (allowed : Allowed P key s) (env : Env) (fd : Int) (bytes : List UInt8)
    (n : UInt32) (uids : List UInt32) (convType : UInt8) (name description : CString)
    (listed : getClientByFd fd s.clients = some cli)
    (readN : readUInt32 (deliver bytes) CreateConvPayload.participantsCount = .ok n)
    (copied : copyUids (deliver bytes) (participantCount n) = .ok uids)
    (readType : readByte (deliver bytes) CreateConvPayload.type = .ok convType)
    (readName : readString (deliver bytes) CreateConvPayload.name = .ok name)
    (readDescription : readString (deliver bytes) CreateConvPayload.description = .ok description)
    (missing : findExisting env s convType (participantCount n) uids = 0)
    (few : convType = convTypePrivate → n.toNat ≤ 2) :
    Allowed P key
      { s with db := (storageCreateConversation s.db convType name description uids).1 } := by
  obtain ⟨past, run, forTwo⟩ := allowed
  have done : ∃ out, handleCreateConv env s cli (deliver bytes) =
      .ok ({ s with db := (storageCreateConversation s.db convType name description uids).1 },
        out) := by
    simp only [handleCreateConv, readN, copied, readType, missing, readName, readDescription, bind,
      Except.bind]
    exact ⟨_, rfl⟩
  obtain ⟨out, handled⟩ := done
  have stepped : (server P key).step s (.packet fd (MessageType.code .createConv) bytes env) =
      some ({ s with db := (storageCreateConversation s.db convType name description uids).1 },
        out) := by
    simp only [server, serverStep, Event.possible, handleEvent, listed, dispatch,
      MessageType.ofCode_code, handled, if_true, Except.toOption]
  refine ⟨_, run.step stepped, ?_⟩
  intro m member
  rcases List.mem_cons.mp member with rfl | old
  · rintro uid p env' m ⟨fd', code, bytes', cli', event, -, -, -, rfl⟩ secludes readM
    cases event
    cases Except.ok.inj (readN.symm.trans readM)
    exact few (Except.ok.inj (readType.symm.trans secludes))
  · exact forTwo m old

/- Groups for nobody use up ids and change nothing else. -/
theorem Allowed.empty_groups (allowed : Allowed P key s) {fd : Int}
    (listed : getClientByFd fd s.clients = some cli) (n : Nat) :
    ∃ t, Allowed P key t ∧ t.clients = s.clients ∧ t.db.participants = s.db.participants ∧
      t.db.conversations.seq = s.db.conversations.seq + n ∧
      ∀ e ∈ s.db.conversations.entries, e ∈ t.db.conversations.entries := by
  induction n with
  | zero => exact ⟨s, allowed, rfl, rfl, (Int.add_zero _).symm, fun e he => he⟩
  | succ n ih =>
    obtain ⟨t, reached, clients, participants, seq, kept⟩ := ih
    have further := reached.create (recordedEnv 0) fd (createConvRequest 1 []).2 0 [] 1
      CString.empty CString.empty (clients ▸ listed) (by decide +kernel) (by decide +kernel)
      (by decide +kernel) (by decide +kernel) (by decide +kernel) rfl (fun group => absurd group (by decide))
    obtain ⟨conversations, inserted, created⟩ :=
      storageCreateConversation_spec t.db 1 CString.empty CString.empty []
    obtain ⟨entries, grown, -⟩ := AutoTable.insert?_spec inserted
    refine ⟨_, further, clients, ?_, ?_, fun e he => ?_⟩
    · rw [created]
      exact participants
    · rw [created, grown, seq]
      omega
    · rw [created, entries]
      exact List.mem_append_left _ (kept e he)

def pairDb : Database :=
  (storageCreateConversation
    (storageCreateConversation storageInit 0 CString.empty CString.empty [1, 2]).1
    0 CString.empty CString.empty [1]).1

def pairGuest : Client := ⟨7, 0, List.Vector.replicate maxNameLen 0, false⟩

theorem pair_allowed : Allowed recordedPlatform recordedKey ⟨recordedKey, pairDb, [pairGuest]⟩ := by
  have start : Allowed recordedPlatform recordedKey ⟨recordedKey, storageInit, [pairGuest]⟩ := by
    have stepped : recordedServer.step recordedServer.start (.connect 7) =
        some (⟨recordedKey, storageInit, [pairGuest]⟩, []) := rfl
    refine ⟨_, Run.start.step stepped, fun m member => ?_⟩
    cases List.mem_singleton.mp member
    exact privateForTwo_of_ne (by decide)
  have first := start.create (recordedEnv 0) 7 (createConvRequest 0 [1, 2]).2 2 [1, 2] 0
    CString.empty CString.empty rfl (by decide +kernel) (by decide +kernel) (by decide +kernel)
    (by decide +kernel) (by decide +kernel) (by decide +kernel) (fun _ => by decide)
  exact first.create (recordedEnv 0) 7 (createConvRequest 0 [1]).2 1 [1] 0
    CString.empty CString.empty rfl (by decide +kernel) (by decide +kernel) (by decide +kernel)
    (by decide +kernel) (by decide +kernel) (by decide +kernel) (fun _ => by decide)

/- The id 2^32 + 2 of a group for user 2 reads as 2, so user 2 joins conversation 2. -/
theorem private_conversation_shared :
    ¬ ∀ (P : Platform) (key : Key) (past : List ServerMoment) (s : Server),
      Run (server P key) past s → (∀ m ∈ past, PrivateForTwo m) → PairUnique s.db := by
  intro claimed
  obtain ⟨t, reached, clients, participants, seq, kept⟩ :=
    pair_allowed.empty_groups (show getClientByFd 7 [pairGuest] = some pairGuest from rfl) 4294967295
  have listed : getClientByFd 7 t.clients = some pairGuest := by
    rw [clients]
    rfl
  have wrapped := reached.create (recordedEnv 0) 7 (createConvRequest 1 [2]).2 1 [2] 1
    CString.empty CString.empty listed (by decide +kernel) (by decide +kernel)
    (by decide +kernel) (by decide +kernel) (by decide +kernel) rfl
    (fun group => absurd group (by decide))
  obtain ⟨past, run, forTwo⟩ := wrapped
  have unique := claimed _ _ past _ run forTwo
  obtain ⟨conversations, inserted, created⟩ :=
    storageCreateConversation_spec t.db 1 CString.empty CString.empty [2]
  have id : columnInt (t.db.conversations.seq + 1) = 2 := by
    rw [seq]
    decide +kernel
  rw [created, participants, id] at unique
  obtain ⟨entries, -⟩ := AutoTable.insert?_spec inserted
  have old (e : Entry ConversationRow) (he : e ∈ pairDb.conversations.entries) :
      e ∈ conversations.entries := entries ▸ List.mem_append_left _ (kept e he)
  have row (r : ParticipantRow) (listed : r ∈ [⟨1, 1, 0⟩, ⟨1, 2, 0⟩, ⟨2, 1, 0⟩, ⟨2, 2, 1⟩]) :
      r ∈ (pairDb.participants.insertEach (participantRows 1 2 [2])).rows := by
    have rows : (pairDb.participants.insertEach (participantRows 1 2 [2])).rows =
        [⟨1, 1, 0⟩, ⟨1, 2, 0⟩, ⟨2, 1, 0⟩, ⟨2, 2, 1⟩] := by decide +kernel
    rw [rows]
    exact listed
  have same := unique 1 2 (by decide) ⟨1, 0, CString.empty, some CString.empty⟩
    (old _ (by decide +kernel)) ⟨2, 0, CString.empty, some CString.empty⟩
    (old _ (by decide +kernel)) rfl rfl (joined_of_mem (row ⟨1, 1, 0⟩ (by decide)))
    (joined_of_mem (row ⟨1, 2, 0⟩ (by decide))) (joined_of_mem (row ⟨2, 1, 0⟩ (by decide)))
    (joined_of_mem (row ⟨2, 2, 1⟩ (by decide)))
  cases same

/-- Every private conversation has two participants, who are different users. -/
def OneToOne (db : Database) : Prop :=
  ∀ e ∈ db.conversations.entries, e.row.type = 0 →
    ∃ a b : UInt32, a ≠ b ∧
      (memberRows db e.rowid).map ParticipantRow.userId = [bindInt a, bindInt b]

def TwoUsers (uids : List UInt32) : Prop := ∃ a b, a ≠ b ∧ ∀ u, u ∈ uids ↔ u = a ∨ u = b

/-- Whatever private conversation the packet makes, it makes it for two users. -/
def MakesPairs (m : ServerMoment) : Prop :=
  ∀ fd code bytes env cli uids, m.event = .packet fd code bytes env →
    getClientByFd fd m.before.clients = some cli →
    Origin env m.before cli (deliver bytes) (MessageType.ofCode code) convTypePrivate uids →
    TwoUsers uids

theorem memberRows_nodup (db : Database) (k : Int) :
    ((memberRows db k).map ParticipantRow.userId).Nodup := by
  refine List.pairwise_map.mpr ((List.Pairwise.and_mem.mp (db.participants.unique.filter _)).imp ?_)
  rintro a b ⟨ha, hb, apart⟩ same
  have convA := (List.mem_filter.mp ha).2
  have convB := (List.mem_filter.mp hb).2
  rw [decide_eq_true_eq] at convA convB
  simp [ParticipantRow.clash, convA, convB, same] at apart

theorem joined_iff_mem {k : Int} {u : UInt32} :
    Joined db k u ↔ bindInt u ∈ (memberRows db k).map ParticipantRow.userId :=
  List.mem_map.symm

theorem Made.covers (made : Made db convType uids db') {u : UInt32} (named : u ∈ uids) :
    ∃ r ∈ db'.participants.rows, r.convId = bindInt (columnInt (db.conversations.seq + 1)) ∧
      r.userId = bindInt u := by
  obtain ⟨i, place⟩ := List.mem_iff_getElem?.mp named
  obtain ⟨role, row⟩ : ∃ role, ⟨bindInt (columnInt (db.conversations.seq + 1)), bindInt u, role⟩ ∈
      participantRows convType (columnInt (db.conversations.seq + 1)) uids :=
    ⟨_, List.mem_map.mpr ⟨(u, i), List.mem_zipIdx_iff_getElem?.mpr place, rfl⟩⟩
  obtain ⟨r, member, same⟩ := Table.insertEach_covers (t := db.participants) row
  rw [← made.participants] at member
  rcases same with rfl | clashing
  · exact ⟨_, member, rfl, rfl⟩
  · simp only [ParticipantRow.clash, Bool.and_eq_true, beq_iff_eq] at clashing
    exact ⟨r, member, clashing⟩

theorem Made.joined_iff (numbered : Numbered db) (made : Made db convType uids db')
    (small : db'.conversations.seq < 2 ^ 31) (u : UInt32) :
    Joined db' (db.conversations.seq + 1) u ↔ u ∈ uids := by
  have started := db.conversations.started
  have seq := made.seq
  refine ⟨made.joined numbered (by omega), fun named => ?_⟩
  have id : bindInt (columnInt (db.conversations.seq + 1)) = db.conversations.seq + 1 :=
    bindInt_columnInt (by omega) (by omega)
  obtain ⟨r, member, conv, user⟩ := made.covers named
  exact ⟨r, List.mem_filter.mpr ⟨member, decide_eq_true (conv.trans id)⟩, user⟩

theorem twoUsers_iff {ids : List Int} (nodup : ids.Nodup)
    (bound : ∀ i ∈ ids, ∃ u : UInt32, i = bindInt u)
    (named : ∀ u, bindInt u ∈ ids ↔ u ∈ uids) :
    (∃ a b : UInt32, a ≠ b ∧ ids = [bindInt a, bindInt b]) ↔ TwoUsers uids := by
  constructor
  · rintro ⟨a, b, distinct, rfl⟩
    refine ⟨a, b, distinct, fun u => ?_⟩
    rw [← named u]
    simp
  · rintro ⟨a, b, distinct, both⟩
    have perm : ids.Perm [bindInt a, bindInt b] := by
      refine (List.perm_ext_iff_of_nodup nodup (by simpa using distinct)).mpr fun i => ?_
      constructor
      · intro member
        obtain ⟨u, rfl⟩ := bound i member
        rcases (both u).mp ((named u).mp member) with rfl | rfl <;> simp
      · intro member
        simp only [List.mem_cons, List.not_mem_nil, or_false] at member
        rcases member with rfl | rfl
        · exact (named a).mpr ((both a).mpr (.inl rfl))
        · exact (named b).mpr ((both b).mpr (.inr rfl))
    rcases List.perm_pair.mp perm with same | swapped
    · exact ⟨a, b, distinct, same⟩
    · exact ⟨b, a, Ne.symm distinct, swapped⟩

theorem Origin.made {code : UInt32}
    (origin : Origin env s cli p (MessageType.ofCode code) convType uids)
    (done : dispatch P env s cli code p = .ok (t, out)) : Made s.db convType uids t.db := by
  generalize coded : MessageType.ofCode code = type at origin
  cases origin with
  | requested convType uids requested =>
    obtain ⟨n, readN, copied, readType, missing⟩ := requested
    simp only [dispatch, coded] at done
    obtain ⟨n', uids', type', readN', copied', readType', result⟩ := handleCreateConv_ok done
    cases Except.ok.inj (readN.symm.trans readN')
    cases Except.ok.inj (copied.symm.trans copied')
    cases Except.ok.inj (readType.symm.trans readType')
    rcases result with ⟨existing, -⟩ | ⟨-, name, description, -, -, rfl, -⟩
    · exact absurd missing existing
    · exact storageCreateConversation_made s.db convType name description uids
  | accepted accepted target readAccepted yes readTarget missing =>
    simp only [dispatch, coded] at done
    obtain ⟨accepted', target', readAccepted', readTarget', rfl, -⟩ := handleDecideRequest_ok done
    cases Except.ok.inj (readAccepted.symm.trans readAccepted')
    cases Except.ok.inj (readTarget.symm.trans readTarget')
    exact decideDb_made env.plan s.db yes missing

theorem Made.twoUsers (numbered : Numbered db) (made : Made db convTypePrivate uids db')
    (bound : ∀ r ∈ db'.participants.rows, ∃ u, r.userId = bindInt u)
    (small : db'.conversations.seq < 2 ^ 31) :
    (∃ a b : UInt32, a ≠ b ∧ (memberRows db' (db.conversations.seq + 1)).map
      ParticipantRow.userId = [bindInt a, bindInt b]) ↔ TwoUsers uids := by
  refine twoUsers_iff (memberRows_nodup db' _) (fun i member => ?_) fun u => ?_
  · obtain ⟨r, selected, rfl⟩ := List.mem_map.mp member
    exact bound r (List.mem_of_mem_filter selected)
  · exact joined_iff_mem.symm.trans (made.joined_iff numbered small u)

theorem OneToOne.step {e : Event} (reached : Reachable (server P key) s)
    (stepped : (server P key).step s e = some (t, out)) (small : t.db.conversations.seq < 2 ^ 31)
    (before : OneToOne s.db) : OneToOne t.db ↔ MakesPairs ⟨s, e, t, out⟩ := by
  have numbered := reachable_numbered reached
    (lt_trans (lt_of_le_of_lt (step_seq_le stepped) small) (by decide))
  have bound := participants_bound (reached.step stepped)
  constructor
  · rintro after fd code bytes env cli uids rfl listed origin
    have handled := (handleEvent_of_step stepped).2
    simp only [handleEvent, listed] at handled
    have made := origin.made handled
    obtain ⟨name, desc, entries⟩ := made.entries
    refine (made.twoUsers numbered bound small).mp (after ⟨_, convTypePrivate.toNat, name, desc⟩ ?_ rfl)
    exact entries ▸ List.mem_append_right _ List.mem_cons_self
  · intro pairs e' he secluded
    rcases step_change stepped with same | ⟨fd, code, bytes, env, cli, rfl, listed, change⟩
    · rw [same] at he ⊢
      exact before e' he secluded
    · rcases change.groups.privates numbered (lt_trans small (by decide)) he secluded with
        ⟨d, hd, same, zero, members⟩ | new
      · rw [members, ← same]
        exact before d hd zero
      · have issued := t.db.conversations.issued e' he
        obtain ⟨convType, uids, origin, made⟩ := change.origin (by omega)
        have secludes := made.secluded he new secluded
        subst secludes
        rw [new]
        exact (made.twoUsers numbered bound small).mpr
          (pairs fd code bytes env cli uids rfl listed origin)

/-- In a run with conversation ids below 2^31, private conversations are one-to-one at every
moment exactly when every packet that makes one makes it for two users. -/
theorem private_one_to_one_iff (P : Platform) (key : Key) (past : List ServerMoment) (s : Server)
    (run : Run (server P key) past s) (small : s.db.conversations.seq < 2 ^ 31) :
    (∀ m ∈ past, OneToOne m.after.db) ↔ ∀ m ∈ past, MakesPairs m := by
  refine run.always_iff (fun _ s => s.db.conversations.seq < 2 ^ 31) (fun s => OneToOne s.db)
    MakesPairs ?_ ?_ ?_ small
  · intro e he
    simp [server, storageInit] at he
  · intro past s e t out stepped small
    exact lt_of_le_of_lt (step_seq_le stepped) small
  · intro past s e t out run stepped small before
    exact OneToOne.step run.reachable stepped small before

theorem private_one_to_one_iff_accepted :
    (∀ m ∈ (recordedServer.history acceptedSession acceptedSession_recorded).1,
      OneToOne m.after.db) ∧
    ∀ m ∈ (recordedServer.history acceptedSession acceptedSession_recorded).1, MakesPairs m := by
  have two : ∀ m ∈ (recordedServer.history acceptedSession acceptedSession_recorded).1,
      ∀ e ∈ m.after.db.conversations.entries,
        (memberRows m.after.db e.rowid).map ParticipantRow.userId = [bindInt 2, bindInt 1] := by
    decide +kernel
  have holds : ∀ m ∈ (recordedServer.history acceptedSession acceptedSession_recorded).1,
      OneToOne m.after.db :=
    fun m member e he _ => ⟨2, 1, by decide, two m member e he⟩
  exact ⟨holds, (private_one_to_one_iff recordedPlatform recordedKey _ _
    (.history acceptedSession acceptedSession_recorded) (by decide +kernel)).mp holds⟩

theorem private_for_one :
    ¬ ∀ (P : Platform) (key : Key) (s : Server), Reachable (server P key) s → OneToOne s.db := by
  intro claimed
  obtain ⟨past, run, -⟩ := pair_allowed
  obtain ⟨a, b, -, members⟩ := claimed _ _ _ run.reachable
    ⟨2, 0, CString.empty, some CString.empty⟩ (by decide +kernel) rfl
  have alone : ((memberRows pairDb 2).map ParticipantRow.userId).length = 1 := by decide +kernel
  rw [members] at alone
  cases alone

end MoT
