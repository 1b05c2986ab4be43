import Mathlib.Algebra.Group.Int.Defs
import Mathlib.Algebra.Group.Nat.Defs
import MoT.Lib.Table
import MoT.Protocol
import MoT.Crypto

/-! The SQLite layer. Columns hold 64-bit integers, a `uint32_t` is bound as the
signed `int` with the same bits, and reading a column keeps its low 32 bits. Where a
SELECT leaves the order of its rows open, the order is a parameter. -/
namespace MoT
open CMemory Relational

/- `sqlite3_bind_int` of a `uint32_t`. -/
def bindInt (u : UInt32) : Int :=
  if u.toNat < 2 ^ 31 then (u.toNat : Int) else (u.toNat : Int) - 2 ^ 32

/- `sqlite3_column_int`, and the cast of a rowid to `uint32_t`. -/
def columnInt (i : Int) : UInt32 := UInt32.ofNat (i % 2 ^ 32).toNat

theorem columnInt_bindInt (u : UInt32) : columnInt (bindInt u) = u := by
  have bound : u.toNat < 2 ^ 32 := u.toNat_lt
  have word : (bindInt u % 2 ^ 32).toNat = u.toNat := by
    unfold bindInt
    split <;> omega
  rw [columnInt, word, UInt32.ofNat_toNat]

theorem bindInt_inj {u v : UInt32} (same : bindInt u = bindInt v) : u = v := by
  rw [← columnInt_bindInt u, same, columnInt_bindInt]

@[simp] theorem bindInt_eq_iff {u v : UInt32} : bindInt u = bindInt v ↔ u = v :=
  ⟨bindInt_inj, congrArg bindInt⟩

/- Below 2^31 a rowid survives the detour through `uint32_t`. -/
theorem bindInt_columnInt {i : Int} (low : 0 ≤ i) (high : i < 2 ^ 31) :
    bindInt (columnInt i) = i := by
  have word : (i % 2 ^ 32).toNat = i.toNat := by omega
  have small : i.toNat < 2 ^ 32 := by omega
  have same : (columnInt i).toNat = i.toNat := by
    rw [columnInt, word, UInt32.toNat_ofNat_of_lt' small]
  unfold bindInt
  rw [same]
  split <;> omega

structure UserRow where
  username : CString
  email : CString
  passwordHash : CString
  friendCode : CString
deriving DecidableEq

structure ContactRow where
  userId : Int
  contactId : Int
deriving DecidableEq

structure RequestRow where
  senderId : Int
  receiverId : Int
deriving DecidableEq

structure ConversationRow where
  type : Int
  name : CString
  description : Option CString
deriving DecidableEq

structure ParticipantRow where
  convId : Int
  userId : Int
  role : Int
deriving DecidableEq

structure MessageRow where
  convId : Int
  senderId : Int
  text : CString
  timestamp : Int
deriving DecidableEq

def UserRow.clash (a b : UserRow) : Bool :=
  a.username == b.username || a.email == b.email || a.friendCode == b.friendCode

def ContactRow.clash (a b : ContactRow) : Bool := a == b

def RequestRow.clash (a b : RequestRow) : Bool := a == b

def ParticipantRow.clash (a b : ParticipantRow) : Bool :=
  a.convId == b.convId && a.userId == b.userId

theorem ParticipantRow.clash_comm (a b : ParticipantRow) :
    ParticipantRow.clash a b = ParticipantRow.clash b a := by
  simp only [ParticipantRow.clash, Bool.beq_comm (a := a.convId), Bool.beq_comm (a := a.userId)]

theorem ParticipantRow.clash_self (a : ParticipantRow) : ParticipantRow.clash a a = true := by
  simp [ParticipantRow.clash]

def unconstrained {α : Type} (_ _ : α) : Bool := false

structure Database where
  users : AutoTable UserRow UserRow.clash
  contacts : Table ContactRow ContactRow.clash
  requests : Table RequestRow RequestRow.clash
  conversations : AutoTable ConversationRow unconstrained
  participants : Table ParticipantRow ParticipantRow.clash
  messages : AutoTable MessageRow unconstrained

def storageInit : Database :=
  ⟨.empty, .empty, .empty, .empty, .empty, .empty⟩

/-- One order of rows for each query that does not fix it. -/
structure Plan where
  contacts : RowOrder (ContactRow × Entry UserRow)
  requests : RowOrder (RequestRow × Entry UserRow)
  privateConversation : RowOrder ((Entry ConversationRow × ParticipantRow) × ParticipantRow)
  userConversations : RowOrder (Entry ConversationRow × ParticipantRow)
  otherParticipant : RowOrder (ParticipantRow × Entry UserRow)
  convParticipants : RowOrder ParticipantRow
  history : RowOrder (Entry MessageRow × Entry UserRow)
  groupMembers : RowOrder (ParticipantRow × Entry UserRow)

def Plan.scan : Plan := ⟨.scan, .scan, .scan, .scan, .scan, .scan, .scan, .scan⟩

def generateRandomSalt (draws : List.Vector (Fin 64) 16) : CString :=
  let charset :=
    (CString.lit "abcdefghijklmnopqrstuvwxyzABCDEFGHIJKLMNOPQRSTUVWXYZ0123456789./").bytes
  CString.lit "$6$rounds=5000$" ++ CString.cut (draws.toList.map fun d => charset.getD d 0)

def generateFriendCode (draws : List.Vector (Fin 16) 6) : CString :=
  let charset := (CString.lit "0123456789ABCDEF").bytes
  CString.cut (draws.toList.map fun d => charset.getD d 0)

structure User where
  uid : UInt32
  username : List.Vector UInt8 maxNameLen
  email : List.Vector UInt8 maxEmailLen
  passwordHash : List.Vector UInt8 128
  friendCode : List.Vector UInt8 friendCodeLen

/- The code written to `friend_code_out`, when the row went in. A NULL hash breaks
NOT NULL. -/
def storageRegisterUser (P : Platform) (db : Database) (codeDraws : List.Vector (Fin 16) 6)
    (saltDraws : List.Vector (Fin 64) 16) (email username password : CString) :
    Database × Option CString :=
  let code := generateFriendCode codeDraws
  match P.crypt password (generateRandomSalt saltDraws) with
  | none => (db, none)
  | some hash =>
    match db.users.insert? ⟨username, email, hash, code⟩ with
    | none => (db, none)
    | some (users, _) => ({ db with users := users }, some code)

/- The password is the outcome of scanning it: it is looked at only when the e-mail
address is known. -/
def storageCheckCredentials (P : Platform) (db : Database) (email : CString)
    (password : Except Fault CString) : Except Fault (Option User) :=
  match db.users.entries.find? fun e => e.row.email = email with
  | none => .ok none
  | some e => do
    let storedHash := e.row.passwordHash
    match P.crypt (← password) storedHash with
    | none => throw .nullString
    | some hash =>
      if hash = storedHash then
        return some
          { uid := columnInt e.rowid
            username := strncpy maxNameLen e.row.username
            email := strncpy maxEmailLen e.row.email
            passwordHash := strncpy 128 storedHash
            friendCode := strncpy friendCodeLen e.row.friendCode }
      else return none

def updateUsers (db : Database) (uid : UInt32) (f : UserRow → UserRow) : Database :=
  { db with
    users := (db.users.updateWhere? (fun e => e.rowid = bindInt uid) f).getD db.users }

def storageUpdateUser (P : Platform) (db : Database) (saltDraws : List.Vector (Fin 64) 16)
    (uid : UInt32) (newUsername newPassword : CString) : Database :=
  let renamed :=
    if newUsername.length > 0 then updateUsers db uid fun r => { r with username := newUsername }
    else db
  if newPassword.length > 0 then
    match P.crypt newPassword (generateRandomSalt saltDraws) with
    | none => renamed
    | some hash => updateUsers renamed uid fun r => { r with passwordHash := hash }
  else renamed

theorem storageUpdateUser_frame (P : Platform) (db : Database) (saltDraws : List.Vector (Fin 64) 16)
    (uid : UInt32) (newUsername newPassword : CString) :
    ∃ users, storageUpdateUser P db saltDraws uid newUsername newPassword =
      { db with users := users } := by
  have name : ∃ users, (if newUsername.length > 0 then
      updateUsers db uid fun r => { r with username := newUsername } else db) =
        { db with users := users } := by
    split <;> exact ⟨_, rfl⟩
  obtain ⟨users, renamed⟩ := name
  simp only [storageUpdateUser, renamed]
  split
  · split <;> exact ⟨_, rfl⟩
  · exact ⟨_, rfl⟩

/- No user has the uid 0, which is what a connection has before it logs in. -/
theorem storageUpdateUser_guest (P : Platform) (db : Database) (saltDraws : List.Vector (Fin 64) 16)
    (newUsername newPassword : CString) :
    (storageUpdateUser P db saltDraws 0 newUsername newPassword).users.entries =
      db.users.entries := by
  have absent (db : Database) (f : UserRow → UserRow) :
      (updateUsers db 0 f).users.entries = db.users.entries := by
    simp only [updateUsers]
    cases updated : db.users.updateWhere? (fun e => e.rowid = bindInt 0) f with
    | none => rfl
    | some users =>
      rw [Option.getD_some, (AutoTable.updateWhere?_spec updated).1, AutoTable.map_assign_eq_iff]
      intro e member selected
      have issued := (db.users.issued e member).1
      rw [decide_eq_true_eq, show bindInt 0 = 0 from rfl] at selected
      omega
  unfold storageUpdateUser
  dsimp only
  split
  · split
    · split <;> simp [absent]
    · split <;> simp [absent]
  · split <;> simp [absent]

def storageGetUidByCode (db : Database) (code : CString) : Option UInt32 :=
  (db.users.entries.find? fun e => e.row.friendCode = code).map fun e => columnInt e.rowid

def storageAddRequest (db : Database) (fromUid toUid : UInt32) : Database × Bool :=
  if fromUid = toUid then (db, false)
  else match db.requests.insert? ⟨bindInt fromUid, bindInt toUid⟩ with
    | none => (db, false)
    | some requests => ({ db with requests := requests }, true)

theorem storageAddRequest_refused_iff (db : Database) (fromUid toUid : UInt32) :
    (storageAddRequest db fromUid toUid).2 = false ↔
      fromUid = toUid ∨ ⟨bindInt fromUid, bindInt toUid⟩ ∈ db.requests.rows := by
  have there : db.requests.insert? ⟨bindInt fromUid, bindInt toUid⟩ = none ↔
      ⟨bindInt fromUid, bindInt toUid⟩ ∈ db.requests.rows := by
    rw [Table.insert?_eq_none]
    simp [RequestRow.clash]
  unfold storageAddRequest
  split
  · rename_i same
    simp [same]
  · rename_i distinct
    cases inserted : db.requests.insert? ⟨bindInt fromUid, bindInt toUid⟩ with
    | none => simp [there.mp inserted]
    | some requests =>
      have absent := mt there.mpr (Option.ne_none_iff_exists'.mpr ⟨requests, inserted⟩)
      simp [distinct, absent]

def storageRemoveRequest (db : Database) (fromUid toUid : UInt32) : Database :=
  { db with
    requests := db.requests.deleteWhere fun r =>
      r.senderId = bindInt fromUid ∧ r.receiverId = bindInt toUid }

def storageAddFriendship (db : Database) (uidA uidB : UInt32) : Database :=
  { db with
    contacts := (db.contacts.insertAll?
      [⟨bindInt uidA, bindInt uidB⟩, ⟨bindInt uidB, bindInt uidA⟩]).getD db.contacts }

/- Both rows go in, or none when one of them is there already or they coincide. -/
theorem storageAddFriendship_rows (db : Database) (uidA uidB : UInt32) :
    (storageAddFriendship db uidA uidB).contacts.rows =
      if uidA = uidB ∨ ⟨bindInt uidA, bindInt uidB⟩ ∈ db.contacts.rows ∨
        ⟨bindInt uidB, bindInt uidA⟩ ∈ db.contacts.rows
      then db.contacts.rows
      else db.contacts.rows ++ [⟨bindInt uidA, bindInt uidB⟩, ⟨bindInt uidB, bindInt uidA⟩] := by
  have clashing {b c : ContactRow} : ContactRow.clash b c = true ↔ b = c := by
    simp [ContactRow.clash]
  simp only [storageAddFriendship]
  cases done : db.contacts.insertAll?
      [⟨bindInt uidA, bindInt uidB⟩, ⟨bindInt uidB, bindInt uidA⟩] with
  | some contacts =>
    obtain ⟨first, one, rest⟩ := Option.bind_eq_some_iff.mp done
    obtain ⟨second, two, -⟩ := Option.bind_eq_some_iff.mp rest
    have absentA := (Table.insert?_isSome _ _).mp (Option.isSome_of_eq_some one)
    have absentB := (Table.insert?_isSome _ _).mp (Option.isSome_of_eq_some two)
    have noA : ⟨bindInt uidA, bindInt uidB⟩ ∉ db.contacts.rows := fun member =>
      Bool.false_ne_true ((absentA _ member).symm.trans (clashing.mpr rfl))
    have noB : ⟨bindInt uidB, bindInt uidA⟩ ∉ first.rows := fun member =>
      Bool.false_ne_true ((absentB _ member).symm.trans (clashing.mpr rfl))
    rw [Table.insert?_rows one, List.mem_append, not_or, List.mem_singleton] at noB
    have distinct : uidA ≠ uidB := by
      rintro rfl
      exact noB.2 rfl
    rw [if_neg (by simp [distinct, noA, noB.1]), Option.getD_some, Table.insertAll?_rows done]
  | none =>
    rw [Option.getD_none, eq_comm]
    apply ite_eq_left_iff.mpr
    intro fresh
    simp only [not_or] at fresh
    -- nothing clashes, so both inserts succeed, against the assumption
    have one : (db.contacts.insert? ⟨bindInt uidA, bindInt uidB⟩).isSome :=
      (Table.insert?_isSome _ _).mpr fun b hb =>
        Bool.eq_false_iff.mpr fun clash => fresh.2.1 (clashing.mp clash ▸ hb)
    obtain ⟨first, inserted⟩ := Option.isSome_iff_exists.mp one
    have two : (first.insert? ⟨bindInt uidB, bindInt uidA⟩).isSome := by
      refine (Table.insert?_isSome _ _).mpr fun b hb => Bool.eq_false_iff.mpr fun clash => ?_
      rw [Table.insert?_rows inserted, clashing.mp clash, List.mem_append, List.mem_singleton] at hb
      rcases hb with old | same
      · exact fresh.2.2 old
      · exact fresh.1 (bindInt_inj (ContactRow.mk.inj same).2)
    obtain ⟨second, inserted'⟩ := Option.isSome_iff_exists.mp two
    simp [Table.insertAll?, inserted, inserted'] at done

theorem mem_storageAddFriendship (db : Database) (uidA uidB : UInt32) {row : ContactRow}
    (member : row ∈ db.contacts.rows) :
    row ∈ (storageAddFriendship db uidA uidB).contacts.rows := by
  rw [storageAddFriendship_rows]
  split
  · exact member
  · exact List.mem_append_left _ member

def contactSummary (u : Entry UserRow) : ContactSummary :=
  ⟨columnInt u.rowid, strncpy maxNameLen u.row.username, 0⟩

def storageGetContactsData (plan : Plan) (db : Database) (uid : UInt32) (maxCount : Nat) :
    List ContactSummary :=
  let rows := (join (fun c u => c.contactId = u.rowid) db.contacts.rows db.users.entries).filter
    fun r => r.1.userId = bindInt uid
  ((plan.contacts.arrange rows).take maxCount).map fun r => contactSummary r.2

def storageGetRequestsData (plan : Plan) (db : Database) (uid : UInt32) (maxCount : Nat) :
    List ContactSummary :=
  let rows := (join (fun r u => r.senderId = u.rowid) db.requests.rows db.users.entries).filter
    fun r => r.1.receiverId = bindInt uid
  ((plan.requests.arrange rows).take maxCount).map fun r => contactSummary r.2

/- The id of some type-0 conversation with both participants, else 0. -/
def storageFindPrivateConversation (plan : Plan) (db : Database) (uidA uidB : UInt32) : UInt32 :=
  let both := join (fun cp p => cp.1.rowid = p.convId)
    (join (fun c p => c.rowid = p.convId) db.conversations.entries db.participants.rows)
    db.participants.rows
  let rows := both.filter fun r =>
    r.1.1.row.type = 0 ∧ r.1.2.userId = bindInt uidA ∧ r.2.userId = bindInt uidB
  match (plan.privateConversation.arrange rows).head? with
  | none => 0
  | some r => columnInt r.1.1.rowid

/- The rows of the insert loop: the first user of a group is its admin. -/
def participantRows (type : UInt8) (convId : UInt32) (uids : List UInt32) : List ParticipantRow :=
  uids.zipIdx.map fun u =>
    ⟨bindInt convId, bindInt u.1, if u.2 = 0 ∧ type = convTypeGroup then 1 else 0⟩

def storageCreateConversation (db : Database) (type : UInt8) (name desc : CString)
    (uids : List UInt32) : Database × UInt32 :=
  match db.conversations.insert? ⟨type.toNat, name, some desc⟩ with
  | none => (db, 0)
  | some (conversations, rowid) =>
    let convId := columnInt rowid
    ({ db with
      conversations := conversations
      participants := db.participants.insertEach (participantRows type convId uids) }, convId)

theorem mem_participantRows {type : UInt8} {convId : UInt32} {uids : List UInt32}
    {p : ParticipantRow} (member : p ∈ participantRows type convId uids) :
    p.convId = bindInt convId ∧ (p.role = 0 ∨ p.role = 1 ∧ type = convTypeGroup) := by
  obtain ⟨u, -, rfl⟩ := List.mem_map.mp member
  refine ⟨rfl, ?_⟩
  dsimp only
  split
  · rename_i first
    exact .inr ⟨rfl, first.2⟩
  · exact .inl rfl

theorem storageCreateConversation_spec (db : Database) (type : UInt8) (name desc : CString)
    (uids : List UInt32) :
    ∃ conversations,
      db.conversations.insert? ⟨type.toNat, name, some desc⟩ =
        some (conversations, db.conversations.seq + 1) ∧
      storageCreateConversation db type name desc uids =
        ({ db with
          conversations := conversations
          participants := db.participants.insertEach
            (participantRows type (columnInt (db.conversations.seq + 1)) uids) },
          columnInt (db.conversations.seq + 1)) := by
  obtain ⟨conversations, inserted⟩ :=
    db.conversations.insert?_free (a := ⟨type.toNat, name, some desc⟩) fun _ => rfl
  refine ⟨conversations, inserted, ?_⟩
  simp only [storageCreateConversation, inserted]

@[simp] theorem storageCreateConversation_contacts (db : Database) (type : UInt8)
    (name desc : CString) (uids : List UInt32) :
    (storageCreateConversation db type name desc uids).1.contacts = db.contacts := by
  obtain ⟨conversations, -, created⟩ := storageCreateConversation_spec db type name desc uids
  rw [created]

@[simp] theorem storageCreateConversation_requests (db : Database) (type : UInt8)
    (name desc : CString) (uids : List UInt32) :
    (storageCreateConversation db type name desc uids).1.requests = db.requests := by
  obtain ⟨conversations, -, created⟩ := storageCreateConversation_spec db type name desc uids
  rw [created]

/- `snprintf` into a field: at most `n - 1` bytes and a NUL; the rest stays unwritten. -/
def printField (n : Nat) (s : CString) : List Cell :=
  let written := (s.bytes.take (n - 1)).map some ++ [some 0]
  written ++ List.replicate (n - written.length) none

theorem printField_length {n : Nat} (positive : 0 < n) (s : CString) :
    (printField n s).length = n := by
  simp only [printField, List.length_append, List.length_map, List.length_take,
    List.length_singleton, List.length_replicate]
  omega

def conversationSummary (plan : Plan) (db : Database) (uid : UInt32)
    (r : Entry ConversationRow × ParticipantRow) : ConversationSummary :=
  let convId := columnInt r.1.rowid
  let type := columnInt r.1.row.type
  let name :=
    if type = 0 then
      let others := (join (fun p u => p.userId = u.rowid) db.participants.rows
        db.users.entries).filter fun o => o.1.convId = bindInt convId ∧ o.1.userId ≠ bindInt uid
      match (plan.otherParticipant.arrange others).head? with
      | some other => printField convNameLen (CString.lit "Private with " ++ other.2.row.username)
      | none => printField convNameLen (CString.lit "Private Chat")
    else (strncpy convNameLen r.1.row.name).toList.map some
  let description :=
    if type = 0 then printField maxDescLen CString.empty
    else match r.1.row.description with
      | some desc => (strncpy maxDescLen desc).toList.map some
      | none => printField maxDescLen CString.empty
  ⟨convId, type.toUInt8, name, description, 0, (columnInt r.2.role).toUInt8⟩

theorem conversationSummary_name_length (plan : Plan) (db : Database) (uid : UInt32)
    (r : Entry ConversationRow × ParticipantRow) :
    (conversationSummary plan db uid r).name.length = convNameLen := by
  simp only [conversationSummary]
  split
  · split
    · exact printField_length (by decide) _
    · exact printField_length (by decide) _
  · rw [List.length_map, List.Vector.toList_length]

theorem conversationSummary_description_length (plan : Plan) (db : Database) (uid : UInt32)
    (r : Entry ConversationRow × ParticipantRow) :
    (conversationSummary plan db uid r).description.length = maxDescLen := by
  simp only [conversationSummary]
  split
  · exact printField_length (by decide) _
  · split
    · rw [List.length_map, List.Vector.toList_length]
    · exact printField_length (by decide) _

def storageGetUserConversations (plan : Plan) (db : Database) (uid : UInt32) (maxCount : Nat) :
    List ConversationSummary :=
  let rows := (join (fun c p => c.rowid = p.convId) db.conversations.entries
    db.participants.rows).filter fun r => r.2.userId = bindInt uid
  ((plan.userConversations.arrange rows).take maxCount).map (conversationSummary plan db uid)

def storageGetConvParticipants (plan : Plan) (db : Database) (convId : UInt32) (maxCount : Nat) :
    List UInt32 :=
  let rows := db.participants.rows.filter fun p => p.convId = bindInt convId
  ((plan.convParticipants.arrange rows).take maxCount).map fun p => columnInt p.userId

def storageIsAdmin (db : Database) (convId uid : UInt32) : Bool :=
  match db.participants.rows.find? fun p => p.convId = bindInt convId ∧ p.userId = bindInt uid with
  | none => false
  | some p => columnInt p.role = 1

theorem storageIsAdmin_iff (db : Database) (convId uid : UInt32) :
    storageIsAdmin db convId uid = true ↔ ∃ p ∈ db.participants.rows,
      p.convId = bindInt convId ∧ p.userId = bindInt uid ∧ columnInt p.role = 1 := by
  unfold storageIsAdmin
  split
  · rename_i missing
    simp only [List.find?_eq_none, decide_eq_true_eq, not_and] at missing
    constructor
    · intro impossible
      cases impossible
    · rintro ⟨p, member, conv, user, -⟩
      exact absurd user (missing p member conv)
  · rename_i p found
    have keys := List.find?_some found
    simp only [Bool.decide_and, Bool.and_eq_true, decide_eq_true_eq] at keys
    rw [decide_eq_true_eq]
    constructor
    · exact fun role => ⟨p, List.mem_of_find?_eq_some found, keys.1, keys.2, role⟩
    · rintro ⟨q, member, conv, user, role⟩
      -- the primary key makes it the same row
      have same : p = q := db.participants.eq_of_clash ParticipantRow.clash_comm
        (List.mem_of_find?_eq_some found) member (by simp [ParticipantRow.clash, keys, conv, user])
      exact same ▸ role

def storageUpdateGroup (db : Database) (convId : UInt32) (name desc : CString) : Database :=
  { db with
    conversations := (db.conversations.updateWhere? (fun e => e.rowid = bindInt convId)
      fun r => { r with name := name, description := some desc }).getD db.conversations }

theorem storageUpdateGroup_spec (db : Database) (convId : UInt32) (name desc : CString) :
    ∃ f : Entry ConversationRow → Entry ConversationRow,
      (storageUpdateGroup db convId name desc).conversations.entries =
        db.conversations.entries.map f ∧
      (storageUpdateGroup db convId name desc).conversations.seq = db.conversations.seq ∧
      ∀ e, (f e).rowid = e.rowid ∧ (f e).row.type = e.row.type ∧
        (e.rowid ≠ bindInt convId → f e = e) := by
  simp only [storageUpdateGroup]
  cases updated : db.conversations.updateWhere? (fun e => e.rowid = bindInt convId)
      fun r => { r with name := name, description := some desc } with
  | none => exact ⟨id, by simp, rfl, fun e => ⟨rfl, rfl, fun _ => rfl⟩⟩
  | some conversations =>
    obtain ⟨entries, seq⟩ := AutoTable.updateWhere?_spec updated
    refine ⟨_, entries, seq, fun e => ⟨AutoTable.assign_rowid _ _ e, ?_, ?_⟩⟩
    · unfold AutoTable.assign
      split <;> rfl
    · intro other
      simp [AutoTable.assign, other]

theorem storageUpdateGroup_same_iff (db : Database) (convId : UInt32) (name desc : CString) :
    (storageUpdateGroup db convId name desc).conversations.entries = db.conversations.entries ↔
      ∀ e ∈ db.conversations.entries, e.rowid = bindInt convId →
        e.row.name = name ∧ e.row.description = some desc := by
  obtain ⟨conversations, updated⟩ := db.conversations.updateWhere?_free
    (p := fun e => e.rowid = bindInt convId)
    (f := fun r => { r with name := name, description := some desc }) fun _ _ => rfl
  rw [storageUpdateGroup, updated, Option.getD_some, (AutoTable.updateWhere?_spec updated).1,
    AutoTable.map_assign_eq_iff]
  refine forall_congr' fun e => imp_congr_right fun _ => ?_
  rw [decide_eq_true_eq]
  refine imp_congr_right fun _ => ?_
  constructor
  · intro same
    exact ⟨(congrArg ConversationRow.name same).symm,
      (congrArg ConversationRow.description same).symm⟩
  · rintro ⟨rfl, describes⟩
    rw [← describes]

/- INSERT OR IGNORE always ends with SQLITE_DONE. -/
def storageAddParticipant (db : Database) (convId uid : UInt32) (role : Int) : Database :=
  { db with participants := db.participants.insertIgnored ⟨bindInt convId, bindInt uid, role⟩ }

def storageGetGroupMembers (plan : Plan) (db : Database) (convId : UInt32) (maxCount : Nat) :
    List GroupMemberSummary :=
  let rows := (join (fun p u => p.userId = u.rowid) db.participants.rows db.users.entries).filter
    fun r => r.1.convId = bindInt convId
  ((plan.groupMembers.arrange rows).take maxCount).map fun r =>
    ⟨columnInt r.2.rowid, strncpy maxNameLen r.2.row.username, (columnInt r.1.role).toUInt8⟩

def storageRemoveParticipant (db : Database) (convId uid : UInt32) : Database :=
  { db with
    participants := db.participants.deleteWhere fun p =>
      p.convId = bindInt convId ∧ p.userId = bindInt uid }

def storageDeleteConversation (db : Database) (convId : UInt32) : Database :=
  { db with
    messages := db.messages.deleteWhere fun m => m.row.convId = bindInt convId
    participants := db.participants.deleteWhere fun p => p.convId = bindInt convId
    conversations := db.conversations.deleteWhere fun c => c.rowid = bindInt convId }

def storageLogMessage (P : Platform) (key : Option Key) (randBytes : Option Iv) (now : Int)
    (db : Database) (convId senderUid : UInt32) (text : CString) : Database :=
  match cryptoEncrypt P key randBytes text with
  | none => db
  | some encrypted =>
    match db.messages.insert? ⟨bindInt convId, bindInt senderUid, encrypted, now⟩ with
    | none => db
    | some (messages, _) => { db with messages := messages }

theorem storageLogMessage_entries (P : Platform) (key : Option Key) (randBytes : Option Iv)
    (now : Int) (db : Database) (convId sender : UInt32) (text : CString) :
    (storageLogMessage P key randBytes now db convId sender text).messages.entries =
      db.messages.entries ++ ((cryptoEncrypt P key randBytes text).map fun encrypted =>
        ⟨db.messages.seq + 1, bindInt convId, bindInt sender, encrypted, now⟩).toList := by
  unfold storageLogMessage
  cases cryptoEncrypt P key randBytes text with
  | none => simp
  | some encrypted =>
    obtain ⟨messages, inserted⟩ := db.messages.insert?_free
      (a := ⟨bindInt convId, bindInt sender, encrypted, now⟩) fun _ => rfl
    simp [inserted, (AutoTable.insert?_spec inserted).1]

theorem storageLogMessage_frame (P : Platform) (key : Option Key) (randBytes : Option Iv)
    (now : Int) (db : Database) (convId sender : UInt32) (text : CString) :
    ∃ messages, storageLogMessage P key randBytes now db convId sender text =
      { db with messages := messages } := by
  simp only [storageLogMessage]
  split
  · exact ⟨_, rfl⟩
  · split <;> exact ⟨_, rfl⟩

abbrev HistoryRow := Entry MessageRow × Entry UserRow

/- The messages of a conversation with their senders, before ORDER BY and LIMIT. -/
def joinedMessages (db : Database) (convId : UInt32) : List HistoryRow :=
  (join (fun m u => m.row.senderId = u.rowid) db.messages.entries db.users.entries).filter
    fun r => r.1.row.convId = bindInt convId

def historyRows (plan : Plan) (db : Database) (convId : UInt32) : List HistoryRow :=
  (orderBy (fun r => r.1.row.timestamp) plan.history (joinedMessages db convId)).take 50

def twoDigits (n : Nat) : CString :=
  CString.cut [UInt8.ofNat (48 + n / 10), UInt8.ofNat (48 + n % 10)]

def lineHeader (P : Platform) (row : HistoryRow) : CString :=
  let t := P.localtime row.1.row.timestamp
  (CString.lit "[" ++ twoDigits t.1 ++ CString.lit ":" ++ twoDigits t.2 ++ CString.lit "] " ++
    row.2.row.username ++ CString.lit ": ").truncate 63

/- One pass of the loop over rows, on `buf` (NULL before the first) and `len`. -/
def historyStep (P : Platform) (key : Option Key) (junk : Nat → UInt8)
    (state : Option (List Cell) × Nat) (row : HistoryRow) :
    Except Fault (Option (List Cell) × Nat) :=
  match cryptoDecrypt P key junk row.1.row.text with
  | none => .error .nullString
  | some text =>
    let header := lineHeader P row
    let lineLen := header.length + text.length + 2
    let newBuf := realloc (state.1.getD []) (state.2 + lineLen + 1)
    match sprintf newBuf state.2 (header ++ text ++ CString.lit "\n") with
    | none => .error .historyOverflow
    | some buf => .ok (some buf, state.2 + lineLen)

def storageGetHistory (P : Platform) (key : Option Key) (junk : Nat → UInt8) (plan : Plan)
    (db : Database) (convId : UInt32) : Except Fault (List Cell) := do
  let state ← (historyRows plan db convId).foldlM (historyStep P key junk) (none, 0)
  return state.1.getD [some 0]

end MoT
