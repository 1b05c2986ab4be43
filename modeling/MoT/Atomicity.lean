import MoT.Effects
import MoT.Friendship
import MoT.Lib.Script

/-! The updates that take several SQL statements. There is no transaction anywhere: each
statement commits by itself, and its error is mostly ignored. -/
namespace MoT
open CMemory Relational Script

variable {vs rest : List Verdict} {db db' : Database}

def insertConversation (type : UInt8) (name desc : CString) (db : Database) :
    Database × Option UInt32 :=
  match db.conversations.insert? ⟨type.toNat, name, some desc⟩ with
  | none => (db, none)
  | some (conversations, rowid) => ({ db with conversations := conversations }, some (columnInt rowid))

def insertParticipant (row : ParticipantRow) (db : Database) : Database :=
  { db with participants := db.participants.insertIgnored row }

def createConversationScript (type : UInt8) (name desc : CString) (uids : List UInt32) :
    Prog Database UInt32 := do
  match ← ask (insertConversation type name desc) none with
  | none => return 0
  | some convId =>
    each insertParticipant (participantRows type convId uids)
    return convId

def deleteConversationScript (convId : UInt32) : Prog Database Unit := do
  act fun db => { db with
    messages := db.messages.deleteWhere fun m => m.row.convId = bindInt convId }
  act fun db => { db with
    participants := db.participants.deleteWhere fun p => p.convId = bindInt convId }
  act fun db => { db with
    conversations := db.conversations.deleteWhere fun c => c.rowid = bindInt convId }

def settleScript (uid target found : UInt32) : Prog Database Unit := do
  if found = 0 then
    let _ ← createConversationScript convTypePrivate (CString.lit "Private Chat") CString.empty
      [uid, target]
  act fun db => storageRemoveRequest db target uid

def decideRequestScript (plan : Plan) (uid target : UInt32) : Prog Database Unit := do
  act fun db => storageAddFriendship db uid target
  let found ← ask (fun db => (db, storageFindPrivateConversation plan db uid target)) 0
  settleScript uid target found

theorem insertParticipants (rows : List ParticipantRow) (db : Database) :
    rows.foldl (fun db row => insertParticipant row db) db =
      { db with participants := db.participants.insertEach rows } := by
  induction rows generalizing db with
  | nil => rfl
  | cons row rows ih =>
    rw [List.foldl_cons, ih]
    rfl

theorem insertConversation_spec (type : UInt8) (name desc : CString) (uids : List UInt32)
    (db : Database) :
    ∃ conversations,
      insertConversation type name desc db =
        ({ db with conversations := conversations }, some (columnInt (db.conversations.seq + 1))) ∧
      storageCreateConversation db type name desc uids =
        ({ db with
          conversations := conversations
          participants := db.participants.insertEach
            (participantRows type (columnInt (db.conversations.seq + 1)) uids) },
          columnInt (db.conversations.seq + 1)) := by
  obtain ⟨conversations, inserted, created⟩ := storageCreateConversation_spec db type name desc uids
  refine ⟨conversations, ?_, created⟩
  rw [insertConversation, inserted]

theorem createConversationScript_complete (type : UInt8) (name desc : CString)
    (uids : List UInt32) (db : Database) :
    complete (createConversationScript type name desc uids) db =
      storageCreateConversation db type name desc uids := by
  obtain ⟨conversations, inserted, created⟩ := insertConversation_spec type name desc uids db
  have asked : complete (ask (insertConversation type name desc) none) db =
      insertConversation type name desc db := rfl
  rw [createConversationScript, complete_bind, asked, inserted]
  dsimp only
  rw [complete_bind, complete_each, insertParticipants, created]
  rfl

theorem deleteConversationScript_complete (convId : UInt32) (db : Database) :
    complete (deleteConversationScript convId) db = (storageDeleteConversation db convId, ()) := rfl

theorem decideRequestScript_complete (plan : Plan) (uid target : UInt32) (db : Database)
    {accepted : UInt8} (yes : accepted ≠ 0) :
    complete (decideRequestScript plan uid target) db =
      (decideDb plan db uid target accepted, ()) := by
  have befriend : complete (act fun db => storageAddFriendship db uid target) db =
      (storageAddFriendship db uid target, ()) := rfl
  have look : complete (ask (fun db => (db, storageFindPrivateConversation plan db uid target)) 0)
      (storageAddFriendship db uid target) = (storageAddFriendship db uid target,
        storageFindPrivateConversation plan (storageAddFriendship db uid target) uid target) := rfl
  rw [decideRequestScript, complete_bind, befriend, complete_bind, look, decideDb, if_pos yes,
    acceptDb]
  dsimp only [settleScript]
  by_cases missing : storageFindPrivateConversation plan (storageAddFriendship db uid target) uid
      target = 0
  · rw [if_pos missing, if_pos missing, complete_bind, createConversationScript_complete]
    rfl
  · rw [if_neg missing, if_neg missing]
    rfl

def leftByCreate (vs : List Verdict) (type : UInt8) (name desc : CString) (uids : List UInt32)
    (db : Database) : Database :=
  if Ran vs 0 then
    let created := storageCreateConversation db type name desc uids
    let inserted := kept vs.tail (participantRows type created.2 uids)
    { created.1 with participants := db.participants.insertEach inserted }
  else db

def leftByDelete (vs : List Verdict) (convId : UInt32) (db : Database) : Database :=
  let deleted := storageDeleteConversation db convId
  { db with
    messages := if Ran vs 0 then deleted.messages else db.messages
    participants := if Ran vs 1 then deleted.participants else db.participants
    conversations := if Ran vs 2 then deleted.conversations else db.conversations }

/- A conversation that fails has no participants to insert: the DELETE is next. -/
def leftBySettle (vs : List Verdict) (uid target found : UInt32) (db : Database) : Database :=
  let chat := if found = 0 then
      leftByCreate vs convTypePrivate (CString.lit "Private Chat") CString.empty [uid, target] db
    else db
  let removal := if found ≠ 0 then 0 else if Ran vs 0 then 3 else 1
  if Ran vs removal then storageRemoveRequest chat target uid else chat

def leftByDecide (vs : List Verdict) (plan : Plan) (uid target : UInt32) (db : Database) :
    Database :=
  let friends := if Ran vs 0 then storageAddFriendship db uid target else db
  let found := if Ran vs 1 then storageFindPrivateConversation plan friends uid target else 0
  leftBySettle (vs.drop 2) uid target found friends

theorem exec_create (type : UInt8) (name desc : CString) (uids : List UInt32) (vs : List Verdict)
    (db : Database) :
    exec (createConversationScript type name desc uids) vs db =
      (leftByCreate vs type name desc uids db,
        match vs with
        | [] => none
        | .runs :: vs => if uids.length ≤ vs.length
            then some ((storageCreateConversation db type name desc uids).2, vs.drop uids.length)
            else none
        | .fails :: vs => some (0, vs)) := by
  obtain ⟨conversations, inserted, created⟩ := insertConversation_spec type name desc uids db
  rw [createConversationScript, exec_bind]
  cases vs with
  | nil => rfl
  | cons v vs =>
    cases v with
    | fails => rfl
    | runs =>
      have length : ∀ convId, (participantRows type convId uids).length = uids.length := by
        simp [participantRows]
      simp only [exec_ask_runs, inserted, exec_bind, exec_each, insertParticipants, length,
        leftByCreate, created, List.tail_cons]
      by_cases enough : uids.length ≤ vs.length
      · simp [enough]
      · simp [enough]

theorem exec_delete (convId : UInt32) (vs : List Verdict) (db : Database) :
    (exec (deleteConversationScript convId) vs db).1 = leftByDelete vs convId db := by
  cases vs with
  | nil => rfl
  | cons u vs =>
    cases vs with
    | nil => cases u <;> rfl
    | cons v vs =>
      cases vs with
      | nil => cases u <;> cases v <;> rfl
      | cons w vs => cases u <;> cases v <;> cases w <;> rfl

theorem exec_settle (uid target found : UInt32) (vs : List Verdict) (db : Database) :
    (exec (settleScript uid target found) vs db).1 = leftBySettle vs uid target found db := by
  by_cases missing : found = 0
  · simp only [settleScript, if_pos missing, exec_bind, exec_create]
    cases vs with
    | nil => simp [leftBySettle, missing]
    | cons v vs =>
      cases v with
      | fails => cases vs <;> simp [leftBySettle, missing, exec_act, Ran]
      | runs =>
        by_cases enough : 2 ≤ vs.length
        · simp [leftBySettle, missing, enough, exec_act, Ran]
        · have unreached : vs[2]? = none := List.getElem?_eq_none (by omega)
          simp [leftBySettle, missing, enough, unreached, Ran]
  · simp [settleScript, leftBySettle, missing, exec_act]

theorem exec_decide (plan : Plan) (uid target : UInt32) (vs : List Verdict) (db : Database) :
    (exec (decideRequestScript plan uid target) vs db).1 = leftByDecide vs plan uid target db := by
  cases vs with
  | nil =>
    simp [decideRequestScript, exec_bind, exec_act, leftByDecide, leftBySettle, leftByCreate, Ran]
  | cons u vs =>
    simp only [decideRequestScript, exec_bind, exec_act, Ran]
    cases vs with
    | nil => simp [leftByDecide, leftBySettle, leftByCreate, Ran]
    | cons v vs =>
      cases v with
      | runs => simp [leftByDecide, exec_settle, Ran]
      | fails => simp [leftByDecide, exec_settle, Ran]

def trip : Database :=
  (storageCreateConversation storageInit convTypeGroup (CString.lit "Trip") CString.empty [1, 2]).1

def asked : Database := (storageAddRequest storageInit 1 2).1

theorem statements_commit_alone (plan : Plan) (vs : List Verdict) (db : Database) :
    (∀ type name desc uids,
      (exec (createConversationScript type name desc uids) vs db).1 =
        leftByCreate vs type name desc uids db ∧
      (Undisturbed (createConversationScript type name desc uids) vs db →
        leftByCreate vs type name desc uids db =
          (storageCreateConversation db type name desc uids).1)) ∧
    (∀ convId,
      (exec (deleteConversationScript convId) vs db).1 = leftByDelete vs convId db ∧
      (Undisturbed (deleteConversationScript convId) vs db →
        leftByDelete vs convId db = storageDeleteConversation db convId)) ∧
    ∀ uid target,
      (exec (decideRequestScript plan uid target) vs db).1 = leftByDecide vs plan uid target db ∧
      (Undisturbed (decideRequestScript plan uid target) vs db → ∀ accepted ≠ 0,
        leftByDecide vs plan uid target db = decideDb plan db uid target accepted) := by
  refine ⟨fun type name desc uids => ?_, fun convId => ?_, fun uid target => ?_⟩
  · have left := congrArg Prod.fst (exec_create type name desc uids vs db)
    refine ⟨left, fun undisturbed => ?_⟩
    rw [← createConversationScript_complete, ← undisturbed.complete]
    exact left.symm
  · have left := exec_delete convId vs db
    refine ⟨left, fun undisturbed => ?_⟩
    rw [← left, undisturbed.complete, deleteConversationScript_complete]
  · have left := exec_decide plan uid target vs db
    refine ⟨left, fun undisturbed accepted yes => ?_⟩
    rw [← left, undisturbed.complete, decideRequestScript_complete plan uid target db yes]

theorem statements_commit_alone_accepted :
    (exec (decideRequestScript .scan 2 1) (List.replicate 6 .runs) asked).1 =
      decideDb .scan asked 2 1 1 := by
  obtain ⟨left, full⟩ := (statements_commit_alone .scan (List.replicate 6 .runs) asked).2.2 2 1
  have undisturbed : Undisturbed (decideRequestScript .scan 2 1) (List.replicate 6 .runs) asked :=
    ⟨fun v => List.eq_of_mem_replicate, by decide +kernel⟩
  exact left.trans (full undisturbed 1 (by decide))

/- Each time the process stops, once after the first statement, once after the second. -/
theorem statements_are_not_atomic :
    ((exec (createConversationScript convTypeGroup (CString.lit "Trip") CString.empty [1, 2]) [.runs]
          storageInit).1.conversations.entries.length = 1 ∧
      (exec (createConversationScript convTypeGroup (CString.lit "Trip") CString.empty [1, 2]) [.runs]
          storageInit).1.participants.rows = []) ∧
    ¬ Atomic (createConversationScript convTypeGroup (CString.lit "Trip") CString.empty [1, 2]) ∧
    ((exec (deleteConversationScript 1) [.runs, .runs] trip).1.conversations.entries.length = 1 ∧
      (exec (deleteConversationScript 1) [.runs, .runs] trip).1.participants.rows = []) ∧
    ¬ Atomic (deleteConversationScript 1) ∧
    ((exec (decideRequestScript .scan 2 1) [.runs] asked).1.contacts.rows = [⟨2, 1⟩, ⟨1, 2⟩] ∧
      (exec (decideRequestScript .scan 2 1) [.runs] asked).1.requests.rows = [⟨1, 2⟩]) ∧
    ¬ Atomic (decideRequestScript .scan 2 1) := by
  refine ⟨by decide +kernel, fun atomic => ?_, by decide +kernel, fun atomic => ?_, by decide +kernel,
    fun atomic => ?_⟩
  · rcases atomic [.runs] storageInit with same | same
    · exact absurd (congrArg (fun db => db.conversations.entries.length) same) (by decide +kernel)
    · exact absurd (congrArg (fun db => db.participants.rows.length) same) (by decide +kernel)
  · rcases atomic [.runs, .runs] trip with same | same
    · exact absurd (congrArg (fun db => db.participants.rows.length) same) (by decide +kernel)
    · exact absurd (congrArg (fun db => db.conversations.entries.length) same) (by decide +kernel)
  · rcases atomic [.runs] asked with same | same
    · exact absurd (congrArg (fun db => db.contacts.rows.length) same) (by decide +kernel)
    · exact absurd (congrArg (fun db => db.requests.rows.length) same) (by decide +kernel)

end MoT
