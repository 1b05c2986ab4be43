import MoT.Routing

/-! Who is told that a group has changed. The server reads the participants back through
its array of ten places, before the change or after it, and pushes a new list to each. -/
namespace MoT
open CMemory Relational Transition

variable {P : Platform} {key : Key} {env : Env} {s t : Server} {cli : Client} {p : Pointer}
  {db db' : Database} {plan : Plan} {limit : Nat} {out : List Sent} {k u v : UInt32}
  {packet : Packet} {m : Sent}

/-- The list of conversations of this user is another one than before. -/
def ListChanged (env : Env) (s t : Server) (u : UInt32) : Prop :=
  storageGetUserConversations env.plan t.db u 50 ≠ storageGetUserConversations env.plan s.db u 50

/-- The user is sent the list as it is after the change. -/
def Refreshed (env : Env) (s t : Server) (out : List Sent) (u : UInt32) : Prop :=
  ∃ m ∈ out, m.reaches s u = true ∧
    m.packet = .respConversations (storageGetUserConversations env.plan t.db u 50)

/-- One of the first ten of these rows, in the order of the query, is the user's. -/
def Foremost (plan : Plan) (rows : List ParticipantRow) (u : UInt32) : Prop :=
  ∃ r ∈ (plan.convParticipants.arrange rows).take maxParticipants, columnInt r.userId = u

instance (plan : Plan) (rows : List ParticipantRow) (u : UInt32) :
    Decidable (Foremost plan rows u) :=
  inferInstanceAs (Decidable (∃ r ∈ (plan.convParticipants.arrange rows).take maxParticipants,
    columnInt r.userId = u))

def Early (plan : Plan) (db : Database) (k u : UInt32) : Prop :=
  Foremost plan (memberRows db (bindInt k)) u

theorem mem_convParticipants :
    u ∈ storageGetConvParticipants plan db k maxParticipants ↔ Early plan db k u := by
  rw [storageGetConvParticipants_eq, List.mem_map]
  rfl

/- The rows of a group with one user more, and with one user less. -/
def rowsWith (db : Database) (k target : UInt32) : List ParticipantRow :=
  if ∃ r ∈ memberRows db (bindInt k), r.userId = bindInt target then memberRows db (bindInt k)
  else memberRows db (bindInt k) ++ [⟨bindInt k, bindInt target, 0⟩]

def rowsWithout (db : Database) (k target : UInt32) : List ParticipantRow :=
  (memberRows db (bindInt k)).filter fun r => r.userId ≠ bindInt target

/-- The user has one of the rows that fit into the array: of those that the group has, of those
that it gets through the request, or of those that are left to it; or is the one who is kicked. -/
def GoneThrough (env : Env) (db : Database) (p : Pointer) (k u : UInt32) : MessageType → Prop
  | .updateGroup => u ≠ 0 ∧ Foremost env.plan (memberRows db (bindInt k)) u
  | .addMember => u ≠ 0 ∧ ∃ code target, readString p AddMemberPayload.targetFriendCode = .ok code ∧
      storageGetUidByCode db code = some target ∧ Foremost env.plan (rowsWith db k target) u
  | .kickMember => ∃ target, readUInt32 p KickMemberPayload.targetUid = .ok target ∧
      (u = target ∨ u ≠ 0 ∧ Foremost env.plan (rowsWithout db k target) u)
  | .deleteGroup => Foremost env.plan (memberRows db (bindInt k)) u
  | _ => False

theorem memberRows_added (db : Database) (k target : UInt32) :
    memberRows (storageAddParticipant db k target 0) (bindInt k) = rowsWith db k target := by
  have clash : (∃ r ∈ memberRows db (bindInt k), r.userId = bindInt target) ↔
      ∃ r ∈ db.participants.rows, ParticipantRow.clash r ⟨bindInt k, bindInt target, 0⟩ = true := by
    simp only [memberRows, List.mem_filter, decide_eq_true_eq, ParticipantRow.clash,
      Bool.and_eq_true, beq_iff_eq, and_assoc]
  rw [memberRows, rowsWith, storageAddParticipant]
  dsimp only
  split
  · rename_i there
    rw [(Table.insertIgnored_same_iff _ _).mpr (clash.mp there)]
    rfl
  · rename_i absent
    rcases Table.insertIgnored_rows db.participants ⟨bindInt k, bindInt target, 0⟩ with
      grown | ⟨-, there⟩
    · rw [grown, List.filter_append, ← memberRows]
      simp
    · exact absurd (clash.mpr there) absent

theorem memberRows_removed (db : Database) (k target : UInt32) :
    memberRows (storageRemoveParticipant db k target) (bindInt k) = rowsWithout db k target := by
  rw [memberRows, rowsWithout, memberRows, List.filter_filter]
  simp only [storageRemoveParticipant, Table.deleteWhere, List.filter_filter]
  apply List.filter_congr
  intro r _
  by_cases place : r.convId = bindInt k <;> by_cases user : r.userId = bindInt target <;>
    simp [place, user]

theorem early_added {target : UInt32} :
    Early plan (storageAddParticipant db k target 0) k u ↔
      Foremost plan (rowsWith db k target) u := by
  rw [Early, memberRows_added]

theorem early_removed {target : UInt32} :
    Early plan (storageRemoveParticipant db k target) k u ↔
      Foremost plan (rowsWithout db k target) u := by
  rw [Early, memberRows_removed]

theorem mem_pushTo_reaches (connected : Connected s.clients) :
    m ∈ pushTo s v packet ∧ m.reaches s u = true ↔ v = u ∧ m ∈ pushTo s u packet := by
  calc _ ↔ m ∈ (pushTo s v packet).filter fun m => m.reaches s u := List.mem_filter.symm
    _ ↔ _ := by
      rw [filter_pushTo connected]
      split
      · rename_i same
        simp [same]
      · rename_i other
        simp [other]

theorem pushTo_online (online : Online s u) (packet : Packet) :
    ∃ m ∈ pushTo s u packet, m.packet = packet := by
  rcases pushTo_cases s u packet with ⟨c, -, -, -, pushed⟩ | ⟨offline, -⟩
  · exact ⟨⟨c.fd, packet⟩, by simp [pushed], rfl⟩
  · exact absurd online offline

theorem refreshed_push (connected : Connected s.clients) (online : Online s u) :
    Refreshed env s s (pushConversations env s v) u ↔ u = v := by
  constructor
  · rintro ⟨m, member, reaches, -⟩
    exact ((mem_pushTo_reaches connected).mp ⟨member, reaches⟩).1.symm
  · rintro rfl
    obtain ⟨m, member, packet⟩ := pushTo_online online
      (.respConversations (storageGetUserConversations env.plan s.db u 50))
    exact ⟨m, member, ((mem_pushTo_reaches connected).mpr ⟨rfl, member⟩).2, packet⟩

theorem refreshed_append {before after : List Sent} :
    Refreshed env s t (before ++ after) u ↔
      Refreshed env s t before u ∨ Refreshed env s t after u := by
  simp only [Refreshed, List.mem_append, or_and_right, exists_or]

theorem refreshed_flatMap {l : List UInt32} {pushes : UInt32 → List Sent} :
    Refreshed env s t (l.flatMap pushes) u ↔ ∃ v ∈ l, Refreshed env s t (pushes v) u := by
  simp only [Refreshed, List.mem_flatMap]
  constructor
  · rintro ⟨m, ⟨v, listed, member⟩, rest⟩
    exact ⟨v, listed, m, member, rest⟩
  · rintro ⟨v, listed, m, member, rest⟩
    exact ⟨m, ⟨v, listed, member⟩, rest⟩

theorem refreshed_notify (connected : Connected s.clients) (online : Online s u) :
    Refreshed env s s (notifyGroupUpdate env s k 0) u ↔ u ≠ 0 ∧ Early env.plan s.db k u := by
  have silent : ¬ Refreshed env s s [] u := by
    rintro ⟨m, member, -⟩
    cases member
  rw [notifyGroupUpdate, refreshed_flatMap]
  constructor
  · rintro ⟨v, listed, refreshed⟩
    split at refreshed
    · exact absurd refreshed silent
    · rename_i nonzero
      cases (refreshed_push connected online).mp refreshed
      exact ⟨nonzero, mem_convParticipants.mp listed⟩
  · rintro ⟨nonzero, early⟩
    refine ⟨u, mem_convParticipants.mpr early, ?_⟩
    rw [if_neg nonzero]
    exact (refreshed_push connected online).mpr rfl

theorem refreshed_other {fd : Int} (other : ∀ list, packet ≠ .respConversations list) :
    Refreshed env s t (⟨fd, packet⟩ :: out) u ↔ Refreshed env s t out u := by
  constructor
  · rintro ⟨m, member, reaches, same⟩
    rcases List.mem_cons.mp member with rfl | later
    · exact absurd same (other _)
    · exact ⟨m, later, reaches, same⟩
  · rintro ⟨m, member, rest⟩
    exact ⟨m, List.mem_cons_of_mem _ member, rest⟩

def groupRequests : List MessageType := [.updateGroup, .addMember, .kickMember, .deleteGroup]

/-- What an admin's request does to group `k`, and the pushes it causes. -/
inductive GroupEdit (env : Env) (s : Server) (p : Pointer) (k : UInt32) (t : Server)
    (out : List Sent) : MessageType → Prop
  | refused (type : MessageType) (same : t = s) : GroupEdit env s p k t out type
  | updateGroup (name desc : CString) (after : t = { s with db := storageUpdateGroup s.db k name desc })
      (pushes : out = notifyGroupUpdate env t k 0) : GroupEdit env s p k t out .updateGroup
  | addMember (fd : Int) (code : CString) (target : UInt32)
      (readCode : readString p AddMemberPayload.targetFriendCode = .ok code)
      (known : storageGetUidByCode s.db code = some target)
      (after : t = { s with db := storageAddParticipant s.db k target 0 })
      (pushes : out = ⟨fd, .memberAdded⟩ :: notifyGroupUpdate env t k 0) :
      GroupEdit env s p k t out .addMember
  | kickMember (target : UInt32) (readTarget : readUInt32 p KickMemberPayload.targetUid = .ok target)
      (after : t = { s with db := storageRemoveParticipant s.db k target })
      (pushes : out = notifyGroupUpdate env t k 0 ++ pushConversations env t target) :
      GroupEdit env s p k t out .kickMember
  | deleteGroup (after : t = { s with db := storageDeleteConversation s.db k })
      (pushes : out = (storageGetConvParticipants env.plan s.db k maxParticipants).flatMap fun v =>
        pushConversations env t v) : GroupEdit env s p k t out .deleteGroup

theorem step_groupEdit {fd : Int} {code : UInt32} {bytes : List UInt8} {type : MessageType}
    (listed : getClientByFd fd s.clients = some cli)
    (coded : MessageType.ofCode code = some type) (request : type ∈ groupRequests)
    (stepped : (server P key).step s (.packet fd code bytes env) = some (t, out))
    (readK : readUInt32 (deliver bytes) UpdateGroupPayload.convId = .ok k)
    (admin : storageIsAdmin s.db k cli.uid = true) :
    GroupEdit env s (deliver bytes) k t out type := by
  have handled := (handleEvent_of_step stepped).2
  simp only [handleEvent, listed, dispatch, coded] at handled
  have notAdmin {k' : UInt32} (readK' : readUInt32 (deliver bytes) UpdateGroupPayload.convId = .ok k')
      (stranger : storageIsAdmin s.db k' cli.uid = false) : False := by
    cases Except.ok.inj (readK.symm.trans readK')
    rw [admin] at stranger
    cases stranger
  simp only [groupRequests, List.mem_cons, List.not_mem_nil, or_false] at request
  rcases request with rfl | rfl | rfl | rfl
  · obtain ⟨k', readK', ⟨stranger, -⟩ | ⟨-, name, desc, -, -, after, pushes⟩⟩ :=
      handleUpdateGroup_ok handled
    · exact (notAdmin readK' stranger).elim
    · cases Except.ok.inj (readK.symm.trans readK')
      exact .updateGroup name desc after pushes
  · obtain ⟨k', readK', ⟨stranger, -⟩ | ⟨-, code, readCode, ⟨-, same, -⟩ |
      ⟨target, known, after, pushes⟩⟩⟩ := handleAddMember_ok handled
    · exact (notAdmin readK' stranger).elim
    · exact .refused _ same
    · cases Except.ok.inj (readK.symm.trans readK')
      exact .addMember cli.fd code target readCode known after pushes
  · obtain ⟨k', readK', ⟨stranger, -⟩ | ⟨-, target, readTarget, ⟨-, same, -⟩ |
      ⟨-, after, pushes⟩⟩⟩ := handleKickMember_ok handled
    · exact (notAdmin readK' stranger).elim
    · exact .refused _ same
    · cases Except.ok.inj (readK.symm.trans readK')
      exact .kickMember target readTarget after pushes
  · obtain ⟨k', readK', ⟨stranger, -⟩ | ⟨-, after, pushes⟩⟩ := handleDeleteGroup_ok handled
    · exact (notAdmin readK' stranger).elim
    · cases Except.ok.inj (readK.symm.trans readK')
      exact .deleteGroup after pushes

theorem GroupEdit.refreshes {type : MessageType} (edit : GroupEdit env s p k t out type)
    (connected : Connected s.clients) (changed : ListChanged env s t u) (online : Online s u) :
    Refreshed env s t out u ↔ GoneThrough env s.db p k u type := by
  cases edit with
  | refused type same => exact absurd (by rw [same]) changed
  | updateGroup name desc after pushes =>
    subst after pushes
    exact refreshed_notify (s := { s with db := storageUpdateGroup s.db k name desc }) connected online
  | addMember fd code target readCode known after pushes =>
    subst after pushes
    have notified := @refreshed_notify env { s with db := storageAddParticipant s.db k target 0 } k u
      connected online
    refine (refreshed_other (by simp)).trans (notified.trans (and_congr_right fun _ => ?_))
    rw [early_added]
    constructor
    · intro early
      exact ⟨code, target, readCode, known, early⟩
    · rintro ⟨code', target', readCode', known', early⟩
      cases Except.ok.inj (readCode.symm.trans readCode')
      cases Option.some.inj (known.symm.trans known')
      exact early
  | kickMember target readTarget after pushes =>
    subst after pushes
    have notified := @refreshed_notify env { s with db := storageRemoveParticipant s.db k target } k u
      connected online
    have kicked := @refreshed_push env { s with db := storageRemoveParticipant s.db k target } u target
      connected online
    refine refreshed_append.trans ((or_congr notified kicked).trans ?_)
    rw [early_removed]
    constructor
    · rintro (early | rfl)
      · exact ⟨target, readTarget, .inr early⟩
      · exact ⟨u, readTarget, .inl rfl⟩
    · rintro ⟨target', readTarget', gone⟩
      cases Except.ok.inj (readTarget.symm.trans readTarget')
      exact gone.symm
  | deleteGroup after pushes =>
    subst after pushes
    have pushed := fun v => @refreshed_push env { s with db := storageDeleteConversation s.db k } u v
      connected online
    rw [refreshed_flatMap]
    constructor
    · rintro ⟨v, listed, refreshed⟩
      cases (pushed v).mp refreshed
      exact mem_convParticipants.mp listed
    · intro early
      exact ⟨u, mem_convParticipants.mpr early, (pushed u).mpr rfl⟩

/- The two tables agree on everything but conversation `key`. -/
structure AgreeBut (key : Int) (db db' : Database) : Prop where
  users : db'.users = db.users
  participants : ∀ q : ParticipantRow → Bool, (∀ r, q r = true → r.convId ≠ key) →
    db'.participants.rows.filter q = db.participants.rows.filter q
  conversations : db'.conversations.entries.filter (fun e => e.rowid ≠ key) =
    db.conversations.entries.filter fun e => e.rowid ≠ key

def userRows (db : Database) (u : UInt32) : List (Entry ConversationRow × ParticipantRow) :=
  (join (fun c p => c.rowid = p.convId) db.conversations.entries db.participants.rows).filter
    fun r => r.2.userId = bindInt u

theorem userRows_apart {db : Database} {key : Int}
    (absent : ∀ r ∈ db.participants.rows, r.convId = key → r.userId ≠ bindInt u) :
    userRows db u = join (fun c p => c.rowid = p.convId)
      (db.conversations.entries.filter fun e => e.rowid ≠ key)
      (db.participants.rows.filter fun p => p.userId = bindInt u ∧ p.convId ≠ key) := by
  have own : (db.participants.rows.filter fun p => p.userId = bindInt u) =
      db.participants.rows.filter fun p => p.userId = bindInt u ∧ p.convId ≠ key := by
    apply List.filter_congr
    intro r member
    have other := absent r member
    by_cases user : r.userId = bindInt u
    · have elsewhere : r.convId ≠ key := fun place => other place user
      simp [user, elsewhere]
    · simp [user]
  rw [userRows, filter_join_right (q := fun p : ParticipantRow => p.userId = bindInt u), own]
  apply join_filter_left
  intro e p _ member on
  have place := (of_decide_eq_true (List.mem_filter.mp member).2).2
  rw [of_decide_eq_true on]
  exact decide_eq_true place

theorem AgreeBut.list (agree : AgreeBut (bindInt k) db db')
    (small : ∀ e ∈ db.conversations.entries, 0 ≤ e.rowid ∧ e.rowid < 2 ^ 31)
    (before : ¬ Participant db k u) (after : ¬ Participant db' k u) :
    storageGetUserConversations plan db' u limit = storageGetUserConversations plan db u limit := by
  have absent {d : Database} (out : ¬ Participant d k u) :
      ∀ r ∈ d.participants.rows, r.convId = bindInt k → r.userId ≠ bindInt u := by
    intro r member place user
    exact out ⟨r, List.mem_filter.mpr ⟨member, decide_eq_true place⟩, user⟩
  have rows : userRows db' u = userRows db u := by
    rw [userRows_apart (absent before), userRows_apart (absent after), agree.conversations,
      agree.participants _ fun r selected => (of_decide_eq_true selected).2]
  have summaries : ∀ r ∈ userRows db u,
      conversationSummary plan db' u r = conversationSummary plan db u r := by
    intro r member
    obtain ⟨joined, user⟩ := List.mem_filter.mp member
    obtain ⟨entry, row, on⟩ := mem_join.mp joined
    have bounds := small r.1 entry
    have place : r.1.rowid = r.2.convId := of_decide_eq_true on
    have elsewhere : r.1.rowid ≠ bindInt k := by
      intro same
      exact absent before r.2 row (place.symm.trans same) (of_decide_eq_true user)
    have apart : ∀ p : ParticipantRow,
        decide (p.convId = r.1.rowid ∧ p.userId ≠ bindInt u) = true → p.convId ≠ bindInt k := by
      intro p selected
      rw [(of_decide_eq_true selected).1]
      exact elsewhere
    have others : (join (fun p u => p.userId = u.rowid) db'.participants.rows
          db'.users.entries).filter (fun o => o.1.convId = bindInt (columnInt r.1.rowid) ∧
            o.1.userId ≠ bindInt u) =
        (join (fun p u => p.userId = u.rowid) db.participants.rows db.users.entries).filter
          fun o => o.1.convId = bindInt (columnInt r.1.rowid) ∧ o.1.userId ≠ bindInt u := by
      rw [bindInt_columnInt bounds.1 bounds.2, agree.users,
        filter_join _ fun p : ParticipantRow => p.convId = r.1.rowid ∧ p.userId ≠ bindInt u,
        filter_join _ fun p : ParticipantRow => p.convId = r.1.rowid ∧ p.userId ≠ bindInt u,
        agree.participants _ apart]
    simp only [conversationSummary, others]
  change ((plan.userConversations.arrange (userRows db' u)).take limit).map _ =
    ((plan.userConversations.arrange (userRows db u)).take limit).map _
  rw [rows]
  apply List.map_congr_left
  intro r member
  exact summaries r ((plan.userConversations.mem_arrange).mp (List.mem_of_mem_take member))

theorem agree_updateGroup (db : Database) (k : UInt32) (name desc : CString) :
    AgreeBut (bindInt k) db (storageUpdateGroup db k name desc) := by
  obtain ⟨f, entries, -, kept⟩ := storageUpdateGroup_spec db k name desc
  refine ⟨rfl, fun _ _ => rfl, ?_⟩
  have same : ∀ e, decide ((f e).rowid ≠ bindInt k) = decide (e.rowid ≠ bindInt k) := by
    intro e
    rw [(kept e).1]
  rw [entries, List.filter_map, Function.comp_def]
  simp only [same]
  refine (List.map_congr_left fun e member => ?_).trans (List.map_id _)
  exact (kept e).2.2 (of_decide_eq_true (List.mem_filter.mp member).2)

theorem agree_addParticipant (db : Database) (k target : UInt32) (role : Int) :
    AgreeBut (bindInt k) db (storageAddParticipant db k target role) := by
  refine ⟨rfl, fun q apart => ?_, rfl⟩
  exact Table.filter_insertIgnored _ (Bool.eq_false_iff.mpr fun selected => apart _ selected rfl)

theorem agree_removeParticipant (db : Database) (k target : UInt32) :
    AgreeBut (bindInt k) db (storageRemoveParticipant db k target) := by
  refine ⟨rfl, fun q apart => ?_, rfl⟩
  apply Table.filter_deleteWhere
  intro r _ selected
  simp [apart r selected]

theorem agree_deleteConversation (db : Database) (k : UInt32) :
    AgreeBut (bindInt k) db (storageDeleteConversation db k) := by
  refine ⟨rfl, fun q apart => ?_, ?_⟩
  · apply Table.filter_deleteWhere
    intro r _ selected
    simp [apart r selected]
  · simp only [storageDeleteConversation, AutoTable.deleteWhere, List.filter_filter]
    apply List.filter_congr
    intro e _
    simp

theorem early_of_few (bound : ∀ r ∈ db.participants.rows, ∃ u, r.userId = bindInt u)
    (few : (memberRows db (bindInt k)).length ≤ maxParticipants) :
    Early plan db k u ↔ Participant db k u := by
  rw [← mem_convParticipants, mem_storageGetConvParticipants bound]
  apply exists_congr
  intro r
  rw [mem_firstParticipants_few few]

theorem GroupEdit.agree {type : MessageType} (edit : GroupEdit env s p k t out type) :
    t = s ∨ AgreeBut (bindInt k) s.db t.db := by
  cases edit with
  | refused type same => exact .inl same
  | updateGroup name desc after pushes => exact .inr (after ▸ agree_updateGroup s.db k name desc)
  | addMember fd code target readCode known after pushes =>
    exact .inr (after ▸ agree_addParticipant s.db k target 0)
  | kickMember target readTarget after pushes =>
    exact .inr (after ▸ agree_removeParticipant s.db k target)
  | deleteGroup after pushes => exact .inr (after ▸ agree_deleteConversation s.db k)

theorem GroupEdit.gone {type : MessageType} (edit : GroupEdit env s p k t out type)
    (before : Early env.plan s.db k u ↔ Participant s.db k u)
    (after : Early env.plan t.db k u ↔ Participant t.db k u) (nonzero : u ≠ 0) (moved : t ≠ s)
    (takes : Participant s.db k u ∨ Participant t.db k u) :
    GoneThrough env s.db p k u type := by
  cases edit with
  | refused type same => exact absurd same moved
  | updateGroup name desc edited pushes =>
    subst edited
    have there : Participant s.db k u := takes.elim id id
    exact ⟨nonzero, before.mpr there⟩
  | addMember fd code target readCode known edited pushes =>
    subst edited
    have there : Participant (storageAddParticipant s.db k target 0) k u := by
      rcases takes with ⟨r, selected, user⟩ | there
      · obtain ⟨member, place⟩ := List.mem_filter.mp selected
        exact ⟨r, List.mem_filter.mpr ⟨Table.insertIgnored_keeps _ member, place⟩, user⟩
      · exact there
    exact ⟨nonzero, code, target, readCode, known, early_added.mp (after.mpr there)⟩
  | kickMember target readTarget edited pushes =>
    subst edited
    refine ⟨target, readTarget, ?_⟩
    by_cases kicked : u = target
    · exact .inl kicked
    · have there : Participant (storageRemoveParticipant s.db k target) k u := by
        rcases takes with ⟨r, selected, user⟩ | there
        · obtain ⟨member, place⟩ := List.mem_filter.mp selected
          have stays : r ∈ (storageRemoveParticipant s.db k target).participants.rows := by
            refine List.mem_filter.mpr ⟨member, ?_⟩
            simp [user, kicked]
          exact ⟨r, List.mem_filter.mpr ⟨stays, place⟩, user⟩
        · exact there
      exact .inr ⟨nonzero, early_removed.mp (after.mpr there)⟩
  | deleteGroup edited pushes =>
    subst edited
    rcases takes with there | ⟨r, selected, -⟩
    · exact before.mpr there
    · obtain ⟨member, place⟩ := List.mem_filter.mp selected
      have gone := (List.mem_filter.mp member).2
      simp only [of_decide_eq_true place, decide_true, Bool.not_true] at gone
      cases gone

/-- In a group of at most ten participants, before and after, nobody is left out. -/
theorem small_group_refreshed (reached : Reachable (server P key) s) {fd : Int} {code : UInt32}
    {bytes : List UInt8} {type : MessageType} (listed : getClientByFd fd s.clients = some cli)
    (coded : MessageType.ofCode code = some type) (request : type ∈ groupRequests)
    (stepped : (server P key).step s (.packet fd code bytes env) = some (t, out))
    (readK : readUInt32 (deliver bytes) UpdateGroupPayload.convId = .ok k)
    (admin : storageIsAdmin s.db k cli.uid = true) (ids : s.db.conversations.seq < 2 ^ 31)
    (before : (memberRows s.db (bindInt k)).length ≤ maxParticipants)
    (after : (memberRows t.db (bindInt k)).length ≤ maxParticipants) (nonzero : u ≠ 0)
    (changed : ListChanged env s t u) (online : Online s u) : Refreshed env s t out u := by
  have edit := step_groupEdit listed coded request stepped readK admin
  apply (edit.refreshes (reachable_connected reached) changed online).mpr
  rcases edit.agree with same | agree
  · exact absurd (by rw [same]) changed
  · refine edit.gone (early_of_few (participants_bound reached) before)
      (early_of_few (participants_bound (reached.step stepped)) after) nonzero ?_ ?_
    · rintro rfl
      exact changed rfl
    · by_contra neither
      rw [not_or] at neither
      refine changed (agree.list (fun e he => ?_) neither.1 neither.2)
      have issued := s.db.conversations.issued e he
      omega

/-- Everybody whose list an admin's request changes and who is online is sent the new list
exactly when each of them has one of the first ten rows, or is kicked; and that is so wherever
the group has no more than ten rows before and after. -/
theorem group_change_notified_iff (P : Platform) (key : Key) (s : Server)
    (reached : Reachable (server P key) s) (fd : Int) (code : UInt32) (bytes : List UInt8)
    (env : Env) (cli : Client) (t : Server) (out : List Sent) (type : MessageType) (k : UInt32)
    (listed : getClientByFd fd s.clients = some cli)
    (coded : MessageType.ofCode code = some type) (request : type ∈ groupRequests)
    (stepped : (server P key).step s (.packet fd code bytes env) = some (t, out))
    (readK : readUInt32 (deliver bytes) UpdateGroupPayload.convId = .ok k)
    (admin : storageIsAdmin s.db k cli.uid = true) :
    ((∀ u, ListChanged env s t u → Online s u → Refreshed env s t out u) ↔
      ∀ u, ListChanged env s t u → Online s u → GoneThrough env s.db (deliver bytes) k u type) ∧
    (s.db.conversations.seq < 2 ^ 31 → (memberRows s.db (bindInt k)).length ≤ maxParticipants →
      (memberRows t.db (bindInt k)).length ≤ maxParticipants →
      ∀ u, u ≠ 0 → ListChanged env s t u → Online s u → Refreshed env s t out u) := by
  constructor
  · apply forall_congr'
    intro u
    apply imp_congr_right
    intro changed
    apply imp_congr_right
    intro online
    exact (step_groupEdit listed coded request stepped readK admin).refreshes
      (reachable_connected reached) changed online
  · intro ids before after u nonzero changed online
    exact small_group_refreshed reached listed coded request stepped readK admin ids before after
      nonzero changed online

theorem group_change_notified_iff_kick :
    ∃ t out, recordedServer.step pairState ((serviceKickMember 1 2).event 7 (recordedEnv 4)) =
        some (t, out) ∧
      ∀ u, ListChanged (recordedEnv 4) pairState t u → Online pairState u →
        Refreshed (recordedEnv 4) pairState t out u := by
  have seen : getClientByFd 7 pairState.clients =
        some ⟨7, 1, strncpy maxNameLen (CString.lit "alice"), true⟩ ∧
      (recordedServer.step pairState
        ((serviceKickMember 1 2).event 7 (recordedEnv 4))).isSome ∧
      (∀ c ∈ pairState.clients, c.uid = 1 ∨ c.uid = 2) ∧
      Foremost .scan (rowsWithout pairState.db 1 2) 1 ∧
      storageIsAdmin pairState.db 1 1 = true := by decide +kernel
  obtain ⟨alice, completes, users, early, admin⟩ := seen
  obtain ⟨⟨t, out⟩, stepped⟩ := Option.isSome_iff_exists.mp completes
  refine ⟨t, out, stepped, (group_change_notified_iff recordedPlatform recordedKey _
    (.after pairSession pairSession_completes) 7 _ _ _ _ t out .kickMember 1 alice (by decide)
    (by decide) stepped (by decide +kernel) admin).1.mpr ?_⟩
  rintro u - ⟨c, member, rfl, -⟩
  refine ⟨2, by decide +kernel, ?_⟩
  rcases users c member with one | two
  · rw [one]
    exact .inr ⟨by decide, early⟩
  · exact .inl two

def filledSession : List Event :=
  aliceArrives ++ bobArrives ++
    [(serviceCreateGroup 1 (CString.lit "team") CString.empty
        [4294967280, 4294967281, 4294967282, 4294967283, 4294967284, 4294967285, 4294967286,
          4294967287, 4294967288]).event 7 (recordedEnv 3)]

theorem filledSession_completes :
    (recordedServer.exec recordedServer.start filledSession).isSome := by decide +kernel

abbrev filledState : Server := recordedServer.after filledSession filledSession_completes

theorem eleventh_member_not_told :
    ¬ ∀ (P : Platform) (key : Key) (s : Server), Reachable (server P key) s →
      ∀ (fd : Int) (code : UInt32) (bytes : List UInt8) (env : Env) (cli : Client) (t : Server)
        (out : List Sent) (type : MessageType) (k : UInt32),
      getClientByFd fd s.clients = some cli → cli.isOnline = true →
      MessageType.ofCode code = some type → type ∈ groupRequests →
      (server P key).step s (.packet fd code bytes env) = some (t, out) →
      readUInt32 (deliver bytes) UpdateGroupPayload.convId = .ok k →
      storageIsAdmin s.db k cli.uid = true →
      ∀ u, ListChanged env s t u → Online s u → Refreshed env s t out u := by
  intro claimed
  have seen : getClientByFd 7 filledState.clients =
        some ⟨7, 1, strncpy maxNameLen (CString.lit "alice"), true⟩ ∧
      ⟨8, 2, strncpy maxNameLen (CString.lit "bob"), true⟩ ∈ filledState.clients ∧
      storageIsAdmin filledState.db 1 1 = true ∧
      (recordedServer.step filledState
        ((addMemberRequest 1 (CString.lit "000002")).event 7 (recordedEnv 4))).any fun r =>
          storageGetUserConversations .scan r.1.db 2 50 ≠
              storageGetUserConversations .scan filledState.db 2 50 ∧
            ∀ m ∈ r.2, m.reaches filledState 2 = false := by decide +kernel
  obtain ⟨alice, bob, admin, answered⟩ := seen
  obtain ⟨⟨t, out⟩, stepped, missed⟩ := (Option.any_eq_true _ _).mp answered
  obtain ⟨changed, silent⟩ := of_decide_eq_true missed
  obtain ⟨m, sent, reaches, -⟩ := claimed recordedPlatform recordedKey _
    (.after filledSession filledSession_completes) 7 _ _ _ _ t out .addMember 1 alice rfl (by decide)
    (by decide) stepped (by decide +kernel) admin 2 changed ⟨_, bob, rfl, rfl⟩
  rw [silent m sent] at reaches
  cases reaches

end MoT
