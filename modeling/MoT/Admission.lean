import MoT.Acceptance
import MoT.Notifications

/-! The tables as the past of a run tells them. Each row that can go again is there because
of a packet that brought it, with no packet since that takes it away. -/
namespace MoT
open CMemory Relational Transition

variable {P : Platform} {key : Key} {env : Env} {s t : Server} {cli : Client} {p : Pointer}
  {db db' : Database} {out : List Sent} {type : Option MessageType} {past : List ServerMoment}
  {m : ServerMoment} {k : UInt32}

def Decides (m : ServerMoment) (r u : UInt32) : Prop :=
  ∃ p env, Sends m .decideRequest r p env ∧ readUInt32 p DecideRequestPayload.targetUid = .ok u

theorem Change.requests_kept (change : Change P env s cli p type db') {row : RequestRow}
    (member : row ∈ s.db.requests.rows) :
    row ∈ db'.requests.rows ∨ ∃ target, type = some .decideRequest ∧
      readUInt32 p DecideRequestPayload.targetUid = .ok target ∧
      row = ⟨bindInt target, bindInt cli.uid⟩ := by
  cases change with
  | same | register | updateGroup | addMember | kickMember | deleteGroup => exact .inl member
  | updateUser newUsername newPassword =>
    obtain ⟨users, updated⟩ :=
      storageUpdateUser_frame P s.db env.salt cli.uid newUsername newPassword
    exact .inl (by simpa [updated] using member)
  | sendText k text readK =>
    obtain ⟨messages, logged⟩ := storageLogMessage_frame P (some s.masterKey) env.randBytes env.now
      s.db k cli.uid text
    exact .inl (by simpa [logged] using member)
  | createConv => exact .inl (by simpa using member)
  | addByCode code target requests readCode known distinct inserted =>
    rw [Table.insert?_rows inserted]
    exact .inl (List.mem_append_left _ member)
  | decideRequest accepted target readAccepted readTarget =>
    by_cases named : row = ⟨bindInt target, bindInt cli.uid⟩
    · exact .inr ⟨target, rfl, readTarget, named⟩
    · left
      have other : ¬ (row.senderId = bindInt target ∧ row.receiverId = bindInt cli.uid) := by
        rintro ⟨sender, receiver⟩
        exact named (by rw [← sender, ← receiver])
      have stays : row ∈ (if accepted ≠ 0 then acceptDb env.plan s.db cli.uid target
          else s.db).requests.rows := by
        split
        · rw [acceptDb_requests]
          exact member
        · exact member
      exact List.mem_filter.mpr ⟨stays, by simpa [imp_iff_not_or] using other⟩

theorem decides_removes {r u : UInt32} (valid : m.Valid (server P key)) (decides : Decides m r u) :
    ¬ Pending m.after u r := by
  obtain ⟨p, env, ⟨fd, code, bytes, cli, event, listed, rfl, type, rfl⟩, readU⟩ := decides
  have handled := (handleEvent_of_step valid).2
  rw [event] at handled
  simp only [handleEvent, listed, dispatch, type] at handled
  obtain ⟨accepted, u', -, readU', after, -⟩ := handleDecideRequest_ok handled
  cases Except.ok.inj (readU.symm.trans readU')
  intro pending
  rw [Pending, after] at pending
  have kept := (List.mem_filter.mp pending).2
  simp at kept

theorem pending_step {e : Event} (stepped : (server P key).step s e = some (t, out))
    (a b : UInt32) :
    Pending t a b ↔ (Asks ⟨s, e, t, out⟩ a b ∧ a ≠ b) ∨
      Pending s a b ∧ ¬ Decides ⟨s, e, t, out⟩ b a := by
  constructor
  · intro pending
    have undecided : ¬ Decides ⟨s, e, t, out⟩ b a := fun decides =>
      decides_removes (m := ⟨s, e, t, out⟩) stepped decides pending
    rcases step_requests stepped pending with old | ⟨u, v, asks, distinct, row⟩
    · exact .inr ⟨old, undecided⟩
    · obtain ⟨sender, receiver⟩ := RequestRow.mk.inj row
      cases bindInt_inj sender
      cases bindInt_inj receiver
      exact .inl ⟨asks, distinct⟩
  · rintro (⟨asks, distinct⟩ | ⟨pending, undecided⟩)
    · exact asks_pending (m := ⟨s, e, t, out⟩) stepped asks distinct
    · rcases step_change stepped with same | ⟨fd, code, bytes, env, cli, rfl, listed, change⟩
      · rw [Pending, same]
        exact pending
      · rcases change.requests_kept pending with stays | ⟨target, coded, readTarget, row⟩
        · exact stays
        · obtain ⟨sender, receiver⟩ := RequestRow.mk.inj row
          cases bindInt_inj sender
          have decides : Decides ⟨s, .packet fd code bytes env, t, out⟩ b a :=
            ⟨_, env, ⟨fd, code, bytes, cli, rfl, listed, (bindInt_inj receiver).symm, coded, rfl⟩,
              readTarget⟩
          exact absurd decides undecided

theorem pending_told (run : Run (server P key) past s) (a b : UInt32) :
    Pending s a b ↔ Since (fun m => Asks m a b ∧ a ≠ b) (fun m => Decides m b a) past :=
  run.since_iff (fun _ _ => True) (fun s => Pending s a b) (fun m => Asks m a b ∧ a ≠ b)
    (fun m => Decides m b a) (by simp [server, storageInit, Pending])
    (fun _ _ _ _ _ _ _ => trivial) (fun _ _ _ _ _ _ stepped _ => pending_step stepped a b) trivial

theorem contact_step {e : Event} (reached : Reachable (server P key) s)
    (stepped : (server P key).step s e = some (t, out)) (a b : UInt32) :
    Contact t a b ↔ (a ≠ b ∧ (Accepts ⟨s, e, t, out⟩ a b ∨ Accepts ⟨s, e, t, out⟩ b a)) ∨
      Contact s a b ∧ ¬ False := by
  rw [not_false_iff, and_true]
  constructor
  · intro contact
    rcases step_contacts stepped with same | ⟨r, u, accepts, rows⟩
    · exact .inr (by rwa [Contact, same] at contact)
    · have distinct : a ≠ b := by
        rintro rfl
        exact contact_irrefl (reached.step stepped) _ contact
      rw [Contact, rows, storageAddFriendship_rows] at contact
      split at contact
      · exact .inr contact
      · rcases List.mem_append.mp contact with old | new
        · exact .inr old
        · simp only [List.mem_cons, ContactRow.mk.injEq, bindInt_eq_iff, List.not_mem_nil,
            or_false] at new
          rcases new with ⟨rfl, rfl⟩ | ⟨rfl, rfl⟩
          · exact .inl ⟨distinct, .inl accepts⟩
          · exact .inl ⟨distinct, .inr accepts⟩
  · rintro (⟨distinct, accepts | accepts⟩ | old)
    · have rows := accepts_contacts (m := ⟨s, e, t, out⟩) stepped accepts
      rw [Contact, rows]
      exact (storageAddFriendship_both reached distinct).1
    · have rows := accepts_contacts (m := ⟨s, e, t, out⟩) stepped accepts
      rw [Contact, rows]
      exact (storageAddFriendship_both reached distinct.symm).2
    · rcases step_contacts stepped with same | ⟨r, u, -, rows⟩
      · rwa [Contact, same]
      · rw [Contact, rows]
        exact mem_storageAddFriendship s.db r u old

theorem contact_told (run : Run (server P key) past s) (a b : UInt32) :
    Contact s a b ↔
      Since (fun m => a ≠ b ∧ (Accepts m a b ∨ Accepts m b a)) (fun _ => False) past :=
  run.since_iff (fun _ _ => True) (fun s => Contact s a b) _ (fun _ => False)
    (by simp [server, storageInit, Contact]) (fun _ _ _ _ _ _ _ => trivial)
    (fun _ _ _ _ _ before stepped _ => contact_step before.reachable stepped a b) trivial

/-- A request of `a` to `b` is pending exactly when `a` has asked `b`, with a friend code of
`b`, and `b` has not decided about `a` since; two users are contacts exactly when they differ
and one of them has accepted the other. -/
theorem friendship_told (P : Platform) (key : Key) (past : List ServerMoment) (s : Server)
    (run : Run (server P key) past s) (a b : UInt32) :
    (Pending s a b ↔ ∃ later m earlier, past = later ++ m :: earlier ∧ (Asks m a b ∧ a ≠ b) ∧
      ∀ n ∈ later, ¬ Decides n b a) ∧
    (Contact s a b ↔ a ≠ b ∧ ∃ m ∈ past, Accepts m a b ∨ Accepts m b a) := by
  rw [pending_told run, contact_told run, since_iff_exists, since_iff_exists]
  refine ⟨Iff.rfl, ?_⟩
  constructor
  · rintro ⟨later, m, earlier, rfl, ⟨distinct, accepts⟩, -⟩
    exact ⟨distinct, m, by simp, accepts⟩
  · rintro ⟨distinct, m, member, accepts⟩
    obtain ⟨later, earlier, rfl⟩ := List.append_of_mem member
    exact ⟨later, m, earlier, rfl, ⟨distinct, accepts⟩, by simp⟩

theorem friendship_told_accepted :
    ¬ Pending (recordedServer.history acceptedSession acceptedSession_recorded).2 1 2 ∧
      ∃ m ∈ (recordedServer.history acceptedSession acceptedSession_recorded).1,
        Accepts m 1 2 ∨ Accepts m 2 1 := by
  have told := friendship_told recordedPlatform recordedKey _ _
    (.history acceptedSession acceptedSession_recorded) 1 2
  have seen : ¬ Pending (recordedServer.history acceptedSession acceptedSession_recorded).2 1 2 ∧
      Contact (recordedServer.history acceptedSession acceptedSession_recorded).2 1 2 := by
    unfold Pending Contact
    decide +kernel
  exact ⟨seen.1, (told.2.mp seen.2).2⟩

/-- In moment `m` conversation `k` is made for these users, on demand or with a friendship. -/
def Founds (m : ServerMoment) (k : Int) (uids : List UInt32) : Prop :=
  ∃ fd code bytes env cli convType, m.event = .packet fd code bytes env ∧
    getClientByFd fd m.before.clients = some cli ∧
    Origin env m.before cli (deliver bytes) (MessageType.ofCode code) convType uids ∧
    k = m.before.db.conversations.seq + 1

def Adds (m : ServerMoment) (k u : UInt32) : Prop :=
  ∃ uid p env code, Sends m .addMember uid p env ∧
    readUInt32 p AddMemberPayload.convId = .ok k ∧ storageIsAdmin m.before.db k uid = true ∧
    readString p AddMemberPayload.targetFriendCode = .ok code ∧
    storageGetUidByCode m.before.db code = some u

def Kicks (m : ServerMoment) (k u : UInt32) : Prop :=
  ∃ uid p env, Sends m .kickMember uid p env ∧
    readUInt32 p KickMemberPayload.convId = .ok k ∧ storageIsAdmin m.before.db k uid = true ∧
    readUInt32 p KickMemberPayload.targetUid = .ok u ∧ u ≠ uid

def Deletes (m : ServerMoment) (k : UInt32) : Prop :=
  ∃ uid p env, Sends m .deleteGroup uid p env ∧
    readUInt32 p DeleteGroupPayload.convId = .ok k ∧ storageIsAdmin m.before.db k uid = true

def Admits (m : ServerMoment) (k u : UInt32) : Prop :=
  (∃ uids, Founds m (bindInt k) uids ∧ u ∈ uids) ∨ Adds m k u

def Expels (m : ServerMoment) (k u : UInt32) : Prop := Kicks m k u ∨ Deletes m k

/-- One packet, as the participants see it. -/
inductive MemberChange (env : Env) (s : Server) (cli : Client) (p : Pointer)
    (packetType : Option MessageType) (db' : Database) : Prop where
  | kept (same : db'.participants = s.db.participants)
  | founded (convType : UInt8) (uids : List UInt32) (made : Made s.db convType uids db')
      (origin : Origin env s cli p packetType convType uids)
  | added (k target : UInt32) (code : CString) (request : packetType = some .addMember)
      (readK : readUInt32 p AddMemberPayload.convId = .ok k)
      (admin : storageIsAdmin s.db k cli.uid = true)
      (readCode : readString p AddMemberPayload.targetFriendCode = .ok code)
      (known : storageGetUidByCode s.db code = some target)
      (after : db' = storageAddParticipant s.db k target 0)
  | kicked (k target : UInt32) (request : packetType = some .kickMember)
      (readK : readUInt32 p KickMemberPayload.convId = .ok k)
      (admin : storageIsAdmin s.db k cli.uid = true)
      (readTarget : readUInt32 p KickMemberPayload.targetUid = .ok target)
      (other : target ≠ cli.uid) (after : db' = storageRemoveParticipant s.db k target)
  | deleted (k : UInt32) (request : packetType = some .deleteGroup)
      (readK : readUInt32 p DeleteGroupPayload.convId = .ok k)
      (admin : storageIsAdmin s.db k cli.uid = true)
      (after : db' = storageDeleteConversation s.db k)

theorem decideDb_members (plan : Plan) (db : Database) (uid target : UInt32) (accepted : UInt8) :
    (decideDb plan db uid target accepted).participants = db.participants ∨ accepted ≠ 0 ∧
      storageFindPrivateConversation plan db uid target = 0 := by
  by_cases makes : accepted ≠ 0 ∧ storageFindPrivateConversation plan db uid target = 0
  · exact .inr makes
  · left
    simp only [decideDb, storageRemoveRequest]
    split
    · rename_i yes
      have found : ¬ storageFindPrivateConversation plan (storageAddFriendship db uid target) uid
          target = 0 := fun missing => makes ⟨yes, missing⟩
      simp only [acceptDb, if_neg found]
      rfl
    · rfl

theorem dispatch_members {code : UInt32} (done : dispatch P env s cli code p = .ok (t, out)) :
    MemberChange env s cli p (MessageType.ofCode code) t.db := by
  have change := dispatch_change done
  generalize coded : MessageType.ofCode code = type at change ⊢
  generalize after : t.db = db' at change ⊢
  cases change with
  | same | register | addByCode => exact .kept rfl
  | updateUser newUsername newPassword =>
    obtain ⟨users, updated⟩ :=
      storageUpdateUser_frame P s.db env.salt cli.uid newUsername newPassword
    exact .kept (by rw [updated])
  | sendText k text readK =>
    obtain ⟨messages, logged⟩ := storageLogMessage_frame P (some s.masterKey) env.randBytes env.now
      s.db k cli.uid text
    exact .kept (by rw [logged])
  | updateGroup => exact .kept rfl
  | createConv n uids type name description readN copied readType missing =>
    exact .founded type uids (storageCreateConversation_made s.db type name description uids)
      (.requested type uids ⟨n, readN, copied, readType, missing⟩)
  | decideRequest accepted target readAccepted readTarget =>
    rcases decideDb_members env.plan s.db cli.uid target accepted with same | ⟨yes, missing⟩
    · exact .kept same
    · exact .founded _ _ (decideDb_made env.plan s.db yes missing)
        (.accepted accepted target readAccepted yes readTarget missing)
  | addMember =>
    rw [← after]
    simp only [dispatch, coded] at done
    obtain ⟨k, readK, ⟨-, rfl, -⟩ | ⟨admin, code, readCode, ⟨-, rfl, -⟩ |
      ⟨target, known, rfl, -⟩⟩⟩ := handleAddMember_ok done
    · exact .kept rfl
    · exact .kept rfl
    · exact .added k target code rfl readK admin readCode known rfl
  | kickMember =>
    rw [← after]
    simp only [dispatch, coded] at done
    obtain ⟨k, readK, ⟨-, rfl, -⟩ | ⟨admin, target, readTarget, ⟨-, rfl, -⟩ |
      ⟨other, rfl, -⟩⟩⟩ := handleKickMember_ok done
    · exact .kept rfl
    · exact .kept rfl
    · exact .kicked k target rfl readK admin readTarget other rfl
  | deleteGroup =>
    rw [← after]
    simp only [dispatch, coded] at done
    obtain ⟨k, readK, ⟨-, rfl, -⟩ | ⟨admin, rfl, -⟩⟩ := handleDeleteGroup_ok done
    · exact .kept rfl
    · exact .deleted k rfl readK admin rfl

theorem participant_iff {k u : UInt32} : Participant db k u ↔ ∃ role,
    ⟨bindInt k, bindInt u, role⟩ ∈ db.participants.rows := by
  constructor
  · rintro ⟨⟨conv, user, role⟩, selected, rfl⟩
    obtain ⟨member, same⟩ := List.mem_filter.mp selected
    rw [decide_eq_true_eq] at same
    dsimp only at same
    exact ⟨role, same ▸ member⟩
  · rintro ⟨role, member⟩
    exact ⟨_, List.mem_filter.mpr ⟨member, decide_eq_true rfl⟩, rfl⟩

theorem participant_congr {k u : UInt32} (same : db'.participants = db.participants) :
    Participant db' k u ↔ Participant db k u := by
  rw [participant_iff, participant_iff, same]

theorem participant_added {k u k' target : UInt32} :
    Participant (storageAddParticipant db k' target 0) k u ↔
      (k = k' ∧ u = target) ∨ Participant db k u := by
  rw [participant_iff, participant_iff]
  constructor
  · rintro ⟨role, member⟩
    rcases Table.mem_insertIgnored member with old | new
    · exact .inr ⟨role, old⟩
    · obtain ⟨conv, user, -⟩ := ParticipantRow.mk.inj new
      exact .inl ⟨bindInt_inj conv, bindInt_inj user⟩
  · rintro (⟨rfl, rfl⟩ | ⟨role, member⟩)
    · rcases Table.insertIgnored_rows db.participants ⟨bindInt k, bindInt u, 0⟩ with
        rows | ⟨rows, ⟨conv, user, role⟩, member, clashing⟩
      · exact ⟨0, rows ▸ List.mem_append_right _ List.mem_cons_self⟩
      · simp only [ParticipantRow.clash, Bool.and_eq_true, beq_iff_eq] at clashing
        exact ⟨role, rows ▸ clashing.1 ▸ clashing.2 ▸ member⟩
    · exact ⟨role, Table.insertIgnored_keeps _ member⟩

theorem participant_removed {k u k' target : UInt32} :
    Participant (storageRemoveParticipant db k' target) k u ↔
      Participant db k u ∧ ¬ (k = k' ∧ u = target) := by
  rw [participant_iff, participant_iff]
  simp [storageRemoveParticipant, Table.deleteWhere_rows, imp_iff_not_or]

theorem participant_deleted {k u k' : UInt32} :
    Participant (storageDeleteConversation db k') k u ↔ Participant db k u ∧ k ≠ k' := by
  rw [participant_iff, participant_iff]
  simp [storageDeleteConversation, Table.deleteWhere_rows]

theorem participant_founded {k u : UInt32} {convType : UInt8} {uids : List UInt32}
    (numbered : Numbered db) (made : Made db convType uids db')
    (small : db'.conversations.seq < 2 ^ 31) :
    Participant db' k u ↔
      (bindInt k = db.conversations.seq + 1 ∧ u ∈ uids) ∨ Participant db k u := by
  by_cases new : bindInt k = db.conversations.seq + 1
  · have joined := made.joined_iff numbered small u
    rw [← new] at joined
    constructor
    · intro member
      exact .inl ⟨new, joined.mp member⟩
    · rintro (⟨-, named⟩ | old)
      · exact joined.mpr named
      · -- nobody takes part in a conversation before it is made
        obtain ⟨role, member⟩ := participant_iff.mp old
        obtain ⟨k', same, low, high⟩ := numbered.named _ member
        cases bindInt_inj same
        rcases bindInt_cases k with plain | negative <;> omega
  · constructor
    · intro member
      obtain ⟨role, row⟩ := participant_iff.mp member
      rw [made.participants] at row
      rcases Table.mem_insertEach row with old | inserted
      · exact .inr (participant_iff.mpr ⟨role, old⟩)
      · have started := db.conversations.started
        have seq := made.seq
        have conv : bindInt k = bindInt (columnInt (db.conversations.seq + 1)) :=
          (mem_participantRows inserted).1
        rw [bindInt_columnInt (by omega) (by omega)] at conv
        exact absurd conv new
    · rintro (⟨same, -⟩ | old)
      · exact absurd same new
      · obtain ⟨role, member⟩ := participant_iff.mp old
        refine participant_iff.mpr ⟨role, ?_⟩
        rw [made.participants]
        exact Table.insertEach_keeps _ member

theorem expels_removes {k u : UInt32} (valid : m.Valid (server P key)) (expels : Expels m k u) :
    ¬ Participant m.after.db k u := by
  have handled := (handleEvent_of_step valid).2
  rcases expels with ⟨uid, p, env, ⟨fd, code, bytes, cli, event, listed, rfl, type, rfl⟩, readK,
    admin, readU, other⟩ | ⟨uid, p, env, ⟨fd, code, bytes, cli, event, listed, rfl, type, rfl⟩,
    readK, admin⟩
  · rw [event] at handled
    simp only [handleEvent, listed, dispatch, type] at handled
    obtain ⟨k', readK', ⟨stranger, -⟩ | ⟨-, u', readU', ⟨self, -⟩ | ⟨-, after, -⟩⟩⟩ :=
      handleKickMember_ok handled
    · cases Except.ok.inj (readK.symm.trans readK')
      exact absurd (admin.symm.trans stranger) (by decide)
    · cases Except.ok.inj (readU.symm.trans readU')
      exact absurd self other
    · cases Except.ok.inj (readK.symm.trans readK')
      cases Except.ok.inj (readU.symm.trans readU')
      rw [after, participant_removed]
      exact fun still => still.2 ⟨rfl, rfl⟩
  · rw [event] at handled
    simp only [handleEvent, listed, dispatch, type] at handled
    obtain ⟨k', readK', ⟨stranger, -⟩ | ⟨-, after, -⟩⟩ := handleDeleteGroup_ok handled
    · cases Except.ok.inj (readK.symm.trans readK')
      exact absurd (admin.symm.trans stranger) (by decide)
    · cases Except.ok.inj (readK.symm.trans readK')
      rw [after, participant_deleted]
      exact fun still => still.2 rfl

theorem admits_joins {k u : UInt32} (reached : Reachable (server P key) m.before)
    (valid : m.Valid (server P key)) (small : m.after.db.conversations.seq < 2 ^ 31)
    (admits : Admits m k u) : Participant m.after.db k u := by
  have handled := (handleEvent_of_step valid).2
  rcases admits with ⟨uids, ⟨fd, code, bytes, env, cli, convType, event, listed, origin, new⟩,
    named⟩ | ⟨uid, p, env, friendCode, ⟨fd, code, bytes, cli, event, listed, rfl, type, rfl⟩,
    readK, admin, readCode, known⟩
  · rw [event] at handled
    simp only [handleEvent, listed] at handled
    have before := lt_of_le_of_lt (step_seq_le valid) small
    have numbered := reachable_numbered reached (lt_trans before (by decide))
    exact (participant_founded numbered (origin.made handled) small).mpr (.inl ⟨new, named⟩)
  · rw [event] at handled
    simp only [handleEvent, listed, dispatch, type] at handled
    obtain ⟨k', readK', ⟨stranger, -⟩ | ⟨-, code', readCode', ⟨unknown, -⟩ |
      ⟨target, known', after, -⟩⟩⟩ := handleAddMember_ok handled
    · cases Except.ok.inj (readK.symm.trans readK')
      exact absurd (admin.symm.trans stranger) (by decide)
    · cases Except.ok.inj (readCode.symm.trans readCode')
      exact absurd (known.symm.trans unknown) (by simp)
    · cases Except.ok.inj (readK.symm.trans readK')
      cases Except.ok.inj (readCode.symm.trans readCode')
      cases Option.some.inj (known.symm.trans known')
      rw [after, participant_added]
      exact .inl ⟨rfl, rfl⟩

theorem participant_step {e : Event} (reached : Reachable (server P key) s)
    (stepped : (server P key).step s e = some (t, out)) (small : t.db.conversations.seq < 2 ^ 31)
    (k u : UInt32) :
    Participant t.db k u ↔ Admits ⟨s, e, t, out⟩ k u ∨
      Participant s.db k u ∧ ¬ Expels ⟨s, e, t, out⟩ k u := by
  have handled := (handleEvent_of_step stepped).2
  constructor
  · intro member
    have stays : ¬ Expels ⟨s, e, t, out⟩ k u := fun expels =>
      expels_removes (m := ⟨s, e, t, out⟩) stepped expels member
    rcases step_change stepped with same | ⟨fd, code, bytes, env, cli, rfl, listed, -⟩
    · exact .inr ⟨same ▸ member, stays⟩
    · simp only [handleEvent, listed] at handled
      generalize coded : MessageType.ofCode code = type
      have change := dispatch_members handled
      rw [coded] at change
      cases change with
      | kept same => exact .inr ⟨(participant_congr same).mp member, stays⟩
      | founded convType uids made origin =>
        have before := lt_of_le_of_lt (step_seq_le stepped) small
        have numbered := reachable_numbered reached (lt_trans before (by decide))
        rcases (participant_founded numbered made small).mp member with ⟨new, named⟩ | old
        · exact .inl (.inl ⟨uids, ⟨fd, code, bytes, env, cli, convType, rfl, listed,
            coded ▸ origin, new⟩, named⟩)
        · exact .inr ⟨old, stays⟩
      | added k' target friendCode request readK admin readCode known after =>
        rw [after, participant_added] at member
        rcases member with ⟨rfl, rfl⟩ | old
        · exact .inl (.inr ⟨cli.uid, _, env, friendCode,
            ⟨fd, code, bytes, cli, rfl, listed, rfl, coded.trans request, rfl⟩, readK, admin,
            readCode, known⟩)
        · exact .inr ⟨old, stays⟩
      | kicked k' target request readK admin readTarget other after =>
        rw [after, participant_removed] at member
        exact .inr ⟨member.1, stays⟩
      | deleted k' request readK admin after =>
        rw [after, participant_deleted] at member
        exact .inr ⟨member.1, stays⟩
  · rintro (admits | ⟨member, stays⟩)
    · exact admits_joins (m := ⟨s, e, t, out⟩) reached stepped small admits
    · rcases step_change stepped with same | ⟨fd, code, bytes, env, cli, rfl, listed, -⟩
      · rw [same]
        exact member
      · simp only [handleEvent, listed] at handled
        generalize coded : MessageType.ofCode code = type
        have change := dispatch_members handled
        rw [coded] at change
        cases change with
        | kept same => exact (participant_congr same).mpr member
        | founded convType uids made origin =>
          have before := lt_of_le_of_lt (step_seq_le stepped) small
          have numbered := reachable_numbered reached (lt_trans before (by decide))
          exact (participant_founded numbered made small).mpr (.inr member)
        | added k' target friendCode request readK admin readCode known after =>
          rw [after, participant_added]
          exact .inr member
        | kicked k' target request readK admin readTarget other after =>
          rw [after, participant_removed]
          refine ⟨member, ?_⟩
          rintro ⟨rfl, rfl⟩
          exact stays (.inl ⟨cli.uid, _, env,
            ⟨fd, code, bytes, cli, rfl, listed, rfl, coded.trans request, rfl⟩, readK, admin,
            readTarget, other⟩)
        | deleted k' request readK admin after =>
          rw [after, participant_deleted]
          refine ⟨member, ?_⟩
          rintro rfl
          exact stays (.inr ⟨cli.uid, _, env,
            ⟨fd, code, bytes, cli, rfl, listed, rfl, coded.trans request, rfl⟩, readK, admin⟩)

/-- With conversation ids below 2^31 a user takes part in a conversation exactly when the
conversation was made for them or its admin added them, and its admin has neither kicked them
nor deleted it since. -/
theorem participant_iff_admitted (P : Platform) (key : Key) (past : List ServerMoment) (s : Server)
    (run : Run (server P key) past s) (small : s.db.conversations.seq < 2 ^ 31) (k u : UInt32) :
    Participant s.db k u ↔ ∃ later m earlier, past = later ++ m :: earlier ∧ Admits m k u ∧
      ∀ n ∈ later, ¬ Expels n k u := by
  have told := run.since_iff (fun _ s => s.db.conversations.seq < 2 ^ 31)
    (fun s => Participant s.db k u) (fun m => Admits m k u) (fun m => Expels m k u) ?_ ?_ ?_ small
  · rw [told, since_iff_exists]
  · simp [server, storageInit, participant_iff]
  · intro past s e t out stepped small
    exact lt_of_le_of_lt (step_seq_le stepped) small
  · intro past s e t out before stepped small
    exact participant_step before.reachable stepped small k u

theorem participant_iff_admitted_group :
    (∃ later m earlier, (recordedServer.history groupSession groupSession_recorded).1 =
      later ++ m :: earlier ∧ Admits m 2 1 ∧ ∀ n ∈ later, ¬ Expels n 2 1) ∧
    ¬ ∃ later m earlier, (recordedServer.history groupSession groupSession_recorded).1 =
      later ++ m :: earlier ∧ Admits m 2 2 ∧ ∀ n ∈ later, ¬ Expels n 2 2 := by
  have told (u : UInt32) := participant_iff_admitted recordedPlatform recordedKey _ _
    (.history groupSession groupSession_recorded) (by decide +kernel) 2 u
  have seen : Participant (recordedServer.history groupSession groupSession_recorded).2.db 2 1 ∧
      ¬ Participant (recordedServer.history groupSession groupSession_recorded).2.db 2 2 := by
    unfold Participant
    decide +kernel
  exact ⟨(told 1).mp seen.1, fun claimed => seen.2 ((told 2).mpr claimed)⟩

end MoT
