import MoT.Friendship
import MoT.Notifications
import MoT.Payloads

/-! What the server sends of memory that nobody wrote. The structures of a list are filled
in field by field on the stack and then sent as they lie there. -/
namespace MoT
open CMemory Relational Transition

variable {P : Platform} {key : Key} {env : Env} {s t : Server} {cli : Client} {p : Pointer}
  {db : Database} {plan : Plan} {out : List Sent} {u : UInt32} {type : MessageType}

/-- The bytes that go out, when packet `i` is built in memory that held `memory i`. -/
def wire : (Nat → Nat → UInt8) → List Sent → List (Int × MessageType × List UInt8)
  | _, [] => []
  | memory, m :: out =>
    (m.fd, m.packet.type, m.packet.payload (memory 0)) :: wire (fun i => memory (i + 1)) out

theorem wire_const_iff : (∀ memory memory', wire memory out = wire memory' out) ↔
    ∀ m ∈ out, ∀ c ∈ m.packet.cells, c.isSome := by
  induction out with
  | nil => simp [wire]
  | cons m out ih =>
    rw [List.forall_mem_cons, ← ih, ← fill_const_iff]
    constructor
    · intro const
      constructor
      · intro junk junk'
        have heads := (List.cons.inj (const (fun _ => junk) fun _ => junk')).1
        exact (Prod.mk.inj (Prod.mk.inj heads).2).2
      · intro memory memory'
        exact (List.cons.inj (const (fun i => memory (i - 1)) fun i => memory' (i - 1))).2
    · rintro ⟨here, later⟩ memory memory'
      rw [wire, wire, Packet.payload, Packet.payload, here (memory 0) (memory' 0),
        later (fun i => memory (i + 1)) fun i => memory' (i + 1)]

/- Only the summaries of conversations have cells that no branch writes. -/
theorem cells_written {packet : Packet} (other : ∀ list, packet ≠ .respConversations list) :
    ∀ c ∈ packet.cells, c.isSome := by
  intro c member
  cases packet with
  | respConversations list => exact absurd rfl (other list)
  | registerSuccess | registerFail | loginFail | updateSuccess | addReqSent | addFail | memberAdded =>
    cases member
  | loginSuccess info | convCreated id | rteText message | respHistory history =>
    obtain ⟨b, -, rfl⟩ := List.mem_map.mp member
    rfl
  | respContacts list | respRequests list | respMembers list =>
    obtain ⟨x, -, inside⟩ := List.mem_flatMap.mp member
    obtain ⟨b, -, rfl⟩ := List.mem_map.mp inside
    rfl

/-- Both texts of the summary are copied with padding: it is about no private conversation,
and about none without a description. -/
def Padded (r : Entry ConversationRow × ParticipantRow) : Prop :=
  columnInt r.1.row.type ≠ 0 ∧ r.1.row.description ≠ none

instance (r : Entry ConversationRow × ParticipantRow) : Decidable (Padded r) :=
  inferInstanceAs (Decidable (_ ∧ _))

/- An empty string printed into a longer field leaves the rest of it as it was. -/
theorem printField_residue {n : Nat} (long : 1 < n) : none ∈ printField n CString.empty := by
  have slack : n - ((CString.empty.bytes.take (n - 1)).map some ++ [some (0 : UInt8)]).length =
      (n - 2) + 1 := by
    simp
    omega
  rw [printField, slack]
  exact List.mem_append_right _ (List.mem_replicate.mpr ⟨Nat.succ_ne_zero _, rfl⟩)

theorem conversationSummary_written_iff (r : Entry ConversationRow × ParticipantRow) :
    (∀ c ∈ (conversationSummary plan db u r).cells, c.isSome) ↔ Padded r := by
  have split : (∀ c ∈ (conversationSummary plan db u r).cells, c.isSome) ↔
      (∀ c ∈ (conversationSummary plan db u r).name, c.isSome) ∧
        ∀ c ∈ (conversationSummary plan db u r).description, c.isSome := by
    simp [ConversationSummary.cells, or_imp, forall_and]
  have written (n : Nat) (text : CString) : ∀ c ∈ (strncpy n text).toList.map some, c.isSome := by
    intro c member
    obtain ⟨b, -, rfl⟩ := List.mem_map.mp member
    rfl
  rw [split]
  simp only [conversationSummary]
  by_cases secluded : columnInt r.1.row.type = 0
  · simp only [if_pos secluded]
    refine iff_of_false (fun both => ?_) fun padded => padded.1 secluded
    exact absurd (both.2 none (printField_residue (by decide))) (by decide)
  · simp only [if_neg secluded]
    cases described : r.1.row.description with
    | none =>
      refine iff_of_false (fun both => ?_) fun padded => padded.2 described
      exact absurd (both.2 none (printField_residue (by decide))) (by decide)
    | some desc =>
      refine iff_of_true ⟨written _ _, written _ _⟩ ⟨secluded, ?_⟩
      rw [described]
      exact Option.some_ne_none desc

def listedRows (plan : Plan) (db : Database) (u : UInt32) :
    List (Entry ConversationRow × ParticipantRow) :=
  (plan.userConversations.arrange (userRows db u)).take 50

theorem list_written_iff :
    (∀ c ∈ (Packet.respConversations (storageGetUserConversations plan db u 50)).cells, c.isSome) ↔
      ∀ r ∈ listedRows plan db u, Padded r := by
  have list : storageGetUserConversations plan db u 50 =
      (listedRows plan db u).map (conversationSummary plan db u) := rfl
  rw [list, Packet.cells]
  simp only [List.mem_flatMap, List.mem_map, forall_exists_index, and_imp]
  constructor
  · intro written r member
    apply (conversationSummary_written_iff r).mp
    intro c inside
    exact written c _ r member rfl inside
  · rintro padded c _ r member rfl inside
    exact (conversationSummary_written_iff r).mpr (padded r member) c inside

/-- Handling the request makes the server send user `u` its list, built from these tables. -/
inductive Lists (env : Env) (s : Server) (cli : Client) (p : Pointer) :
    MessageType → Database → UInt32 → Prop
  | own : Lists env s cli p .reqConversations s.db cli.uid
  | accepted (answer : UInt8) (target u : UInt32)
      (readAccepted : readByte p DecideRequestPayload.accepted = .ok answer) (yes : answer ≠ 0)
      (readTarget : readUInt32 p DecideRequestPayload.targetUid = .ok target)
      (missing : storageFindPrivateConversation env.plan (storageAddFriendship s.db cli.uid target)
        cli.uid target = 0) (party : u = cli.uid ∨ u = target ∧ Online s u) :
      Lists env s cli p .decideRequest (acceptDb env.plan s.db cli.uid target) u
  | created (convType : UInt8) (uids : List UInt32) (name desc : CString) (u : UInt32)
      (requested : Requested env s p convType uids)
      (readName : readString p CreateConvPayload.name = .ok name)
      (readDesc : readString p CreateConvPayload.description = .ok desc)
      (numbered : 0 < (storageCreateConversation s.db convType name desc uids).2) (named : u ∈ uids)
      (other : u ≠ cli.uid) (online : Online s u) :
      Lists env s cli p .createConv (storageCreateConversation s.db convType name desc uids).1 u
  | updated (k : UInt32) (name desc : CString) (u : UInt32)
      (readK : readUInt32 p UpdateGroupPayload.convId = .ok k)
      (admin : storageIsAdmin s.db k cli.uid = true)
      (readName : readString p UpdateGroupPayload.newName = .ok name)
      (readDesc : readString p UpdateGroupPayload.newDesc = .ok desc)
      (through : GoneThrough env s.db p k u .updateGroup) (online : Online s u) :
      Lists env s cli p .updateGroup (storageUpdateGroup s.db k name desc) u
  | added (k : UInt32) (code : CString) (target u : UInt32)
      (readK : readUInt32 p AddMemberPayload.convId = .ok k)
      (admin : storageIsAdmin s.db k cli.uid = true)
      (readCode : readString p AddMemberPayload.targetFriendCode = .ok code)
      (known : storageGetUidByCode s.db code = some target)
      (through : GoneThrough env s.db p k u .addMember) (online : Online s u) :
      Lists env s cli p .addMember (storageAddParticipant s.db k target 0) u
  | kicked (k target u : UInt32) (readK : readUInt32 p KickMemberPayload.convId = .ok k)
      (admin : storageIsAdmin s.db k cli.uid = true)
      (readTarget : readUInt32 p KickMemberPayload.targetUid = .ok target) (other : target ≠ cli.uid)
      (through : GoneThrough env s.db p k u .kickMember) (online : Online s u) :
      Lists env s cli p .kickMember (storageRemoveParticipant s.db k target) u
  | deleted (k u : UInt32) (readK : readUInt32 p DeleteGroupPayload.convId = .ok k)
      (admin : storageIsAdmin s.db k cli.uid = true)
      (through : GoneThrough env s.db p k u .deleteGroup) (online : Online s u) :
      Lists env s cli p .deleteGroup (storageDeleteConversation s.db k) u

def Carries (out : List Sent) (list : List ConversationSummary) : Prop :=
  ∃ m ∈ out, m.packet = .respConversations list

theorem carries_append {before after : List Sent} {list : List ConversationSummary} :
    Carries (before ++ after) list ↔ Carries before list ∨ Carries after list := by
  simp only [Carries, List.mem_append, or_and_right, exists_or]

theorem carries_flatMap {l : List UInt32} {pushes : UInt32 → List Sent}
    {list : List ConversationSummary} :
    Carries (l.flatMap pushes) list ↔ ∃ v ∈ l, Carries (pushes v) list := by
  simp only [Carries, List.mem_flatMap]
  constructor
  · rintro ⟨m, ⟨v, listed, member⟩, same⟩
    exact ⟨v, listed, m, member, same⟩
  · rintro ⟨v, listed, m, member, same⟩
    exact ⟨m, ⟨v, listed, member⟩, same⟩

theorem carries_push {list : List ConversationSummary} :
    Carries (pushConversations env s u) list ↔
      Online s u ∧ list = storageGetUserConversations env.plan s.db u 50 := by
  rw [pushConversations, Carries]
  rcases pushTo_cases s u (.respConversations (storageGetUserConversations env.plan s.db u 50)) with
    ⟨c, member, uid, online, pushed⟩ | ⟨offline, pushed⟩
  · have here : Online s u := ⟨c, member, uid, online⟩
    simp [pushed, here, eq_comm]
  · simp [pushed, offline]

theorem carries_notify {k : UInt32} {list : List ConversationSummary} :
    Carries (notifyGroupUpdate env s k 0) list ↔ ∃ u, u ≠ 0 ∧ Early env.plan s.db k u ∧
      Online s u ∧ list = storageGetUserConversations env.plan s.db u 50 := by
  rw [notifyGroupUpdate, carries_flatMap]
  constructor
  · rintro ⟨v, listed, carried⟩
    split at carried
    · obtain ⟨m, impossible, -⟩ := carried
      cases impossible
    · rename_i nonzero
      exact ⟨v, nonzero, mem_convParticipants.mp listed, carries_push.mp carried⟩
  · rintro ⟨u, nonzero, early, pushed⟩
    refine ⟨u, mem_convParticipants.mpr early, ?_⟩
    rw [if_neg nonzero]
    exact carries_push.mpr pushed

theorem carries_other {fd : Int} {packet : Packet} {list : List ConversationSummary}
    (other : ∀ list, packet ≠ .respConversations list) :
    Carries (⟨fd, packet⟩ :: out) list ↔ Carries out list := by
  simp [Carries, other list]

theorem carries_pushTo_other {packet : Packet} {list : List ConversationSummary}
    (other : ∀ list, packet ≠ .respConversations list) : ¬ Carries (pushTo s u packet) list := by
  rintro ⟨m, member, same⟩
  rcases pushTo_cases s u packet with ⟨c, -, -, -, pushed⟩ | ⟨-, pushed⟩
  · rw [pushed, List.mem_singleton] at member
    subst member
    exact other list same
  · rw [pushed] at member
    cases member

/-- The lists among the packets are those of `Lists`. -/
def ListsExactly (env : Env) (s : Server) (cli : Client) (p : Pointer) (type : MessageType)
    (out : List Sent) : Prop :=
  ∀ list, Carries out list ↔ ∃ db u, Lists env s cli p type db u ∧
    list = storageGetUserConversations env.plan db u 50

theorem decideRequest_lists (done : handleDecideRequest env s cli p = .ok (t, out)) :
    ListsExactly env s cli p .decideRequest out := by
  obtain ⟨answer, target, readAnswer, readTarget, -, rfl⟩ := handleDecideRequest_ok done
  intro list
  have quiet : Carries ((if answer ≠ 0 then (acceptRequest env s cli target).2 else []) ++
        handleReqContacts env t cli ++ handleGetRequests env t cli ++
        (if answer ≠ 0 then
          pushTo t target (.respContacts (storageGetContactsData env.plan t.db target 50))
        else [])) list ↔
      Carries (if answer ≠ 0 then (acceptRequest env s cli target).2 else []) list := by
    have contacts : ¬ Carries (handleReqContacts env t cli) list := by
      simp [Carries, handleReqContacts]
    have requests : ¬ Carries (handleGetRequests env t cli) list := by
      simp [Carries, handleGetRequests]
    have refresh : ¬ Carries (if answer ≠ 0 then
        pushTo t target (.respContacts (storageGetContactsData env.plan t.db target 50))
        else []) list := by
      split
      · exact carries_pushTo_other (by simp)
      · simp [Carries]
    simp only [carries_append, contacts, requests, refresh, or_false]
  rw [quiet]
  constructor
  · intro carried
    split at carried
    · rename_i yes
      simp only [acceptRequest] at carried
      split at carried
      · rename_i missing
        have db : acceptDb env.plan s.db cli.uid target = (storageCreateConversation
            (storageAddFriendship s.db cli.uid target) convTypePrivate (CString.lit "Private Chat")
            CString.empty [cli.uid, target]).1 := by simp only [acceptDb, if_pos missing]
        rw [← db] at carried
        obtain ⟨m, member, same⟩ := carried
        rcases List.mem_cons.mp member with rfl | pushed
        · cases same
          exact ⟨_, _, .accepted answer target cli.uid readAnswer yes readTarget missing (.inl rfl), rfl⟩
        · obtain ⟨online, rfl⟩ := carries_push.mp ⟨m, pushed, same⟩
          exact ⟨_, _, .accepted answer target target readAnswer yes readTarget missing
            (.inr ⟨rfl, online⟩), rfl⟩
      · obtain ⟨m, impossible, -⟩ := carried
        cases impossible
    · obtain ⟨m, impossible, -⟩ := carried
      cases impossible
  · rintro ⟨db, u, lists, rfl⟩
    cases lists with
    | accepted answer' target' u readAnswer' yes readTarget' missing party =>
      cases Except.ok.inj (readAnswer.symm.trans readAnswer')
      cases Except.ok.inj (readTarget.symm.trans readTarget')
      have db : acceptDb env.plan s.db cli.uid target = (storageCreateConversation
          (storageAddFriendship s.db cli.uid target) convTypePrivate (CString.lit "Private Chat")
          CString.empty [cli.uid, target]).1 := by simp only [acceptDb, if_pos missing]
      rw [if_pos yes, acceptRequest]
      dsimp only
      rw [if_pos missing, ← db]
      rcases party with rfl | ⟨rfl, online⟩
      · exact ⟨_, List.mem_cons_self, rfl⟩
      · obtain ⟨m, pushed, same⟩ := (@carries_push env
          { s with db := acceptDb env.plan s.db cli.uid u } u _).mpr ⟨online, rfl⟩
        exact ⟨m, List.mem_cons_of_mem _ pushed, same⟩

theorem createConv_lists (done : handleCreateConv env s cli p = .ok (t, out)) :
    ListsExactly env s cli p .createConv out := by
  obtain ⟨n, uids, convType, readN, copied, readType, ⟨found, -, rfl⟩ |
    ⟨missing, name, desc, readName, readDesc, rfl, rfl⟩⟩ := handleCreateConv_ok done
  · intro list
    refine iff_of_false (by simp [Carries]) ?_
    rintro ⟨db, u, lists, -⟩
    cases lists with
    | created convType' uids' name desc u requested =>
      obtain ⟨n', readN', copied', readType', missing⟩ := requested
      cases Except.ok.inj (readN.symm.trans readN')
      cases Except.ok.inj (copied.symm.trans copied')
      cases Except.ok.inj (readType.symm.trans readType')
      exact found missing
  · intro list
    rw [carries_other (by simp)]
    constructor
    · intro carried
      split at carried
      · rename_i numbered
        obtain ⟨u, named, pushed⟩ := carries_flatMap.mp carried
        split at pushed
        · obtain ⟨m, impossible, -⟩ := pushed
          cases impossible
        · rename_i other
          obtain ⟨online, rfl⟩ := carries_push.mp pushed
          exact ⟨_, u, .created convType uids name desc u ⟨n, readN, copied, readType, missing⟩
            readName readDesc numbered named other online, rfl⟩
      · obtain ⟨m, impossible, -⟩ := carried
        cases impossible
    · rintro ⟨db, u, lists, rfl⟩
      cases lists with
      | created convType' uids' name' desc' u requested readName' readDesc' numbered named other
          online =>
        obtain ⟨n', readN', copied', readType', -⟩ := requested
        cases Except.ok.inj (readN.symm.trans readN')
        cases Except.ok.inj (copied.symm.trans copied')
        cases Except.ok.inj (readType.symm.trans readType')
        cases Except.ok.inj (readName.symm.trans readName')
        cases Except.ok.inj (readDesc.symm.trans readDesc')
        rw [if_pos numbered]
        refine carries_flatMap.mpr ⟨u, named, ?_⟩
        rw [if_neg other]
        exact carries_push.mpr ⟨online, rfl⟩

theorem updateGroup_lists (done : handleUpdateGroup env s cli p = .ok (t, out)) :
    ListsExactly env s cli p .updateGroup out := by
  obtain ⟨k, readK, ⟨stranger, -, rfl⟩ | ⟨admin, name, desc, readName, readDesc, rfl, rfl⟩⟩ :=
    handleUpdateGroup_ok done
  · intro list
    refine iff_of_false (by simp [Carries]) ?_
    rintro ⟨db, u, lists, -⟩
    cases lists with
    | updated k' name desc u readK' admin =>
      cases Except.ok.inj (readK.symm.trans readK')
      rw [stranger] at admin
      cases admin
  · intro list
    rw [carries_notify]
    constructor
    · rintro ⟨u, nonzero, early, online, rfl⟩
      exact ⟨_, u, .updated k name desc u readK admin readName readDesc ⟨nonzero, early⟩ online, rfl⟩
    · rintro ⟨db, u, lists, rfl⟩
      cases lists with
      | updated k' name' desc' u readK' admin readName' readDesc' through online =>
        cases Except.ok.inj (readK.symm.trans readK')
        cases Except.ok.inj (readName.symm.trans readName')
        cases Except.ok.inj (readDesc.symm.trans readDesc')
        exact ⟨u, through.1, through.2, online, rfl⟩

theorem addMember_lists (done : handleAddMember env s cli p = .ok (t, out)) :
    ListsExactly env s cli p .addMember out := by
  obtain ⟨k, readK, ⟨stranger, -, rfl⟩ | ⟨admin, code, readCode, ⟨unknown, -, rfl⟩ |
    ⟨target, known, rfl, rfl⟩⟩⟩ := handleAddMember_ok done
  · intro list
    refine iff_of_false (by simp [Carries]) ?_
    rintro ⟨db, u, lists, -⟩
    cases lists with
    | added k' code target u readK' admin =>
      cases Except.ok.inj (readK.symm.trans readK')
      rw [stranger] at admin
      cases admin
  · intro list
    refine iff_of_false (by simp [Carries]) ?_
    rintro ⟨db, u, lists, -⟩
    cases lists with
    | added k' code' target u readK' admin readCode' known =>
      cases Except.ok.inj (readCode.symm.trans readCode')
      rw [unknown] at known
      cases known
  · intro list
    rw [carries_other (by simp), carries_notify]
    constructor
    · rintro ⟨u, nonzero, early, online, rfl⟩
      exact ⟨_, u, .added k code target u readK admin readCode known
        ⟨nonzero, code, target, readCode, known, early_added.mp early⟩ online, rfl⟩
    · rintro ⟨db, u, lists, rfl⟩
      cases lists with
      | added k' code' target' u readK' admin readCode' known' through online =>
        cases Except.ok.inj (readK.symm.trans readK')
        cases Except.ok.inj (readCode.symm.trans readCode')
        cases Option.some.inj (known.symm.trans known')
        obtain ⟨nonzero, code', target', readCode', known', early⟩ := through
        cases Except.ok.inj (readCode.symm.trans readCode')
        cases Option.some.inj (known.symm.trans known')
        exact ⟨u, nonzero, early_added.mpr early, online, rfl⟩

theorem kickMember_lists (done : handleKickMember env s cli p = .ok (t, out)) :
    ListsExactly env s cli p .kickMember out := by
  obtain ⟨k, readK, ⟨stranger, -, rfl⟩ | ⟨admin, target, readTarget, ⟨self, -, rfl⟩ |
    ⟨other, rfl, rfl⟩⟩⟩ := handleKickMember_ok done
  · intro list
    refine iff_of_false (by simp [Carries]) ?_
    rintro ⟨db, u, lists, -⟩
    cases lists with
    | kicked k' target u readK' admin =>
      cases Except.ok.inj (readK.symm.trans readK')
      rw [stranger] at admin
      cases admin
  · intro list
    refine iff_of_false (by simp [Carries]) ?_
    rintro ⟨db, u, lists, -⟩
    cases lists with
    | kicked k' target' u readK' admin readTarget' other =>
      cases Except.ok.inj (readTarget.symm.trans readTarget')
      exact other self
  · intro list
    rw [carries_append, carries_notify, carries_push]
    constructor
    · rintro (⟨u, nonzero, early, online, rfl⟩ | ⟨online, rfl⟩)
      · exact ⟨_, u, .kicked k target u readK admin readTarget other
          ⟨target, readTarget, .inr ⟨nonzero, early_removed.mp early⟩⟩ online, rfl⟩
      · exact ⟨_, target, .kicked k target target readK admin readTarget other
          ⟨target, readTarget, .inl rfl⟩ online, rfl⟩
    · rintro ⟨db, u, lists, rfl⟩
      cases lists with
      | kicked k' target' u readK' admin readTarget' other' through online =>
        cases Except.ok.inj (readK.symm.trans readK')
        cases Except.ok.inj (readTarget.symm.trans readTarget')
        obtain ⟨target', readTarget', rfl | ⟨nonzero, early⟩⟩ := through
        · cases Except.ok.inj (readTarget.symm.trans readTarget')
          exact .inr ⟨online, rfl⟩
        · cases Except.ok.inj (readTarget.symm.trans readTarget')
          exact .inl ⟨u, nonzero, early_removed.mpr early, online, rfl⟩

theorem deleteGroup_lists (done : handleDeleteGroup env s cli p = .ok (t, out)) :
    ListsExactly env s cli p .deleteGroup out := by
  obtain ⟨k, readK, ⟨stranger, -, rfl⟩ | ⟨admin, rfl, rfl⟩⟩ := handleDeleteGroup_ok done
  · intro list
    refine iff_of_false (by simp [Carries]) ?_
    rintro ⟨db, u, lists, -⟩
    cases lists with
    | deleted k' u readK' admin =>
      cases Except.ok.inj (readK.symm.trans readK')
      rw [stranger] at admin
      cases admin
  · intro list
    rw [carries_flatMap]
    constructor
    · rintro ⟨u, listed, pushed⟩
      obtain ⟨online, rfl⟩ := carries_push.mp pushed
      exact ⟨_, u, .deleted k u readK admin (mem_convParticipants.mp listed) online, rfl⟩
    · rintro ⟨db, u, lists, rfl⟩
      cases lists with
      | deleted k' u readK' admin through online =>
        cases Except.ok.inj (readK.symm.trans readK')
        exact ⟨u, mem_convParticipants.mpr through, carries_push.mpr ⟨online, rfl⟩⟩

theorem nothing_lists (none : ∀ db u, ¬ Lists env s cli p type db u)
    (quiet : ∀ m ∈ out, ∀ list, m.packet ≠ .respConversations list) :
    ListsExactly env s cli p type out := by
  intro list
  refine iff_of_false ?_ ?_
  · rintro ⟨m, member, same⟩
    exact quiet m member list same
  · rintro ⟨db, u, lists, -⟩
    exact none db u lists

theorem dispatch_lists {code : UInt32} (coded : MessageType.ofCode code = some type)
    (done : dispatch P env s cli code p = .ok (t, out)) : ListsExactly env s cli p type out := by
  simp only [dispatch, coded] at done
  cases type with
  | reqConversations =>
    cases done
    intro list
    constructor
    · rintro ⟨m, member, same⟩
      cases List.mem_singleton.mp member
      cases same
      exact ⟨s.db, cli.uid, .own, rfl⟩
    · rintro ⟨db, u, lists, rfl⟩
      cases lists with
      | own => exact ⟨_, List.mem_singleton_self _, rfl⟩
  | decideRequest => exact decideRequest_lists done
  | createConv => exact createConv_lists done
  | updateGroup => exact updateGroup_lists done
  | addMember => exact addMember_lists done
  | kickMember => exact kickMember_lists done
  | deleteGroup => exact deleteGroup_lists done
  | register =>
    apply nothing_lists (fun _ _ lists => by cases lists)
    obtain ⟨_, _, _, -, -, -, ⟨-, rfl⟩ | ⟨_, _, _, -, -, -, rfl⟩⟩ := handleRegister_ok done <;> simp
  | login =>
    apply nothing_lists (fun _ _ lists => by cases lists)
    obtain ⟨-, rfl⟩ | ⟨u, -, rfl, -⟩ := handleLogin_ok done <;> simp
  | updateUser =>
    apply nothing_lists (fun _ _ lists => by cases lists)
    obtain ⟨_, _, -, -, -, -, rfl⟩ := handleUpdateUser_ok done
    simp
  | sendText =>
    apply nothing_lists (fun _ _ lists => by cases lists)
    obtain ⟨k, text, -, -, rfl, rfl⟩ := handleSendText_ok done
    intro m member list same
    obtain ⟨v, -, pushed⟩ := List.mem_flatMap.mp member
    split at pushed
    · cases pushed
    · exact carries_pushTo_other (by simp) ⟨m, pushed, same⟩
  | reqHistory =>
    apply nothing_lists (fun _ _ lists => by cases lists)
    obtain ⟨_, _, _, -, -, -, -, rfl⟩ := handleReqHistory_ok done
    simp
  | reqMembers =>
    apply nothing_lists (fun _ _ lists => by cases lists)
    obtain ⟨_, -, -, rfl⟩ := handleReqMembers_ok done
    simp
  | reqContacts =>
    apply nothing_lists (fun _ _ lists => by cases lists)
    cases done
    simp [handleReqContacts]
  | getRequests =>
    apply nothing_lists (fun _ _ lists => by cases lists)
    cases done
    simp [handleGetRequests]
  | addByCode =>
    apply nothing_lists (fun _ _ lists => by cases lists)
    obtain ⟨-, rfl, -⟩ | ⟨_, v, _, -, -, -, -, -, rfl⟩ := handleAddByCode_ok done
    · simp
    · intro m member list same
      rcases List.mem_cons.mp member with rfl | pushed
      · cases same
      · exact carries_pushTo_other (by simp) ⟨m, pushed, same⟩
  | _ =>
    cases done
    exact nothing_lists (fun _ _ lists => by cases lists) (by simp)

/-- A text in which `sscanf` finds a number at every place. -/
def Scanned (text : CString) : Prop :=
  ∀ c ∈ hexToBytes (text.bytes.take 32) ++ hexToBytes (text.bytes.drop 32), c.isSome

def HexTexts (db : Database) : Prop := ∀ e ∈ db.messages.entries, Scanned e.row.text

instance (text : CString) : Decidable (Scanned text) :=
  inferInstanceAs (Decidable (∀ c ∈ hexToBytes (text.bytes.take 32) ++
    hexToBytes (text.bytes.drop 32), c.isSome))

instance (db : Database) : Decidable (HexTexts db) :=
  inferInstanceAs (Decidable (∀ e ∈ db.messages.entries, Scanned e.row.text))

theorem settle_const {cells : List Cell} (written : ∀ c ∈ cells, c.isSome)
    (junk junk' : Nat → UInt8) : settle junk cells = settle junk' cells := by
  apply List.ext_getElem?
  intro i
  rw [settle, settle, List.getElem?_mapIdx, List.getElem?_mapIdx]
  cases place : cells[i]? with
  | none => rfl
  | some c =>
    obtain ⟨b, rfl⟩ := Option.isSome_iff_exists.mp (written c (List.mem_of_getElem? place))
    rfl

theorem cryptoDecrypt_const {text : CString} (scanned : Scanned text) (key : Option Key)
    (junk junk' : Nat → UInt8) :
    cryptoDecrypt P key junk text = cryptoDecrypt P key junk' text := by
  have block := settle_const (fun c member => scanned c (List.mem_append_right _ member)) junk junk'
  by_cases short : text.length < 32
  · cases key with
    | none => rfl
    | some k => simp [cryptoDecrypt, short]
  · have places : (hexToBytes (text.bytes.take 32)).length = 16 := by
      have long : 32 ≤ text.bytes.length := Nat.le_of_not_lt short
      rw [hexToBytes, List.length_map, List.length_range, List.length_take, Nat.min_eq_left long]
    have iv : (List.Vector.ofFn fun i : Fin 16 =>
          ((hexToBytes (text.bytes.take 32))[i.val]?.join).getD (junk i.val)) =
        List.Vector.ofFn fun i : Fin 16 =>
          ((hexToBytes (text.bytes.take 32))[i.val]?.join).getD (junk' i.val) := by
      congr 1
      funext i
      have inside : i.val < (hexToBytes (text.bytes.take 32)).length := by
        rw [places]
        exact i.isLt
      obtain ⟨b, cell⟩ := Option.isSome_iff_exists.mp
        (scanned _ (List.mem_append_left _ (List.getElem_mem inside)))
      rw [List.getElem?_eq_getElem inside, cell]
      rfl
    simp only [cryptoDecrypt, iv, block]

theorem storageGetHistory_const (hex : HexTexts db) (key : Option Key) (plan : Plan) (k : UInt32)
    (junk junk' : Nat → UInt8) :
    storageGetHistory P key junk plan db k = storageGetHistory P key junk' plan db k := by
  have scanned : ∀ row ∈ historyRows plan db k, Scanned row.1.row.text := by
    intro row member
    have joined := (orderBy_perm _ _ _).subset (List.mem_of_mem_take member)
    exact hex row.1 (mem_join.mp (List.mem_of_mem_filter joined)).1
  have fold (rows : List HistoryRow) (scanned : ∀ row ∈ rows, Scanned row.1.row.text)
      (state : Option (List Cell) × Nat) : rows.foldlM (historyStep P key junk) state =
        rows.foldlM (historyStep P key junk') state := by
    induction rows generalizing state with
    | nil => rfl
    | cons row rows ih =>
      have first : historyStep P key junk state row = historyStep P key junk' state row := by
        simp only [historyStep, cryptoDecrypt_const (scanned row List.mem_cons_self) key junk junk']
      rw [List.foldlM_cons, List.foldlM_cons, first]
      exact bind_congr fun next => ih (fun r hr => scanned r (List.mem_cons_of_mem _ hr)) next
  rw [storageGetHistory, storageGetHistory, fold _ scanned]

theorem dispatch_const {junk' : Nat → UInt8} (hex : junk' = env.junk ∨ HexTexts s.db) (code : UInt32) :
    dispatch P { env with junk := junk' } s cli code p = dispatch P env s cli code p := by
  rcases hex with rfl | hex
  · rfl
  · unfold dispatch
    cases MessageType.ofCode code with
    | none => rfl
    | some type =>
      cases type with
      | reqHistory =>
        simp only [handleReqHistory,
          storageGetHistory_const hex (some s.masterKey) env.plan _ junk' env.junk]
      | _ => rfl

theorem hexToBytes_written (bs : List UInt8) : ∀ c ∈ hexToBytes (bytesToHex bs), c.isSome := by
  intro c member
  rw [hexToBytes_bytesToHex] at member
  obtain ⟨b, -, rfl⟩ := List.mem_map.mp member
  rfl

theorem cryptoEncrypt_scanned {randBytes : Option Iv} {key : Option Key} {text encrypted : CString}
    (done : cryptoEncrypt P key randBytes text = some encrypted) : Scanned encrypted := by
  obtain ⟨k, -, done⟩ := Option.bind_eq_some_iff.mp done
  obtain ⟨iv, -, done⟩ := Option.bind_eq_some_iff.mp done
  obtain ⟨body, -, done⟩ := Option.bind_eq_some_iff.mp done
  obtain ⟨last, -, done⟩ := Option.bind_eq_some_iff.mp done
  have noNul : 0 ∉ bytesToHex iv.toList ++ bytesToHex (body ++ last) := by
    simp [nul_bytesToHex]
  have whole : encrypted.bytes = bytesToHex iv.toList ++ bytesToHex (body ++ last) := by
    rw [← Option.some.inj done]
    exact congrArg CString.bytes (CString.cut_bytes ⟨_, noNul⟩)
  have ivLength : (bytesToHex iv.toList).length = 32 := by
    rw [bytesToHex_length, iv.toList_length]
  intro c member
  rw [whole, List.take_left' ivLength, List.drop_left' ivLength] at member
  rcases List.mem_append.mp member with first | rest
  · exact hexToBytes_written _ c first
  · exact hexToBytes_written _ c rest

theorem Change.messages {type : Option MessageType} {db' : Database}
    (change : Change P env s cli p type db') {d : Entry MessageRow}
    (member : d ∈ db'.messages.entries) : d ∈ s.db.messages.entries ∨
      ∃ text, cryptoEncrypt P (some s.masterKey) env.randBytes text = some d.row.text := by
  cases change with
  | same | register | addByCode | updateGroup | addMember | kickMember => exact .inl member
  | deleteGroup => exact .inl (List.mem_of_mem_filter member)
  | updateUser newUsername newPassword =>
    obtain ⟨users, updated⟩ :=
      storageUpdateUser_frame P s.db env.salt cli.uid newUsername newPassword
    exact .inl (by simpa [updated] using member)
  | createConv n uids convType name description =>
    obtain ⟨conversations, -, created⟩ :=
      storageCreateConversation_spec s.db convType name description uids
    exact .inl (by simpa [created] using member)
  | decideRequest accepted target =>
    refine .inl ?_
    simp only [decideDb, storageRemoveRequest] at member
    split at member
    · simp only [acceptDb] at member
      split at member
      · obtain ⟨conversations, -, created⟩ := storageCreateConversation_spec
          (storageAddFriendship s.db cli.uid target) convTypePrivate (CString.lit "Private Chat")
          CString.empty [cli.uid, target]
        rw [created] at member
        exact member
      · exact member
    · exact member
  | sendText k text readK =>
    rw [storageLogMessage_entries] at member
    rcases List.mem_append.mp member with old | new
    · exact .inl old
    · obtain ⟨encrypted, done, rfl⟩ := Option.map_eq_some_iff.mp (Option.mem_toList.mp new)
      exact .inr ⟨text, done⟩

theorem reachable_hexTexts (reached : Reachable (server P key) s) : HexTexts s.db := by
  refine reached.invariant (fun s => HexTexts s.db) ?_ ?_
  · intro e he
    cases he
  · intro s e t out before stepped d hd
    rcases step_change stepped with same | ⟨fd, code, bytes, env, cli, -, -, change⟩
    · exact before d (same ▸ hd)
    · rcases change.messages hd with old | ⟨text, encrypted⟩
      · exact before d old
      · exact cryptoEncrypt_scanned encrypted

/-- The bytes that are sent do not depend on what the structures on the stack held before;
nor, where the stored texts are as the server writes them, on the memory of the decryption. -/
def NoResidue (P : Platform) (env : Env) (s : Server) (cli : Client) (code : UInt32)
    (p : Pointer) : Prop :=
  ∀ junk', junk' = env.junk ∨ HexTexts s.db → ∀ t out t' out',
    dispatch P env s cli code p = .ok (t, out) →
    dispatch P { env with junk := junk' } s cli code p = .ok (t', out') →
    ∀ memory memory', wire memory out = wire memory' out'

/-- Nothing of the old memory is sent exactly when every conversation in the lists that the
packet asks for is a group with a description. -/
theorem no_residue_iff (P : Platform) (env : Env) (s : Server) (cli : Client) (code : UInt32)
    (p : Pointer) (t : Server) (out : List Sent)
    (done : dispatch P env s cli code p = .ok (t, out)) :
    NoResidue P env s cli code p ↔ ∀ type, MessageType.ofCode code = some type →
      ∀ db u, Lists env s cli p type db u → ∀ r ∈ listedRows env.plan db u, Padded r := by
  have written : NoResidue P env s cli code p ↔ ∀ m ∈ out, ∀ c ∈ m.packet.cells, c.isSome := by
    rw [← wire_const_iff]
    constructor
    · intro same
      exact same env.junk (.inl rfl) t out t out done done
    · intro const junk' hex t₁ out₁ t₂ out₂ done₁ done₂
      rw [dispatch_const hex] at done₂
      cases done.symm.trans done₁
      cases done.symm.trans done₂
      exact const
  rw [written]
  constructor
  · intro cells type coded db u lists
    obtain ⟨m, member, same⟩ := (dispatch_lists coded done _).mpr ⟨db, u, lists, rfl⟩
    have list := cells m member
    rw [same] at list
    exact list_written_iff.mp list
  · intro padded m member
    by_cases list : ∃ list, m.packet = .respConversations list
    · obtain ⟨list, same⟩ := list
      cases coded : MessageType.ofCode code with
      | none =>
        simp only [dispatch, coded] at done
        cases done
        cases member
      | some type =>
        obtain ⟨db, u, lists, rfl⟩ := (dispatch_lists coded done list).mp ⟨m, member, same⟩
        rw [same]
        exact list_written_iff.mpr (padded type coded db u lists)
    · exact cells_written fun list' same => list ⟨list', same⟩

theorem no_residue_iff_pair :
    NoResidue recordedPlatform (recordedEnv 4) pairState
      ⟨7, 1, strncpy maxNameLen (CString.lit "alice"), true⟩ MessageType.reqConversations.code
      none := by
  have padded : ∀ r ∈ listedRows .scan pairState.db 1, Padded r := by decide +kernel
  refine (no_residue_iff _ _ _ _ _ _ _ _ rfl).mpr fun type coded db u lists => ?_
  cases Option.some.inj coded
  cases lists with
  | own => exact padded

/-- Names and texts end within their fields. -/
def FieldLimits (db : Database) : Prop :=
  (∀ e ∈ db.users.entries, e.row.username.length < maxNameLen ∧ e.row.email.length < maxEmailLen) ∧
  ∀ e ∈ db.conversations.entries, e.row.name.length < convNameLen ∧
    ∀ desc ∈ e.row.description, desc.length < maxDescLen

instance (db : Database) : Decidable (FieldLimits db) := inferInstanceAs (Decidable (_ ∧ _))

/- Alice and Bob are friends, and Alice asks for her list. -/
theorem private_summary_leaks :
    ¬ ∀ (P : Platform) (env : Env) (s : Server) (cli : Client) (code : UInt32) (p : Pointer),
      FieldLimits s.db → NoResidue P env s cli code p := by
  intro claimed
  have limits : FieldLimits acceptedState.db := by decide +kernel
  have same := claimed recordedPlatform (recordedEnv 5) acceptedState
    ⟨7, 1, strncpy maxNameLen (CString.lit "alice"), true⟩ MessageType.reqConversations.code none
    limits (recordedEnv 5).junk (.inl rfl) _ _ _ _ rfl rfl (fun _ _ => 0) fun _ _ => 1
  have differ : wire (fun _ _ => 0) (handleReqConversations (recordedEnv 5) acceptedState
        ⟨7, 1, strncpy maxNameLen (CString.lit "alice"), true⟩) ≠
      wire (fun _ _ => 1) (handleReqConversations (recordedEnv 5) acceptedState
        ⟨7, 1, strncpy maxNameLen (CString.lit "alice"), true⟩) := by decide +kernel
  exact differ same

end MoT
