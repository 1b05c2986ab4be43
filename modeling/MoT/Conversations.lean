import MoT.Notifications
import MoT.Unread
import MoT.Contacts

/-! The conversations that a client shows. A user who comes into a conversation or out of it is
sent the list, or told to ask for it, as long as the server goes through all the participants. The
client skips an empty list: somebody who has lost the last conversation goes on seeing it. -/
namespace MoT
open CMemory Relational Transition

variable {P : Platform} {key : Key} {env : Env} {allocates : Nat → Bool} {fd : Int}
  {uid u k : UInt32} {db db' : Database} {out : List Sent} {s t : Server} {cli : Client}
  {p : Pointer} {e : Event} {plan : Plan}

/-- Only conversations that the user takes part in, none of them twice, and all of them where
there are less than fifty. -/
structure Shows (db : Database) (uid : UInt32) (shown : List UInt32) : Prop where
  once : shown.Nodup
  own : ∀ k ∈ shown, Participant db k uid
  all : shown.length < 50 → ∀ k, Participant db k uid → k ∈ shown

theorem Shows.congr {shown : List UInt32} (is : Shows db uid shown)
    (same : ∀ k, Participant db' k uid ↔ Participant db k uid) : Shows db' uid shown where
  once := is.once
  own k member := (same k).mpr (is.own k member)
  all few k there := is.all few k ((same k).mp there)

/-- All ids are below 2^31, and no conversation has more participants than a handler reads. -/
structure Roomy (db : Database) : Prop where
  ids : db.conversations.seq < 2 ^ 31
  few : ∀ r ∈ db.participants.rows, (memberRows db r.convId).length ≤ maxParticipants

instance (db : Database) : Decidable (Roomy db) :=
  decidable_of_iff (db.conversations.seq < 2 ^ 31 ∧
    ∀ r ∈ db.participants.rows, (memberRows db r.convId).length ≤ maxParticipants)
    ⟨fun ⟨ids, few⟩ => ⟨ids, few⟩, fun room => ⟨room.ids, room.few⟩⟩

theorem Roomy.members (room : Roomy db) (k : UInt32) :
    (memberRows db (bindInt k)).length ≤ maxParticipants := by
  cases rows : memberRows db (bindInt k) with
  | nil => exact Nat.zero_le _
  | cons r rest =>
    have member : r ∈ memberRows db (bindInt k) := rows ▸ List.mem_cons_self
    obtain ⟨row, place⟩ := List.mem_filter.mp member
    rw [← rows, ← of_decide_eq_true place]
    exact room.few r row

def attended (db : Database) (uid : UInt32) : List UInt32 :=
  (userRows db uid).map fun x => columnInt x.1.rowid

theorem mem_userRows {x : Entry ConversationRow × ParticipantRow} (found : x ∈ userRows db uid) :
    x.1 ∈ db.conversations.entries ∧ x.2 ∈ db.participants.rows ∧ x.1.rowid = x.2.convId ∧
      x.2.userId = bindInt uid := by
  obtain ⟨joined, user⟩ := List.mem_filter.mp found
  obtain ⟨conv, row, same⟩ := mem_join.mp joined
  exact ⟨conv, row, of_decide_eq_true same, of_decide_eq_true user⟩

theorem rowid_kept (small : db.conversations.seq < 2 ^ 31) {c : Entry ConversationRow}
    (member : c ∈ db.conversations.entries) : bindInt (columnInt c.rowid) = c.rowid := by
  have issued := db.conversations.issued c member
  exact bindInt_columnInt (by omega) (by omega)

theorem attended_nodup (small : db.conversations.seq < 2 ^ 31) (uid : UInt32) :
    (attended db uid).Nodup := by
  have rows : (userRows db uid).Nodup :=
    (join_nodup db.conversations.nodup (db.participants.nodup ParticipantRow.clash_self)).filter _
  refine (List.nodup_map_iff_inj_on rows).mpr fun x foundX y foundY same => ?_
  obtain ⟨convX, rowX, placeX, userX⟩ := mem_userRows foundX
  obtain ⟨convY, rowY, placeY, userY⟩ := mem_userRows foundY
  have rowid : x.1.rowid = y.1.rowid := by
    rw [← rowid_kept small convX, ← rowid_kept small convY, same]
  have clash : ParticipantRow.clash x.2 y.2 = true := by
    simp [ParticipantRow.clash, ← placeX, ← placeY, rowid, userX, userY]
  exact Prod.ext (db.conversations.eq_of_rowid convX convY rowid)
    (db.participants.eq_of_clash ParticipantRow.clash_comm rowX rowY clash)

theorem mem_attended (membership : Membership db) (small : db.conversations.seq < 2 ^ 31) :
    k ∈ attended db uid ↔ Participant db k uid := by
  rw [attended, List.mem_map]
  constructor
  · rintro ⟨x, found, rfl⟩
    obtain ⟨conv, row, place, user⟩ := mem_userRows found
    refine ⟨x.2, List.mem_filter.mpr ⟨row, decide_eq_true ?_⟩, user⟩
    rw [rowid_kept small conv, place]
  · rintro ⟨r, selected, user⟩
    obtain ⟨row, place⟩ := List.mem_filter.mp selected
    obtain ⟨c, conv, same⟩ := membership.placed r row
    refine ⟨(c, r), List.mem_filter.mpr ⟨mem_join.mpr ⟨conv, row, decide_eq_true same⟩,
      decide_eq_true user⟩, ?_⟩
    rw [same, of_decide_eq_true place, columnInt_bindInt]

theorem conversations_shown (membership : Membership db) (small : db.conversations.seq < 2 ^ 31)
    (plan : Plan) (uid : UInt32) :
    Shows db uid ((storageGetUserConversations plan db uid 50).map ConversationSummary.convId) := by
  have ids : (storageGetUserConversations plan db uid 50).map ConversationSummary.convId =
      ((plan.userConversations.arrange (userRows db uid)).take 50).map
        fun x => columnInt x.1.rowid := by
    rw [storageGetUserConversations, List.map_map]
    rfl
  obtain ⟨part, length⟩ := plan.userConversations.page (.refl (attended db uid)) 50
  rw [ids]
  refine ⟨?_, fun k member => (mem_attended membership small).mp (part.subset member), ?_⟩
  · obtain ⟨front, perm, sub⟩ := part
    exact perm.nodup_iff.mp ((attended_nodup small uid).sublist sub)
  · intro few k there
    have whole : (attended db uid).length ≤ (((plan.userConversations.arrange
        (userRows db uid)).take 50).map fun x => columnInt x.1.rowid).length := by omega
    have perm := part.perm_of_length_le whole
    exact perm.mem_iff.mpr ((mem_attended membership small).mpr there)

/-- The user is sent the list, or told to ask for it. -/
def Notified (fd : Int) (out : List Sent) : Prop :=
  (∃ list, ⟨fd, .respConversations list⟩ ∈ out) ∨ ∃ k, ⟨fd, .convCreated k⟩ ∈ out

theorem Seated.listed (seated : Seated s fd uid) (env : Env) (single : SingleSession s fd uid)
    (pushes : ∀ m ∈ pushConversations env s uid, m ∈ out) : Notified fd out :=
  .inl ⟨_, pushes _ (seated.pushed single _)⟩

theorem mem_notifyGroupUpdate (bound : ∀ r ∈ t.db.participants.rows, ∃ u, r.userId = bindInt u)
    (room : Roomy t.db) (nonzero : uid ≠ 0) (there : Participant t.db k uid) :
    ∀ m ∈ pushConversations env t uid, m ∈ notifyGroupUpdate env t k 0 := by
  intro m pushed
  have early : Early env.plan t.db k uid := (early_of_few bound (room.members k)).mpr there
  rw [notifyGroupUpdate]
  refine List.mem_flatMap.mpr ⟨uid, mem_convParticipants.mpr early, ?_⟩
  rw [if_neg nonzero]
  exact pushed

theorem acceptRequest_lists {target : UInt32}
    (missing : storageFindPrivateConversation env.plan s.db cli.uid target = 0) :
    (acceptRequest env s cli target).2 =
      ⟨cli.fd, .respConversations (storageGetUserConversations env.plan
        (acceptDb env.plan s.db cli.uid target) cli.uid 50)⟩ ::
      pushConversations env { s with db := acceptDb env.plan s.db cli.uid target } target := by
  have same : storageFindPrivateConversation env.plan
      (storageAddFriendship s.db cli.uid target) cli.uid target = 0 := missing
  simp only [acceptRequest, acceptDb, if_pos same]

theorem handleCreateConv_notified {convType : UInt8} {uids : List UInt32} (member : cli ∈ s.clients)
    (small : t.db.conversations.seq < 2 ^ 31) (requested : Requested env s p convType uids)
    (handled : handleCreateConv env s cli p = .ok (t, out)) (seated : Seated t fd uid)
    (single : SingleSession t fd uid) (named : uid ∈ uids) : Notified fd out := by
  obtain ⟨n, readN, copied, readType, missing⟩ := requested
  obtain ⟨n', uids', type', readN', copied', readType', result⟩ := handleCreateConv_ok handled
  cases Except.ok.inj (readN.symm.trans readN')
  cases Except.ok.inj (copied.symm.trans copied')
  cases Except.ok.inj (readType.symm.trans readType')
  rcases result with ⟨existing, -⟩ | ⟨-, name, description, -, -, after, sent⟩
  · exact absurd missing existing
  · by_cases self : uid = cli.uid
    · have clients : t.clients = s.clients := by rw [after]
      have here := single cli (clients ▸ member) self.symm
      rw [sent, here]
      exact .inr ⟨_, List.mem_cons_self⟩
    · have made := storageCreateConversation_made s.db convType name description uids
      obtain ⟨conversations, -, created⟩ :=
        storageCreateConversation_spec s.db convType name description uids
      have started := s.db.conversations.started
      have seq := made.seq
      simp only [after] at small
      have id := columnInt_toNat (i := s.db.conversations.seq + 1) (by omega) (by omega)
      have positive : (storageCreateConversation s.db convType name description uids).2 > 0 := by
        have nonzero : 0 < (columnInt (s.db.conversations.seq + 1)).toNat := by omega
        rw [created]
        exact UInt32.lt_iff_toNat_lt.mpr nonzero
      refine seated.listed env single fun m pushed => ?_
      rw [sent, if_pos positive]
      refine List.mem_cons_of_mem _ (List.mem_flatMap.mpr ⟨uid, named, ?_⟩)
      rw [if_neg self]
      exact pushed

theorem handleDecideRequest_notified {accepted : UInt8} {target : UInt32}
    (readAccepted : readByte p DecideRequestPayload.accepted = .ok accepted) (yes : accepted ≠ 0)
    (readTarget : readUInt32 p DecideRequestPayload.targetUid = .ok target)
    (missing : storageFindPrivateConversation env.plan s.db cli.uid target = 0)
    (member : cli ∈ s.clients) (handled : handleDecideRequest env s cli p = .ok (t, out))
    (seated : Seated t fd uid) (single : SingleSession t fd uid)
    (named : uid ∈ [cli.uid, target]) : Notified fd out := by
  obtain ⟨accepted', target', readAccepted', readTarget', after, sent⟩ :=
    handleDecideRequest_ok handled
  cases Except.ok.inj (readAccepted.symm.trans readAccepted')
  cases Except.ok.inj (readTarget.symm.trans readTarget')
  have lists := acceptRequest_lists missing
  have chat : ∀ m ∈ (acceptRequest env s cli target).2, m ∈ out := by
    intro m pushed
    rw [sent, if_pos yes, List.append_assoc, List.append_assoc]
    exact List.mem_append_left _ pushed
  subst after
  rw [lists] at chat
  rcases List.mem_cons.mp named with rfl | named
  · have here := single cli member rfl
    exact .inl ⟨_, here ▸ chat _ List.mem_cons_self⟩
  · cases List.mem_singleton.mp named
    have there : Seated { s with db := acceptDb env.plan s.db cli.uid uid } fd uid := seated
    exact there.listed env single fun m pushed => chat m (List.mem_cons_of_mem _ pushed)

theorem founds_notified {code : UInt32} {convType : UInt8} {uids : List UInt32}
    (member : cli ∈ s.clients) (small : t.db.conversations.seq < 2 ^ 31)
    (origin : Origin env s cli p (MessageType.ofCode code) convType uids)
    (handled : dispatch P env s cli code p = .ok (t, out)) (seated : Seated t fd uid)
    (single : SingleSession t fd uid) (named : uid ∈ uids) : Notified fd out := by
  generalize coded : MessageType.ofCode code = type at origin
  cases origin with
  | requested convType uids requested =>
    simp only [dispatch, coded] at handled
    exact handleCreateConv_notified member small requested handled seated single named
  | accepted accepted target readAccepted yes readTarget missing =>
    simp only [dispatch, coded] at handled
    exact handleDecideRequest_notified readAccepted yes readTarget missing member handled seated
      single named

theorem admits_notified (reached : Reachable (server P key) s)
    (stepped : (server P key).step s e = some (t, out)) (room : Roomy t.db) (nonzero : uid ≠ 0)
    (seated : Seated t fd uid) (single : SingleSession t fd uid)
    (admits : Admits ⟨s, e, t, out⟩ k uid) : Notified fd out := by
  have joined := admits_joins (m := ⟨s, e, t, out⟩) reached stepped room.ids admits
  have handled := (handleEvent_of_step stepped).2
  rcases admits with ⟨uids, ⟨fd', code, bytes, env, cli, convType, rfl, listed, origin, -⟩, named⟩ |
    ⟨-, p, env, friendCode, ⟨fd', code, bytes, cli, rfl, listed, rfl, type, rfl⟩, readK, admin,
      readCode, known⟩
  · simp only [handleEvent, listed] at handled
    exact founds_notified (getClientByFd_some listed).1 room.ids origin handled seated single named
  · dsimp only at readK admin readCode known joined
    simp only [handleEvent, listed, dispatch, type] at handled
    obtain ⟨k', readK', ⟨stranger, -⟩ | ⟨-, code', readCode', ⟨unknown, -⟩ |
      ⟨target, known', after, sent⟩⟩⟩ := handleAddMember_ok handled
    · cases Except.ok.inj (readK.symm.trans readK')
      exact absurd (admin.symm.trans stranger) (by decide)
    · cases Except.ok.inj (readCode.symm.trans readCode')
      exact absurd (known.symm.trans unknown) (by simp)
    · cases Except.ok.inj (readK.symm.trans readK')
      refine seated.listed env single fun m pushed => ?_
      rw [sent]
      exact List.mem_cons_of_mem _ (mem_notifyGroupUpdate
        (participants_bound (reached.step stepped)) room nonzero joined m pushed)

theorem expels_notified (reached : Reachable (server P key) s)
    (stepped : (server P key).step s e = some (t, out)) (room : Roomy s.db)
    (seated : Seated t fd uid) (single : SingleSession t fd uid)
    (there : Participant s.db k uid) (expels : Expels ⟨s, e, t, out⟩ k uid) : Notified fd out := by
  have handled := (handleEvent_of_step stepped).2
  rcases expels with ⟨-, p, env, ⟨fd', code, bytes, cli, rfl, listed, rfl, type, rfl⟩, readK, admin,
    readU, other⟩ | ⟨-, p, env, ⟨fd', code, bytes, cli, rfl, listed, rfl, type, rfl⟩, readK, admin⟩
  · dsimp only at readK admin readU other
    simp only [handleEvent, listed, dispatch, type] at handled
    obtain ⟨k', readK', ⟨stranger, -⟩ | ⟨-, u', readU', ⟨self, -⟩ | ⟨-, -, sent⟩⟩⟩ :=
      handleKickMember_ok handled
    · cases Except.ok.inj (readK.symm.trans readK')
      exact absurd (admin.symm.trans stranger) (by decide)
    · cases Except.ok.inj (readU.symm.trans readU')
      exact absurd self other
    · cases Except.ok.inj (readU.symm.trans readU')
      refine seated.listed env single fun m pushed => ?_
      rw [sent]
      exact List.mem_append_right _ pushed
  · dsimp only at readK admin
    simp only [handleEvent, listed, dispatch, type] at handled
    obtain ⟨k', readK', ⟨stranger, -⟩ | ⟨-, -, sent⟩⟩ := handleDeleteGroup_ok handled
    · cases Except.ok.inj (readK.symm.trans readK')
      exact absurd (admin.symm.trans stranger) (by decide)
    · cases Except.ok.inj (readK.symm.trans readK')
      have early : Early env.plan s.db k uid :=
        (early_of_few (participants_bound reached) (room.members k)).mpr there
      refine seated.listed env single fun m pushed => ?_
      rw [sent]
      exact List.mem_flatMap.mpr ⟨uid, mem_convParticipants.mpr early, pushed⟩

/-- A step leaves the user in the same conversations, or tells the user. -/
theorem step_notified (reached : Reachable (server P key) s)
    (stepped : (server P key).step s e = some (t, out)) (before : Roomy s.db) (after : Roomy t.db)
    (nonzero : uid ≠ 0) (seated : Seated t fd uid) (single : SingleSession t fd uid) :
    (∀ k, Participant t.db k uid ↔ Participant s.db k uid) ∨ Notified fd out := by
  by_cases told : Notified fd out
  · exact .inr told
  · left
    intro k
    have stays (there : Participant s.db k uid) : ¬ Expels ⟨s, e, t, out⟩ k uid := fun expels =>
      told (expels_notified reached stepped before seated single there expels)
    have unadmitted : ¬ Admits ⟨s, e, t, out⟩ k uid := fun admits =>
      told (admits_notified reached stepped after nonzero seated single admits)
    rw [participant_step reached stepped after.ids]
    exact ⟨fun now => (now.resolve_left unadmitted).1, fun there => .inr ⟨there, stays there⟩⟩

theorem sent_conversations (reached : Reachable (server P key) s)
    (stepped : (server P key).step s e = some (t, out)) (seated : Seated t fd uid)
    {list : List ConversationSummary} (sent : ⟨fd, .respConversations list⟩ ∈ out) :
    ∃ plan, list = storageGetUserConversations plan t.db uid 50 := by
  have distinct := (reachable_connected (reached.step stepped)).distinct
  have handled := (handleEvent_of_step stepped).2
  cases e with
  | connect | disconnect =>
    cases handled
    cases sent
  | packet fd' code bytes env =>
    simp only [handleEvent] at handled
    split at handled
    · cases handled
      cases sent
    · rename_i cli listed
      obtain ⟨c, there, same, -, rightful⟩ :=
        dispatch_addressed reached (getClientByFd_some listed).1 handled sent
      obtain ⟨d, found, user, -⟩ := seated
      have here := getClientByFd_of_mem distinct there
      rw [same] at here
      cases found.symm.trans here
      exact ⟨env.plan, user ▸ rightful⟩

theorem refetch_lists {r : Request} (refetch : Refetch r) (seated : Seated s fd uid)
    (stepped : (server P key).step s (r.event fd env) = some (t, out)) : Notified fd out := by
  obtain ⟨c, found, -, -⟩ := seated
  have handled := (handleEvent_of_step stepped).2
  simp only [Request.event, handleEvent, found, dispatch, MessageType.ofCode_code,
    show r.1 = _ from refetch] at handled
  cases handled
  rw [← (getClientByFd_some found).2]
  exact .inl ⟨_, List.mem_singleton.mpr rfl⟩

def shownConversations (app : AppState) : List UInt32 :=
  (listed app).map ConversationSummary.convId

/-- What a packet tells about the conversations; an empty list tells nothing. -/
def conversationsOf : Packet → Option (List UInt32)
  | .respConversations list =>
    if list = [] then none else some (list.map ConversationSummary.convId)
  | _ => none

/- A list that comes over whole. -/
structure Portable (list : List ConversationSummary) : Prop where
  few : list.length ≤ 50
  sizes : ∀ c ∈ list, c.name.length = convNameLen ∧ c.description.length = maxDescLen

theorem storageGetUserConversations_portable (plan : Plan) (db : Database) (uid : UInt32) :
    Portable (storageGetUserConversations plan db uid 50) where
  few := by
    rw [storageGetUserConversations, List.length_map]
    exact List.length_take_le 50 _
  sizes c member := by
    obtain ⟨x, -, rfl⟩ := List.mem_map.mp member
    exact ⟨conversationSummary_name_length plan db uid x,
      conversationSummary_description_length plan db uid x⟩

section Client

variable {junk : Nat → UInt8} {packet : Packet} {app app' : AppState} {c d : MainState} {ch : Int}
  {prompts : Prompts} {list : List ConversationSummary}

theorem arrived_ids (portable : Portable list) (junk : Nat → UInt8) :
    (arrivedConversations junk (.respConversations list)).map ConversationSummary.convId =
      list.map ConversationSummary.convId := by
  have read := arrived_read portable.sizes
    (lt_of_le_of_lt (Nat.mul_le_mul_right _ portable.few) (by decide)) junk
  generalize arrivedConversations junk (.respConversations list) = array at read ⊢
  clear portable
  induction read with
  | nil => rfl
  | cons same _ ih => rw [List.map_cons, List.map_cons, same.convId, ih]

theorem counted_ids {n : Nat} {conversations counted : List ConversationSummary}
    (done : countUnread k n conversations = .ok counted) :
    (counted.take n).map ConversationSummary.convId =
      (conversations.take n).map ConversationSummary.convId := by
  rcases countUnread_cases done with ⟨-, rfl⟩ | ⟨front, c, back, split, -, -, counts⟩
  · rfl
  · rw [counts, split, List.map_append, List.map_append, List.map_cons, List.map_cons]

theorem read_ids (conversations : List ConversationSummary) (i : Nat) :
    (conversations.modify i fun c => { c with unreadCount := 0 }).map ConversationSummary.convId =
      conversations.map ConversationSummary.convId := by
  apply List.ext_getElem?
  intro j
  rw [List.getElem?_map, List.getElem?_map, List.getElem?_modify]
  cases conversations[j]? with
  | none => rfl
  | some c =>
    dsimp only [Option.map_eq_map, Option.map_some]
    split <;> rfl

theorem received_conversations {sent : List Request}
    (portable : ∀ list, packet = .respConversations list → Portable list)
    (received : networkThreadOn allocates junk packet app = .ok (app', sent)) :
    shownConversations app' = (conversationsOf packet).getD (shownConversations app) := by
  have effect := networkThreadOn_list received
  cases packet with
  | respConversations list =>
    have ids := arrived_ids (portable list rfl) junk
    by_cases nothing : list = []
    · subst nothing
      cases received
      rfl
    · rw [conversationsOf, if_neg nothing, Option.getD_some, ← ids]
      cases effect with
      | replaced arrived => rw [shownConversations, arrived]
      | nothing silent same =>
        rw [silent, List.map_nil] at ids
        exact absurd (List.map_eq_nil_iff.mp ids.symm) nothing
      | same same other here => exact absurd rfl (other list)
  | rteText message =>
    cases effect with
    | counted closed counted after =>
      rw [shownConversations, after, counted_ids counted]
      rfl
    | same same other here =>
      rw [shownConversations, same]
      rfl
  | _ =>
    cases effect with
    | same same other here =>
      rw [shownConversations, same]
      rfl

theorem handleKey_conversations {turn : Turn}
    (pressed : handleKey allocates ch prompts c = .ok turn) :
    shownConversations turn.state.toAppState = shownConversations c.toAppState := by
  by_cases opens : c.currentState = .home ∧ Enter ch
  · rw [handleKey_enter opens.1 opens.2] at pressed
    rcases openSelected_list pressed with ⟨-, rfl⟩ | ⟨selected, -, read, -, -⟩
    · rfl
    · rw [shownConversations, read, read_ids]
      rfl
  · rw [shownConversations, (handleKey_leavesConversations opens turn pressed).1]
    rfl

def headlines : ClientEvent → Option (List UInt32)
  | .receive _ packet => conversationsOf packet
  | .draw | .key _ _ => none

theorem clientStep_conversations {e : ClientEvent} {sent : List Request}
    (portable : ∀ junk list, e = .receive junk (.respConversations list) → Portable list)
    (stepped : clientStep allocates c e = some (d, sent)) :
    shownConversations d.toAppState = (headlines e).getD (shownConversations c.toAppState) := by
  cases clientStep_effect stepped with
  | draws drawing =>
    rw [shownConversations, (render_list c).1]
    rfl
  | silent reading => rfl
  | pressed reading pressed =>
    exact handleKey_conversations (c := { c with needsRedraw := true }) pressed
  | @received junk packet app sent received =>
    exact received_conversations (fun list same => portable junk list (same ▸ rfl)) received

theorem convCreated_refetches {sent : List Request} {k : UInt32}
    (received : networkThreadOn allocates junk (.convCreated k) app = .ok (app', sent)) :
    serviceReqConversations ∈ sent := by
  cases received
  exact List.mem_singleton.mpr rfl

end Client

/-- What the client will show when it has taken all that is on its way. -/
def awaited (l : Link) : List UInt32 :=
  settled (fun m => conversationsOf m.packet) (shownConversations l.client.toAppState) l.toClient

/-- Unless the list is asked for or about to be, it comes to be what the table has. -/
structure Updated (P : Platform) (key : Key) (fd : Int) (uid : UInt32) (l : Link) : Prop
    extends Present P key fd uid l where
  portable : ∀ m ∈ l.toClient, ∀ list, m.packet = .respConversations list → Portable list
  full : (∀ r ∈ l.toServer, ¬ Refetch r) → (∀ m ∈ l.toClient, ∀ k, m.packet ≠ .convCreated k) →
    (∃ k, Participant l.server.db k uid) → Shows l.server.db uid (awaited l)

section Links

variable {l l' : Link}

theorem Updated.moved {c : ClientEvent} {client : MainState} {sent : List Request}
    {toClient : List Incoming} (updated : Updated P key fd uid l)
    (stepped : clientStep allocates l.client c = some (client, sent))
    (fewer : ∀ m ∈ toClient, m ∈ l.toClient)
    (portable : ∀ junk list, c = .receive junk (.respConversations list) → Portable list)
    (same : settled (fun m => conversationsOf m.packet)
      ((headlines c).getD (shownConversations l.client.toAppState)) toClient = awaited l)
    (asks : (∀ r ∈ sent, ¬ Refetch r) → (∀ m ∈ toClient, ∀ k, m.packet ≠ .convCreated k) →
      ∀ m ∈ l.toClient, ∀ k, m.packet ≠ .convCreated k) :
    Updated P key fd uid { l with
      client := client, toClient := toClient, toServer := l.toServer ++ sent } where
  toPresent := updated.toPresent.moved stepped toClient
  portable m member := updated.portable m (fewer m member)
  full unasked uncreated attends := by
    have still : awaited { l with
        client := client, toClient := toClient, toServer := l.toServer ++ sent } = awaited l := by
      rw [awaited]
      dsimp only
      rw [clientStep_conversations portable stepped, same]
    rw [still]
    refine updated.full (fun r old => unasked r (List.mem_append_left _ old)) ?_ attends
    exact asks (fun r new => unasked r (List.mem_append_right _ new)) uncreated

theorem mem_inbox_of_sent {packet : Packet} (about : UInt32) (sent : ⟨fd, packet⟩ ∈ out) :
    ∃ m ∈ inbox fd about out, m.packet = packet :=
  ⟨_, List.mem_map.mpr ⟨_, List.mem_filter.mpr ⟨sent, decide_eq_true rfl⟩, rfl⟩, rfl⟩

/- Only an empty list tells nothing, and that is not the list of a user in a conversation. -/
theorem silent_unnotified {about : UInt32} (reached : Reachable (server P key) s)
    (stepped : (server P key).step s e = some (t, out)) (small : t.db.conversations.seq < 2 ^ 31)
    (seated : Seated t fd uid) (attends : ∃ k, Participant t.db k uid)
    (silent : ∀ m ∈ inbox fd about out, conversationsOf m.packet = none)
    (uncreated : ∀ m ∈ inbox fd about out, ∀ k, m.packet ≠ .convCreated k) :
    ¬ Notified fd out := by
  rintro (⟨list, sent⟩ | ⟨k, sent⟩)
  · obtain ⟨plan, is⟩ := sent_conversations reached stepped seated sent
    obtain ⟨m, member, packet⟩ := mem_inbox_of_sent about sent
    have quiet := silent m member
    rw [packet] at quiet
    have empty : list = [] := by
      by_contra somewhere
      rw [conversationsOf, if_neg somewhere] at quiet
      cases quiet
    have membership := reachable_membership (reached.step stepped) small
    have shown := conversations_shown membership small plan uid
    rw [← is, empty] at shown
    obtain ⟨k, there⟩ := attends
    cases shown.all (by decide) k there
  · obtain ⟨m, member, packet⟩ := mem_inbox_of_sent about sent
    exact uncreated m member k packet

theorem Updated.served {server' : Server} {left : List Request} (about : UInt32)
    (updated : Updated P key fd uid l)
    (stepped : (server P key).step l.server e = some (server', out)) (keeps : Keeps fd e)
    (single : SingleSession server' fd uid) (nonzero : uid ≠ 0) (before : Roomy l.server.db)
    (after : Roomy server'.db) (fewer : ∀ r ∈ left, r ∈ l.toServer)
    (answered : ¬ Notified fd out → (∀ r ∈ left, ¬ Refetch r) → ∀ r ∈ l.toServer, ¬ Refetch r) :
    Updated P key fd uid { l with
      server := server', toServer := left, toClient := l.toClient ++ inbox fd about out } := by
  have seated := updated.seated.step updated.reached stepped keeps
  have membership := reachable_membership (updated.reached.step stepped) after.ids
  have next : awaited { l with
      server := server', toServer := left, toClient := l.toClient ++ inbox fd about out } =
      settled (fun m => conversationsOf m.packet) (awaited l) (inbox fd about out) :=
    settled_append _ _ _ _
  refine
    { toPresent := updated.toPresent.served stepped keeps single fewer _
      portable := fun m member list same => ?_
      full := fun unasked uncreated attends => ?_ }
  · rcases List.mem_append.mp member with old | new
    · exact updated.portable m old list same
    · obtain ⟨plan, rfl⟩ :=
        sent_conversations updated.reached stepped seated (same ▸ (mem_inbox new).2)
      exact storageGetUserConversations_portable plan server'.db uid
  · rw [next]
    rcases settled_cases (fun m : Incoming => conversationsOf m.packet) (awaited l)
      (inbox fd about out) with ⟨same, silent⟩ | ⟨m, member, tells⟩
    · rw [same]
      have unnotified := silent_unnotified updated.reached stepped after.ids seated attends silent
        fun m new => uncreated m (List.mem_append_right _ new)
      have still := (step_notified updated.reached stepped before after nonzero seated
        single).resolve_right unnotified
      refine (updated.full (answered unnotified unasked)
        (fun m old => uncreated m (List.mem_append_left _ old)) ?_).congr still
      obtain ⟨k, there⟩ := attends
      exact ⟨k, (still k).mp there⟩
    · have sent := (mem_inbox member).2
      obtain ⟨packet, about⟩ := m
      cases packet with
      | respConversations list =>
        obtain ⟨plan, rfl⟩ := sent_conversations updated.reached stepped seated sent
        obtain ⟨-, same⟩ := Option.ite_none_left_eq_some.mp tells
        rw [← Option.some.inj same]
        exact conversations_shown membership after.ids plan uid
      | _ => cases tells

theorem LinkEffect.updated {e : LinkEvent} (updated : Updated P key fd uid l)
    (effect : LinkEffect P allocates fd l e l') (single : SingleSession l'.server fd uid)
    (nonzero : uid ≠ 0) (before : Roomy l.server.db) (after : Roomy l'.server.db) :
    Updated P key fd uid l' := by
  cases effect with
  | draw drawn =>
    exact updated.moved drawn (fun _ member => member) (fun _ _ is => by cases is) rfl
      fun _ uncreated => uncreated
  | key pressed =>
    exact updated.moved pressed (fun _ member => member) (fun _ _ is => by cases is) rfl
      fun _ uncreated => uncreated
  | @receive junk first rest client sent queue received =>
    have front : first ∈ l.toClient := queue ▸ List.mem_cons_self
    refine updated.moved received (fun m member => queue ▸ List.mem_cons_of_mem first member)
      (fun _ list is => updated.portable first front list (ClientEvent.receive.inj is).2) ?_ ?_
    · rw [awaited, queue, settled_take]
      rfl
    · intro unasked uncreated
      rw [queue]
      refine List.forall_mem_cons.mpr ⟨fun k created => ?_, uncreated⟩
      rw [created] at received
      cases clientStep_effect received with
      | received received =>
        exact unasked _ (convCreated_refetches received) rfl
  | @serve env r rest server' out queue handled =>
    have front : r ∈ l.toServer := queue ▸ List.mem_cons_self
    change (server P key).step l.server (r.event fd env) = some (server', out) at handled
    refine updated.served (askedAbout r) handled (.inr ⟨r, env, rfl, updated.calm r front⟩) single
      nonzero before after (fun r' member => queue ▸ List.mem_cons_of_mem r member) ?_
    intro unnotified unasked
    rw [queue]
    refine List.forall_mem_cons.mpr ⟨fun refetch => ?_, unasked⟩
    exact unnotified (refetch_lists refetch updated.seated handled)
  | @other e server' out elsewhere handled =>
    change (server P key).step l.server e = some (server', out) at handled
    exact updated.served 0 handled (.inl elsewhere) single nonzero before after
      (fun r member => member) fun _ unasked => unasked

end Links

section Net

variable {ι : Type} {fd : ι → Int} {uid : ι → UInt32} {s₀ : Server} [DecidableEq ι]

theorem updated_start (allocates : Nat → Bool) {fd : Int} {uid : UInt32}
    (reached : Reachable (server P key) s₀) (seated : Seated s₀ fd uid)
    (single : SingleSession s₀ fd uid) :
    Updated P key fd uid (link P allocates fd uid s₀).start where
  toPresent := present_start allocates reached seated single
  portable := List.forall_mem_nil _
  full unasked := absurd rfl (unasked serviceReqConversations (by simp [link]))

theorem Seen.updated {n n' : Net ι} {j : ι} {e : NetEvent ι}
    (updated : Updated P key (fd j) (uid j) (n.seat j)) (seen : Seen P allocates fd j n n' e)
    (single : OneEach fd uid n'.server) (nonzero : uid j ≠ 0) (before : Roomy n.server.db)
    (after : Roomy n'.server.db) : Updated P key (fd j) (uid j) (n'.seat j) := by
  cases seen with
  | nothing unseen same =>
    rw [same]
    exact updated
  | step sees stepped =>
    exact (linkStep_effect stepped).updated updated (single j) nonzero before after

variable [Fintype ι]

theorem net_updated (apart : Function.Injective fd) (reached : Reachable (server P key) s₀)
    (seated : ∀ i, Seated s₀ (fd i) (uid i)) (alone : OneEach fd uid s₀)
    (nonzero : ∀ i, uid i ≠ 0) (room : Roomy s₀.db) {past : List (NetMoment ι)} {n : Net ι}
    (run : Run (net P allocates fd uid s₀) past n)
    (steps : ∀ m ∈ past, OneEach fd uid m.after.server ∧ Roomy m.after.server.db) :
    Roomy n.server.db ∧ ∀ i, Updated P key (fd i) (uid i) (n.seat i) := by
  induction run with
  | start => exact ⟨room, fun i => updated_start allocates reached (seated i) (alone i)⟩
  | step earlier stepped ih =>
    obtain ⟨before, updated⟩ := ih fun m member => steps m (List.mem_cons_of_mem _ member)
    obtain ⟨single, after⟩ := steps _ List.mem_cons_self
    exact ⟨after, fun i => (netStep_seen apart stepped i).updated (updated i) single (nonzero i)
      before after⟩

/-- When nothing is on its way any more, the client of a user who takes part in a conversation
shows the conversations that the table has of the user. No conversation had more than ten
participants on the way, and nobody two connections. -/
theorem net_conversations_shown (P : Platform) (allocates : Nat → Bool) (key : Key) (s₀ : Server)
    (reached : Reachable (server P key) s₀) (fd : ι → Int) (apart : Function.Injective fd)
    (uid : ι → UInt32) (nonzero : ∀ i, uid i ≠ 0) (seated : ∀ i, Seated s₀ (fd i) (uid i))
    (alone : OneEach fd uid s₀) (room : Roomy s₀.db) (past : List (NetMoment ι)) (n : Net ι)
    (run : Run (net P allocates fd uid s₀) past n)
    (steps : ∀ m ∈ past, OneEach fd uid m.after.server ∧ Roomy m.after.server.db)
    (drained : Drained n) (i : ι) (attends : ∃ k, Participant n.server.db k (uid i)) :
    Shows n.server.db (uid i) (shownConversations (n.peers i).client.toAppState) := by
  have updated := (net_updated apart reached seated alone nonzero room run steps).2 i
  obtain ⟨served, taken⟩ := drained i
  have toServer : (n.seat i).toServer = [] := served
  have toClient : (n.seat i).toClient = [] := taken
  have shown := updated.full (by simp [toServer]) (by simp [toClient]) attends
  rw [awaited, toClient] at shown
  exact shown

end Net

def agreedEvents : List (NetEvent (Fin 2)) :=
  befriendEvents ++ List.replicate 3 (.serve bob (recordedEnv 8)) ++
    List.replicate 8 (.receive alice fun _ => 0) ++ List.replicate 5 (.receive bob fun _ => 0)

theorem agreedEvents_recorded : (pairNet.trace [] pairNet.start agreedEvents).isSome := by
  decide +kernel

abbrev agreedHistory := pairNet.history agreedEvents agreedEvents_recorded

theorem net_conversations_shown_agreed :
    (∀ i, shownConversations (agreedHistory.2.peers i).client.toAppState = [1, 2]) ∧
      ∀ i, Shows agreedHistory.2.server.db (pairUid i)
        (shownConversations (agreedHistory.2.peers i).client.toAppState) := by
  have start : (∀ i, pairUid i ≠ 0) ∧ (∀ i, Seated pairHistory.2 (pairFd i) (pairUid i)) ∧
      OneEach pairFd pairUid pairHistory.2 ∧ Roomy pairHistory.2.db := by decide +kernel
  have seen : (∀ i, shownConversations (agreedHistory.2.peers i).client.toAppState = [1, 2]) ∧
      (∀ i, (agreedHistory.2.peers i).toServer.length = 0 ∧
        (agreedHistory.2.peers i).toClient.length = 0) ∧
      (∀ i, ∃ r ∈ memberRows agreedHistory.2.server.db (bindInt 2),
        r.userId = bindInt (pairUid i)) ∧
      ∀ m ∈ agreedHistory.1, OneEach pairFd pairUid m.after.server ∧
        Roomy m.after.server.db := by decide +kernel
  obtain ⟨nonzero, seated, alone, room⟩ := start
  obtain ⟨shown, empty, attend, steps⟩ := seen
  have drained : Drained agreedHistory.2 := fun i =>
    ⟨List.length_eq_zero_iff.mp (empty i).1, List.length_eq_zero_iff.mp (empty i).2⟩
  refine ⟨shown, fun i => ?_⟩
  exact net_conversations_shown paddedPlatform _ recordedKey pairHistory.2
    (Run.history pairSession pairSession_padded).reachable pairFd pairFd_apart pairUid nonzero
    seated alone room agreedHistory.1 agreedHistory.2
    (.history agreedEvents agreedEvents_recorded) steps drained i ⟨2, attend i⟩

end MoT
