import MoT.Private

/-! Accepting a request: four updates of the tables, none of which looks at the outcome of the
one before. -/
namespace MoT
open CMemory Relational Transition

variable {P : Platform} {key : Key} {env : Env} {s t : Server} {cli : Client} {p : Pointer}
  {plan : Plan} {db db' : Database} {a b uid target : UInt32}

/-- Whatever participants carry came from a `uint32_t`. -/
def Bound (db : Database) : Prop := ∀ r ∈ db.participants.rows, ∃ k, r.convId = bindInt k

theorem bindInt_lt (k : UInt32) : bindInt k < 2 ^ 31 := by
  unfold bindInt
  have bound : k.toNat < 2 ^ 32 := k.toNat_lt
  split <;> omega

theorem Bound.made {convType : UInt8} {uids : List UInt32} (bound : Bound db)
    (made : Made db convType uids db') : Bound db' := by
  intro r member
  rw [made.participants] at member
  rcases Table.mem_insertEach member with old | new
  · exact bound r old
  · exact ⟨_, (mem_participantRows new).1⟩

theorem reachable_bound (reached : Reachable (server P key) s) : Bound s.db := by
  refine reached.invariant (fun s => Bound s.db) (by simp [server, storageInit, Bound]) ?_
  intro s e t out before stepped
  rcases step_change stepped with same | ⟨fd, code, bytes, env, cli, -, -, change⟩
  · exact same ▸ before
  · cases change.groups with
    | kept conversations participants => exact fun r member => before r (participants ▸ member)
    | created convType uids made origin => exact before.made made
    | updated k name desc changed admin =>
      rw [changed]
      exact before
    | added k target changed admin =>
      rw [changed]
      intro r member
      rcases Table.mem_insertIgnored member with old | rfl
      · exact before r old
      · exact ⟨k, rfl⟩
    | kicked k target changed admin other =>
      rw [changed]
      exact fun r member => before r (List.mem_of_mem_filter member)
    | deleted k changed admin =>
      rw [changed]
      exact fun r member => before r (List.mem_of_mem_filter member)

theorem Bound.small (bound : Bound db) {k : Int} (joined : Joined db k a) : k < 2 ^ 31 := by
  obtain ⟨r, selected, -⟩ := joined
  obtain ⟨member, conv⟩ := List.mem_filter.mp selected
  obtain ⟨word, bits⟩ := bound r member
  rw [← of_decide_eq_true conv, bits]
  exact bindInt_lt word

theorem found_iff_shares (bound : Bound db) (plan : Plan) (a b : UInt32) :
    storageFindPrivateConversation plan db a b ≠ 0 ↔ Shares db a b := by
  rcases storageFindPrivateConversation_cases plan db a b with ⟨missing, alone⟩ |
    ⟨e, he, secluded, joinedA, joinedB, found⟩
  · exact iff_of_false (fun found => found missing) alone
  · refine iff_of_true ?_ ⟨e, he, secluded, joinedA, joinedB⟩
    have issued := db.conversations.issued e he
    have small := bound.small joinedA
    have id := columnInt_toNat (i := e.rowid) (by omega) (by omega)
    rw [found]
    intro zero
    rw [zero] at id
    have none : (0 : UInt32).toNat = 0 := rfl
    omega

/-- The tables after `c` accepted a request from `t`. -/
structure Befriended (before after : Database) (c t : UInt32) : Prop where
  settled : ⟨bindInt t, bindInt c⟩ ∉ after.requests.rows
  friends : t ≠ c → ⟨bindInt c, bindInt t⟩ ∈ after.contacts.rows ∧
    ⟨bindInt t, bindInt c⟩ ∈ after.contacts.rows ∧ Shares after c t
  users : after.users = before.users
  messages : after.messages = before.messages
  contacts : ∀ r ∈ before.contacts.rows, r ∈ after.contacts.rows
  requests : ∀ r ∈ before.requests.rows, r ≠ ⟨bindInt t, bindInt c⟩ → r ∈ after.requests.rows
  added : (after.conversations = before.conversations ∧ after.participants = before.participants) ∨
    ∃ e rows, after.conversations.entries = before.conversations.entries ++ [e] ∧
      after.participants.rows = before.participants.rows ++ rows ∧ ∀ r ∈ rows, r.convId = e.rowid

theorem decideDb_accepted {accepted : UInt8} (yes : accepted ≠ 0) :
    decideDb plan db uid target accepted =
      storageRemoveRequest (acceptDb plan db uid target) target uid := by
  rw [decideDb, if_pos yes]

theorem acceptDb_found (found : storageFindPrivateConversation plan db uid target ≠ 0) :
    acceptDb plan db uid target = storageAddFriendship db uid target := if_neg found

theorem Bound.decided (bound : Bound db) (plan : Plan) (uid target : UInt32) {accepted : UInt8}
    (yes : accepted ≠ 0) : Bound (decideDb plan db uid target accepted) := by
  by_cases found : storageFindPrivateConversation plan db uid target = 0
  · exact bound.made (decideDb_made plan db yes found)
  · rw [decideDb_accepted yes, acceptDb_found found]
    exact bound

theorem acceptDb_frame (plan : Plan) (db : Database) (uid target : UInt32) :
    (acceptDb plan db uid target).users = db.users ∧
      (acceptDb plan db uid target).messages = db.messages ∧
      (acceptDb plan db uid target).requests = db.requests ∧
      (acceptDb plan db uid target).contacts = (storageAddFriendship db uid target).contacts := by
  simp only [acceptDb]
  split
  · obtain ⟨conversations, -, created⟩ := storageCreateConversation_spec
      (storageAddFriendship db uid target) convTypePrivate (CString.lit "Private Chat")
      CString.empty [uid, target]
    rw [created]
    exact ⟨rfl, rfl, rfl, rfl⟩
  · exact ⟨rfl, rfl, rfl, rfl⟩

/-- Once everything is in place, accepting again changes nothing. -/
theorem decideDb_again (bound : Bound db) (plan : Plan) {accepted : UInt8} (yes : accepted ≠ 0)
    (settled : ⟨bindInt target, bindInt uid⟩ ∉ db.requests.rows)
    (friends : target ≠ uid → ⟨bindInt uid, bindInt target⟩ ∈ db.contacts.rows)
    (shares : Shares db uid target) : decideDb plan db uid target accepted = db := by
  have contacts : (storageAddFriendship db uid target).contacts = db.contacts := by
    apply Table.ext
    rw [storageAddFriendship_rows]
    apply if_pos
    by_cases same : target = uid
    · exact .inl same.symm
    · exact .inr (.inl (friends same))
  have requests : (db.requests.deleteWhere fun r =>
      r.senderId = bindInt target ∧ r.receiverId = bindInt uid) = db.requests := by
    apply Table.ext
    rw [Table.deleteWhere_same_iff]
    intro r member
    rw [decide_eq_false_iff_not]
    rintro ⟨sender, receiver⟩
    apply settled
    rw [← sender, ← receiver]
    exact member
  rw [decideDb_accepted yes, acceptDb_found ((found_iff_shares bound plan uid target).mpr shares),
    storageRemoveRequest]
  have same : storageAddFriendship db uid target = db := by
    have built : storageAddFriendship db uid target =
        { db with contacts := (storageAddFriendship db uid target).contacts } := rfl
    rw [built, contacts]
  rw [same, requests]

theorem id_reads_back (small : db.conversations.seq + 1 < 2 ^ 31) :
    bindInt (columnInt (db.conversations.seq + 1)) = db.conversations.seq + 1 := by
  have started := db.conversations.started
  exact bindInt_columnInt (by omega) small

theorem Made.shared (made : Made db convTypePrivate [a, b] db')
    (small : db.conversations.seq + 1 < 2 ^ 31) : Shares db' a b := by
  obtain ⟨name, desc, entries⟩ := made.entries
  have joined {u : UInt32} (named : u ∈ [a, b]) : Joined db' (db.conversations.seq + 1) u := by
    obtain ⟨r, member, conv, user⟩ := made.covers named
    exact ⟨r, List.mem_filter.mpr ⟨member, decide_eq_true (conv.trans (id_reads_back small))⟩, user⟩
  refine ⟨_, entries ▸ List.mem_append_right _ List.mem_cons_self, rfl, joined ?_, joined ?_⟩
  · exact List.mem_cons_self
  · exact List.mem_cons_of_mem _ List.mem_cons_self

/-- Below 2^31 conversations an accepted request leaves everything in place. -/
theorem befriended (reached : Reachable (server P key) s) (plan : Plan) (c t : UInt32)
    {accepted : UInt8} (yes : accepted ≠ 0)
    (lasts : Shares s.db c t ∨ s.db.conversations.seq + 1 < 2 ^ 31) :
    Befriended s.db (decideDb plan s.db c t accepted) c t ∧
      Shares (decideDb plan s.db c t accepted) c t := by
  have bound := reachable_bound reached
  obtain ⟨users, messages, requests, contacts⟩ := acceptDb_frame plan s.db c t
  rw [decideDb_accepted yes]
  have shared : Shares (storageRemoveRequest (acceptDb plan s.db c t) t c) c t ∧
      ((acceptDb plan s.db c t).conversations = s.db.conversations ∧
        (acceptDb plan s.db c t).participants = s.db.participants ∨
      ∃ e rows, (acceptDb plan s.db c t).conversations.entries =
          s.db.conversations.entries ++ [e] ∧
        (acceptDb plan s.db c t).participants.rows = s.db.participants.rows ++ rows ∧
        ∀ r ∈ rows, r.convId = e.rowid) := by
    by_cases found : storageFindPrivateConversation plan s.db c t = 0
    · have small := lasts.resolve_left
        fun shares => (found_iff_shares bound plan c t).mpr shares found
      have made := acceptDb_made plan s.db found
      obtain ⟨name, desc, entries⟩ := made.entries
      obtain ⟨rows, appended, new⟩ := Table.insertEach_appends s.db.participants
        (participantRows convTypePrivate (columnInt (s.db.conversations.seq + 1)) [c, t])
      rw [← made.participants] at appended
      exact ⟨made.shared small, .inr ⟨_, rows, entries, appended, fun r member =>
        (mem_participantRows (new r member)).1.trans (id_reads_back small)⟩⟩
    · have same := acceptDb_found found
      rw [same]
      exact ⟨(found_iff_shares bound plan c t).mp found, .inl ⟨rfl, rfl⟩⟩
  refine ⟨⟨?_, fun distinct => ?_, users, messages, fun r member => ?_, fun r member other => ?_,
    shared.2⟩, shared.1⟩
  · simp [storageRemoveRequest]
  · have both := storageAddFriendship_both reached (Ne.symm distinct)
    rw [← contacts] at both
    exact ⟨both.1, both.2, shared.1⟩
  · have kept := mem_storageAddFriendship s.db c t member
    rw [← contacts] at kept
    exact kept
  · have kept : r ∈ (acceptDb plan s.db c t).requests.rows := requests ▸ member
    have unlike : ¬ (r.senderId = bindInt t ∧ r.receiverId = bindInt c) := by
      rintro ⟨sender, receiver⟩
      apply other
      rw [← sender, ← receiver]
    exact List.mem_filter.mpr ⟨kept, by simpa using not_and_or.mp unlike⟩

/-- From 2^31 conversations on, a new private conversation is lost at once: its participants are
not found under its id, and the next attempt makes another one. -/
theorem not_befriended (reached : Reachable (server P key) s) (plan plan' : Plan) (c t : UInt32)
    {accepted : UInt8} (yes : accepted ≠ 0) (alone : ¬ Shares s.db c t)
    (large : 2 ^ 31 ≤ s.db.conversations.seq + 1)
    (after : Befriended s.db (decideDb plan s.db c t accepted) c t) :
    decideDb plan' (decideDb plan s.db c t accepted) c t accepted ≠
      decideDb plan s.db c t accepted := by
  have bound := reachable_bound reached
  have missing := not_not.mp fun found => alone ((found_iff_shares bound plan c t).mp found)
  have made := decideDb_made plan s.db yes missing
  have boundAfter := bound.made made
  set db' := decideDb plan s.db c t accepted
  have alone' : ¬ Shares db' c t := by
    rintro ⟨e, he, secluded, joinedC, joinedT⟩
    rcases after.added with ⟨same, -⟩ | ⟨new, rows, entries, participants, own⟩
    · have seq := made.seq
      rw [same] at seq
      omega
    · obtain ⟨name, desc, entries'⟩ := made.entries
      have id : new.rowid = s.db.conversations.seq + 1 := by
        rw [entries, List.append_cancel_left_eq, List.singleton_inj] at entries'
        rw [entries']
      have none : rows = [] := by
        refine List.eq_nil_iff_forall_not_mem.mpr fun r member => ?_
        obtain ⟨word, bits⟩ := boundAfter r (participants ▸ List.mem_append_right _ member)
        have small := bindInt_lt word
        rw [← bits, own r member] at small
        omega
      rw [none, List.append_nil] at participants
      have joined {u : UInt32} (there : Joined db' e.rowid u) : Joined s.db e.rowid u := by
        obtain ⟨r, selected, user⟩ := there
        rw [memberRows, participants] at selected
        exact ⟨r, selected, user⟩
      rw [entries, List.mem_append, List.mem_singleton] at he
      rcases he with old | rfl
      · exact alone ⟨e, old, secluded, joined joinedC, joined joinedT⟩
      · have small := boundAfter.small joinedC
        omega
  have missing' := not_not.mp fun found => alone' ((found_iff_shares boundAfter plan' c t).mp found)
  have seq := (decideDb_made plan' db' yes missing').seq
  intro same
  rw [same] at seq
  omega

theorem handleDecideRequest_runs {accepted : UInt8}
    (readAccepted : readByte p DecideRequestPayload.accepted = .ok accepted)
    (readTarget : readUInt32 p DecideRequestPayload.targetUid = .ok target) (env : Env) (s : Server)
    (cli : Client) : ∃ out, handleDecideRequest env s cli p =
      .ok ({ s with db := decideDb env.plan s.db cli.uid target accepted }, out) := by
  obtain ⟨⟨s', out⟩, ran⟩ : ∃ result, handleDecideRequest env s cli p = .ok result := by
    simp only [handleDecideRequest, readAccepted, readTarget, bind, Except.bind]
    exact ⟨_, rfl⟩
  obtain ⟨accepted', target', readAccepted', readTarget', after, -⟩ := handleDecideRequest_ok ran
  cases Except.ok.inj (readAccepted.symm.trans readAccepted')
  cases Except.ok.inj (readTarget.symm.trans readTarget')
  exact ⟨out, after ▸ ran⟩

theorem accept_request_iff (P : Platform) (key : Key) (s : Server)
    (reached : Reachable (server P key) s) (env : Env) (cli : Client) (p : Pointer) (s' : Server)
    (out : List Sent) (accepted : UInt8) (target : UInt32)
    (readAccepted : readByte p DecideRequestPayload.accepted = .ok accepted) (yes : accepted ≠ 0)
    (readTarget : readUInt32 p DecideRequestPayload.targetUid = .ok target)
    (done : handleDecideRequest env s cli p = .ok (s', out)) :
    (Befriended s.db s'.db cli.uid target ∧
      ∀ env', ∃ out', handleDecideRequest env' s' cli p = .ok (s', out')) ↔
    Shares s.db cli.uid target ∨ s.db.conversations.seq + 1 < 2 ^ 31 := by
  obtain ⟨out₁, ran⟩ := handleDecideRequest_runs readAccepted readTarget env s cli
  cases Except.ok.inj (done.symm.trans ran)
  constructor
  · rintro ⟨after, again⟩
    by_contra neither
    obtain ⟨alone, large⟩ := not_or.mp neither
    obtain ⟨out', handled⟩ := again env
    obtain ⟨out₂, ran'⟩ := handleDecideRequest_runs readAccepted readTarget env
      { s with db := decideDb env.plan s.db cli.uid target accepted } cli
    have same := (Prod.mk.inj (Except.ok.inj (ran'.symm.trans handled))).1
    exact not_befriended reached env.plan env.plan cli.uid target yes alone (Int.not_lt.mp large)
      after (congrArg Server.db same)
  · intro lasts
    obtain ⟨after, shared⟩ := befriended reached env.plan cli.uid target yes lasts
    refine ⟨after, fun env' => ?_⟩
    obtain ⟨out', ran'⟩ := handleDecideRequest_runs readAccepted readTarget env'
      { s with db := decideDb env.plan s.db cli.uid target accepted } cli
    have boundAfter := (reachable_bound reached).decided env.plan cli.uid target yes
    have same := decideDb_again boundAfter env'.plan yes after.settled
      (fun distinct => (after.friends distinct).1) shared
    rw [same] at ran'
    exact ⟨out', ran'⟩

def pendingSession : List Event :=
  aliceArrives ++ bobArrives ++
    [(serviceAddContact (CString.lit "000002")).event 7 (recordedEnv 3)]

theorem pendingSession_recorded :
    (recordedServer.trace [] recordedServer.start pendingSession).isSome := by decide +kernel

abbrev pendingHistory := recordedServer.history pendingSession pendingSession_recorded

def bobClient : Client := ⟨8, 2, List.Vector.replicate maxNameLen 0, true⟩

theorem acceptance_read :
    readByte (deliver (serviceDecideRequest 1 1).2) DecideRequestPayload.accepted = .ok 1 ∧
      readUInt32 (deliver (serviceDecideRequest 1 1).2) DecideRequestPayload.targetUid = .ok 1 := by
  decide +kernel

theorem accept_request_iff_asked : ∃ s' out,
    handleDecideRequest (recordedEnv 4) pendingHistory.2 bobClient
      (deliver (serviceDecideRequest 1 1).2) = .ok (s', out) ∧
    Befriended pendingHistory.2.db s'.db 2 1 := by
  obtain ⟨readAccepted, readTarget⟩ := acceptance_read
  obtain ⟨out, done⟩ := handleDecideRequest_runs readAccepted readTarget (recordedEnv 4)
    pendingHistory.2 bobClient
  exact ⟨_, out, done, ((accept_request_iff recordedPlatform recordedKey pendingHistory.2
    (Run.history pendingSession pendingSession_recorded).reachable (recordedEnv 4) bobClient _ _
    out 1 1 readAccepted (by decide) readTarget done).mpr (.inr (by decide +kernel))).1⟩

theorem asked_allowed : Allowed recordedPlatform recordedKey pendingHistory.2 := by
  have others : ∀ m ∈ pendingHistory.1, packetType m ≠ some .createConv := by decide +kernel
  exact ⟨_, .history pendingSession pendingSession_recorded,
    fun m member => privateForTwo_of_ne (others m member)⟩

/- Bob makes groups for nobody until the next conversation has the id 2^31. -/
theorem full_reachable : ∃ t, Reachable recordedServer t ∧ ¬ Shares t.db 2 1 ∧
    2 ^ 31 ≤ t.db.conversations.seq + 1 := by
  have seen : (getClientByFd 8 pendingHistory.2.clients).isSome ∧
      pendingHistory.2.db.conversations.seq = 0 ∧ pendingHistory.2.db.participants.rows = [] := by
    decide +kernel
  obtain ⟨online, start, nobody⟩ := seen
  obtain ⟨bob, listed⟩ := Option.isSome_iff_exists.mp online
  obtain ⟨t, ⟨past, run, -⟩, -, participants, seq, -⟩ :=
    asked_allowed.empty_groups listed 2147483647
  refine ⟨t, run.reachable, ?_, ?_⟩
  · rintro ⟨e, -, -, ⟨r, selected, -⟩, -⟩
    have member := List.mem_of_mem_filter selected
    rw [participants, nobody] at member
    cases member
  · rw [seq, start]
    omega

/- The private conversation that Bob's packet makes then is not found again. -/
theorem accepted_twice :
    ¬ ∀ (P : Platform) (key : Key) (s : Server), Reachable (server P key) s →
      ∀ (env : Env) (cli : Client) (p : Pointer) (s' : Server) (out : List Sent) (accepted : UInt8)
        (target : UInt32), readByte p DecideRequestPayload.accepted = .ok accepted → accepted ≠ 0 →
        readUInt32 p DecideRequestPayload.targetUid = .ok target →
        handleDecideRequest env s cli p = .ok (s', out) →
        Befriended s.db s'.db cli.uid target ∧
          ∀ env', ∃ out', handleDecideRequest env' s' cli p = .ok (s', out') := by
  intro claimed
  obtain ⟨t, reached, alone, large⟩ := full_reachable
  obtain ⟨readAccepted, readTarget⟩ := acceptance_read
  obtain ⟨out, done⟩ := handleDecideRequest_runs readAccepted readTarget (recordedEnv 4) t bobClient
  obtain ⟨after, again⟩ := claimed recordedPlatform recordedKey t reached (recordedEnv 4)
    bobClient _ _ out 1 1 readAccepted (by decide) readTarget done
  obtain ⟨out', handled⟩ := again (recordedEnv 4)
  obtain ⟨out₂, ran⟩ := handleDecideRequest_runs readAccepted readTarget (recordedEnv 4)
    { t with db := decideDb (recordedEnv 4).plan t.db bobClient.uid 1 1 } bobClient
  have same := (Prod.mk.inj (Except.ok.inj (ran.symm.trans handled))).1
  have yes : (1 : UInt8) ≠ 0 := by decide
  have lost := not_befriended reached (recordedEnv 4).plan (recordedEnv 4).plan bobClient.uid 1 yes
    alone large after
  have unchanged := congrArg Server.db same
  exact lost unchanged

end MoT
