import MoT.History
import MoT.Routing

/-! What a user who is no participant of a conversation can learn of it and do to it
with the three packets whose handlers make no check. -/
namespace MoT
open CMemory Relational Transition

variable {P : Platform} {key : Key} {env : Env} {s t : Server} {cli : Client} {p : Pointer}
  {out : List Sent} {k : UInt32} {fd : Int} {code : UInt32} {bytes : List UInt8}

/-- No text and no member row of the conversation is told, no text goes into it. -/
def Confidential (s t : Server) (out : List Sent) (k : UInt32) : MessageType → Prop
  | .reqHistory => ∀ m ∈ out, ∀ history, m.packet = .respHistory history → history = []
  | .reqMembers => ∀ m ∈ out, ∀ members, m.packet = .respMembers members → members = []
  | .sendText => logged t.db k = logged s.db k ∧
      ∀ m ∈ out, ∀ message, m.packet ≠ .rteText message
  | _ => True

/-- There is nothing to tell: no message or no member whose user exists. For a text,
encryption fails and nobody the query yields is online. -/
def NothingThere (P : Platform) (env : Env) (s : Server) (k : UInt32) (p : Pointer) :
    MessageType → Prop
  | .reqHistory => joinedMessages s.db k = []
  | .reqMembers => ∀ r ∈ memberRows s.db (bindInt k), ∀ u ∈ s.db.users.entries, r.userId ≠ u.rowid
  | .sendText =>
    (∀ text, readString p SendMessagePayload.text = .ok text →
      cryptoEncrypt P (some s.masterKey) env.randBytes text = none) ∧
    ∀ r ∈ firstParticipants env.plan s.db k, ∀ u, r.userId = bindInt u → ¬ Online s u
  | _ => True

theorem history_empty_iff {history : List UInt8}
    (readK : readUInt32 p RequestHistoryPayload.convId = .ok k)
    (handled : handleReqHistory P env s cli p = .ok (t, [⟨cli.fd, .respHistory history⟩])) :
    history = [] ↔ joinedMessages s.db k = [] := by
  obtain ⟨k', hist, bytes, readK', built, string, -, same⟩ := handleReqHistory_ok handled
  cases Except.ok.inj (readK.symm.trans readK')
  cases same
  obtain ⟨lines, printed, rfl⟩ := storageGetHistory_answer built string
  have rows : (historyRows env.plan s.db k).length = min 50 (joinedMessages s.db k).length :=
    historyRows_length env.plan s.db k
  rw [printed.length_eq] at rows
  rw [← List.length_eq_zero_iff (l := joinedMessages s.db k)]
  generalize historyRows env.plan s.db k = picked at printed
  cases printed with
  | nil =>
    simp only [List.length_nil] at rows
    simp only [List.headD_nil, CString.empty_bytes, true_iff]
    omega
  | cons first _ =>
    simp only [List.length_cons] at rows
    simp only [List.headD_cons, historyLine_nonempty first, false_iff]
    omega

theorem storageGetGroupMembers_eq_nil (plan : Plan) (db : Database) (k : UInt32) :
    storageGetGroupMembers plan db k maxMembers = [] ↔
      ∀ r ∈ memberRows db (bindInt k), ∀ u ∈ db.users.entries, r.userId ≠ u.rowid := by
  have selected : (join (fun p u => p.userId = u.rowid) db.participants.rows
      db.users.entries).filter (fun r => r.1.convId = bindInt k) =
        join (fun p u => p.userId = u.rowid) (memberRows db (bindInt k)) db.users.entries :=
    filter_join _ (fun r : ParticipantRow => r.convId = bindInt k) _ _
  have arranged := plan.groupMembers.perm
    (join (fun p u => p.userId = u.rowid) (memberRows db (bindInt k)) db.users.entries)
  simp only [storageGetGroupMembers, selected, List.map_eq_nil_iff, List.take_eq_nil_iff]
  rw [or_iff_right (by decide), ← List.length_eq_zero_iff, arranged.length_eq,
    List.length_eq_zero_iff]
  constructor
  · intro none r member u user same
    have joined : (r, u) ∈ join (fun p u => decide (p.userId = u.rowid)) (memberRows db (bindInt k))
        db.users.entries := mem_join.mpr ⟨member, user, decide_eq_true same⟩
    rw [none] at joined
    cases joined
  · intro none
    refine List.eq_nil_iff_forall_not_mem.mpr ?_
    rintro ⟨r, u⟩ joined
    obtain ⟨member, user, same⟩ := mem_join.mp joined
    exact none r member u user (of_decide_eq_true same)

theorem sendText_unlogged_iff {text : CString}
    (handled : handleSendText P env s cli p = .ok (t, out))
    (readK : readUInt32 p SendMessagePayload.convId = .ok k)
    (readText : readString p SendMessagePayload.text = .ok text) :
    logged t.db k = logged s.db k ↔
      cryptoEncrypt P (some s.masterKey) env.randBytes text = none := by
  obtain ⟨k', text', readK', readText', rfl, -⟩ := handleSendText_ok handled
  cases Except.ok.inj (readK.symm.trans readK')
  cases Except.ok.inj (readText.symm.trans readText')
  rw [logged_storageLogMessage, List.append_right_eq_self, Option.toList_eq_nil_iff,
    Option.map_eq_none_iff]

/- An outsider is never skipped as the sender, so every place of the array counts. -/
theorem sendText_silent_iff (reached : Reachable (server P key) s)
    (handled : handleSendText P env s cli p = .ok (t, out))
    (readK : readUInt32 p SendMessagePayload.convId = .ok k)
    (outsider : ¬ Participant s.db k cli.uid) :
    (∀ m ∈ out, ∀ message, m.packet ≠ .rteText message) ↔
      ∀ r ∈ firstParticipants env.plan s.db k, ∀ u, r.userId = bindInt u → ¬ Online s u := by
  have bound := participants_bound reached
  obtain ⟨k', text, readK', -, rfl, rfl⟩ := handleSendText_ok handled
  cases Except.ok.inj (readK.symm.trans readK')
  obtain ⟨messages, logged⟩ := storageLogMessage_frame P (some s.masterKey) env.randBytes env.now
    s.db k cli.uid text
  rw [logged]
  constructor
  · intro silent r member u user online
    have place : u ∈ storageGetConvParticipants env.plan s.db k maxParticipants :=
      (mem_storageGetConvParticipants bound).mpr ⟨r, member, user⟩
    have other : u ≠ cli.uid := by
      rintro rfl
      exact outsider ⟨r, mem_firstParticipants member, user⟩
    rcases pushTo_cases s u (.rteText (routed cli k text)) with ⟨c, -, -, -, pushed⟩ | ⟨offline, -⟩
    · refine silent ⟨c.fd, .rteText (routed cli k text)⟩ (List.mem_flatMap.mpr ⟨u, place, ?_⟩) _ rfl
      rw [if_neg other]
      exact pushed ▸ List.mem_singleton_self _
    · exact offline online
  · intro nobody m member
    obtain ⟨u, place, sent⟩ := List.mem_flatMap.mp member
    obtain ⟨r, early, user⟩ := (mem_storageGetConvParticipants bound).mp place
    split at sent
    · cases sent
    · have nothing : pushTo s u (.rteText (routed cli k text)) = [] :=
        pushTo_eq_nil.mpr (nobody r early u user)
      exact absurd sent (nothing ▸ List.not_mem_nil)

/-- The three handlers keep an outsider out exactly when there is nothing there. The
conversation id is the first field of all three payloads. -/
theorem outsider_confidential_iff (P : Platform) (key : Key) (s : Server)
    (reached : Reachable (server P key) s) (fd : Int) (code : UInt32) (bytes : List UInt8)
    (env : Env) (cli : Client) (t : Server) (out : List Sent) (k : UInt32) (type : MessageType)
    (listed : getClientByFd fd s.clients = some cli)
    (coded : MessageType.ofCode code = some type)
    (stepped : (server P key).step s (.packet fd code bytes env) = some (t, out))
    (readK : readUInt32 (deliver bytes) 0 = .ok k) (outsider : ¬ Participant s.db k cli.uid) :
    Confidential s t out k type ↔ NothingThere P env s k (deliver bytes) type := by
  have handled := (handleEvent_of_step stepped).2
  simp only [handleEvent, listed, dispatch, coded] at handled
  cases type with
  | reqHistory =>
    obtain ⟨k', hist, history, -, -, -, -, rfl⟩ := handleReqHistory_ok handled
    rw [NothingThere, ← history_empty_iff readK handled]
    simp [Confidential]
  | reqMembers =>
    obtain ⟨k', readK', -, rfl⟩ := handleReqMembers_ok handled
    cases Except.ok.inj (readK.symm.trans readK')
    rw [NothingThere, ← storageGetGroupMembers_eq_nil env.plan]
    simp [Confidential]
  | sendText =>
    obtain ⟨k', text, -, readText, -, -⟩ := handleSendText_ok handled
    have unlogged := sendText_unlogged_iff handled readK readText
    have silent := sendText_silent_iff reached handled readK outsider
    simp only [Confidential, NothingThere, unlogged, silent, readText, Except.ok.injEq, forall_eq']
  | _ => exact Iff.rfl

def strangerSession : List Event :=
  aliceArrives ++ bobArrives ++
    [(serviceCreateGroup 1 (CString.lit "team") CString.empty []).event 7 (recordedEnv 3),
      (serviceSendText 1 (CString.lit "hi")).event 7 (recordedEnv 4)]

theorem strangerSession_completes :
    (recordedServer.exec recordedServer.start strangerSession).isSome := by decide +kernel

abbrev strangerState : Server := recordedServer.after strangerSession strangerSession_completes

theorem outsider_confidential_iff_stranger :
    ∃ t out, recordedServer.step strangerState
        ((serviceReqMembers 1).event 8 (recordedEnv 5)) = some (t, out) ∧
      (Confidential strangerState t out 1 .reqMembers ↔
        NothingThere recordedPlatform (recordedEnv 5) strangerState 1
          (deliver (serviceReqMembers 1).2) .reqMembers) := by
  have seen : getClientByFd 8 strangerState.clients =
        some ⟨8, 2, strncpy maxNameLen (CString.lit "bob"), true⟩ ∧
      (recordedServer.step strangerState
        ((serviceReqMembers 1).event 8 (recordedEnv 5))).isSome ∧
      ¬ ∃ r ∈ memberRows strangerState.db (bindInt 1), r.userId = bindInt 2 := by
    decide +kernel
  obtain ⟨bob, completes, outsider⟩ := seen
  obtain ⟨⟨t, out⟩, stepped⟩ := Option.isSome_iff_exists.mp completes
  exact ⟨t, out, stepped, outsider_confidential_iff recordedPlatform recordedKey _
    (.after strangerSession strangerSession_completes) 8 _ _ _ _ t out 1 .reqMembers bob
    (by decide) stepped (by decide) outsider⟩

theorem outsider_reads_history :
    ¬ ∀ (P : Platform) (key : Key) (s : Server), Reachable (server P key) s →
      ∀ (fd : Int) (code : UInt32) (bytes : List UInt8) (env : Env) (cli : Client) (t : Server)
        (out : List Sent) (k : UInt32) (type : MessageType),
      getClientByFd fd s.clients = some cli → MessageType.ofCode code = some type →
      (server P key).step s (.packet fd code bytes env) = some (t, out) →
      readUInt32 (deliver bytes) 0 = .ok k → ¬ Participant s.db k cli.uid →
      Confidential s t out k type := by
  intro claimed
  have seen : getClientByFd 8 strangerState.clients =
        some ⟨8, 2, strncpy maxNameLen (CString.lit "bob"), true⟩ ∧
      (recordedServer.step strangerState
        ((serviceReqHistory 1).event 8 (recordedEnv 5))).map Prod.snd =
          some [⟨8, .respHistory (CString.lit "[00:00] alice: hi\n").bytes⟩] ∧
      ¬ ∃ r ∈ memberRows strangerState.db (bindInt 1), r.userId = bindInt 2 := by
    decide +kernel
  obtain ⟨bob, answered, outsider⟩ := seen
  obtain ⟨⟨t, out⟩, stepped, rfl⟩ := Option.map_eq_some_iff.mp answered
  have empty := claimed recordedPlatform recordedKey _
    (.after strangerSession strangerSession_completes) 8 _ _ _ _ t _ 1 .reqHistory bob
    (by decide) stepped (by decide) outsider _ (List.mem_singleton_self _) _ rfl
  exact absurd empty (by decide)

end MoT
