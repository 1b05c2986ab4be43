import MoT.Roles

/-! Who receives a text. The participants of a conversation are read back through an
array of ten places, and each of them is looked up in the list of connections. -/
namespace MoT
open CMemory Relational Transition

variable {P : Platform} {key : Key} {env : Env} {s t : Server} {cli : Client} {p : Pointer}
  {out : List Sent} {k u : UInt32} {packet : Packet}

theorem flatMap_single {α β : Type} [DecidableEq α] {l : List α} (nodup : l.Nodup) (a : α)
    (xs : List β) : (l.flatMap fun v => if v = a then xs else []) = if a ∈ l then xs else [] := by
  induction l with
  | nil => rfl
  | cons b l ih =>
    obtain ⟨fresh, nodup⟩ := List.nodup_cons.mp nodup
    rw [List.flatMap_cons, ih nodup]
    by_cases same : b = a
    · subst same
      simp [fresh]
    · simp [same, Ne.symm same]

def Online (s : Server) (u : UInt32) : Prop := ∃ c ∈ s.clients, c.uid = u ∧ c.isOnline = true

theorem pushTo_cases (s : Server) (u : UInt32) (packet : Packet) :
    (∃ c ∈ s.clients, c.uid = u ∧ c.isOnline = true ∧ pushTo s u packet = [⟨c.fd, packet⟩]) ∨
    ¬ Online s u ∧ pushTo s u packet = [] := by
  unfold pushTo
  cases found : getClientByUid u s.clients with
  | some c =>
    obtain ⟨member, uid, online⟩ := getClientByUid_some found
    exact .inl ⟨c, member, uid, online, by simp [online]⟩
  | none =>
    refine .inr ⟨fun online => ?_, rfl⟩
    have impossible := getClientByUid_isSome.mpr online
    rw [found] at impossible
    cases impossible

theorem pushTo_eq_nil : pushTo s u packet = [] ↔ ¬ Online s u := by
  rcases pushTo_cases s u packet with ⟨c, member, uid, online, pushed⟩ | ⟨offline, pushed⟩
  · simp only [pushed, List.cons_ne_self, false_iff, not_not]
    exact ⟨c, member, uid, online⟩
  · exact ⟨fun _ => offline, fun _ => pushed⟩

/-- The packet goes to a logged-in connection of this user. -/
def Sent.reaches (m : Sent) (s : Server) (u : UInt32) : Bool :=
  s.clients.any fun c => c.fd = m.fd ∧ c.uid = u ∧ c.isOnline = true

theorem filter_pushTo (connected : Connected s.clients) (v u : UInt32) (packet : Packet) :
    (pushTo s v packet).filter (fun m => m.reaches s u) =
      if v = u then pushTo s u packet else [] := by
  rcases pushTo_cases s v packet with ⟨c, member, rfl, online, pushed⟩ | ⟨-, pushed⟩
  · have reaches : (⟨c.fd, packet⟩ : Sent).reaches s u = decide (c.uid = u) := by
      rw [Sent.reaches, Bool.eq_iff_iff, List.any_eq_true, decide_eq_true_eq]
      constructor
      · rintro ⟨d, hd, selected⟩
        simp only [decide_eq_true_eq] at selected
        cases connected.same hd member selected.1
        exact selected.2.1
      · rintro rfl
        exact ⟨c, member, by simp [online]⟩
    by_cases same : c.uid = u
    · subst same
      simp [pushed, reaches]
    · simp [pushed, reaches, same]
  · rw [pushed, List.filter_nil]
    split
    · rename_i same
      exact same ▸ pushed.symm
    · rfl

/-- The rows of the participants query that fit into `members[MAX_PARTICIPANTS]`. -/
def firstParticipants (plan : Plan) (db : Database) (k : UInt32) : List ParticipantRow :=
  (plan.convParticipants.arrange (memberRows db (bindInt k))).take maxParticipants

theorem storageGetConvParticipants_eq (plan : Plan) (db : Database) (k : UInt32) :
    storageGetConvParticipants plan db k maxParticipants =
      (firstParticipants plan db k).map fun r => columnInt r.userId := rfl

theorem firstParticipants_congr {plan : Plan} {db db' : Database}
    (same : db'.participants.rows = db.participants.rows) :
    firstParticipants plan db' k = firstParticipants plan db k := by
  rw [firstParticipants, firstParticipants, memberRows, memberRows, same]

theorem mem_firstParticipants {plan : Plan} {db : Database} {r : ParticipantRow}
    (member : r ∈ firstParticipants plan db k) : r ∈ memberRows db (bindInt k) :=
  (plan.convParticipants.mem_arrange).mp (List.mem_of_mem_take member)

theorem mem_firstParticipants_few {plan : Plan} {db : Database} {r : ParticipantRow}
    (few : (memberRows db (bindInt k)).length ≤ maxParticipants) :
    r ∈ firstParticipants plan db k ↔ r ∈ memberRows db (bindInt k) := by
  have perm := plan.convParticipants.perm (memberRows db (bindInt k))
  rw [firstParticipants, List.take_of_length_le (perm.length_eq.trans_le few)]
  exact perm.mem_iff

theorem mem_storageGetConvParticipants {plan : Plan} {db : Database}
    (bound : ∀ r ∈ db.participants.rows, ∃ u, r.userId = bindInt u) :
    u ∈ storageGetConvParticipants plan db k maxParticipants ↔
      ∃ r ∈ firstParticipants plan db k, r.userId = bindInt u := by
  rw [storageGetConvParticipants_eq, List.mem_map]
  constructor
  · rintro ⟨r, member, rfl⟩
    obtain ⟨v, user⟩ := bound r (List.mem_of_mem_filter (mem_firstParticipants member))
    exact ⟨r, member, by rw [user, columnInt_bindInt]⟩
  · rintro ⟨r, member, user⟩
    exact ⟨r, member, by rw [user, columnInt_bindInt]⟩

theorem storageGetConvParticipants_nodup {plan : Plan} {db : Database}
    (bound : ∀ r ∈ db.participants.rows, ∃ u, r.userId = bindInt u) :
    (storageGetConvParticipants plan db k maxParticipants).Nodup := by
  have keys : (memberRows db (bindInt k)).Pairwise fun a b =>
      columnInt a.userId ≠ columnInt b.userId := by
    refine (List.Pairwise.and_mem.mp (db.participants.unique.filter _)).imp ?_
    rintro a b ⟨ha, hb, apart⟩ same
    obtain ⟨rowA, convA⟩ := List.mem_filter.mp ha
    obtain ⟨rowB, convB⟩ := List.mem_filter.mp hb
    obtain ⟨v, userA⟩ := bound a rowA
    obtain ⟨w, userB⟩ := bound b rowB
    rw [userA, userB, columnInt_bindInt, columnInt_bindInt] at same
    simp only [decide_eq_true_eq] at convA convB
    simp [ParticipantRow.clash, convA, convB, userA, userB, same] at apart
  have nodup : ((memberRows db (bindInt k)).map fun r => columnInt r.userId).Nodup :=
    List.pairwise_map.mpr keys
  have arranged := ((plan.convParticipants.perm (memberRows db (bindInt k))).map
    fun r => columnInt r.userId).nodup_iff.mpr nodup
  rw [storageGetConvParticipants_eq]
  exact arranged.sublist ((List.take_sublist _ _).map _)

/-- User `u` is sent exactly one packet, and it carries this text. -/
def ReceivesOnce (s : Server) (out : List Sent) (u k sender : UInt32) (text : CString) : Prop :=
  ∃ fd message, out.filter (fun m => m.reaches s u) = [⟨fd, .rteText message⟩] ∧
    message.convId = k ∧ message.senderUid = sender ∧ fieldString message.text = text

def Participant (db : Database) (k u : UInt32) : Prop :=
  ∃ r ∈ memberRows db (bindInt k), r.userId = bindInt u

theorem handled_sendText {fd : Int} {code : UInt32} {bytes : List UInt8}
    (listed : getClientByFd fd s.clients = some cli)
    (type : MessageType.ofCode code = some .sendText)
    (stepped : (server P key).step s (.packet fd code bytes env) = some (t, out)) :
    handleSendText P env s cli (deliver bytes) = .ok (t, out) := by
  have handled := (handleEvent_of_step stepped).2
  simpa only [handleEvent, listed, dispatch, type] using handled

theorem sendText_reaches (reached : Reachable (server P key) s) {text : CString}
    (handled : handleSendText P env s cli p = .ok (t, out))
    (readK : readUInt32 p SendMessagePayload.convId = .ok k)
    (readText : readString p SendMessagePayload.text = .ok text) (other : u ≠ cli.uid) :
    out.filter (fun m => m.reaches s u) =
      if ∃ r ∈ firstParticipants env.plan s.db k, r.userId = bindInt u
      then pushTo s u (.rteText (routed cli k text)) else [] := by
  have bound := participants_bound reached
  have connected := reachable_connected reached
  obtain ⟨k', text', readK', readText', rfl, rfl⟩ := handleSendText_ok handled
  cases Except.ok.inj (readK.symm.trans readK')
  cases Except.ok.inj (readText.symm.trans readText')
  obtain ⟨messages, logged⟩ := storageLogMessage_frame P (some s.masterKey) env.randBytes env.now
    s.db k cli.uid text
  rw [logged, List.filter_flatMap]
  have members : (storageGetConvParticipants env.plan s.db k maxParticipants).Nodup :=
    storageGetConvParticipants_nodup bound
  calc _ = (storageGetConvParticipants env.plan s.db k maxParticipants).flatMap fun v =>
        if v = u then pushTo s u (.rteText (routed cli k text)) else [] := by
        refine List.flatMap_congr fun v _ => ?_
        by_cases self : v = cli.uid
        · have apart : v ≠ u := fun same => other (same.symm.trans self)
          rw [if_pos self, if_neg apart, List.filter_nil]
        · rw [if_neg self]
          exact filter_pushTo connected v u _
    _ = _ := by
        rw [flatMap_single members]
        simp only [mem_storageGetConvParticipants bound]

/-- A text reaches every other participant who is online exactly when the participants
query yields each of them among its first ten rows, and the text fits its field. -/
theorem text_reaches_participants_iff (P : Platform) (key : Key) (s : Server)
    (reached : Reachable (server P key) s) (fd : Int) (code : UInt32) (bytes : List UInt8)
    (env : Env) (cli : Client) (t : Server) (out : List Sent) (k : UInt32) (text : CString)
    (listed : getClientByFd fd s.clients = some cli)
    (type : MessageType.ofCode code = some .sendText)
    (stepped : (server P key).step s (.packet fd code bytes env) = some (t, out))
    (readK : readUInt32 (deliver bytes) SendMessagePayload.convId = .ok k)
    (readText : readString (deliver bytes) SendMessagePayload.text = .ok text) :
    (∀ u, u ≠ cli.uid → Participant s.db k u → Online s u →
      ReceivesOnce s out u k cli.uid text) ↔
    ∀ u, u ≠ cli.uid → Participant s.db k u → Online s u →
      (∃ r ∈ firstParticipants env.plan s.db k, r.userId = bindInt u) ∧
        text.length ≤ maxTextLen := by
  have handled := handled_sendText listed type stepped
  refine forall_congr' fun u => imp_congr_right fun other => imp_congr_right fun _ =>
    imp_congr_right fun online => ?_
  have received := sendText_reaches reached handled readK readText other
  constructor
  · rintro ⟨fd', message, once, conv, sender, whole⟩
    rw [received] at once
    split at once
    · rename_i early
      refine ⟨early, ?_⟩
      rcases pushTo_cases s u (.rteText (routed cli k text)) with
        ⟨c, -, -, -, pushed⟩ | ⟨offline, -⟩
      · rw [pushed] at once
        cases once
        have cut := (fieldString_strncpy maxTextLen text).symm.trans whole
        have bytes := congrArg CString.length cut
        simp only [CString.length, CString.truncate_bytes, List.length_take] at bytes ⊢
        omega
      · exact absurd online offline
    · cases once
  · rintro ⟨early, fits⟩
    rcases pushTo_cases s u (.rteText (routed cli k text)) with ⟨c, -, -, -, pushed⟩ | ⟨offline, -⟩
    · refine ⟨c.fd, routed cli k text, ?_, rfl, rfl, ?_⟩
      · rw [received, if_pos early, pushed]
      · refine (fieldString_strncpy maxTextLen text).trans (CString.ext ?_)
        exact List.take_of_length_le fits
    · exact absurd online offline

def pairSession : List Event :=
  aliceArrives ++ bobArrives ++
    [(serviceCreateGroup 1 (CString.lit "team") CString.empty [2]).event 7 (recordedEnv 3)]

theorem pairSession_completes :
    (recordedServer.exec recordedServer.start pairSession).isSome := by decide +kernel

abbrev pairState : Server := recordedServer.after pairSession pairSession_completes

theorem text_reaches_participants_iff_pair :
    ∃ t out, recordedServer.step pairState
        ((serviceSendText 1 (CString.lit "hi")).event 7 (recordedEnv 4)) = some (t, out) ∧
      ∀ u, u ≠ 1 →
        Participant pairState.db 1 u → Online pairState u →
        ReceivesOnce pairState out u 1 1 (CString.lit "hi") := by
  have seen : getClientByFd 7 pairState.clients =
        some ⟨7, 1, strncpy maxNameLen (CString.lit "alice"), true⟩ ∧
      (memberRows pairState.db (bindInt 1)).length ≤ maxParticipants ∧
      (recordedServer.step pairState
        ((serviceSendText 1 (CString.lit "hi")).event 7 (recordedEnv 4))).isSome := by
    decide +kernel
  obtain ⟨alice, few, completes⟩ := seen
  obtain ⟨⟨t, out⟩, stepped⟩ := Option.isSome_iff_exists.mp completes
  refine ⟨t, out, stepped, (text_reaches_participants_iff recordedPlatform recordedKey _
    (.after pairSession pairSession_completes) 7 _ _ _ _ t out 1 (CString.lit "hi") alice
    (by decide +kernel) stepped (by decide +kernel) (by decide +kernel)).mpr ?_⟩
  rintro u - ⟨r, member, user⟩ -
  exact ⟨⟨r, (mem_firstParticipants_few few).mpr member, user⟩, by decide⟩

def crowdedSession : List Event :=
  aliceArrives ++ bobArrives ++
    [(serviceCreateGroup 1 (CString.lit "team") CString.empty
        [4294967280, 4294967281, 4294967282, 4294967283, 4294967284, 4294967285, 4294967286,
          4294967287, 4294967288]).event 7 (recordedEnv 3),
      (addMemberRequest 1 (CString.lit "000002")).event 7 (recordedEnv 4)]

theorem crowdedSession_completes :
    (recordedServer.exec recordedServer.start crowdedSession).isSome := by decide +kernel

abbrev crowdedState : Server := recordedServer.after crowdedSession crowdedSession_completes

theorem text_misses_participant :
    ¬ ∀ (P : Platform) (key : Key) (s : Server), Reachable (server P key) s →
      ∀ (fd : Int) (code : UInt32) (bytes : List UInt8) (env : Env) (cli : Client) (t : Server)
        (out : List Sent) (k : UInt32) (text : CString),
      getClientByFd fd s.clients = some cli → cli.isOnline = true →
      MessageType.ofCode code = some .sendText →
      (server P key).step s (.packet fd code bytes env) = some (t, out) →
      readUInt32 (deliver bytes) SendMessagePayload.convId = .ok k →
      readString (deliver bytes) SendMessagePayload.text = .ok text →
      ∀ u, u ≠ cli.uid → Participant s.db k u → Online s u →
        ReceivesOnce s out u k cli.uid text := by
  intro claimed
  have seen : getClientByFd 7 crowdedState.clients =
        some ⟨7, 1, strncpy maxNameLen (CString.lit "alice"), true⟩ ∧
      (recordedServer.step crowdedState
        ((serviceSendText 1 (CString.lit "hi")).event 7 (recordedEnv 5))).map Prod.snd = some [] ∧
      ⟨1, 2, 0⟩ ∈ memberRows crowdedState.db (bindInt 1) ∧
      ⟨8, 2, strncpy maxNameLen (CString.lit "bob"), true⟩ ∈ crowdedState.clients := by
    decide +kernel
  obtain ⟨alice, silent, member, bob⟩ := seen
  obtain ⟨⟨t, out⟩, stepped, rfl⟩ := Option.map_eq_some_iff.mp silent
  obtain ⟨fd, message, once, -⟩ := claimed recordedPlatform recordedKey _
    (.after crowdedSession crowdedSession_completes) 7 _ _ _ _ t [] 1 (CString.lit "hi") alice rfl
    (by decide +kernel) stepped (by decide +kernel) (by decide +kernel) 2 (by decide)
    ⟨_, member, rfl⟩ ⟨_, bob, rfl, rfl⟩
  cases once

end MoT
