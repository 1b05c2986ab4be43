import MoT.Admission
import MoT.Codec

/-! The log of messages as the past of a run tells it: the table holds the texts that were
sent, but for the conversations deleted since, and the history of a conversation answers from
them. -/
namespace MoT
open CMemory Relational Transition

variable {P : Platform} {key : Key} {env : Env} {s t : Server} {cli : Client} {p : Pointer}
  {db db' : Database} {out : List Sent} {type : Option MessageType} {k : UInt32}

structure Utterance where
  convId : UInt32
  sender : UInt32
  text : CString
  timestamp : Int
deriving DecidableEq

def uttered (m : ServerMoment) : Option Utterance :=
  match m.event with
  | .packet fd code bytes env =>
    if MessageType.ofCode code = some .sendText ∧ env.randBytes.isSome then do
      let cli ← getClientByFd fd m.before.clients
      let k ← (readUInt32 (deliver bytes) SendMessagePayload.convId).toOption
      let text ← (readString (deliver bytes) SendMessagePayload.text).toOption
      some ⟨k, cli.uid, text, env.now⟩
    else none
  | _ => none

def dropped (m : ServerMoment) : Option UInt32 :=
  match m.event with
  | .packet fd code bytes _ =>
    if MessageType.ofCode code = some .deleteGroup then do
      let cli ← getClientByFd fd m.before.clients
      let k ← (readUInt32 (deliver bytes) DeleteGroupPayload.convId).toOption
      if storageIsAdmin m.before.db k cli.uid then some k else none
    else none
  | _ => none

/-- What was said so far, oldest first, without the conversations deleted since. -/
def chronicle : List ServerMoment → List Utterance
  | [] => []
  | m :: past =>
    ((chronicle past).filter fun u => dropped m ≠ some u.convId) ++ (uttered m).toList

/-- The row stores this utterance, and under the key of the server its text is read back. -/
structure Stores (P : Platform) (key : Key) (e : Entry MessageRow) (u : Utterance) : Prop where
  convId : e.row.convId = bindInt u.convId
  sender : e.row.senderId = bindInt u.sender
  timestamp : e.row.timestamp = u.timestamp
  text : ∀ junk, cryptoDecrypt P (some key) junk e.row.text = some u.text

def payloadBytes : Event → List UInt8
  | .packet _ _ bytes _ => bytes
  | _ => []

/-- No payload comes near the lengths at which the cipher's `int` lengths overflow. -/
def ShortPayloads (past : List ServerMoment) : Prop :=
  ∀ m ∈ past, (payloadBytes m.event).length < 2 ^ 29

instance (past : List ServerMoment) : Decidable (ShortPayloads past) :=
  inferInstanceAs (Decidable (∀ m ∈ past, (payloadBytes m.event).length < 2 ^ 29))

theorem dispatch_masterKey {code : UInt32} (done : dispatch P env s cli code p = .ok (t, out)) :
    t.masterKey = s.masterKey := by
  unfold dispatch at done
  cases coded : MessageType.ofCode code with
  | none =>
    rw [coded] at done
    cases done
    rfl
  | some type =>
    rw [coded] at done
    cases type with
    | register =>
      obtain ⟨_, _, _, -, -, -, ⟨rfl, -⟩ | ⟨_, _, _, -, -, rfl, -⟩⟩ := handleRegister_ok done <;> rfl
    | login => obtain ⟨rfl, -⟩ | ⟨u, rfl, -⟩ := handleLogin_ok done <;> rfl
    | updateUser =>
      simp only [handleUpdateUser, ok_bind_iff] at done
      obtain ⟨_, -, _, -, done⟩ := done
      obtain ⟨rfl, -⟩ := Prod.mk.inj (ok_pure_iff.mp done)
      rfl
    | sendText =>
      obtain ⟨_, _, -, -, rfl, -⟩ := handleSendText_ok done
      rfl
    | reqHistory =>
      obtain ⟨_, _, _, -, -, -, rfl, -⟩ := handleReqHistory_ok done
      rfl
    | createConv =>
      obtain ⟨_, _, _, -, -, -, ⟨-, rfl, -⟩ | ⟨-, _, _, -, -, rfl, -⟩⟩ := handleCreateConv_ok done <;>
        rfl
    | updateGroup =>
      obtain ⟨_, -, ⟨-, rfl, -⟩ | ⟨-, _, _, -, -, rfl, -⟩⟩ := handleUpdateGroup_ok done <;> rfl
    | addMember =>
      obtain ⟨_, -, ⟨-, rfl, -⟩ | ⟨-, _, -, ⟨-, rfl, -⟩ | ⟨_, -, rfl, -⟩⟩⟩ :=
        handleAddMember_ok done <;> rfl
    | reqMembers =>
      obtain ⟨_, -, rfl, -⟩ := handleReqMembers_ok done
      rfl
    | kickMember =>
      obtain ⟨_, -, ⟨-, rfl, -⟩ | ⟨-, _, -, ⟨-, rfl, -⟩ | ⟨-, rfl, -⟩⟩⟩ :=
        handleKickMember_ok done <;> rfl
    | deleteGroup =>
      obtain ⟨_, -, ⟨-, rfl, -⟩ | ⟨-, rfl, -⟩⟩ := handleDeleteGroup_ok done <;> rfl
    | addByCode =>
      obtain ⟨rfl, -⟩ | ⟨_, _, _, -, -, -, -, rfl, -⟩ := handleAddByCode_ok done <;> rfl
    | decideRequest =>
      obtain ⟨_, _, -, -, rfl, -⟩ := handleDecideRequest_ok done
      rfl
    | _ =>
      cases done
      rfl

theorem reachable_masterKey (reached : Reachable (server P key) s) : s.masterKey = key := by
  refine reached.invariant (fun s => s.masterKey = key) rfl ?_
  intro s e t out same stepped
  have handled := (handleEvent_of_step stepped).2
  cases e with
  | connect fd =>
    cases handled
    exact same
  | disconnect fd =>
    cases handled
    exact same
  | packet fd code bytes env =>
    simp only [handleEvent] at handled
    split at handled
    · cases handled
      exact same
    · exact (dispatch_masterKey handled).trans same

theorem acceptDb_messages (plan : Plan) (db : Database) (uid target : UInt32) :
    (acceptDb plan db uid target).messages = db.messages := by
  simp only [acceptDb]
  split
  · obtain ⟨conversations, -, created⟩ := storageCreateConversation_spec
      (storageAddFriendship db uid target) convTypePrivate (CString.lit "Private Chat")
      CString.empty [uid, target]
    rw [created]
    rfl
  · rfl

theorem Change.messages_same (change : Change P env s cli p type db')
    (quiet : type ≠ some .sendText) (kept : type ≠ some .deleteGroup) :
    db'.messages = s.db.messages := by
  cases change with
  | same | register | addByCode | updateGroup | addMember | kickMember => rfl
  | updateUser newUsername newPassword =>
    obtain ⟨users, updated⟩ :=
      storageUpdateUser_frame P s.db env.salt cli.uid newUsername newPassword
    rw [updated]
  | sendText => exact absurd rfl quiet
  | deleteGroup => exact absurd rfl kept
  | createConv n uids type name description =>
    obtain ⟨conversations, -, created⟩ :=
      storageCreateConversation_spec s.db type name description uids
    rw [created]
  | decideRequest accepted target =>
    simp only [decideDb, storageRemoveRequest]
    split
    · exact acceptDb_messages env.plan s.db cli.uid target
    · rfl

theorem unheard {said : List Utterance} (silent : uttered m = none) (kept : dropped m = none) :
    (said.filter fun u => dropped m ≠ some u.convId) ++ (uttered m).toList = said := by
  simp [silent, kept]

theorem sendText_stores (cbc : PaddedCbc P) {said : List Utterance}
    (stored : List.Forall₂ (Stores P s.masterKey) s.db.messages.entries said) (iv : Iv) (now : Int)
    (k sender : UInt32) {text : CString} (small : text.length < 2 ^ 29) :
    List.Forall₂ (Stores P s.masterKey)
      (storageLogMessage P (some s.masterKey) (some iv) now s.db k sender text).messages.entries
      (said ++ [⟨k, sender, text, now⟩]) := by
  obtain ⟨body, last, hexOut, hex, plaintext, update, final, encoded, ⟨-, -, encrypted⟩, -, -,
    decrypted⟩ := codec_agrees cbc s.masterKey iv (fun _ => 0) small
  rw [storageLogMessage_entries, encrypted]
  refine List.rel_append stored (.cons ⟨rfl, rfl, rfl, fun junk => ?_⟩ .nil)
  obtain ⟨_, _, _, hex', _, update', final', encoded', ⟨-, -, encrypted'⟩, -, -, decrypted'⟩ :=
    codec_agrees cbc s.masterKey iv junk small
  cases Option.some.inj (encrypted.symm.trans encrypted')
  exact decrypted'

theorem read_within {bytes : List UInt8} {offset : Nat} {text : CString}
    (read : readString (deliver bytes) offset = .ok text) : text.length ≤ bytes.length := by
  have inside : InBounds (readString (deliver bytes) offset) := by simp [InBounds, read]
  obtain ⟨nonempty, fits⟩ := inBounds_readString.mp inside
  rw [readString_deliver nonempty fits] at read
  cases Except.ok.inj read
  have cut : (CString.cut (bytes.drop offset)).length ≤ (bytes.drop offset).length :=
    (List.takeWhile_prefix _).length_le
  exact cut.trans (by simp)

theorem step_chronicle (cbc : PaddedCbc P) {e : Event} {said : List Utterance}
    (stepped : (server P key).step s e = some (t, out)) (small : (payloadBytes e).length < 2 ^ 29)
    (stored : List.Forall₂ (Stores P s.masterKey) s.db.messages.entries said) :
    List.Forall₂ (Stores P s.masterKey) t.db.messages.entries
      ((said.filter fun u => dropped ⟨s, e, t, out⟩ ≠ some u.convId) ++
        (uttered ⟨s, e, t, out⟩).toList) := by
  have handled := (handleEvent_of_step stepped).2
  cases e with
  | connect fd =>
    cases handled
    rw [unheard rfl rfl]
    exact stored
  | disconnect fd =>
    cases handled
    rw [unheard rfl rfl]
    exact stored
  | packet fd code bytes env =>
    simp only [handleEvent] at handled
    cases listed : getClientByFd fd s.clients with
    | none =>
      rw [listed] at handled
      cases handled
      rw [unheard (by simp [uttered, listed]) (by simp [dropped, listed])]
      exact stored
    | some cli =>
      rw [listed] at handled
      by_cases texts : MessageType.ofCode code = some .sendText
      · have done := handled
        simp only [dispatch, texts] at done
        obtain ⟨k, text, readK, readText, after, -⟩ := handleSendText_ok done
        have kept : dropped ⟨s, .packet fd code bytes env, t, out⟩ = none := by
          simp [dropped, texts]
        have entries := congrArg (fun s => s.db.messages.entries) after
        dsimp only at entries
        cases iv : env.randBytes with
        | none =>
          rw [unheard (by simp [uttered, iv]) kept, entries, iv]
          exact stored
        | some iv' =>
          have heard : uttered ⟨s, .packet fd code bytes env, t, out⟩ =
              some ⟨k, cli.uid, text, env.now⟩ := by
            simp [uttered, texts, iv, listed, readK, readText, Except.toOption]
          rw [kept, heard, entries, iv]
          simpa using sendText_stores cbc stored iv' env.now k cli.uid
            (lt_of_le_of_lt (read_within readText) small)
      · by_cases deletes : MessageType.ofCode code = some .deleteGroup
        · have done := handled
          simp only [dispatch, deletes] at done
          have silent : uttered ⟨s, .packet fd code bytes env, t, out⟩ = none := by
            simp [uttered, deletes]
          obtain ⟨k, readK, ⟨stranger, after, -⟩ | ⟨admin, after, -⟩⟩ := handleDeleteGroup_ok done
          · rw [unheard silent (by simp [dropped, deletes, listed, readK, stranger, Except.toOption]),
              after]
            exact stored
          · have gone : dropped ⟨s, .packet fd code bytes env, t, out⟩ = some k := by
              simp [dropped, deletes, listed, readK, admin, Except.toOption]
            rw [silent, gone, Option.toList_none, List.append_nil, after]
            refine List.rel_filter (fun e u stores => ?_) stored
            have same : e.row.convId = bindInt k ↔ some k = some u.convId := by
              rw [stores.convId, bindInt_eq_iff, Option.some.injEq, eq_comm]
            simp only [same, decide_not, Bool.not_eq_true']
        · have change := dispatch_change handled
          rw [unheard (by simp [uttered, texts]) (by simp [dropped, deletes]),
            change.messages_same texts deletes]
          exact stored

theorem run_chronicle (cbc : PaddedCbc P) {past : List ServerMoment}
    (run : Run (server P key) past s) (short : ShortPayloads past) :
    List.Forall₂ (Stores P key) s.db.messages.entries (chronicle past) := by
  induction run with
  | start => exact .nil
  | step before stepped ih =>
    have stored := ih fun m member => short m (List.mem_cons_of_mem _ member)
    have same := reachable_masterKey before.reachable
    rw [← same] at stored ⊢
    exact step_chronicle cbc stepped (short _ List.mem_cons_self) stored

def Utterance.line (P : Platform) (u : Utterance) (sender : Entry UserRow) : CString :=
  lineHeader P (⟨0, bindInt u.convId, bindInt u.sender, u.text, u.timestamp⟩, sender) ++ u.text ++
    CString.lit "\n"

theorem Stores.line {e : Entry MessageRow} {u : Utterance} (stores : Stores P key e u)
    (sender : Entry UserRow) (junk : Nat → UInt8) :
    historyLine P (some key) junk (e, sender) = some (u.line P sender) := by
  have header : lineHeader P (e, sender) =
      lineHeader P (⟨0, bindInt u.convId, bindInt u.sender, u.text, u.timestamp⟩, sender) := by
    simp only [lineHeader, stores.timestamp]
  rw [historyLine, stores.text junk, Option.map_some, header, Utterance.line]

theorem forall₂_left {α β : Type} {R : α → β → Prop} {as : List α} {bs : List β}
    (related : List.Forall₂ R as bs) {a : α} (member : a ∈ as) : ∃ b ∈ bs, R a b := by
  induction related with
  | nil => cases member
  | @cons a' b _ bs first _ ih =>
    rcases List.mem_cons.mp member with rfl | later
    · exact ⟨b, List.mem_cons_self, first⟩
    · obtain ⟨b', hb, related⟩ := ih later
      exact ⟨b', List.mem_cons_of_mem _ hb, related⟩

/-- What was said in conversation `k` by somebody who is in the users table. -/
def Told (db : Database) (said : List Utterance) (k : UInt32) (u : Utterance)
    (sender : Entry UserRow) : Prop :=
  u ∈ said ∧ u.convId = k ∧ sender ∈ db.users.entries ∧ sender.rowid = bindInt u.sender

theorem told_of_joined {said : List Utterance}
    (stored : List.Forall₂ (Stores P key) db.messages.entries said) {r : HistoryRow}
    (joined : r ∈ joinedMessages db k) : ∃ u, Stores P key r.1 u ∧ Told db said k u r.2 := by
  obtain ⟨member, conv⟩ := List.mem_filter.mp joined
  rw [decide_eq_true_eq] at conv
  obtain ⟨hm, hu, sender⟩ := mem_join.mp member
  obtain ⟨u, heard, stores⟩ := forall₂_left stored hm
  rw [decide_eq_true_eq] at sender
  exact ⟨u, stores, heard, bindInt_inj (stores.convId.symm.trans conv), hu,
    sender.symm.trans stores.sender⟩

theorem joined_of_told {said : List Utterance}
    (stored : List.Forall₂ (Stores P key) db.messages.entries said) {u : Utterance}
    {sender : Entry UserRow} (told : Told db said k u sender) :
    ∃ e, (e, sender) ∈ joinedMessages db k ∧ e.row.timestamp = u.timestamp := by
  obtain ⟨heard, rfl, hu, same⟩ := told
  have flipped : List.Forall₂ (fun u e => Stores P key e u) said db.messages.entries :=
    List.Forall₂.flip stored
  obtain ⟨e, he, stores⟩ := forall₂_left flipped heard
  refine ⟨e, List.mem_filter.mpr ⟨mem_join.mpr ⟨he, hu, ?_⟩, ?_⟩, stores.timestamp⟩
  · exact decide_eq_true (stores.sender.trans same.symm)
  · exact decide_eq_true stores.convId

theorem historyRows_none {plan : Plan} (none : historyRows plan db k = []) :
    joinedMessages db k = [] := by
  have length := historyRows_length plan db k
  rw [none, List.length_nil] at length
  exact List.length_eq_zero_iff.mp (by omega)

theorem historyRows_first {plan : Plan} {r : HistoryRow} {rest : List HistoryRow}
    (rows : historyRows plan db k = r :: rest) : r ∈ joinedMessages db k ∧
      ∀ r' ∈ joinedMessages db k, r.1.row.timestamp ≤ r'.1.row.timestamp := by
  have perm := orderBy_perm (fun r : HistoryRow => r.1.row.timestamp) plan.history
    (joinedMessages db k)
  have sorted := orderBy_sorted (fun r : HistoryRow => r.1.row.timestamp) plan.history
    (joinedMessages db k)
  rw [historyRows] at rows
  cases ordered : orderBy (fun r : HistoryRow => r.1.row.timestamp) plan.history
      (joinedMessages db k) with
  | nil =>
    rw [ordered] at rows
    cases rows
  | cons r' rest' =>
    rw [ordered, List.take_succ_cons] at rows
    cases rows
    rw [ordered] at perm sorted
    refine ⟨perm.subset List.mem_cons_self, fun r' member => ?_⟩
    rcases List.mem_cons.mp (perm.mem_iff.mpr member) with rfl | later
    · exact Int.le_refl _
    · exact (List.pairwise_cons.mp sorted).1 r' later

/-- The answer to a history request is one line of the chronicle: of the utterances in that
conversation whose senders are users, one with the earliest time, under the name its sender
has now. It is empty when there is none. -/
def AnswersFrom (P : Platform) (db : Database) (said : List Utterance) (k : UInt32)
    (answer : List UInt8) : Prop :=
  (answer = [] ∧ ∀ u sender, ¬ Told db said k u sender) ∨
    ∃ u sender, Told db said k u sender ∧ answer = (u.line P sender).bytes ∧
      ∀ v sender', Told db said k v sender' → u.timestamp ≤ v.timestamp

theorem storageGetHistory_answers {said : List Utterance} {plan : Plan}
    {junk : Nat → UInt8} {hist : List Cell} {answer : List UInt8}
    (stored : List.Forall₂ (Stores P key) db.messages.entries said)
    (built : storageGetHistory P (some key) junk plan db k = .ok hist)
    (string : CMemory.readString hist = some answer) : AnswersFrom P db said k answer := by
  obtain ⟨lines, printed, first⟩ := storageGetHistory_answer built string
  cases rows : historyRows plan db k with
  | nil =>
    rw [rows] at printed
    cases printed
    refine .inl ⟨first, fun u sender told => ?_⟩
    obtain ⟨e, joined, -⟩ := joined_of_told stored told
    rw [historyRows_none rows] at joined
    cases joined
  | cons r rest =>
    rw [rows] at printed
    obtain ⟨joined, earliest⟩ := historyRows_first rows
    obtain ⟨u, stores, told⟩ := told_of_joined stored joined
    cases printed with
    | cons line _ =>
      rw [show r = (r.1, r.2) from rfl, stores.line r.2 junk] at line
      refine .inr ⟨u, r.2, told, ?_, fun v sender' told' => ?_⟩
      · rw [first, List.headD_cons, Option.some.inj line]
      · obtain ⟨e, joined', same⟩ := joined_of_told stored told'
        rw [← stores.timestamp, ← same]
        exact earliest _ joined'

abbrev paddedServer := server paddedPlatform recordedKey

end MoT
