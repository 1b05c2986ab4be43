import MoT.Effects
import MoT.Services

/-! Which payloads the handlers read within bounds. The block behind the payload
pointer is the payload and one NUL, and there is no block for an empty payload. -/
namespace MoT
open CMemory Relational Transition

variable {α β : Type} {P : Platform} {env : Env} {s : Server} {cli : Client} {bytes : List UInt8}
  {offset : Nat}

/-- No read through the payload pointer goes wrong. -/
def InBounds (x : Except Fault α) : Prop := ∀ f, x ≠ .error (.payload f)

theorem inBounds_ok (a : α) : InBounds (.ok a : Except Fault α) := by
  intro f
  simp

theorem inBounds_bind {x : Except Fault α} {g : α → Except Fault β} :
    InBounds (x >>= g) ↔ InBounds x ∧ ∀ a, x = .ok a → InBounds (g a) := by
  cases x with
  | ok a => simp [InBounds, bind, Except.bind]
  | error fault => simp [InBounds, bind, Except.bind]

theorem inBounds_checked {x : Except CMemory.Fault α} :
    InBounds (checked x) ↔ ∃ a, checked x = .ok a := by
  cases x with
  | ok a => simp [InBounds, checked, Except.mapError]
  | error fault => simp [InBounds, checked, Except.mapError]

theorem deliver_eq {bytes : List UInt8} (nonempty : bytes ≠ []) :
    deliver bytes = some (bytes ++ [0]) := if_neg nonempty

theorem load_deliver {n : Nat} (positive : 0 < n) :
    InBounds (checked (load (deliver bytes) offset n)) ↔
      bytes ≠ [] ∧ offset + n ≤ bytes.length + 1 := by
  rw [inBounds_checked]
  by_cases empty : bytes = []
  · subst empty
    simp [deliver, load, positive.ne', checked, Except.mapError]
  · rw [deliver_eq empty, load, if_neg positive.ne']
    simp only [List.length_append, List.length_singleton]
    split <;> rename_i fits <;> simp [checked, Except.mapError, fits, empty]

theorem inBounds_map {x : Except CMemory.Fault α} {g : α → β} :
    InBounds (checked (x.map g)) ↔ InBounds (checked x) := by
  cases x with
  | ok a => simp [InBounds, checked, Except.mapError, Except.map]
  | error fault => simp [InBounds, checked, Except.mapError, Except.map]

theorem inBounds_readByte :
    InBounds (readByte (deliver bytes) offset) ↔ bytes ≠ [] ∧ offset ≤ bytes.length := by
  rw [readByte, loadByte, inBounds_map, load_deliver (by decide), Nat.add_le_add_iff_right]

theorem inBounds_readUInt32 :
    InBounds (readUInt32 (deliver bytes) offset) ↔ offset + 3 ≤ bytes.length := by
  rw [readUInt32, loadUInt32, inBounds_map, load_deliver (by decide)]
  constructor
  · rintro ⟨-, fits⟩
    omega
  · intro fits
    refine ⟨?_, by omega⟩
    rintro rfl
    simp at fits

theorem readString_deliver (nonempty : bytes ≠ []) (fits : offset ≤ bytes.length) :
    readString (deliver bytes) offset = .ok (CString.cut (bytes.drop offset)) := by
  have dropped : (bytes ++ [0]).drop offset = bytes.drop offset ++ [0] :=
    List.drop_append_of_le_length fits
  rw [readString, deliver_eq nonempty, loadString, dropped, if_pos (by simp),
    CString.cut_append_zero]
  rfl

theorem inBounds_readString :
    InBounds (readString (deliver bytes) offset) ↔ bytes ≠ [] ∧ offset ≤ bytes.length := by
  constructor
  · intro inside
    rw [readString, inBounds_checked] at inside
    obtain ⟨text, read⟩ := inside
    by_cases empty : bytes = []
    · subst empty
      simp [deliver, loadString, checked, Except.mapError] at read
    · refine ⟨empty, ?_⟩
      rw [deliver_eq empty, loadString] at read
      split at read
      · rename_i terminated
        by_contra beyond
        rw [List.drop_eq_nil_of_le (by simp; omega)] at terminated
        cases terminated
      · cases read
  · rintro ⟨nonempty, fits⟩
    rw [readString_deliver nonempty fits]
    exact inBounds_ok _

theorem inBounds_readString_bind {g : CString → Except Fault β} :
    InBounds (readString (deliver bytes) offset >>= g) ↔
      (bytes ≠ [] ∧ offset ≤ bytes.length) ∧ InBounds (g (CString.cut (bytes.drop offset))) := by
  rw [inBounds_bind, inBounds_readString]
  refine and_congr_right fun ⟨nonempty, fits⟩ => ?_
  simp [readString_deliver nonempty fits]

theorem inBounds_readUInt32_bind {g : UInt32 → Except Fault β} :
    InBounds (readUInt32 (deliver bytes) offset >>= g) ↔ offset + 3 ≤ bytes.length ∧
      ∀ n, readUInt32 (deliver bytes) offset = .ok n → InBounds (g n) := by
  rw [inBounds_bind, inBounds_readUInt32]

theorem inBounds_readByte_bind {g : UInt8 → Except Fault β} :
    InBounds (readByte (deliver bytes) offset >>= g) ↔ (bytes ≠ [] ∧ offset ≤ bytes.length) ∧
      ∀ b, readByte (deliver bytes) offset = .ok b → InBounds (g b) := by
  rw [inBounds_bind, inBounds_readByte]

theorem readUInt32_ok (fits : offset + 3 ≤ bytes.length) :
    ∃ n, readUInt32 (deliver bytes) offset = .ok n :=
  inBounds_checked.mp (inBounds_readUInt32.mpr fits)

theorem inBounds_handleRegister : InBounds (handleRegister P env s cli (deliver bytes)) ↔
    RegisterPayload.password ≤ bytes.length := by
  simp only [handleRegister, inBounds_readString_bind]
  constructor
  · rintro ⟨-, -, ⟨-, fits⟩, -⟩
    exact fits
  · intro fits
    have nonempty := List.ne_nil_of_length_pos (Nat.lt_of_lt_of_le (by decide) fits)
    refine ⟨⟨nonempty, Nat.zero_le _⟩, ⟨nonempty, Nat.le_trans (by decide) fits⟩,
      ⟨nonempty, fits⟩, ?_⟩
    split <;> exact inBounds_ok _

theorem inBounds_storageCheckCredentials {db : Database} {email : CString}
    {password : Except Fault CString} :
    InBounds (storageCheckCredentials P db email password) ↔
      ((∃ e ∈ db.users.entries, e.row.email = email) → InBounds password) := by
  unfold storageCheckCredentials
  cases found : db.users.entries.find? fun e => e.row.email = email with
  | none =>
    simp only [List.find?_eq_none, decide_eq_true_eq] at found
    refine iff_of_true (inBounds_ok _) ?_
    rintro ⟨e, member, same⟩
    exact absurd same (found e member)
  | some e =>
    have same : e.row.email = email := by simpa using List.find?_some found
    have known : ∃ e ∈ db.users.entries, e.row.email = email :=
      ⟨e, List.mem_of_find?_eq_some found, same⟩
    simp only [known, forall_const, inBounds_bind, and_iff_left_iff_imp]
    intro _ text _
    split
    · intro f impossible
      cases impossible
    · split <;> exact inBounds_ok _

/- What is only bound is not read where there is nothing to read. -/
theorem bindText_deliver : bindText (deliver bytes) 0 =
    .ok (if bytes = [] then none else some (CString.cut bytes)) := by
  unfold bindText
  by_cases empty : bytes = []
  · rw [if_pos ⟨if_pos empty, rfl⟩, if_pos empty]
  · rw [if_neg fun null => by simp [deliver_eq empty] at null, if_neg empty,
      readString_deliver empty (Nat.zero_le _)]
    rfl

theorem inBounds_handleLogin : InBounds (handleLogin P s cli (deliver bytes)) ↔
    (bytes ≠ [] → (∃ e ∈ s.db.users.entries, e.row.email = CString.cut bytes) →
      LoginPayload.password ≤ bytes.length) := by
  rw [handleLogin, show LoginPayload.email = 0 from rfl, bindText_deliver]
  by_cases empty : bytes = []
  · rw [if_pos empty]
    exact iff_of_true (inBounds_ok _) fun nonempty => absurd empty nonempty
  · rw [if_neg empty, forall_prop_of_true empty]
    change InBounds (storageCheckCredentials P s.db (CString.cut bytes)
      (readString (deliver bytes) LoginPayload.password) >>= _) ↔ _
    rw [inBounds_bind, inBounds_storageCheckCredentials, inBounds_readString, and_iff_left]
    · exact imp_congr_right fun _ => and_iff_right empty
    · intro found _
      cases found with
      | none => exact inBounds_ok _
      | some u => exact inBounds_ok _

theorem inBounds_handleUpdateUser : InBounds (handleUpdateUser P env s cli (deliver bytes)) ↔
    UpdateUserPayload.newPassword ≤ bytes.length := by
  simp only [handleUpdateUser, inBounds_readString_bind]
  constructor
  · rintro ⟨-, ⟨-, fits⟩, -⟩
    exact fits
  · intro fits
    have nonempty := List.ne_nil_of_length_pos (Nat.lt_of_lt_of_le (by decide) fits)
    exact ⟨⟨nonempty, Nat.zero_le _⟩, ⟨nonempty, fits⟩, inBounds_ok _⟩

theorem inBounds_handleSendText : InBounds (handleSendText P env s cli (deliver bytes)) ↔
    SendMessagePayload.text ≤ bytes.length := by
  simp only [handleSendText, inBounds_readUInt32_bind, inBounds_readString_bind]
  constructor
  · rintro ⟨long, rest⟩
    obtain ⟨k, readK⟩ := readUInt32_ok long
    exact (rest k readK).1.2
  · intro fits
    have nonempty := List.ne_nil_of_length_pos (Nat.lt_of_lt_of_le (by decide) fits)
    exact ⟨Nat.le_trans (by decide) fits, fun k _ => ⟨⟨nonempty, fits⟩, inBounds_ok _⟩⟩

theorem inBounds_storageGetHistory {key : Option Key} {junk : Nat → UInt8} {plan : Plan}
    {db : Database} {k : UInt32} : InBounds (storageGetHistory P key junk plan db k) := by
  have fold (rows : List HistoryRow) (state : Option (List Cell) × Nat) :
      InBounds (rows.foldlM (historyStep P key junk) state) := by
    induction rows generalizing state with
    | nil => exact inBounds_ok state
    | cons row rows ih =>
      rw [List.foldlM_cons, inBounds_bind]
      refine ⟨?_, fun next _ => ih next⟩
      intro f impossible
      simp only [historyStep] at impossible
      split at impossible
      · cases impossible
      · split at impossible <;> cases impossible
  exact inBounds_bind.mpr ⟨fold _ _, fun _ _ => inBounds_ok _⟩

theorem inBounds_handleReqHistory : InBounds (handleReqHistory P env s cli (deliver bytes)) ↔
    RequestHistoryPayload.convId + 3 ≤ bytes.length := by
  simp only [handleReqHistory, inBounds_readUInt32_bind,
    inBounds_bind (x := storageGetHistory _ _ _ _ _ _)]
  refine and_iff_left fun k _ => ⟨inBounds_storageGetHistory, fun hist _ => ?_⟩
  split
  · intro f impossible
    cases impossible
  · exact inBounds_ok _

theorem inBounds_handleReqMembers : InBounds (handleReqMembers env s cli (deliver bytes)) ↔
    ReqMembersPayload.convId + 3 ≤ bytes.length := by
  simp only [handleReqMembers, inBounds_readUInt32_bind]
  exact and_iff_left fun k _ => inBounds_ok _

theorem inBounds_handleAddByCode : InBounds (handleAddByCode env s cli (deliver bytes)) := by
  rw [handleAddByCode, show AddContactPayload.friendCode = 0 from rfl, bindText_deliver]
  dsimp only [bind, Except.bind]
  split
  · exact inBounds_ok _
  · split <;> exact inBounds_ok _

theorem inBounds_handleDecideRequest :
    InBounds (handleDecideRequest env s cli (deliver bytes)) ↔
      DecideRequestPayload.accepted ≤ bytes.length := by
  simp only [handleDecideRequest, inBounds_readByte_bind, inBounds_readUInt32_bind]
  constructor
  · rintro ⟨⟨-, fits⟩, -⟩
    exact fits
  · intro fits
    have nonempty := List.ne_nil_of_length_pos (Nat.lt_of_lt_of_le (by decide) fits)
    exact ⟨⟨nonempty, fits⟩, fun _ _ => ⟨Nat.le_trans (by decide) fits, fun _ _ => inBounds_ok _⟩⟩

theorem inBounds_ite {c : Prop} [Decidable c] {x y : Except Fault α} :
    InBounds (if c then x else y) ↔ (c → InBounds x) ∧ (¬ c → InBounds y) := by
  split <;> rename_i decided <;> simp [decided]

theorem inBounds_handleUpdateGroup :
    InBounds (handleUpdateGroup env s cli (deliver bytes)) ↔
      UpdateGroupPayload.convId + 3 ≤ bytes.length ∧
      ∀ k, readUInt32 (deliver bytes) UpdateGroupPayload.convId = .ok k →
        storageIsAdmin s.db k cli.uid = true → UpdateGroupPayload.newDesc ≤ bytes.length := by
  simp only [handleUpdateGroup, inBounds_readUInt32_bind, inBounds_ite, inBounds_readString_bind]
  refine and_congr_right fun long => forall_congr' fun k => imp_congr_right fun _ => ?_
  have nonempty := List.ne_nil_of_length_pos (Nat.lt_of_lt_of_le (by decide) long)
  constructor
  · rintro ⟨inside, -⟩ admin
    exact (inside admin).2.1.2
  · intro fits
    refine ⟨fun admin => ?_, fun _ => inBounds_ok _⟩
    exact ⟨⟨nonempty, Nat.le_trans (by decide) (fits admin)⟩, ⟨nonempty, fits admin⟩,
      inBounds_ok _⟩

theorem inBounds_handleAddMember :
    InBounds (handleAddMember env s cli (deliver bytes)) ↔
      AddMemberPayload.convId + 3 ≤ bytes.length ∧
      ∀ k, readUInt32 (deliver bytes) AddMemberPayload.convId = .ok k →
        storageIsAdmin s.db k cli.uid = true →
          AddMemberPayload.targetFriendCode ≤ bytes.length := by
  simp only [handleAddMember, inBounds_readUInt32_bind, inBounds_ite, inBounds_readString_bind]
  refine and_congr_right fun long => forall_congr' fun k => imp_congr_right fun _ => ?_
  have nonempty := List.ne_nil_of_length_pos (Nat.lt_of_lt_of_le (by decide) long)
  constructor
  · rintro ⟨inside, -⟩ admin
    exact (inside admin).1.2
  · intro fits
    refine ⟨fun admin => ⟨⟨nonempty, fits admin⟩, ?_⟩, fun _ => inBounds_ok _⟩
    split <;> exact inBounds_ok _

theorem inBounds_handleKickMember :
    InBounds (handleKickMember env s cli (deliver bytes)) ↔
      KickMemberPayload.convId + 3 ≤ bytes.length ∧
      ∀ k, readUInt32 (deliver bytes) KickMemberPayload.convId = .ok k →
        storageIsAdmin s.db k cli.uid = true → KickMemberPayload.targetUid + 3 ≤ bytes.length := by
  simp only [handleKickMember, inBounds_readUInt32_bind, inBounds_ite]
  refine and_congr_right fun _ => forall_congr' fun k => imp_congr_right fun _ => ?_
  constructor
  · rintro ⟨inside, -⟩ admin
    exact (inside admin).1
  · intro fits
    exact ⟨fun admin => ⟨fits admin, fun _ _ => ⟨fun _ => inBounds_ok _, fun _ => inBounds_ok _⟩⟩,
      fun _ => inBounds_ok _⟩

theorem inBounds_handleDeleteGroup :
    InBounds (handleDeleteGroup env s cli (deliver bytes)) ↔
      DeleteGroupPayload.convId + 3 ≤ bytes.length := by
  simp only [handleDeleteGroup, inBounds_readUInt32_bind, inBounds_ite]
  exact and_iff_left fun k _ => ⟨fun _ => inBounds_ok _, fun _ => inBounds_ok _⟩

/- The size of the copy: a count with its top bit set becomes an enormous one. -/
theorem copySize_participantCount (n : UInt32) :
    copySize (participantCount n) = 4 * min n.toNat maxParticipants ∧ n.toNat < 2 ^ 31 ∨
      2 ^ 63 ≤ copySize (participantCount n) ∧ 2 ^ 31 ≤ n.toNat := by
  have bound : n.toNat < 2 ^ 32 := n.toNat_lt
  have value : bindInt n = if n.toNat < 2 ^ 31 then (n.toNat : Int) else n.toNat - 2 ^ 32 := rfl
  unfold copySize participantCount
  simp only [maxParticipants]
  split at value <;> split <;> omega

theorem inBounds_copyUids {n : UInt32} (short : bytes.length + 1 < 2 ^ 32)
    (nonempty : bytes ≠ []) :
    InBounds (copyUids (deliver bytes) (participantCount n)) ↔ n.toNat < 2 ^ 31 ∧
      (n.toNat = 0 ∨
        CreateConvPayload.participantUids + 4 * min n.toNat maxParticipants ≤ bytes.length + 1) := by
  have read : InBounds (copyUids (deliver bytes) (participantCount n)) ↔
      InBounds (readBytes (deliver bytes) CreateConvPayload.participantUids
        (copySize (participantCount n))) := by
    rw [copyUids, inBounds_bind, and_iff_left]
    intro block _
    split
    · intro f impossible
      cases impossible
    · exact inBounds_ok _
  rw [read]
  by_cases zero : copySize (participantCount n) = 0
  · rw [zero]
    refine iff_of_true (inBounds_ok _) ?_
    rcases copySize_participantCount n with ⟨size, small⟩ | ⟨size, -⟩
    · simp only [maxParticipants] at size
      omega
    · omega
  · rw [readBytes, load_deliver (Nat.pos_of_ne_zero zero), and_iff_right nonempty]
    simp only [CreateConvPayload.participantUids, convNameLen, maxDescLen]
    rcases copySize_participantCount n with ⟨size, small⟩ | ⟨size, large⟩ <;>
      simp only [maxParticipants] at size ⊢ <;> omega

theorem inBounds_handleCreateConv (short : bytes.length + 1 < 2 ^ 32) :
    InBounds (handleCreateConv env s cli (deliver bytes)) ↔
      ∃ n, readUInt32 (deliver bytes) CreateConvPayload.participantsCount = .ok n ∧
        n.toNat < 2 ^ 31 ∧
        CreateConvPayload.participantUids + 4 * min n.toNat maxParticipants ≤ bytes.length + 1 := by
  simp only [handleCreateConv, inBounds_readUInt32_bind, inBounds_bind (x := copyUids _ _),
    inBounds_readByte_bind, inBounds_ite, inBounds_readString_bind]
  constructor
  · rintro ⟨long, rest⟩
    obtain ⟨n, readN⟩ := readUInt32_ok long
    have nonempty := List.ne_nil_of_length_pos (Nat.lt_of_lt_of_le (by decide) long)
    obtain ⟨small, zero | fits⟩ := (inBounds_copyUids short nonempty).mp (rest n readN).1
    · refine ⟨n, readN, small, ?_⟩
      rw [zero]
      exact Nat.succ_le_succ long
    · exact ⟨n, readN, small, fits⟩
  · rintro ⟨n, readN, small, fits⟩
    have long : CreateConvPayload.participantsCount + 3 ≤ bytes.length :=
      Nat.le_of_succ_le_succ ((Nat.le_add_right _ _).trans fits)
    have nonempty := List.ne_nil_of_length_pos (Nat.lt_of_lt_of_le (by decide) long)
    refine ⟨long, fun m readM => ?_⟩
    cases Except.ok.inj (readN.symm.trans readM)
    refine ⟨(inBounds_copyUids short nonempty).mpr ⟨small, .inr fits⟩, fun uids _ => ?_⟩
    refine ⟨⟨nonempty, Nat.zero_le _⟩, fun type _ => ⟨fun _ => inBounds_ok _, fun _ => ?_⟩⟩
    exact ⟨⟨nonempty, Nat.le_trans (by decide) long⟩, ⟨nonempty, Nat.le_trans (by decide) long⟩,
      inBounds_ok _⟩

/-- The payload is as long as its handler needs it. Where a field is read only on some
path, the condition of that path comes first. -/
def Covers (s : Server) (cli : Client) (bytes : List UInt8) : MessageType → Prop
  | .register => RegisterPayload.password ≤ bytes.length
  | .login => bytes ≠ [] → (∃ e ∈ s.db.users.entries, e.row.email = CString.cut bytes) →
      LoginPayload.password ≤ bytes.length
  | .updateUser => UpdateUserPayload.newPassword ≤ bytes.length
  | .sendText => SendMessagePayload.text ≤ bytes.length
  | .reqHistory => RequestHistoryPayload.convId + 3 ≤ bytes.length
  | .createConv => ∃ n, readUInt32 (deliver bytes) CreateConvPayload.participantsCount = .ok n ∧
      n.toNat < 2 ^ 31 ∧
      CreateConvPayload.participantUids + 4 * min n.toNat maxParticipants ≤ bytes.length + 1
  | .updateGroup => UpdateGroupPayload.convId + 3 ≤ bytes.length ∧
      ∀ k, readUInt32 (deliver bytes) UpdateGroupPayload.convId = .ok k →
        storageIsAdmin s.db k cli.uid = true → UpdateGroupPayload.newDesc ≤ bytes.length
  | .addMember => AddMemberPayload.convId + 3 ≤ bytes.length ∧
      ∀ k, readUInt32 (deliver bytes) AddMemberPayload.convId = .ok k →
        storageIsAdmin s.db k cli.uid = true → AddMemberPayload.targetFriendCode ≤ bytes.length
  | .reqMembers => ReqMembersPayload.convId + 3 ≤ bytes.length
  | .kickMember => KickMemberPayload.convId + 3 ≤ bytes.length ∧
      ∀ k, readUInt32 (deliver bytes) KickMemberPayload.convId = .ok k →
        storageIsAdmin s.db k cli.uid = true → KickMemberPayload.targetUid + 3 ≤ bytes.length
  | .deleteGroup => DeleteGroupPayload.convId + 3 ≤ bytes.length
  | .decideRequest => DecideRequestPayload.accepted ≤ bytes.length
  | _ => True

/-- Handling a delivered packet stays within the payload's block exactly when the
payload is as long as its type needs. A length whose successor wraps is never delivered. -/
theorem payload_in_bounds_iff (P : Platform) (env : Env) (s : Server) (cli : Client)
    (code : UInt32) (bytes : List UInt8) (short : bytes.length + 1 < 2 ^ 32) :
    InBounds (dispatch P env s cli code (deliver bytes)) ↔
      ∀ type, MessageType.ofCode code = some type → Covers s cli bytes type := by
  unfold dispatch
  cases coded : MessageType.ofCode code with
  | none => exact iff_of_true (inBounds_ok _) (by simp)
  | some type =>
    simp only [Option.some.injEq, forall_eq']
    cases type with
    | register => exact inBounds_handleRegister
    | login => exact inBounds_handleLogin
    | updateUser => exact inBounds_handleUpdateUser
    | sendText => exact inBounds_handleSendText
    | reqHistory => exact inBounds_handleReqHistory
    | createConv => exact inBounds_handleCreateConv short
    | updateGroup => exact inBounds_handleUpdateGroup
    | addMember => exact inBounds_handleAddMember
    | reqMembers => exact inBounds_handleReqMembers
    | kickMember => exact inBounds_handleKickMember
    | deleteGroup => exact inBounds_handleDeleteGroup
    | addByCode => exact iff_of_true inBounds_handleAddByCode trivial
    | decideRequest => exact inBounds_handleDecideRequest
    | _ => exact iff_of_true (inBounds_ok _) trivial

theorem payload_in_bounds_iff_login :
    InBounds (dispatch recordedPlatform (recordedEnv 1) recordedServer.start
        ⟨7, 0, List.Vector.replicate maxNameLen 0, false⟩ MessageType.login.code
        (deliver (serviceLogin (CString.lit "a@x") (CString.lit "pw")).2)) ↔
      ∀ type, MessageType.ofCode MessageType.login.code = some type →
        Covers recordedServer.start ⟨7, 0, List.Vector.replicate maxNameLen 0, false⟩
          (serviceLogin (CString.lit "a@x") (CString.lit "pw")).2 type :=
  payload_in_bounds_iff recordedPlatform (recordedEnv 1) recordedServer.start
    ⟨7, 0, List.Vector.replicate maxNameLen 0, false⟩ MessageType.login.code _ (by decide +kernel)

/- A header that announces no payload is enough. -/
theorem reqHistory_dereferences_null :
    ¬ ∀ (P : Platform) (env : Env) (s : Server) (cli : Client) (code : UInt32)
      (bytes : List UInt8), bytes.length + 1 < 2 ^ 32 →
      InBounds (dispatch P env s cli code (deliver bytes)) := by
  intro claimed
  refine claimed recordedPlatform (recordedEnv 1) recordedServer.start
    ⟨7, 0, List.Vector.replicate maxNameLen 0, false⟩ MessageType.reqHistory.code [] (by decide)
    .null ?_
  rfl

end MoT
