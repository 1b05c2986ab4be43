import MoT.Acceptance
import MoT.Chronicle
import MoT.ClientEffects
import MoT.Creation
import MoT.GroupForm
import MoT.Link
import MoT.Profile
import MoT.Residue

/-! Requests with a whole payload are handled to the end in every state that the server reaches,
and the client sends no others. -/
namespace MoT
open CMemory Relational Transition

variable {P : Platform} {key : Key} {env : Env} {s t : Server} {cli : Client} {bytes : List UInt8}
  {offset : Nat}

theorem readString_ok (nonempty : bytes ≠ []) (fits : offset ≤ bytes.length) :
    ∃ text, readString (deliver bytes) offset = .ok text :=
  ⟨_, readString_deliver nonempty fits⟩

def requestSize : MessageType → Nat
  | .register => RegisterPayload.size
  | .login => LoginPayload.size
  | .updateUser => UpdateUserPayload.size
  | .sendText => SendMessagePayload.text + maxTextLen
  | .reqHistory => 4
  | .createConv => CreateConvPayload.size
  | .updateGroup => UpdateGroupPayload.size
  | .addMember => AddMemberPayload.targetFriendCode + friendCodeLen
  | .reqMembers => 4
  | .kickMember => 8
  | .deleteGroup => 4
  | .addByCode => friendCodeLen
  | .decideRequest => 5
  | _ => 0

/-- The payload is the structure of its type; the number of participants is no negative `int`. -/
structure Whole (type : MessageType) (bytes : List UInt8) : Prop where
  size : bytes.length = requestSize type
  count : type = .createConv → ∀ n,
    readUInt32 (deliver bytes) CreateConvPayload.participantsCount = .ok n → n.toNat < 2 ^ 31

theorem field_length (n : Nat) (s : CString) : (field n s).length = n := by
  rw [field, List.Vector.toList_length]

theorem serviceCreatePrivate_whole (myUid targetUid : UInt32) (targetName : CString) :
    Whole .createConv (serviceCreatePrivate myUid targetUid targetName).2 := by
  have front : (convTypePrivate :: (strncpy convNameLen targetName).toList ++
      List.replicate maxDescLen 0).length = CreateConvPayload.participantsCount := by
    rw [List.length_append, List.length_cons, List.Vector.toList_length, List.length_replicate]
    rfl
  constructor
  · rw [serviceCreatePrivate]
    simp only [List.length_append, List.length_cons, List.Vector.toList_length,
      List.length_replicate, littleEndianBytes_length]
    rfl
  · intro _ n read
    have two := readUInt32_written (convTypePrivate :: (strncpy convNameLen targetName).toList ++
      List.replicate maxDescLen 0) (littleEndianBytes myUid ++ littleEndianBytes targetUid ++
        List.replicate (4 * (maxParticipants - 2)) 0) 2
    rw [front] at two
    have shape : (serviceCreatePrivate myUid targetUid targetName).2 =
        (convTypePrivate :: (strncpy convNameLen targetName).toList ++ List.replicate maxDescLen 0) ++
          (littleEndianBytes 2 ++ (littleEndianBytes myUid ++ littleEndianBytes targetUid ++
            List.replicate (4 * (maxParticipants - 2)) 0)) := by
      simp [serviceCreatePrivate]
    rw [shape, two] at read
    cases read
    decide

theorem serviceCreateGroup_whole (myUid : UInt32) (name desc : CString) (uids : List UInt32) :
    Whole .createConv (serviceCreateGroup myUid name desc uids).2 := by
  obtain ⟨size, -, readN, -⟩ := serviceCreateGroup_reads myUid name desc uids
  refine ⟨size, fun _ n read => ?_⟩
  cases Except.ok.inj (readN.symm.trans read)
  have few : (groupMembers myUid uids).length ≤ maxParticipants := by
    rw [groupMembers, List.length_take]
    exact Nat.min_le_left _ _
  rw [UInt32.toNat_ofNat_of_lt' (lt_of_le_of_lt few (by decide))]
  exact lt_of_le_of_lt few (by decide)

theorem Service.whole {known : UInt32 → Prop} {writes : UInt32 → CString → Prop} {r : Request}
    (service : Service known writes r) : Whole r.1 r.2 := by
  have other {type : MessageType} {bytes : List UInt8} (size : bytes.length = requestSize type)
      (notCreate : type ≠ .createConv) : Whole type bytes :=
    ⟨size, fun create => absurd create notCreate⟩
  cases service with
  | createGroup myUid name desc uids => exact serviceCreateGroup_whole myUid name desc uids
  | createPrivate myUid targetUid targetName =>
    exact serviceCreatePrivate_whole myUid targetUid targetName
  | text convId text =>
    refine other ?_ nofun
    rw [serviceSendText, List.length_append, field_length]
    rfl
  | updateUser username password =>
    refine other ?_ nofun
    rw [serviceUpdateUser, List.length_append, field_length, field_length]
    rfl
  | addContact friendCode =>
    exact other (strncpy friendCodeLen friendCode).toList_length nofun
  | conversations | contacts | requests | history | decide | members | kick | deleteGroup =>
    exact other rfl nofun

end MoT
