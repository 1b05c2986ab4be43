import MoT.Private

/-! A request for a new conversation: a count that the client chooses, and an array of ten
uids of which that many are meant. -/
namespace MoT
open CMemory Relational Transition

variable {env : Env} {s : Server} {cli : Client} {db db' : Database} {convType : UInt8}
  {uids : List UInt32} {bytes : List UInt8} {n : UInt32}

def participantUids (bytes : List UInt8) : List UInt32 :=
  elements 4 (fun word => UInt32.ofNat (littleEndian word))
    (bytes.drop CreateConvPayload.participantUids)

/-- The first `min(participants_count, MAX_PARTICIPANTS)` of them. -/
def meantUids (bytes : List UInt8) (n : UInt32) : List UInt32 :=
  (participantUids bytes).take (min n.toNat maxParticipants)

theorem length_of_short (short : ∀ a b c d rest, bytes = a :: b :: c :: d :: rest → False) :
    bytes.length < 4 := by
  rcases bytes with _ | ⟨a, _ | ⟨b, _ | ⟨c, _ | ⟨d, rest⟩⟩⟩⟩
  · simp
  · simp
  · simp
  · simp
  · exact (short a b c d rest rfl).elim

theorem words_eq_elements (bytes : List UInt8) :
    words bytes = elements 4 (fun word => UInt32.ofNat (littleEndian word)) bytes := by
  induction bytes using words.induct with
  | case1 a b c d rest ih =>
    have whole : [a, b, c, d].length = 4 := rfl
    have first := elements_cons (Nat.succ_pos 3) (fun word => UInt32.ofNat (littleEndian word)) whole
      rest
    rw [words, ih]
    exact first.symm
  | case2 bytes short =>
    have few : bytes.length / 4 = 0 := Nat.div_eq_of_lt (length_of_short short)
    rw [words.eq_2 bytes short, elements, few]
    rfl

theorem words_take (bytes : List UInt8) (k : Nat) :
    words (bytes.take (4 * k)) = (words bytes).take k := by
  induction bytes using words.induct generalizing k with
  | case1 a b c d rest ih =>
    cases k with
    | zero => rfl
    | succ k =>
      rw [words, List.take_succ_cons, ← ih k]
      rfl
  | case2 bytes short =>
    rw [words.eq_2 bytes short, List.take_nil]
    cases k with
    | zero => rfl
    | succ k =>
      have all : bytes.length ≤ 4 * (k + 1) := by
        have few := length_of_short short
        omega
      rw [List.take_of_length_le all, words.eq_2 bytes short]

theorem readBytes_deliver {offset k : Nat} (nonempty : bytes ≠ [])
    (fits : offset + k ≤ bytes.length) :
    readBytes (deliver bytes) offset k = .ok ((bytes.drop offset).take k) := by
  have block : offset + k ≤ (bytes ++ [0]).length := by
    rw [List.length_append]
    omega
  rw [readBytes, deliver_eq nonempty, load]
  split
  · rename_i zero
    rw [zero, List.take_zero]
    rfl
  · rw [List.drop_append_of_le_length (by omega), List.take_append_of_le_length]
    · rfl
    · rw [List.length_drop]
      omega

/- Below 2^31 the copy takes the uids that are meant. -/
theorem copyUids_meant (whole : bytes.length = CreateConvPayload.size) (small : n.toNat < 2 ^ 31) :
    copyUids (deliver bytes) (participantCount n) = .ok (meantUids bytes n) := by
  have size : copySize (participantCount n) = 4 * min n.toNat maxParticipants := by
    rcases copySize_participantCount n with ⟨size, -⟩ | ⟨-, large⟩
    · exact size
    · omega
  have few : min n.toNat maxParticipants ≤ maxParticipants := Nat.min_le_right _ _
  have nonempty : bytes ≠ [] := List.ne_nil_of_length_pos (by rw [whole]; decide)
  have read := @readBytes_deliver bytes CreateConvPayload.participantUids
    (4 * min n.toNat maxParticipants) nonempty
    (whole ▸ Nat.add_le_add_left (Nat.mul_le_mul_left 4 few) _)
  have within : ¬ 4 * min n.toNat maxParticipants > 4 * maxParticipants := by omega
  rw [copyUids, size, read]
  simp only [bind, Except.bind, if_neg within]
  rw [words_take, words_eq_elements]
  rfl

/-- What a new conversation adds to the participants: one row for each different user of the
list who had none under this id. -/
def Inserts (db db' : Database) (k : Int) (uids : List UInt32) : Prop :=
  ∃ rows, db'.participants.rows = db.participants.rows ++ rows ∧
    (∀ r ∈ rows, r.convId = k) ∧ (rows.map ParticipantRow.userId).Nodup ∧
    ∀ v, v ∈ rows.map ParticipantRow.userId ↔ ∃ u ∈ uids, v = bindInt u ∧ ¬ Joined db k u

theorem Made.inserts (made : Made db convType uids db') :
    Inserts db db' (bindInt (columnInt (db.conversations.seq + 1))) uids := by
  obtain ⟨rows, appended, new⟩ := Table.insertEach_appends db.participants
    (participantRows convType (columnInt (db.conversations.seq + 1)) uids)
  rw [← made.participants] at appended
  have conv : ∀ r ∈ rows, r.convId = bindInt (columnInt (db.conversations.seq + 1)) :=
    fun r member => (mem_participantRows (new r member)).1
  have unique := db'.participants.unique
  rw [appended, List.pairwise_append] at unique
  obtain ⟨-, among, across⟩ := unique
  refine ⟨rows, appended, conv, ?_, fun v => ?_⟩
  · refine List.pairwise_map.mpr ((List.Pairwise.and_mem.mp among).imp ?_)
    rintro a b ⟨ha, hb, apart⟩ same
    simp [ParticipantRow.clash, conv a ha, conv b hb, same] at apart
  · rw [List.mem_map]
    constructor
    · rintro ⟨r, member, rfl⟩
      obtain ⟨u, listed, rfl⟩ := List.mem_map.mp (new r member)
      refine ⟨u.1, List.fst_mem_of_mem_zipIdx listed, rfl, ?_⟩
      rintro ⟨old, there, user⟩
      obtain ⟨before, place⟩ := List.mem_filter.mp there
      have apart := across old before _ member
      simp [ParticipantRow.clash, of_decide_eq_true place, user] at apart
    · rintro ⟨u, named, rfl, absent⟩
      obtain ⟨r, member, place, user⟩ := made.covers named
      rw [appended] at member
      rcases List.mem_append.mp member with old | added
      · exact absurd ⟨r, List.mem_filter.mpr ⟨old, decide_eq_true place⟩, user⟩ absent
      · exact ⟨r, added, user⟩

/- While ids last, no row carries the next one yet. -/
theorem Numbered.unnamed (numbered : Numbered db) (small : db.conversations.seq + 1 < 2 ^ 32) :
    ∀ r ∈ db.participants.rows, r.convId ≠ bindInt (columnInt (db.conversations.seq + 1)) := by
  have started := db.conversations.started
  have id := columnInt_toNat (i := db.conversations.seq + 1) (by omega) (by omega)
  intro r member conv
  obtain ⟨k, bits, low, high⟩ := numbered.named r member
  have same := bindInt_inj (conv.symm.trans bits)
  rw [same] at id
  omega

theorem Numbered.unjoined (numbered : Numbered db) (small : db.conversations.seq + 1 < 2 ^ 32)
    (u : UInt32) : ¬ Joined db (bindInt (columnInt (db.conversations.seq + 1))) u := by
  rintro ⟨r, selected, -⟩
  obtain ⟨member, conv⟩ := List.mem_filter.mp selected
  exact numbered.unnamed small r member (of_decide_eq_true conv)

/-- The count stays within the array wherever it is used, and the users of the new
conversation are those it counts. -/
structure CountRespected (bytes : List UInt8) (n : UInt32) : Prop where
  copied : copySize (participantCount n) ≤ 4 * maxParticipants
  indices : ∀ i : Int, 0 ≤ i → i < participantCount n → i < maxParticipants
  inserted : ∀ env s cli convType, readByte (deliver bytes) CreateConvPayload.type = .ok convType →
    findExisting env s convType (participantCount n) (meantUids bytes n) = 0 →
    (∃ t out, handleCreateConv env s cli (deliver bytes) = .ok (t, out) ∧
      Inserts s.db t.db (bindInt (columnInt (s.db.conversations.seq + 1))) (meantUids bytes n)) ∧
    ∀ P key, Reachable (server P key) s → s.db.conversations.seq + 1 < 2 ^ 32 →
      ∀ u, ¬ Joined s.db (bindInt (columnInt (s.db.conversations.seq + 1))) u

theorem handleCreateConv_inserts (env : Env) (s : Server) (cli : Client)
    (whole : bytes.length = CreateConvPayload.size)
    (readN : readUInt32 (deliver bytes) CreateConvPayload.participantsCount = .ok n)
    (small : n.toNat < 2 ^ 31)
    (readType : readByte (deliver bytes) CreateConvPayload.type = .ok convType)
    (missing : findExisting env s convType (participantCount n) (meantUids bytes n) = 0) :
    ∃ t out, handleCreateConv env s cli (deliver bytes) = .ok (t, out) ∧
      Inserts s.db t.db (bindInt (columnInt (s.db.conversations.seq + 1))) (meantUids bytes n) := by
  have nonempty : bytes ≠ [] := List.ne_nil_of_length_pos (by rw [whole]; decide)
  have readName := @readString_deliver bytes CreateConvPayload.name nonempty
    (by rw [whole]; decide)
  have readDescription := @readString_deliver bytes CreateConvPayload.description nonempty
    (by rw [whole]; decide)
  have made := storageCreateConversation_made s.db convType
    (CString.cut (bytes.drop CreateConvPayload.name))
    (CString.cut (bytes.drop CreateConvPayload.description)) (meantUids bytes n)
  have handled : ∃ out, handleCreateConv env s cli (deliver bytes) = .ok ({ s with
      db := (storageCreateConversation s.db convType
        (CString.cut (bytes.drop CreateConvPayload.name))
        (CString.cut (bytes.drop CreateConvPayload.description)) (meantUids bytes n)).1 }, out) := by
    unfold handleCreateConv
    rw [readN, readType, readName, readDescription]
    simp only [bind, Except.bind, copyUids_meant whole small, missing, ne_eq, not_true_eq_false,
      if_false]
    exact ⟨_, rfl⟩
  obtain ⟨out, handled⟩ := handled
  exact ⟨_, out, handled, made.inserts⟩

/-- A full request is handled as its count says exactly when the count is no negative `int`. -/
theorem create_conv_count_iff (bytes : List UInt8) (n : UInt32)
    (whole : bytes.length = CreateConvPayload.size)
    (readN : readUInt32 (deliver bytes) CreateConvPayload.participantsCount = .ok n) :
    CountRespected bytes n ↔ n.toNat < 2 ^ 31 := by
  constructor
  · intro respected
    have copied := respected.copied
    rcases copySize_participantCount n with ⟨-, small⟩ | ⟨huge, -⟩
    · exact small
    · simp only [maxParticipants] at copied
      omega
  · intro small
    refine ⟨?_, ?_, fun env s cli convType readType missing => ⟨?_, ?_⟩⟩
    · rcases copySize_participantCount n with ⟨size, -⟩ | ⟨-, large⟩
      · rw [size]
        exact Nat.mul_le_mul_left 4 (Nat.min_le_right _ _)
      · omega
    · intro i low below
      unfold participantCount at below
      split at below
      · exact below
      · omega
    · exact handleCreateConv_inserts env s cli whole readN small readType missing
    · intro P key reached few
      exact (reachable_numbered reached (by omega)).unjoined few

theorem create_conv_count_iff_group :
    CountRespected (createConvRequest convTypeGroup [1, 2, 1]).2 3 :=
  (create_conv_count_iff _ 3 (by decide +kernel) (by decide +kernel)).mpr (by decide)

def negativeCount : List UInt8 :=
  convTypeGroup :: List.replicate (convNameLen + maxDescLen) 0 ++ littleEndianBytes 4294967295 ++
    List.replicate (4 * maxParticipants) 0

theorem negative_count_overruns :
    ¬ ∀ (bytes : List UInt8) (n : UInt32), bytes.length = CreateConvPayload.size →
      readUInt32 (deliver bytes) CreateConvPayload.participantsCount = .ok n →
      CountRespected bytes n := by
  intro claimed
  have respected := claimed negativeCount 4294967295 (by decide +kernel) (by decide +kernel)
  exact absurd respected.copied (by decide)

end MoT
