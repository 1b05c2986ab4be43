import MoT.Acceptance
import MoT.Creation
import MoT.Listings
import MoT.MainLoop

/-! The form for a new group. What the user ticks goes through flags for a hundred contacts, an
array of ten and a payload of ten, where the creator takes one place. -/
namespace MoT
open CMemory Relational Transition

variable {P : Platform} {key : Key} {env : Env} {s t : Server} {cli : Client} {m : MainState}

theorem reachable_contact_bits (reached : Reachable (server P key) s) :
    ∀ r ∈ s.db.contacts.rows, ∃ k, r.contactId = bindInt k := by
  refine reached.invariant (fun s => ∀ r ∈ s.db.contacts.rows, ∃ k, r.contactId = bindInt k)
    (by simp [server, storageInit]) ?_
  intro s e t out before stepped r member
  rcases step_contacts stepped with same | ⟨a, b, -, rows⟩
  · exact before r (same ▸ member)
  · rw [rows, storageAddFriendship_rows] at member
    split at member
    · exact before r member
    · rcases List.mem_append.mp member with old | new
      · exact before r old
      · rcases List.mem_cons.mp new with rfl | second
        · exact ⟨b, rfl⟩
        · rw [List.mem_singleton.mp second]
          exact ⟨a, rfl⟩

theorem contactRow_uid (reached : Reachable (server P key) s) {u : UInt32}
    {r : ContactRow × Entry UserRow}
    (member : r ∈ withUsers s.db.contacts ContactRow.contactId (fun r => r.userId = bindInt u) s.db) :
    (⟨bindInt u, bindInt (contactSummary r.2).uid⟩ : ContactRow) = r.1 ∧
      r.1 ∈ s.db.contacts.rows := by
  obtain ⟨row, -, id, owner⟩ := (mem_withUsers _ _ _).mp member
  obtain ⟨k, bits⟩ := reachable_contact_bits reached r.1 row
  have uid : (contactSummary r.2).uid = k := by
    rw [contactSummary, ← id, bits, columnInt_bindInt]
  refine ⟨?_, row⟩
  rw [uid, ← bits, ← of_decide_eq_true owner]

/-- Nobody is listed twice, and nobody is in their own list. -/
theorem contactUids (reached : Reachable (server P key) s) (plan : Plan) (u : UInt32) (limit : Nat) :
    ((storageGetContactsData plan s.db u limit).map ContactSummary.uid).Nodup ∧
      u ∉ (storageGetContactsData plan s.db u limit).map ContactSummary.uid := by
  let rows := withUsers s.db.contacts ContactRow.contactId (fun r => r.userId = bindInt u) s.db
  have page : storageGetContactsData plan s.db u limit =
      ((plan.contacts.arrange rows).take limit).map fun r => contactSummary r.2 := rfl
  have among {r : ContactRow × Entry UserRow} (member : r ∈ (plan.contacts.arrange rows).take limit) :
      r ∈ rows := (RowOrder.mem_arrange _).mp (List.mem_of_mem_take member)
  rw [page, List.map_map]
  constructor
  · have distinct : rows.Nodup := withUsers_nodup _ _ _ (by simp [ContactRow.clash])
    have nodup : ((plan.contacts.arrange rows).take limit).Nodup :=
      ((plan.contacts.perm rows).nodup_iff.mpr distinct).sublist (List.take_sublist _ _)
    refine nodup.map_on fun a ha b hb same => ?_
    have rowA := (contactRow_uid reached (among ha)).1
    have rowB := (contactRow_uid reached (among hb)).1
    apply withUsers_key _ _ _ a (among ha) b (among hb)
    rw [← rowA, ← rowB]
    exact congrArg (fun uid => (⟨bindInt u, bindInt uid⟩ : ContactRow)) same
  · intro listed
    obtain ⟨r, member, own⟩ := List.mem_map.mp listed
    obtain ⟨row, there⟩ := contactRow_uid reached (among member)
    rw [show (contactSummary r.2).uid = u from own] at row
    exact contact_irrefl reached _ (row ▸ there)

def ticks (m : MainState) (c : ContactSummary × Nat) : Bool :=
  m.groupMembersSelected.toList[c.2]? = some true

def tickedContacts (m : MainState) : List ContactSummary :=
  (((m.contacts.getD []).take m.contactsCount.toNat).zipIdx.filter (ticks m)).map Prod.fst

/- The loop fills the array, or runs over its end with the eleventh. -/
theorem foldlM_addTicked {cs : List (ContactSummary × Nat)} (flags : ∀ c ∈ cs, c.2 < 100)
    {uids : List UInt32} (room : uids.length ≤ maxParticipants) :
    cs.foldlM (addTicked m) uids =
      if uids.length + (cs.filter (ticks m)).length ≤ maxParticipants
      then .ok (uids ++ (cs.filter (ticks m)).map fun c => c.1.uid)
      else .error (.localArray maxParticipants maxParticipants) := by
  induction cs generalizing uids with
  | nil => simp [room, pure, Except.pure]
  | cons c cs ih =>
    have later := fun c' member => flags c' (List.mem_cons_of_mem c member)
    have index : c.2 < m.groupMembersSelected.toList.length := by
      rw [List.Vector.toList_length]
      exact flags c List.mem_cons_self
    rw [List.foldlM_cons]
    cases flag : m.groupMembersSelected.toList[c.2] with
    | false =>
      have unticked : ticks m c = false := by simp [ticks, List.getElem?_eq_getElem index, flag]
      have step : addTicked m uids c = .ok uids := by
        simp only [addTicked, List.getElem?_eq_getElem index, flag]
      rw [step, List.filter_cons_of_neg (by simp [unticked])]
      exact ih later room
    | true =>
      have ticked : ticks m c = true := by simp [ticks, List.getElem?_eq_getElem index, flag]
      rw [List.filter_cons_of_pos ticked, List.length_cons, List.map_cons]
      by_cases full : uids.length < maxParticipants
      · have step : addTicked m uids c = .ok (uids ++ [c.1.uid]) := by
          simp only [addTicked, List.getElem?_eq_getElem index, flag, if_pos full]
        have room' : (uids ++ [c.1.uid]).length ≤ maxParticipants := by
          rw [List.length_append]
          exact full
        have rest := ih later room'
        rw [List.length_append, List.length_singleton, Nat.add_right_comm, Nat.add_assoc,
          List.append_assoc, List.singleton_append] at rest
        rw [step]
        exact rest
      · have step : addTicked m uids c = .error (.localArray maxParticipants maxParticipants) := by
          have same : uids.length = maxParticipants := by omega
          simp only [addTicked, List.getElem?_eq_getElem index, flag, if_neg full]
          rw [same]
        rw [step, if_neg (by omega)]
        rfl

theorem selectedUids_eq (few : (m.contacts.getD []).length ≤ 100) :
    selectedUids m = if (tickedContacts m).length ≤ maxParticipants
      then .ok ((tickedContacts m).map ContactSummary.uid)
      else .error (.localArray maxParticipants maxParticipants) := by
  have flags : ∀ c ∈ ((m.contacts.getD []).take m.contactsCount.toNat).zipIdx, c.2 < 100 := by
    intro c member
    have index := List.snd_lt_of_mem_zipIdx member
    rw [List.length_take] at index
    omega
  rw [selectedUids, foldlM_addTicked flags (Nat.zero_le _), tickedContacts, List.length_map,
    List.map_map, List.length_nil, Nat.zero_add, List.nil_append]
  rfl

theorem createGroupKey_enter {ch : Int} (enter : Enter ch) (prompts : Prompts)
    (few : (m.contacts.getD []).length ≤ 100) :
    createGroupKey ch prompts m =
      if (tickedContacts m).length ≤ maxParticipants then
        if tickedContacts m = [] then stay m
        else send { m with currentState := .home } [serviceCreateGroup m.myUid m.groupNameBuf
          m.groupDescBuf ((tickedContacts m).map ContactSummary.uid)]
      else .error (.localArray maxParticipants maxParticipants) := by
  have other : ∀ k ∈ [keyEsc, keyDown, keyUp, letter ' ', letter 'n', letter 'N', letter 'd',
      letter 'D'], ch ≠ k := by
    rcases enter with rfl | rfl
    · decide
    · decide
  simp only [List.forall_mem_cons] at other
  obtain ⟨esc, down, up, space, n, n', d, d', -⟩ := other
  simp only [createGroupKey, esc, down, up, space, n, n', d, d', false_and, or_self, if_false,
    if_pos enter, selectedUids_eq few]
  by_cases fits : (tickedContacts m).length ≤ maxParticipants
  · rw [if_pos fits, if_pos fits]
    simp only [bind, Except.bind, List.length_map, Nat.lt_one_iff, List.length_eq_zero_iff]
  · rw [if_neg fits, if_neg fits]
    rfl

def groupMembers (myUid : UInt32) (uids : List UInt32) : List UInt32 :=
  (myUid :: uids).take maxParticipants

theorem elements_words (us : List UInt32) (rest : List UInt8) :
    elements 4 (fun word => UInt32.ofNat (littleEndian word)) (us.flatMap littleEndianBytes ++ rest) =
      us ++ elements 4 (fun word => UInt32.ofNat (littleEndian word)) rest := by
  induction us with
  | nil => rfl
  | cons u us ih =>
    rw [List.flatMap_cons, List.append_assoc,
      elements_cons (Nat.succ_pos 3) _ (littleEndianBytes_length u), littleEndian_bytes, ih]
    rfl

/-- The request as the server reads it. -/
theorem serviceCreateGroup_reads (myUid : UInt32) (name desc : CString) (uids : List UInt32) :
    let bytes := (serviceCreateGroup myUid name desc uids).2
    let members := groupMembers myUid uids
    bytes.length = CreateConvPayload.size ∧
      readByte (deliver bytes) CreateConvPayload.type = .ok convTypeGroup ∧
      readUInt32 (deliver bytes) CreateConvPayload.participantsCount =
        .ok (UInt32.ofNat members.length) ∧
      meantUids bytes (UInt32.ofNat members.length) = members := by
  intro bytes members
  have few : members.length ≤ maxParticipants := by
    rw [show members = (myUid :: uids).take maxParticipants from rfl, List.length_take]
    exact Nat.min_le_left _ _
  have words : (members.flatMap littleEndianBytes).length = 4 * members.length := by
    rw [List.length_flatMap]
    simp [Nat.mul_comm]
  have front : (convTypeGroup :: field convNameLen name ++ field maxDescLen desc).length =
      CreateConvPayload.participantsCount := by
    simp only [field, List.length_append, List.length_cons, List.Vector.toList_length]
    rfl
  have shape : bytes = (convTypeGroup :: field convNameLen name ++ field maxDescLen desc) ++
      (littleEndianBytes (UInt32.ofNat members.length) ++ (members.flatMap littleEndianBytes ++
        List.replicate (4 * (maxParticipants - members.length)) 0)) := by
    simp [bytes, members, serviceCreateGroup, groupMembers]
  have count : (UInt32.ofNat members.length).toNat = members.length := by
    apply UInt32.toNat_ofNat_of_lt'
    exact lt_of_le_of_lt few (by decide)
  refine ⟨?_, ?_, ?_, ?_⟩
  · rw [shape, List.length_append, front, List.length_append, littleEndianBytes_length,
      List.length_append, words, List.length_replicate]
    have size : CreateConvPayload.size =
        CreateConvPayload.participantsCount + 4 + 4 * maxParticipants := rfl
    omega
  · rw [shape]
    simp [deliver, readByte, loadByte, load, checked, Except.mapError, Except.map]
  · rw [shape, ← front]
    exact readUInt32_written _ _ _
  · have array : bytes.drop CreateConvPayload.participantUids =
        members.flatMap littleEndianBytes ++
          List.replicate (4 * (maxParticipants - members.length)) 0 := by
      rw [shape, ← List.append_assoc]
      apply List.drop_left'
      rw [List.length_append, front]
      rfl
    rw [meantUids, participantUids, array, elements_words, count, Nat.min_eq_left few]
    exact List.take_left

theorem findExisting_group (env : Env) (s : Server) (count : Int) (uids : List UInt32) :
    findExisting env s convTypeGroup count uids = 0 := by
  unfold findExisting
  split
  · exact if_neg fun secludes => absurd secludes.1 (by decide)
  · rfl

theorem dispatch_group (P : Platform) (env : Env) (s : Server) (cli : Client) (myUid : UInt32)
    (name desc : CString) (uids : List UInt32) :
    ∃ name' desc' out, dispatch P env s cli (MessageType.code .createConv)
      (deliver (serviceCreateGroup myUid name desc uids).2) =
        .ok ({ s with db := (storageCreateConversation s.db convTypeGroup name' desc'
          (groupMembers myUid uids)).1 }, out) := by
  obtain ⟨whole, readType, readN, meant⟩ := serviceCreateGroup_reads myUid name desc uids
  have small : (UInt32.ofNat (groupMembers myUid uids).length).toNat < 2 ^ 31 := by
    have few : (groupMembers myUid uids).length ≤ maxParticipants := by
      rw [groupMembers, List.length_take]
      exact Nat.min_le_left _ _
    rw [UInt32.toNat_ofNat_of_lt' (lt_of_le_of_lt few (by decide))]
    exact lt_of_le_of_lt few (by decide)
  obtain ⟨t, out, handled, -⟩ := handleCreateConv_inserts env s cli whole readN small readType
    (findExisting_group env s _ _)
  obtain ⟨n', uids', type', readN', copied, readType', found | made⟩ := handleCreateConv_ok handled
  · cases Except.ok.inj (readType.symm.trans readType')
    exact absurd (findExisting_group env s _ _) found.1
  · obtain ⟨-, name', desc', -, -, after, -⟩ := made
    cases Except.ok.inj (readType.symm.trans readType')
    cases Except.ok.inj (readN.symm.trans readN')
    rw [copyUids_meant whole small, meant] at copied
    cases Except.ok.inj copied
    refine ⟨name', desc', out, ?_⟩
    rw [dispatch, MessageType.ofCode_code, ← after]
    exact handled

theorem participantRows_group (k u : UInt32) (us : List UInt32) :
    participantRows convTypeGroup k (u :: us) =
      ⟨bindInt k, bindInt u, 1⟩ :: us.map fun v => ⟨bindInt k, bindInt v, 0⟩ := by
  have others : (us.zipIdx 1).map (fun v => (⟨bindInt k, bindInt v.1,
      if v.2 = 0 ∧ convTypeGroup = convTypeGroup then 1 else 0⟩ : ParticipantRow)) =
        (us.zipIdx 1).map fun v => ⟨bindInt k, bindInt v.1, 0⟩ := by
    refine List.map_congr_left fun v member => ?_
    have later := List.le_snd_of_mem_zipIdx member
    rw [if_neg fun first => by omega]
  have firsts := congrArg (List.map fun v => (⟨bindInt k, bindInt v, 0⟩ : ParticipantRow))
    (List.zipIdx_map_fst 1 us)
  rw [List.map_map] at firsts
  rw [participantRows, List.zipIdx_cons, List.map_cons, Nat.zero_add, others]
  exact congrArg _ firsts

/-- A new group of distinct users has them as its participants, the first one as admin. -/
theorem group_participants (reached : Reachable (server P key) s)
    (small : s.db.conversations.seq + 1 < 2 ^ 31) (name desc : CString) {me : UInt32}
    {uids : List UInt32} (nodup : (me :: uids).Nodup) :
    memberRows (storageCreateConversation s.db convTypeGroup name desc (me :: uids)).1
        (s.db.conversations.seq + 1) =
      ⟨s.db.conversations.seq + 1, bindInt me, 1⟩ ::
        uids.map fun u => ⟨s.db.conversations.seq + 1, bindInt u, 0⟩ := by
  have numbered := reachable_numbered reached (by omega)
  have made := storageCreateConversation_made s.db convTypeGroup name desc (me :: uids)
  have id := id_reads_back small
  have unnamed := numbered.unnamed (by omega)
  have rows := participantRows_group (columnInt (s.db.conversations.seq + 1)) me uids
  rw [id] at unnamed rows
  have fits : (s.db.participants.rows ++ participantRows convTypeGroup
      (columnInt (s.db.conversations.seq + 1)) (me :: uids)).Pairwise
        fun a b => ParticipantRow.clash a b = false := by
    refine List.pairwise_append.mpr ⟨s.db.participants.unique, ?_, fun a old b new => ?_⟩
    · have users : (participantRows convTypeGroup (columnInt (s.db.conversations.seq + 1))
          (me :: uids)).map ParticipantRow.userId = (me :: uids).map bindInt := by
        rw [rows, List.map_cons, List.map_map, List.map_cons]
        rfl
      have apart := nodup.map fun a b => bindInt_inj
      rw [← users] at apart
      refine (List.pairwise_map.mp apart).imp fun {a b} differ => ?_
      simp [ParticipantRow.clash, differ]
    · have conv := (mem_participantRows new).1
      rw [id] at conv
      simp [ParticipantRow.clash, conv, unnamed a old]
  have old : s.db.participants.rows.filter (fun r => r.convId = s.db.conversations.seq + 1) = [] :=
    List.filter_eq_nil_iff.mpr fun r member => by simpa using unnamed r member
  rw [memberRows, made.participants, Table.insertEach_fits fits, List.filter_append, old,
    List.nil_append, rows, List.filter_eq_self]
  intro r member
  rcases List.mem_cons.mp member with rfl | later
  · simp
  · obtain ⟨u, -, rfl⟩ := List.mem_map.mp later
    simp

/-- A contact list as the server sends it to this user. -/
def ServerContacts (P : Platform) (key : Key) (u : UInt32) (contacts : List ContactSummary) : Prop :=
  ∃ s plan, Reachable (server P key) s ∧ contacts = storageGetContactsData plan s.db u 50

/-- Enter in the form: nothing is stored outside the array, and either nothing is sent and the
form stays open, or the server makes a conversation for the creator and every ticked contact. -/
def GroupMade (P : Platform) (m : MainState) (ch : Int) (prompts : Prompts) (env : Env) (s : Server)
    (cli : Client) : Prop :=
  ∃ turn, createGroupKey ch prompts m = .ok turn ∧
    ((turn.sent = [] ∧ turn.state.currentState = .createGroup) ∨
      ∃ request s' out e, turn.sent = [request] ∧
        dispatch P env s cli request.1.code (deliver request.2) = .ok (s', out) ∧
        s'.db.conversations.entries = s.db.conversations.entries ++ [e] ∧
        ∀ r, r ∈ memberRows s'.db e.rowid ↔ r = ⟨e.rowid, bindInt m.myUid, 1⟩ ∨
          ∃ c ∈ tickedContacts m, r = ⟨e.rowid, bindInt c.uid, 0⟩)

theorem tickedContacts_sublist {contacts : List ContactSummary} (held : m.contacts = some contacts) :
    (tickedContacts m).Sublist contacts := by
  have pairs : ((((m.contacts.getD []).take m.contactsCount.toNat).zipIdx.filter (ticks m)).map
      Prod.fst).Sublist ((((m.contacts.getD []).take m.contactsCount.toNat).zipIdx).map Prod.fst) :=
    List.filter_sublist.map Prod.fst
  rw [List.zipIdx_map_fst, held, Option.getD_some] at pairs
  have ticked : tickedContacts m = (((m.contacts.getD []).take m.contactsCount.toNat).zipIdx.filter
      (ticks m)).map Prod.fst := rfl
  rw [ticked, held, Option.getD_some]
  exact pairs.trans (List.take_sublist _ _)

theorem named_once {contacts : List ContactSummary} (held : m.contacts = some contacts)
    (listed : ServerContacts P key m.myUid contacts) :
    (m.myUid :: (tickedContacts m).map ContactSummary.uid).Nodup := by
  obtain ⟨s, plan, reached, rfl⟩ := listed
  have ticked := (tickedContacts_sublist held).map ContactSummary.uid
  obtain ⟨nodup, outside⟩ := contactUids reached plan m.myUid 50
  exact List.nodup_cons.mpr ⟨fun named => outside (ticked.subset named), nodup.sublist ticked⟩

theorem ServerContacts.few {u : UInt32} {contacts : List ContactSummary}
    (listed : ServerContacts P key u contacts) : contacts.length ≤ 50 := by
  obtain ⟨s, plan, -, rfl⟩ := listed
  rw [storageGetContactsData, List.length_map, List.length_take]
  exact Nat.min_le_left _ _

theorem groupMade_iff {ch : Int} (enter : Enter ch) (prompts : Prompts) (env : Env) (s : Server)
    (cli : Client) (few : (m.contacts.getD []).length ≤ 100)
    (room : (tickedContacts m).length ≤ maxParticipants) (anybody : tickedContacts m ≠ []) :
    ∃ name desc, GroupMade P m ch prompts env s cli ↔
      ∀ r, r ∈ memberRows (storageCreateConversation s.db convTypeGroup name desc
          (groupMembers m.myUid ((tickedContacts m).map ContactSummary.uid))).1
          (s.db.conversations.seq + 1) ↔
        r = ⟨s.db.conversations.seq + 1, bindInt m.myUid, 1⟩ ∨
          ∃ c ∈ tickedContacts m, r = ⟨s.db.conversations.seq + 1, bindInt c.uid, 0⟩ := by
  have key := createGroupKey_enter enter prompts few
  rw [if_pos room, if_neg anybody] at key
  obtain ⟨name, desc, out, made⟩ := dispatch_group P env s cli m.myUid m.groupNameBuf m.groupDescBuf
    ((tickedContacts m).map ContactSummary.uid)
  obtain ⟨conversations, inserted, created⟩ := storageCreateConversation_spec s.db convTypeGroup name
    desc (groupMembers m.myUid ((tickedContacts m).map ContactSummary.uid))
  have entries := (AutoTable.insert?_spec inserted).1
  refine ⟨name, desc, ?_, fun rows => ?_⟩
  · rintro ⟨turn, pressed, outcome⟩
    cases Except.ok.inj (key.symm.trans pressed)
    rcases outcome with ⟨nothing, -⟩ | ⟨request, s', out', e, sent, handled, added, rows⟩
    · cases nothing
    · cases List.singleton_inj.mp sent
      cases Except.ok.inj (made.symm.trans handled)
      rw [created, entries, List.append_cancel_left_eq, List.singleton_inj] at added
      rw [← added] at rows
      exact rows
  · refine ⟨_, key, .inr ⟨_, _, out,
      ⟨s.db.conversations.seq + 1, convTypeGroup.toNat, name, some desc⟩, rfl, made, ?_, rows⟩⟩
    rw [created, entries]

theorem GroupMade.fits {contacts : List ContactSummary} {ch : Int} {prompts : Prompts}
    (enter : Enter ch) (held : m.contacts = some contacts)
    (listed : ServerContacts P key m.myUid contacts) (reached : Reachable (server P key) s)
    (anybody : tickedContacts m ≠ []) (made : GroupMade P m ch prompts env s cli) :
    (tickedContacts m).length < maxParticipants ∧ s.db.conversations.seq + 1 < 2 ^ 31 := by
  have once := named_once held listed
  have few : (m.contacts.getD []).length ≤ 100 := by
    rw [held, Option.getD_some]
    exact le_trans listed.few (by decide)
  have room : (tickedContacts m).length ≤ maxParticipants := by
    by_contra full
    obtain ⟨turn, pressed, -⟩ := made
    rw [createGroupKey_enter enter prompts few, if_neg full] at pressed
    cases pressed
  have members : groupMembers m.myUid ((tickedContacts m).map ContactSummary.uid) =
      m.myUid :: ((tickedContacts m).map ContactSummary.uid).take 9 := rfl
  obtain ⟨name, desc, shape⟩ := groupMade_iff (P := P) enter prompts env s cli few room anybody
  have rows := shape.mp made
  rw [members] at rows
  have small : s.db.conversations.seq + 1 < 2 ^ 31 := by
    have creator := (rows _).mpr (.inl rfl)
    have bound := (reachable_bound reached).made (storageCreateConversation_made s.db
      convTypeGroup name desc (m.myUid :: ((tickedContacts m).map ContactSummary.uid).take 9))
    obtain ⟨k, bits⟩ := bound _ (List.mem_of_mem_filter creator)
    exact lt_of_eq_of_lt bits (bindInt_lt k)
  refine ⟨?_, small⟩
  by_contra full
  -- the tenth does not fit, and it is nobody else
  have tenth : ((tickedContacts m).map ContactSummary.uid).drop 9 ≠ [] := by
    rw [ne_eq, List.drop_eq_nil_iff, List.length_map]
    exact fun short => full (Nat.lt_succ_of_le short)
  obtain ⟨u, dropped⟩ := List.exists_mem_of_ne_nil _ tenth
  obtain ⟨c, ticked, rfl⟩ := List.mem_map.mp (List.mem_of_mem_drop dropped)
  have row := (rows _).mpr (.inr ⟨c, ticked, rfl⟩)
  have first : (m.myUid :: ((tickedContacts m).map ContactSummary.uid).take 9).Nodup :=
    once.sublist ((List.take_sublist 9 _).cons_cons _)
  rw [group_participants reached small name desc first, List.mem_cons] at row
  rcases row with creator | member
  · exact absurd (ParticipantRow.mk.inj creator).2.2 (by decide)
  · obtain ⟨v, taken, same⟩ := List.mem_map.mp member
    have uid : v = c.uid := bindInt_inj (ParticipantRow.mk.inj same).2.1
    have split := List.take_append_drop 9 ((tickedContacts m).map ContactSummary.uid)
    have nodup := (List.nodup_cons.mp once).2
    rw [← split] at nodup
    exact (List.disjoint_of_nodup_append nodup) (uid ▸ taken) dropped

theorem group_creation_iff (P : Platform) (key : Key) (m : MainState) (ch : Int) (prompts : Prompts)
    (env : Env) (s : Server) (cli : Client) (form : m.currentState = .createGroup)
    (enter : Enter ch) (contacts : List ContactSummary) (held : m.contacts = some contacts)
    (listed : ServerContacts P key m.myUid contacts) (reached : Reachable (server P key) s) :
    GroupMade P m ch prompts env s cli ↔ tickedContacts m = [] ∨
      (tickedContacts m).length < maxParticipants ∧ s.db.conversations.seq + 1 < 2 ^ 31 := by
  have few : (m.contacts.getD []).length ≤ 100 := by
    rw [held, Option.getD_some]
    exact le_trans listed.few (by decide)
  by_cases nobody : tickedContacts m = []
  · refine iff_of_true ⟨⟨m, [], false⟩, ?_, .inl ⟨rfl, form⟩⟩ (.inl nobody)
    rw [createGroupKey_enter enter prompts few, if_pos (by simp [nobody]), if_pos nobody]
    rfl
  rw [or_iff_right nobody]
  refine ⟨GroupMade.fits enter held listed reached nobody, ?_⟩
  rintro ⟨space, small⟩
  have room := Nat.le_of_lt space
  obtain ⟨name, desc, shape⟩ := groupMade_iff (P := P) enter prompts env s cli few room nobody
  have all : groupMembers m.myUid ((tickedContacts m).map ContactSummary.uid) =
      m.myUid :: (tickedContacts m).map ContactSummary.uid := by
    apply List.take_of_length_le
    rw [List.length_cons, List.length_map]
    exact space
  apply shape.mpr
  intro r
  rw [all, group_participants reached small name desc (named_once held listed), List.mem_cons,
    List.map_map, List.mem_map]
  refine or_congr_right ⟨?_, ?_⟩
  · rintro ⟨c, ticked, rfl⟩
    exact ⟨c, ticked, rfl⟩
  · rintro ⟨c, ticked, rfl⟩
    exact ⟨c, ticked, rfl⟩

def groupForm (contacts : List ContactSummary) (ticked : Nat) : MainState :=
  { mainStart 1 with
    currentState := .createGroup
    contacts := some contacts
    contactsCount := contacts.length
    groupMembersSelected := List.Vector.ofFn fun i => decide (i.val < ticked) }

abbrev aliceContacts : List ContactSummary :=
  storageGetContactsData .scan acceptedState.db 1 50

theorem group_creation_iff_accepted : GroupMade recordedPlatform (groupForm aliceContacts 1) 10
    unprompted (recordedEnv 5) acceptedState bobClient :=
  (group_creation_iff recordedPlatform recordedKey (groupForm aliceContacts 1) 10 unprompted
    (recordedEnv 5) acceptedState bobClient rfl (.inl rfl) aliceContacts rfl
    ⟨acceptedState, .scan, .after acceptedSession acceptedSession_completes, rfl⟩
    (.after acceptedSession acceptedSession_completes)).mpr
    (.inr (by decide +kernel))

def shortName (i : Nat) : CString := CString.cut [UInt8.ofNat (97 + i)]

def popularSession : List Event :=
  .connect 7 :: (List.range 12).map (fun i => (serviceRegister (shortName i) (shortName i)
      (CString.lit "pw")).event 7 (recordedEnv i)) ++
    (serviceLogin (shortName 0) (CString.lit "pw")).event 7 (recordedEnv 12) ::
    (List.range 11).map fun i =>
      (serviceDecideRequest (UInt32.ofNat (i + 2)) 1).event 7 (recordedEnv 13)

theorem popularSession_completes :
    (recordedServer.exec recordedServer.start popularSession).isSome := by decide +kernel

abbrev popularState : Server := recordedServer.after popularSession popularSession_completes

abbrev popularContacts : List ContactSummary :=
  storageGetContactsData .scan popularState.db 1 50

theorem popularState_reachable : Reachable recordedServer popularState :=
  .after popularSession popularSession_completes

theorem popularContacts_listed : ServerContacts recordedPlatform recordedKey 1 popularContacts :=
  ⟨popularState, .scan, popularState_reachable, rfl⟩

theorem popularContacts_ticked : (tickedContacts (groupForm popularContacts 10)).length = 10 := by
  decide +kernel

/- With ten contacts ticked one is dropped, with eleven the array overflows. -/
theorem group_form_overflows :
    (¬ ∀ (P : Platform) (key : Key) (m : MainState) (ch : Int) (prompts : Prompts) (env : Env)
        (s : Server) (cli : Client) (contacts : List ContactSummary),
      m.currentState = .createGroup → Enter ch → m.contacts = some contacts →
      ServerContacts P key m.myUid contacts → Reachable (server P key) s →
      GroupMade P m ch prompts env s cli) ∧
    createGroupKey 10 unprompted (groupForm popularContacts 11) = .error (.localArray 10 10) := by
  constructor
  · intro claimed
    have made := claimed recordedPlatform recordedKey (groupForm popularContacts 10) 10 unprompted
      (recordedEnv 14) popularState bobClient popularContacts rfl (.inl rfl) rfl
      popularContacts_listed popularState_reachable
    have anybody : tickedContacts (groupForm popularContacts 10) ≠ [] :=
      List.ne_nil_of_length_pos (by rw [popularContacts_ticked]; decide)
    have fits := (made.fits (.inl rfl) rfl popularContacts_listed popularState_reachable anybody).1
    rw [popularContacts_ticked] at fits
    exact absurd fits (by decide)
  · rw [createGroupKey_enter (.inl rfl) unprompted (by decide +kernel)]
    exact if_neg (by decide +kernel)

end MoT
