import MoT.Delivery
import MoT.NetworkThread
import MoT.References

/-! The four lists, from the rows that the tables hold to the arrays that a client keeps. -/
namespace MoT
open CMemory Relational Transition

variable {P : Platform} {key : Key} {env : Env} {s t : Server} {cli : Client} {p : Pointer}
  {db : Database} {out : List Sent} {m : Sent} {app : AppState} {limit : Nat}

/-- One kind of list: the rows it is about, which of them refer to something that exists,
what an item says about its row, and where a client keeps the items. -/
structure Listing where
  Row : Type
  Item : Type
  rows : List Row
  once : rows.Nodup
  known : Row → Bool
  shows : Row → Item → Prop
  array : AppState → Option (List Item)
  count : AppState → Int

namespace Listing

/-- The client has one item for each row, and no other. -/
def Exact (l : Listing) (app : AppState) : Prop :=
  ∃ rows : List l.Row, rows.Perm l.rows ∧ List.Forall₂ l.shows rows ((l.array app).getD []) ∧
    l.count app = rows.length

/-- It has one for each row that refers to something, or for as many of them as fit. -/
def UpTo (limit : Nat) (l : Listing) (app : AppState) : Prop :=
  ∃ rows : List l.Row, rows.Subperm (l.rows.filter l.known) ∧
    rows.length = min limit (l.rows.filter l.known).length ∧
    List.Forall₂ l.shows rows ((l.array app).getD []) ∧ l.count app = rows.length

theorem Exact.count {l : Listing} (exact : l.Exact app) : l.count app = l.rows.length := by
  obtain ⟨rows, perm, -, count⟩ := exact
  rw [count, perm.length_eq]

end Listing

def contactListing (db : Database) (u : UInt32) : Listing where
  Row := ContactRow
  Item := ContactSummary
  rows := db.contacts.rows.filter fun r => r.userId = bindInt u
  once := (db.contacts.nodup fun r => beq_self_eq_true r).filter _
  known r := HasUser db r.contactId
  shows r item := ∃ v ∈ db.users.entries, v.rowid = r.contactId ∧ item = contactSummary v
  array := AppState.contacts
  count := AppState.contactsCount

def requestListing (db : Database) (u : UInt32) : Listing where
  Row := RequestRow
  Item := ContactSummary
  rows := db.requests.rows.filter fun r => r.receiverId = bindInt u
  once := (db.requests.nodup fun r => beq_self_eq_true r).filter _
  known r := HasUser db r.senderId
  shows r item := ∃ v ∈ db.users.entries, v.rowid = r.senderId ∧ item = contactSummary v
  array := AppState.requests
  count := AppState.requestsCount

/-- The name and the description may end in bytes that nobody wrote. -/
def conversationListing (plan : Plan) (db : Database) (u : UInt32) : Listing where
  Row := ParticipantRow
  Item := ConversationSummary
  rows := db.participants.rows.filter fun r => r.userId = bindInt u
  once := (db.participants.nodup ParticipantRow.clash_self).filter _
  known r := HasConv db r.convId
  shows r item := ∃ v ∈ db.conversations.entries, v.rowid = r.convId ∧
    (conversationSummary plan db u (v, r)).ReadAs item
  array := AppState.conversations
  count := AppState.convCount

def memberListing (db : Database) (k : UInt32) : Listing where
  Row := ParticipantRow
  Item := GroupMemberSummary
  rows := db.participants.rows.filter fun r => r.convId = bindInt k
  once := (db.participants.nodup ParticipantRow.clash_self).filter _
  known r := HasUser db r.userId
  shows r item := ∃ v ∈ db.users.entries, v.rowid = r.userId ∧
    item = ⟨columnInt v.rowid, strncpy maxNameLen v.row.username, (columnInt r.role).toUInt8⟩
  array := AppState.currentGroupMembers
  count := AppState.currentGroupMembersCount

/-- What a packet to user `u` lists, when it answers a packet with the payload `bytes`: the
members of a conversation are listed for whom asks for them. -/
def listing (plan : Plan) (db : Database) (u : UInt32) (bytes : List UInt8) :
    Packet → Option Listing
  | .respContacts _ => some (contactListing db u)
  | .respRequests _ => some (requestListing db u)
  | .respConversations _ => some (conversationListing plan db u)
  | .respMembers _ =>
    (readUInt32 (deliver bytes) ReqMembersPayload.convId).toOption.map (memberListing db)
  | _ => none

section Users

variable {α : Type} {clash : α → α → Bool} (rows : Table α clash) (idOf : α → Int) (p : α → Bool)

def withUsers (db : Database) : List (α × Entry UserRow) :=
  (join (fun r v => idOf r = v.rowid) rows.rows db.users.entries).filter fun x => p x.1

theorem mem_withUsers {x : α × Entry UserRow} : x ∈ withUsers rows idOf p db ↔
    x.1 ∈ rows.rows ∧ x.2 ∈ db.users.entries ∧ idOf x.1 = x.2.rowid ∧ p x.1 = true := by
  rw [withUsers, List.mem_filter, ← Prod.mk.eta (p := x), mem_join, decide_eq_true_eq]
  simp only [and_assoc]

theorem withUsers_nodup (self : ∀ a, clash a a = true) : (withUsers rows idOf p db).Nodup :=
  (join_nodup (rows.nodup self) db.users.nodup).filter _

theorem withUsers_key : ∀ x ∈ withUsers rows idOf p db, ∀ y ∈ withUsers rows idOf p db,
    x.1 = y.1 → x = y := by
  intro x hx y hy same
  obtain ⟨-, userX, idX, -⟩ := (mem_withUsers rows idOf p).mp hx
  obtain ⟨-, userY, idY, -⟩ := (mem_withUsers rows idOf p).mp hy
  exact Prod.ext same (db.users.eq_of_rowid userX userY (idX.symm.trans (same ▸ idY)))

theorem mem_withUsers_fst (r : α) :
    r ∈ (rows.rows.filter p).filter (fun r => HasUser db (idOf r)) ↔
      ∃ x ∈ withUsers rows idOf p db, x.1 = r := by
  rw [List.mem_filter, List.mem_filter, decide_eq_true_eq]
  constructor
  · rintro ⟨⟨member, selected⟩, v, user, id⟩
    exact ⟨(r, v), (mem_withUsers rows idOf p).mpr ⟨member, user, id.symm, selected⟩, rfl⟩
  · rintro ⟨x, member, rfl⟩
    obtain ⟨there, user, id, selected⟩ := (mem_withUsers rows idOf p).mp member
    exact ⟨⟨there, selected⟩, x.2, user, id.symm⟩

end Users

section Arrays

variable {α β : Type} {size : Nat} (decode : List UInt8 → α) {cells : β → List Cell} {items : List β}

theorem ownedArray_fill (positive : 0 < size) (sizes : ∀ a ∈ items, (cells a).length = size)
    (short : items.length * size < 2 ^ 32) (junk : Nat → UInt8) :
    ∃ array : List α, ownedArray size decode (fill junk (items.flatMap cells) ++ [0])
        (UInt32.ofNat (fill junk (items.flatMap cells)).length) = (some array, (items.length : Int)) ∧
      List.Forall₂ (fun a e => ∃ junk, e = decode (fill junk (cells a))) items array := by
  have whole : (fill junk (items.flatMap cells)).length = items.length * size :=
    (fill_length _ _).trans (array_length sizes)
  have len : (UInt32.ofNat (fill junk (items.flatMap cells)).length).toNat = items.length * size := by
    rw [whole]
    exact UInt32.toNat_ofNat_of_lt' short
  refine ⟨_, ?_, elements_fill positive decode cells sizes junk⟩
  rw [ownedArray, len, ← whole, List.take_left' rfl, whole, Nat.mul_div_cancel _ positive]

end Arrays

/-- The rows that a query finds, which row of the list each is about, the structure in memory
that is written for it, and how the client takes such a structure out of a payload. -/
structure Listing.Transport (l : Listing) (packet : Packet) (limit : Nat) where
  Found : Type
  found : List Found
  order : RowOrder Found
  nodup : found.Nodup
  row : Found → l.Row
  key : ∀ x ∈ found, ∀ y ∈ found, row x = row y → x = y
  held : ∀ r, r ∈ l.rows.filter l.known ↔ ∃ x ∈ found, row x = r
  size : Nat
  positive : 0 < size
  short : limit * size < 2 ^ 32
  cells : Found → List Cell
  sizes : ∀ x ∈ found, (cells x).length = size
  decode : List UInt8 → l.Item
  shows : ∀ x ∈ found, ∀ junk, l.shows (row x) (decode (fill junk (cells x)))
  sent : packet.cells = ((order.arrange found).take limit).flatMap cells
  takes : ∀ allocates block len app, ∃ app',
    networkThread allocates packet.type.code (some block) len app = .ok (app', []) ∧
      l.array app' = (ownedArray size decode block len).1 ∧
      l.count app' = (ownedArray size decode block len).2

namespace Listing.Transport

variable {l : Listing} {packet : Packet} (way : l.Transport packet limit)

include way

theorem found_perm : (way.found.map way.row).Perm (l.rows.filter l.known) :=
  map_perm way.nodup way.key (l.once.filter _) way.held

theorem upTo {items : List l.Item} (shown : List.Forall₂
      (fun x item => ∃ junk, item = way.decode (fill junk (way.cells x)))
      ((way.order.arrange way.found).take limit) items)
    (array : l.array app = some items)
    (count : l.count app = ((way.order.arrange way.found).take limit).length) :
    l.UpTo limit app := by
  obtain ⟨some, size⟩ := way.order.page way.found_perm limit
  refine ⟨((way.order.arrange way.found).take limit).map way.row, some, size, ?_, ?_⟩
  · rw [array, Option.getD_some]
    apply List.forall₂_map_left_iff.mpr
    have picked : ∀ x ∈ (way.order.arrange way.found).take limit, x ∈ way.found := fun x member =>
      way.order.mem_arrange.mp (List.mem_of_mem_take member)
    have described := (List.forall₂_and_left _ _).mpr ⟨picked, shown⟩
    refine described.imp fun x item both => ?_
    obtain ⟨member, junk, rfl⟩ := both
    exact way.shows x member junk
  · rw [count, List.length_map]

/-- A list with something in it reaches the client as the list it is. -/
theorem arrives (positive : 0 < limit) (occupied : ∃ r ∈ l.rows, l.known r = true)
    (allocates : Nat → Bool) (junk : Nat → UInt8) (app : AppState) :
    ∃ app', networkThreadOn allocates junk packet app = .ok (app', []) ∧ l.UpTo limit app' := by
  have sizes : ∀ x ∈ (way.order.arrange way.found).take limit,
      (way.cells x).length = way.size := fun x picked =>
    way.sizes x (way.order.mem_arrange.mp (List.mem_of_mem_take picked))
  have few : ((way.order.arrange way.found).take limit).length ≤ limit := List.length_take_le _ _
  have short : ((way.order.arrange way.found).take limit).length * way.size < 2 ^ 32 :=
    Nat.lt_of_le_of_lt (Nat.mul_le_mul_right _ few) way.short
  have payload : packet.payload junk =
      fill junk (((way.order.arrange way.found).take limit).flatMap way.cells) := by
    rw [Packet.payload, way.sent]
  have nonempty : packet.payload junk ≠ [] := by
    obtain ⟨r, holds, knows⟩ := occupied
    obtain ⟨x, member, -⟩ := (way.held r).mp (List.mem_filter.mpr ⟨holds, knows⟩)
    have page := List.length_pos_of_ne_nil (way.order.page_nonempty member positive)
    apply List.ne_nil_of_length_pos
    rw [payload, fill_length, array_length sizes]
    exact Nat.mul_pos page way.positive
  obtain ⟨items, owned, shown⟩ := ownedArray_fill way.decode way.positive sizes short junk
  rw [← payload] at owned
  obtain ⟨app', taken, array, count⟩ := way.takes allocates (packet.payload junk ++ [0])
    (UInt32.ofNat (packet.payload junk).length) app
  rw [owned] at array count
  rw [networkThreadOn, deliver_eq nonempty]
  exact ⟨app', taken, way.upTo shown array count⟩

end Listing.Transport

def Listing.Transport.ofUsers {l : Listing} {clash : l.Row → l.Row → Bool} (rows : Table l.Row clash)
    (self : ∀ r, clash r r = true) (order : RowOrder (l.Row × Entry UserRow)) (idOf : l.Row → Int)
    (p : l.Row → Bool)
    (held : l.rows.filter l.known = (rows.rows.filter p).filter fun r => HasUser db (idOf r))
    {size : Nat} (positive : 0 < size) (short : limit * size < 2 ^ 32)
    (bytes : l.Row × Entry UserRow → List UInt8) (sizes : ∀ x, (bytes x).length = size)
    (decode : List UInt8 → l.Item)
    (shows : ∀ x : l.Row × Entry UserRow, x.2 ∈ db.users.entries → x.2.rowid = idOf x.1 →
      l.shows x.1 (decode (bytes x))) {packet : Packet}
    (sent : packet.cells = ((order.arrange (withUsers rows idOf p db)).take limit).flatMap
      fun x => (bytes x).map some)
    (takes : ∀ allocates block len app, ∃ app',
      networkThread allocates packet.type.code (some block) len app = .ok (app', []) ∧
        l.array app' = (ownedArray size decode block len).1 ∧
        l.count app' = (ownedArray size decode block len).2) : l.Transport packet limit where
  Found := l.Row × Entry UserRow
  found := withUsers rows idOf p db
  order := order
  nodup := withUsers_nodup rows idOf p self
  row := Prod.fst
  key := withUsers_key rows idOf p
  held r := held ▸ mem_withUsers_fst rows idOf p r
  size := size
  positive := positive
  short := short
  cells x := (bytes x).map some
  sizes x _ := (List.length_map _).trans (sizes x)
  decode := decode
  shows x member junk := by
    obtain ⟨-, user, id, -⟩ := (mem_withUsers rows idOf p).mp member
    rw [fill_written]
    exact shows x user id.symm
  sent := sent
  takes := takes

def contactTransport (plan : Plan) (db : Database) (u : UInt32) :
    (contactListing db u).Transport (.respContacts (storageGetContactsData plan db u 50)) 50 :=
  .ofUsers (l := contactListing db u) db.contacts (fun r : ContactRow => beq_self_eq_true r)
    plan.contacts ContactRow.contactId (fun r => r.userId = bindInt u)
    rfl
    (show 0 < ContactSummary.size by decide) (by decide)
    (fun x => (contactSummary x.2).bytes) (fun x => (contactSummary x.2).bytes_length)
    ContactSummary.ofBytes
    (fun x user id => ⟨x.2, user, id, ContactSummary.ofBytes_bytes _ rfl⟩)
    (by simp only [Packet.cells, storageGetContactsData, List.flatMap_map]; rfl)
    (fun _ _ _ _ => ⟨_, by rw [networkThread, Packet.type, MessageType.ofCode_code], rfl, rfl⟩)

def requestTransport (plan : Plan) (db : Database) (u : UInt32) :
    (requestListing db u).Transport (.respRequests (storageGetRequestsData plan db u 50)) 50 :=
  .ofUsers (l := requestListing db u) db.requests (fun r : RequestRow => beq_self_eq_true r)
    plan.requests RequestRow.senderId (fun r => r.receiverId = bindInt u)
    rfl
    (show 0 < ContactSummary.size by decide) (by decide)
    (fun x => (contactSummary x.2).bytes) (fun x => (contactSummary x.2).bytes_length)
    ContactSummary.ofBytes
    (fun x user id => ⟨x.2, user, id, ContactSummary.ofBytes_bytes _ rfl⟩)
    (by simp only [Packet.cells, storageGetRequestsData, List.flatMap_map]; rfl)
    (fun _ _ _ _ => ⟨_, by rw [networkThread, Packet.type, MessageType.ofCode_code], rfl, rfl⟩)

def memberTransport (plan : Plan) (db : Database) (k : UInt32) :
    (memberListing db k).Transport (.respMembers (storageGetGroupMembers plan db k maxMembers)) 50 :=
  .ofUsers (l := memberListing db k) db.participants ParticipantRow.clash_self plan.groupMembers
    ParticipantRow.userId (fun r => r.convId = bindInt k)
    rfl
    (show 0 < GroupMemberSummary.size by decide) (by decide)
    (fun x => GroupMemberSummary.bytes
      ⟨columnInt x.2.rowid, strncpy maxNameLen x.2.row.username, (columnInt x.1.role).toUInt8⟩)
    (fun _ => GroupMemberSummary.bytes_length _) GroupMemberSummary.ofBytes
    (fun x user id => ⟨x.2, user, id, GroupMemberSummary.ofBytes_bytes _⟩)
    (by simp only [Packet.cells, storageGetGroupMembers, List.flatMap_map]; rfl)
    (fun _ _ _ _ => ⟨_, by rw [networkThread, Packet.type, MessageType.ofCode_code], rfl, rfl⟩)

def conversationTransport (plan : Plan) (db : Database) (u : UInt32) :
    (conversationListing plan db u).Transport
      (.respConversations (storageGetUserConversations plan db u 50)) 50 where
  Found := Entry ConversationRow × ParticipantRow
  found := (join (fun c p => c.rowid = p.convId) db.conversations.entries
    db.participants.rows).filter fun r => r.2.userId = bindInt u
  order := plan.userConversations
  nodup := (join_nodup db.conversations.nodup
    (db.participants.nodup ParticipantRow.clash_self)).filter _
  row := Prod.snd
  key x hx y hy same := by
    have inX := List.mem_of_mem_filter hx
    have inY := List.mem_of_mem_filter hy
    obtain ⟨convX, -, idX⟩ := mem_join.mp inX
    obtain ⟨convY, -, idY⟩ := mem_join.mp inY
    rw [decide_eq_true_eq] at idX idY
    exact Prod.ext (db.conversations.eq_of_rowid convX convY
      (idX.trans ((congrArg ParticipantRow.convId same).trans idY.symm))) same
  held r := by
    rw [List.mem_filter]
    constructor
    · rintro ⟨held, knows⟩
      obtain ⟨member, user⟩ := List.mem_filter.mp held
      obtain ⟨c, conv, id⟩ := of_decide_eq_true knows
      exact ⟨(c, r), List.mem_filter.mpr ⟨mem_join.mpr ⟨conv, member, decide_eq_true id⟩, user⟩, rfl⟩
    · rintro ⟨x, found, rfl⟩
      obtain ⟨joined, user⟩ := List.mem_filter.mp found
      obtain ⟨conv, member, id⟩ := mem_join.mp joined
      exact ⟨List.mem_filter.mpr ⟨member, user⟩, decide_eq_true ⟨x.1, conv, of_decide_eq_true id⟩⟩
  size := ConversationSummary.size
  positive := by decide
  short := by decide
  cells x := (conversationSummary plan db u x).cells
  sizes x _ := ConversationSummary.cells_length _
    (conversationSummary_name_length plan db u x) (conversationSummary_description_length plan db u x)
  decode := ConversationSummary.ofBytes
  shows x found junk := by
    obtain ⟨conv, -, id⟩ := mem_join.mp (List.mem_of_mem_filter found)
    refine ⟨x.1, conv, of_decide_eq_true id, ?_⟩
    exact ConversationSummary.ofBytes_fill _ (conversationSummary_name_length plan db u x)
      (conversationSummary_description_length plan db u x) junk
  sent := by simp only [Packet.cells, storageGetUserConversations, List.flatMap_map]
  takes _ _ _ _ := by
    rw [networkThread, MessageType.ofCode_code]
    exact ⟨_, rfl, rfl, rfl⟩

theorem pushTo_packet {u : UInt32} {packet : Packet} (pushed : m ∈ pushTo s u packet) :
    m.packet = packet := by
  rcases pushTo_cases s u packet with ⟨c, -, -, -, pushes⟩ | ⟨-, silent⟩
  · rw [pushes, List.mem_singleton] at pushed
    rw [pushed]
  · rw [silent] at pushed
    cases pushed

/-- The types of the packets that a packet of each type can cause, whoever they go to. -/
def answers : MessageType → List MessageType
  | .register => [.registerSuccess, .registerFail]
  | .login => [.loginSuccess, .loginFail]
  | .updateUser => [.updateSuccess]
  | .reqContacts => [.respContacts]
  | .addByCode => [.addFail, .addReqSent, .respRequests]
  | .getRequests => [.respRequests]
  | .decideRequest => [.respConversations, .respContacts, .respRequests]
  | .createConv => [.convCreated, .respConversations]
  | .reqConversations => [.respConversations]
  | .updateGroup => [.respConversations]
  | .addMember => [.memberAdded, .respConversations]
  | .reqMembers => [.respMembers]
  | .kickMember => [.respConversations]
  | .deleteGroup => [.respConversations]
  | .sendText => [.rteText]
  | .reqHistory => [.respHistory]
  | _ => []

section Types

variable {types : List MessageType}

theorem pushTo_type {u : UInt32} {packet : Packet} (pushed : m ∈ pushTo s u packet)
    (member : packet.type ∈ types) : m.packet.type ∈ types := by
  rw [pushTo_packet pushed]
  exact member

theorem pushes_type {uids : List UInt32} (pushed : m ∈ uids.flatMap (pushConversations env s))
    (member : .respConversations ∈ types) : m.packet.type ∈ types := by
  obtain ⟨uid, -, sent⟩ := List.mem_flatMap.mp pushed
  exact pushTo_type sent member

theorem notified_type {uids : List UInt32} {excluded : UInt32}
    (pushed : m ∈ uids.flatMap fun uid =>
      if uid = excluded then [] else pushConversations env s uid)
    (member : .respConversations ∈ types) : m.packet.type ∈ types := by
  obtain ⟨uid, -, sent⟩ := List.mem_flatMap.mp pushed
  split at sent
  · cases sent
  · exact pushTo_type sent member

end Types

theorem decideRequest_types (done : handleDecideRequest env s cli p = .ok (t, out))
    (sent : m ∈ out) : m.packet.type ∈ answers .decideRequest := by
  obtain ⟨accepted, target, -, -, -, rfl⟩ := handleDecideRequest_ok done
  simp only [List.mem_append] at sent
  rcases sent with ((chat | contacts) | requests) | refresh
  · split at chat
    · simp only [acceptRequest] at chat
      split at chat
      · rcases List.mem_cons.mp chat with rfl | pushed
        · simp [answers, Packet.type]
        · exact pushTo_type pushed (by simp [answers, Packet.type])
      · cases chat
    · cases chat
  · cases List.mem_singleton.mp contacts
    simp [answers, Packet.type]
  · cases List.mem_singleton.mp requests
    simp [answers, Packet.type]
  · split at refresh
    · exact pushTo_type refresh (by simp [answers, Packet.type])
    · cases refresh

theorem dispatch_types {code : UInt32} (done : dispatch P env s cli code p = .ok (t, out))
    (sent : m ∈ out) : ∃ type, MessageType.ofCode code = some type ∧ m.packet.type ∈ answers type := by
  unfold dispatch at done
  cases coded : MessageType.ofCode code with
  | none =>
    rw [coded] at done
    cases done
    cases sent
  | some type =>
    rw [coded] at done
    refine ⟨type, rfl, ?_⟩
    cases type with
    | register =>
      obtain ⟨_, _, _, -, -, -, ⟨rfl, rfl⟩ | ⟨_, _, _, -, -, rfl, rfl⟩⟩ := handleRegister_ok done
      · cases List.mem_singleton.mp sent
        simp [answers, Packet.type]
      · cases List.mem_singleton.mp sent
        simp [answers, Packet.type]
    | login =>
      obtain ⟨rfl, rfl⟩ | ⟨u, rfl, rfl, -⟩ := handleLogin_ok done
      · cases List.mem_singleton.mp sent
        simp [answers, Packet.type]
      · cases List.mem_singleton.mp sent
        simp [answers, Packet.type]
    | updateUser =>
      obtain ⟨_, _, -, -, -, -, rfl⟩ := handleUpdateUser_ok done
      cases List.mem_singleton.mp sent
      simp [answers, Packet.type]
    | sendText =>
      obtain ⟨k, text, -, -, -, rfl⟩ := handleSendText_ok done
      obtain ⟨uid, -, pushed⟩ := List.mem_flatMap.mp sent
      split at pushed
      · cases pushed
      · exact pushTo_type pushed (by simp [answers, Packet.type])
    | reqHistory =>
      obtain ⟨_, _, _, -, -, -, -, rfl⟩ := handleReqHistory_ok done
      cases List.mem_singleton.mp sent
      simp [answers, Packet.type]
    | createConv =>
      obtain ⟨_, uids, _, -, -, -, ⟨-, -, rfl⟩ | ⟨-, _, _, -, -, -, rfl⟩⟩ :=
        handleCreateConv_ok done
      · cases List.mem_singleton.mp sent
        simp [answers, Packet.type]
      · rcases List.mem_cons.mp sent with rfl | pushed
        · simp [answers, Packet.type]
        · split at pushed
          · exact notified_type pushed (by simp [answers])
          · cases pushed
    | updateGroup =>
      obtain ⟨_, -, ⟨-, -, rfl⟩ | ⟨-, _, _, -, -, -, rfl⟩⟩ := handleUpdateGroup_ok done
      · cases sent
      · exact notified_type sent (by simp [answers])
    | addMember =>
      obtain ⟨_, -, ⟨-, -, rfl⟩ | ⟨-, _, -, ⟨-, -, rfl⟩ | ⟨_, -, -, rfl⟩⟩⟩ :=
        handleAddMember_ok done
      · cases sent
      · cases sent
      · rcases List.mem_cons.mp sent with rfl | pushed
        · simp [answers, Packet.type]
        · exact notified_type pushed (by simp [answers])
    | reqMembers =>
      obtain ⟨_, -, -, rfl⟩ := handleReqMembers_ok done
      cases List.mem_singleton.mp sent
      simp [answers, Packet.type]
    | kickMember =>
      obtain ⟨_, -, ⟨-, -, rfl⟩ | ⟨-, target, -, ⟨-, -, rfl⟩ | ⟨-, -, rfl⟩⟩⟩ :=
        handleKickMember_ok done
      · cases sent
      · cases sent
      · rcases List.mem_append.mp sent with pushed | pushed
        · exact notified_type pushed (by simp [answers])
        · exact pushTo_type pushed (by simp [answers, Packet.type])
    | deleteGroup =>
      obtain ⟨_, -, ⟨-, -, rfl⟩ | ⟨-, -, rfl⟩⟩ := handleDeleteGroup_ok done
      · cases sent
      · exact pushes_type sent (by simp [answers])
    | addByCode =>
      obtain ⟨-, rfl, -⟩ | ⟨_, target, _, -, -, -, -, -, rfl⟩ := handleAddByCode_ok done
      · cases List.mem_singleton.mp sent
        simp [answers, Packet.type]
      · rcases List.mem_cons.mp sent with rfl | pushed
        · simp [answers, Packet.type]
        · exact pushTo_type pushed (by simp [answers, Packet.type])
    | decideRequest => exact decideRequest_types done sent
    | reqConversations =>
      cases done
      cases List.mem_singleton.mp sent
      simp [answers, Packet.type]
    | reqContacts =>
      cases done
      cases List.mem_singleton.mp sent
      simp [answers, Packet.type]
    | getRequests =>
      cases done
      cases List.mem_singleton.mp sent
      simp [answers, Packet.type]
    | _ =>
      cases done
      cases sent

theorem asked_members {type : MessageType} (answered : .respMembers ∈ answers type) :
    type = .reqMembers := by
  cases type <;> simp [answers] at answered ⊢

theorem members_asked {code : UInt32} (done : dispatch P env s cli code p = .ok (t, out))
    (sent : m ∈ out) {members : List GroupMemberSummary} (listed : m.packet = .respMembers members) :
    ∃ k, readUInt32 p ReqMembersPayload.convId = .ok k ∧
      members = storageGetGroupMembers env.plan t.db k maxMembers := by
  obtain ⟨type, coded, answered⟩ := dispatch_types done sent
  rw [listed] at answered
  cases asked_members answered
  simp only [dispatch, coded] at done
  obtain ⟨k, readK, rfl, rfl⟩ := handleReqMembers_ok done
  cases List.mem_singleton.mp sent
  cases listed
  exact ⟨k, readK, rfl⟩

/- What the server sends as a list is made from what its tables hold for the user of the
connection, or for the conversation that was asked about. -/
theorem listing_sent {bytes : List UInt8} {code : UInt32} {c : Client}
    (done : dispatch P env s cli code (deliver bytes) = .ok (t, out)) (sent : m ∈ out)
    (rightful : Rightful env t cli c m.packet) {l : Listing}
    (selected : listing env.plan t.db c.uid bytes m.packet = some l) :
    Nonempty (l.Transport m.packet 50) := by
  obtain ⟨fd, packet⟩ := m
  cases packet with
  | respContacts contacts =>
    cases Option.some.inj selected
    cases (rightful : contacts = _)
    exact ⟨contactTransport env.plan t.db c.uid⟩
  | respRequests requests =>
    cases Option.some.inj selected
    cases (rightful : requests = _)
    exact ⟨requestTransport env.plan t.db c.uid⟩
  | respConversations conversations =>
    cases Option.some.inj selected
    cases (rightful : conversations = _)
    exact ⟨conversationTransport env.plan t.db c.uid⟩
  | respMembers members =>
    obtain ⟨k, readK, rfl⟩ := members_asked done sent rfl
    simp only [listing, readK, Except.toOption, Option.map_some, Option.some.injEq] at selected
    subst selected
    exact ⟨memberTransport env.plan t.db k⟩
  | _ => cases selected

/-- A list that has an entry arrives: the client ends up with exactly the entries that the
tables have for it, up to fifty of them, whatever it had before. -/
theorem lists_transported (P : Platform) (key : Key) (s : Server)
    (reached : Reachable (server P key) s) (fd : Int) (code : UInt32) (bytes : List UInt8)
    (env : Env) (t : Server) (out : List Sent)
    (stepped : (server P key).step s (.packet fd code bytes env) = some (t, out)) :
    ∀ m ∈ out, ∃ c, getClientByFd m.fd t.clients = some c ∧
      ∀ l, listing env.plan t.db c.uid bytes m.packet = some l →
        (∃ r ∈ l.rows, l.known r = true) →
      ∀ allocates junk app, ∃ app',
        networkThreadOn allocates junk m.packet app = .ok (app', []) ∧ l.UpTo 50 app' := by
  intro m sent
  have handled := (handleEvent_of_step stepped).2
  simp only [handleEvent] at handled
  split at handled
  · cases handled
    cases sent
  · rename_i cli listed
    have member := (getClientByFd_some listed).1
    obtain ⟨c, there, same, -, rightful⟩ := dispatch_addressed reached member handled sent
    have distinct := (reachable_connected (reached.step stepped)).distinct
    refine ⟨c, same ▸ getClientByFd_of_mem distinct there, ?_⟩
    intro l selected occupied allocates junk app
    obtain ⟨way⟩ := listing_sent handled sent rightful selected
    exact way.arrives (by decide) occupied allocates junk app

theorem lists_transported_pair :
    ∃ t m, recordedServer.step pairState ((serviceReqMembers 1).event 7 (recordedEnv 4)) =
        some (t, [m]) ∧ ∃ app',
      networkThreadOn (fun _ => true) (fun _ => 0) m.packet appInit = .ok (app', []) ∧
        (memberListing t.db 1).UpTo 50 app' := by
  have answered : (recordedServer.step pairState
      ((serviceReqMembers 1).event 7 (recordedEnv 4))).map (fun result =>
        (result.2.map fun m => m.packet.type,
          (memberListing result.1.db 1).rows.any (memberListing result.1.db 1).known)) =
        some ([.respMembers], true) := by decide +kernel
  obtain ⟨⟨t, out⟩, stepped, both⟩ := Option.map_eq_some_iff.mp answered
  obtain ⟨types, occupied⟩ := Prod.mk.inj both
  obtain ⟨m, rfl, type⟩ := List.map_eq_singleton_iff.mp types
  obtain ⟨c, -, arrives⟩ := lists_transported recordedPlatform recordedKey _
    (.after pairSession pairSession_completes) 7 _ _ _ t [m] stepped m List.mem_cons_self
  have selected : listing (recordedEnv 4).plan t.db c.uid (serviceReqMembers 1).2 m.packet =
      some (memberListing t.db 1) := by
    cases packet : m.packet <;> rw [packet] at type <;> cases type
    rfl
  exact ⟨t, m, stepped, arrives _ selected (List.any_eq_true.mp occupied) _ _ appInit⟩

/-- The request, which comes in on `fd`, makes the server send a packet that leaves the client
on `target` with a list that is not the one in the tables. -/
def Inexact (s : Server) (fd : Int) (request : Request) (env : Env) (target : Int) (app : AppState) :
    Prop :=
  ∃ t out m c l app', recordedServer.step s (request.event fd env) = some (t, out) ∧ m ∈ out ∧
    m.fd = target ∧ getClientByFd m.fd t.clients = some c ∧
    listing env.plan t.db c.uid request.2 m.packet = some l ∧
    networkThreadOn (fun _ => true) (fun _ => 0) m.packet app = .ok (app', []) ∧ ¬ l.Exact app'

def miscounted (s : Server) (fd : Int) (request : Request) (env : Env) (target : Int) (app : AppState) :
    Bool :=
  (recordedServer.step s (request.event fd env)).any fun result => result.2.any fun m =>
    m.fd = target && (getClientByFd m.fd result.1.clients).any fun c =>
      (listing env.plan result.1.db c.uid request.2 m.packet).any fun l =>
        match networkThreadOn (fun _ => true) (fun _ => 0) m.packet app with
        | .ok (app, []) => l.count app ≠ l.rows.length
        | _ => false

theorem inexact_of_miscounted {fd target : Int} {request : Request}
    (differs : miscounted s fd request env target app = true) :
    Inexact s fd request env target app := by
  simp only [miscounted, Option.any_eq_true, List.any_eq_true, Bool.and_eq_true,
    decide_eq_true_eq] at differs
  obtain ⟨⟨t, out⟩, stepped, m, sent, there, c, listed, l, selected, differs⟩ := differs
  split at differs
  · rename_i app' taken
    refine ⟨t, out, m, c, l, app', stepped, sent, there, listed, selected, taken, ?_⟩
    exact fun exact => of_decide_eq_true differs exact.count
  · cases differs

def manySession : List Event :=
  aliceArrives ++ List.replicate 51
    ((serviceCreateGroup 1 (CString.lit "team") CString.empty []).event 7 (recordedEnv 3))

theorem manySession_completes :
    (recordedServer.exec recordedServer.start manySession).isSome := by decide +kernel

abbrev manyState : Server := recordedServer.after manySession manySession_completes

def straySession : List Event :=
  aliceArrives ++ bobArrives ++
    [(serviceDecideRequest 2 1).event 7 (recordedEnv 3),
      (serviceDecideRequest 9 1).event 7 (recordedEnv 4)]

theorem straySession_completes :
    (recordedServer.exec recordedServer.start straySession).isSome := by decide +kernel

abbrev strayState : Server := recordedServer.after straySession straySession_completes

def bobApp : AppState :=
  { appInit with
    conversations := some (storageGetUserConversations .scan pairState.db 2 50)
    convCount := 1 }

/-- A list stops at fifty, a row that refers to nobody is left out, and when Bob is kicked from
his last group, his client keeps the list it has. -/
theorem lists_inexact :
    (Reachable recordedServer manyState ∧
      Inexact manyState 7 serviceReqConversations (recordedEnv 4) 7 appInit) ∧
    (Reachable recordedServer strayState ∧
      Inexact strayState 7 serviceRefreshContacts (recordedEnv 5) 7 appInit) ∧
    Reachable recordedServer pairState ∧
      Inexact pairState 7 (serviceKickMember 1 2) (recordedEnv 4) 8 bobApp := by
  have many : miscounted manyState 7 serviceReqConversations (recordedEnv 4) 7 appInit = true := by
    decide +kernel
  have stray : miscounted strayState 7 serviceRefreshContacts (recordedEnv 5) 7 appInit = true := by
    decide +kernel
  have kicked : miscounted pairState 7 (serviceKickMember 1 2) (recordedEnv 4) 8 bobApp = true := by
    decide +kernel
  exact ⟨⟨.after manySession manySession_completes, inexact_of_miscounted many⟩,
    ⟨.after straySession straySession_completes, inexact_of_miscounted stray⟩,
    .after pairSession pairSession_completes, inexact_of_miscounted kicked⟩

end MoT
