import MoT.Accounts

/-! The profile a user asks for, the row that is stored, and the answer that is sent. -/
namespace MoT
open CMemory Relational Transition

variable {P : Platform} {key : Key} {env : Env} {s t : Server} {cli : Client}
  {db : Database} {out : List Sent} {uid : UInt32}

def hashes (db : Database) : List (Int × CString) :=
  db.users.entries.map fun e => (e.rowid, e.row.passwordHash)

theorem mem_hashes {n : Int × CString} :
    n ∈ hashes db ↔ ∃ e ∈ db.users.entries, e.rowid = n.1 ∧ e.row.passwordHash = n.2 := by
  simp only [hashes, List.mem_map, Prod.ext_iff]

def rehash (uid : UInt32) (hash : CString) (n : Int × CString) : Int × CString :=
  if n.1 = bindInt uid then (n.1, hash) else n

theorem hashes_updateUsers_name (db : Database) (uid : UInt32) (name : CString) :
    hashes (updateUsers db uid fun r => { r with username := name }) = hashes db := by
  simp only [updateUsers]
  cases updated : db.users.updateWhere? (fun e => e.rowid = bindInt uid)
      (fun r => { r with username := name }) with
  | none => rfl
  | some users =>
    rw [Option.getD_some, hashes, hashes, (AutoTable.updateWhere?_spec updated).1, List.map_map]
    apply List.map_congr_left
    intro e _
    simp only [Function.comp_apply, AutoTable.assign]
    split <;> rfl

/- No constraint is on the hash, so this UPDATE always goes through. -/
theorem hashes_updateUsers_password (db : Database) (uid : UInt32) (hash : CString) :
    hashes (updateUsers db uid fun r => { r with passwordHash := hash }) =
      (hashes db).map (rehash uid hash) := by
  obtain ⟨users, updated⟩ := db.users.updateWhere?_blind (p := fun e => e.rowid = bindInt uid)
    (f := fun r => { r with passwordHash := hash }) (fun _ _ => rfl) (fun _ _ => rfl)
  simp only [updateUsers, updated, Option.getD_some]
  rw [hashes, hashes, (AutoTable.updateWhere?_spec updated).1, List.map_map, List.map_map]
  apply List.map_congr_left
  intro e _
  by_cases own : e.rowid = bindInt uid
  · simp [AutoTable.assign, rehash, own]
  · simp [AutoTable.assign, rehash, own]

theorem storageUpdateUser_hashes (P : Platform) (db : Database) (salt : List.Vector (Fin 64) 16)
    (uid : UInt32) (name password : CString) :
    (hashes (storageUpdateUser P db salt uid name password) = hashes db ∧
      (password.length = 0 ∨ P.crypt password (generateRandomSalt salt) = none)) ∨
    ∃ hash, hashes (storageUpdateUser P db salt uid name password) =
        (hashes db).map (rehash uid hash) ∧
      0 < password.length ∧ P.crypt password (generateRandomSalt salt) = some hash := by
  have first : hashes (if name.length > 0 then updateUsers db uid fun r => { r with username := name }
      else db) = hashes db := by
    split
    · exact hashes_updateUsers_name db uid name
    · rfl
  unfold storageUpdateUser
  dsimp only
  by_cases nonempty : password.length > 0
  · rw [if_pos nonempty]
    cases hashed : P.crypt password (generateRandomSalt salt) with
    | none => exact .inl ⟨first, .inr rfl⟩
    | some hash =>
      refine .inr ⟨hash, ?_, nonempty, rfl⟩
      rw [← first]
      exact hashes_updateUsers_password _ uid hash
  · rw [if_neg nonempty]
    exact .inl ⟨first, .inl (Nat.eq_zero_of_not_pos nonempty)⟩

/-- The row of this user has the name that was asked for and a hash of the password that
was asked for; an empty string asks for nothing. -/
def ProfileStored (P : Platform) (db : Database) (uid : UInt32) (name password : CString) : Prop :=
  (0 < name.length → ∃ e ∈ db.users.entries, e.rowid = bindInt uid ∧ e.row.username = name) ∧
  (0 < password.length → ∃ e ∈ db.users.entries, e.rowid = bindInt uid ∧
    ∃ salt, P.crypt password salt = some e.row.passwordHash)

/-- Neither the row of the user nor the name on its connection is another one. -/
def ProfileKept (s t : Server) (cli : Client) : Prop :=
  (∀ e : Entry UserRow, e.rowid = bindInt cli.uid →
    (e ∈ t.db.users.entries ↔ e ∈ s.db.users.entries)) ∧
  ∀ c, getClientByFd cli.fd t.clients = some c → c.username = cli.username

/-- Success is only reported when the profile is stored, and a name that somebody else has
changes nothing. -/
def UpdateHonest (P : Platform) (s t : Server) (out : List Sent) (cli : Client)
    (name password : CString) : Prop :=
  (⟨cli.fd, .updateSuccess⟩ ∈ out → ProfileStored P t.db cli.uid name password) ∧
  (0 < name.length → Taken s.db cli.uid name → ProfileKept s t cli)

/-- The user has a row, the name is free, and the password can be hashed or is the old one. -/
def Storable (P : Platform) (env : Env) (db : Database) (uid : UInt32)
    (name password : CString) : Prop :=
  (0 < name.length → (∃ e ∈ db.users.entries, e.rowid = bindInt uid) ∧ ¬ Taken db uid name) ∧
  (0 < password.length → ∃ e ∈ db.users.entries, e.rowid = bindInt uid ∧
    ((P.crypt password (generateRandomSalt env.salt)).isSome ∨
      ∃ salt, P.crypt password salt = some e.row.passwordHash))

/- The two statements touch different columns. -/
theorem name_stored_iff (P : Platform) (db : Database) (salt : List.Vector (Fin 64) 16)
    (uid : UInt32) {name : CString} (password : CString) (nonempty : 0 < name.length) :
    (∃ e ∈ (storageUpdateUser P db salt uid name password).users.entries,
      e.rowid = bindInt uid ∧ e.row.username = name) ↔
    (∃ e ∈ db.users.entries, e.rowid = bindInt uid) ∧ ¬ Taken db uid name := by
  rw [← mem_names (n := (bindInt uid, name))]
  have exists_iff : (∃ e ∈ db.users.entries, e.rowid = bindInt uid) ↔
      ∃ old, (bindInt uid, old) ∈ names db := by
    constructor
    · rintro ⟨e, he, rowid⟩
      exact ⟨e.row.username, mem_names.mpr ⟨e, he, rowid, rfl⟩⟩
    · rintro ⟨old, member⟩
      obtain ⟨e, he, rowid, -⟩ := mem_names.mp member
      exact ⟨e, he, rowid⟩
  rw [exists_iff]
  rcases storageUpdateUser_names P db salt uid name password with
    ⟨kept, empty | taken⟩ | ⟨renamed, -, free⟩
  · omega
  · rw [kept]
    constructor
    · intro mine
      obtain ⟨n, member, same, other⟩ := taken
      exact absurd (congrArg Prod.fst (names_unique member mine same)) other
    · rintro ⟨-, free⟩
      exact absurd taken free
  · rw [renamed, mem_rename]
    constructor
    · rintro (⟨other, -⟩ | ⟨-, -, old⟩)
      · exact absurd rfl other
      · exact ⟨old, free⟩
    · rintro ⟨old, -⟩
      exact .inr ⟨rfl, rfl, old⟩

theorem password_stored_iff (P : Platform) (db : Database) (salt : List.Vector (Fin 64) 16)
    (uid : UInt32) (name : CString) {password : CString} (nonempty : 0 < password.length) :
    (∃ e ∈ (storageUpdateUser P db salt uid name password).users.entries, e.rowid = bindInt uid ∧
      ∃ setting, P.crypt password setting = some e.row.passwordHash) ↔
    ∃ e ∈ db.users.entries, e.rowid = bindInt uid ∧
      ((P.crypt password (generateRandomSalt salt)).isSome ∨
        ∃ setting, P.crypt password setting = some e.row.passwordHash) := by
  have column (db : Database) (p : CString → Prop) :
      (∃ e ∈ db.users.entries, e.rowid = bindInt uid ∧ p e.row.passwordHash) ↔
        ∃ hash, (bindInt uid, hash) ∈ hashes db ∧ p hash := by
    simp only [mem_hashes]
    constructor
    · rintro ⟨e, he, rowid, holds⟩
      exact ⟨_, ⟨e, he, rowid, rfl⟩, holds⟩
    · rintro ⟨hash, ⟨e, he, rowid, rfl⟩, holds⟩
      exact ⟨e, he, rowid, holds⟩
  rw [column _ fun hash => ∃ setting, P.crypt password setting = some hash,
    column _ fun hash => (P.crypt password (generateRandomSalt salt)).isSome ∨
      ∃ setting, P.crypt password setting = some hash]
  rcases storageUpdateUser_hashes P db salt uid name password with
    ⟨kept, empty | failed⟩ | ⟨new, replaced, -, hashed⟩
  · omega
  · rw [kept, failed]
    simp
  · rw [replaced, hashed]
    constructor
    · rintro ⟨hash, member, -⟩
      obtain ⟨⟨id, old⟩, there, same⟩ := List.mem_map.mp member
      by_cases own : id = bindInt uid
      · exact ⟨old, own ▸ there, .inl rfl⟩
      · rw [rehash, if_neg own] at same
        exact absurd (congrArg Prod.fst same) own
    · rintro ⟨old, member, -⟩
      refine ⟨new, List.mem_map.mpr ⟨_, member, ?_⟩, _, hashed⟩
      exact if_pos rfl

/-- An update is answered honestly exactly when the profile can be stored: the server
reports success whatever its statements did, and renames the connection all the same. -/
theorem update_user_honest_iff (P : Platform) (key : Key) (s : Server) (fd : Int) (code : UInt32)
    (bytes : List UInt8) (env : Env) (cli : Client) (t : Server) (out : List Sent)
    (name password : CString) (listed : getClientByFd fd s.clients = some cli)
    (type : MessageType.ofCode code = some .updateUser)
    (stepped : (server P key).step s (.packet fd code bytes env) = some (t, out))
    (readName : readString (deliver bytes) UpdateUserPayload.newUsername = .ok name)
    (readPassword : readString (deliver bytes) UpdateUserPayload.newPassword = .ok password) :
    UpdateHonest P s t out cli name password ↔ Storable P env s.db cli.uid name password := by
  have handled := (handleEvent_of_step stepped).2
  simp only [handleEvent, listed, dispatch, type] at handled
  obtain ⟨name', password', readName', readPassword', stored, -, answer⟩ :=
    handleUpdateUser_ok handled
  cases Except.ok.inj (readName.symm.trans readName')
  cases Except.ok.inj (readPassword.symm.trans readPassword')
  have success : (⟨cli.fd, .updateSuccess⟩ : Sent) ∈ out := by simp [answer]
  have same : ProfileStored P t.db cli.uid name password ↔
      Storable P env s.db cli.uid name password := by
    rw [stored]
    apply and_congr
    · exact imp_congr_right (name_stored_iff P s.db env.salt cli.uid password)
    · exact imp_congr_right (password_stored_iff P s.db env.salt cli.uid name)
  constructor
  · intro honest
    exact same.mp (honest.1 success)
  · intro storable
    refine ⟨fun _ => same.mpr storable, fun nonempty taken => ?_⟩
    exact absurd taken (storable.1 nonempty).2

theorem twoUsers_complete :
    (recordedServer.exec recordedServer.start (aliceArrives ++ bobArrives)).isSome := by
  decide +kernel

abbrev twoUsers : Server := recordedServer.after (aliceArrives ++ bobArrives) twoUsers_complete

theorem twoUsers_bob : getClientByFd 8 twoUsers.clients =
    some ⟨8, 2, strncpy maxNameLen (CString.lit "bob"), true⟩ := by decide +kernel

theorem update_user_honest_iff_renamed :
    ∃ t out, recordedServer.step twoUsers
        ((serviceUpdateUser (some (CString.lit "robert")) none).event 8 (recordedEnv 3)) =
          some (t, out) ∧
      UpdateHonest recordedPlatform twoUsers t out
        ⟨8, 2, strncpy maxNameLen (CString.lit "bob"), true⟩ (CString.lit "robert")
        CString.empty := by
  have seen : (recordedServer.step twoUsers ((serviceUpdateUser
        (some (CString.lit "robert")) none).event 8 (recordedEnv 3))).isSome ∧
      (∃ e ∈ twoUsers.db.users.entries, e.rowid = bindInt 2) ∧
      ∀ e ∈ twoUsers.db.users.entries, e.row.username = CString.lit "robert" →
        e.rowid = bindInt 2 := by decide +kernel
  obtain ⟨completes, free⟩ := seen
  obtain ⟨⟨t, out⟩, stepped⟩ := Option.isSome_iff_exists.mp completes
  refine ⟨t, out, stepped, (update_user_honest_iff recordedPlatform recordedKey twoUsers 8 _ _ _ _
    t out _ _ twoUsers_bob (by decide +kernel) stepped (by decide +kernel)
    (by decide +kernel)).mpr ⟨fun _ => ⟨free.1, not_taken_iff.mpr free.2⟩, fun nonempty => ?_⟩⟩
  exact absurd nonempty (by decide)

/- Bob asks for the name that Alice has, and is told that he has it. -/
theorem update_user_dishonest :
    ¬ ∀ (P : Platform) (key : Key) (s : Server) (fd : Int) (code : UInt32) (bytes : List UInt8)
        (env : Env) (cli : Client) (t : Server) (out : List Sent) (name password : CString),
      getClientByFd fd s.clients = some cli → cli.isOnline = true →
      MessageType.ofCode code = some .updateUser → bytes.length = UpdateUserPayload.size →
      0 ∈ bytes.take maxNameLen → 0 ∈ bytes.drop maxNameLen →
      (server P key).step s (.packet fd code bytes env) = some (t, out) →
      readString (deliver bytes) UpdateUserPayload.newUsername = .ok name →
      readString (deliver bytes) UpdateUserPayload.newPassword = .ok password →
      UpdateHonest P s t out cli name password := by
  intro claimed
  have answered : (recordedServer.step twoUsers ((serviceUpdateUser
      (some (CString.lit "alice")) none).event 8 (recordedEnv 3))).any fun r =>
        ⟨8, .updateSuccess⟩ ∈ r.2 ∧ ¬ ∃ e ∈ r.1.db.users.entries,
          e.rowid = bindInt 2 ∧ e.row.username = CString.lit "alice" := by decide +kernel
  obtain ⟨⟨t, out⟩, stepped, success⟩ := (Option.any_eq_true _ _).mp answered
  obtain ⟨told, missing⟩ := of_decide_eq_true success
  have honest := claimed recordedPlatform recordedKey twoUsers 8 _ _ _ _ t out (CString.lit "alice")
    CString.empty twoUsers_bob rfl (by decide) (by decide +kernel) (by decide +kernel)
    (by decide +kernel) stepped (by decide +kernel) (by decide +kernel)
  exact missing ((honest.1 told).1 (by decide))

end MoT
