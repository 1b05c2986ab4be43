import MoT.Server

/-! The client's services, as the requests they send. -/
namespace MoT
open CMemory

abbrev Request := MessageType × List UInt8

/- A zeroed field of `n` bytes after `strncpy` of at most `n - 1` of them. -/
def field (n : Nat) (s : CString) : List UInt8 := (strncpy n (s.truncate (n - 1))).toList

def littleEndianBytes (u : UInt32) : List UInt8 :=
  [u.toUInt8, (u >>> 8).toUInt8, (u >>> 16).toUInt8, (u >>> 24).toUInt8]

@[simp] theorem littleEndianBytes_length (u : UInt32) : (littleEndianBytes u).length = 4 := rfl

theorem littleEndian_bytes (u : UInt32) : UInt32.ofNat (littleEndian (littleEndianBytes u)) = u := by
  have bound : u.toNat < 2 ^ 32 := u.toNat_lt
  have value : littleEndian (littleEndianBytes u) = u.toNat := by
    simp [littleEndian, littleEndianBytes, UInt32.toNat_toUInt8, UInt32.toNat_shiftRight,
      Nat.shiftRight_eq_div_pow]
    omega
  rw [value, UInt32.ofNat_toNat]

theorem readUInt32_written (front rest : List UInt8) (u : UInt32) :
    readUInt32 (deliver (front ++ (littleEndianBytes u ++ rest))) front.length = .ok u := by
  have nonempty : front ++ (littleEndianBytes u ++ rest) ≠ [] := by simp [littleEndianBytes]
  have word : ((front ++ (littleEndianBytes u ++ rest) ++ [0]).drop front.length).take 4 =
      littleEndianBytes u := by
    rw [List.append_assoc, List.drop_left, List.append_assoc]
    exact List.take_left' (littleEndianBytes_length u)
  have fits : front.length + 4 ≤ (front ++ (littleEndianBytes u ++ rest) ++ [0]).length := by
    simp only [List.length_append, littleEndianBytes_length]
    omega
  have loaded : load (deliver (front ++ (littleEndianBytes u ++ rest))) front.length 4 =
      .ok (littleEndianBytes u) := by
    rw [deliver, if_neg nonempty, load, if_neg (by decide)]
    rw [if_pos fits, word]
  rw [readUInt32, checked, loadUInt32, loaded]
  exact congrArg Except.ok (littleEndian_bytes u)

def serviceRegister (email username password : CString) : Request :=
  (.register, field maxEmailLen email ++ field maxNameLen username ++ field maxPassLen password)

def serviceLogin (email password : CString) : Request :=
  (.login, field maxEmailLen email ++ field maxPassLen password)

/- NULL leaves its field zeroed, as an empty string does. -/
def serviceUpdateUser (username password : Option CString) : Request :=
  (.updateUser, field maxNameLen (username.getD CString.empty) ++
    field maxPassLen (password.getD CString.empty))

/- Registering and logging in wait for one packet, whatever it is; a login keeps the payload
as `app.my_info`. -/
def serviceRegisterReturns : Packet → Bool
  | .registerSuccess => true
  | _ => false

def serviceLoginReturns : Packet → Option MyInfoPayload
  | .loginSuccess info => some info
  | _ => none

def serviceSendText (convId : UInt32) (text : CString) : Request :=
  (.sendText, littleEndianBytes convId ++ field maxTextLen text)

def serviceReqHistory (convId : UInt32) : Request := (.reqHistory, littleEndianBytes convId)

def serviceRefreshContacts : Request := (.reqContacts, [])

def serviceRefreshRequests : Request := (.getRequests, [])

def serviceDecideRequest (targetUid : UInt32) (accept : UInt8) : Request :=
  (.decideRequest, littleEndianBytes targetUid ++ [accept])

def serviceAddContact (friendCode : CString) : Request :=
  (.addByCode, (strncpy friendCodeLen friendCode).toList)

/- The creator takes the first of the ten slots. -/
def serviceCreateGroup (myUid : UInt32) (name desc : CString) (uids : List UInt32) : Request :=
  let members := (myUid :: uids).take maxParticipants
  (.createConv, convTypeGroup :: field convNameLen name ++ field maxDescLen desc ++
    littleEndianBytes (UInt32.ofNat members.length) ++ members.flatMap littleEndianBytes ++
    List.replicate (4 * (maxParticipants - members.length)) 0)

/- Here the name may fill its field. -/
def serviceCreatePrivate (myUid targetUid : UInt32) (targetName : CString) : Request :=
  (.createConv, convTypePrivate :: (strncpy convNameLen targetName).toList ++
    List.replicate maxDescLen 0 ++ littleEndianBytes 2 ++ littleEndianBytes myUid ++
    littleEndianBytes targetUid ++ List.replicate (4 * (maxParticipants - 2)) 0)

/- What a peer may put into the same packet: any type, and any ten users or fewer. -/
def createConvRequest (type : UInt8) (uids : List UInt32) : Request :=
  (.createConv, type :: List.replicate (convNameLen + maxDescLen) 0 ++
    littleEndianBytes (UInt32.ofNat uids.length) ++ uids.flatMap littleEndianBytes ++
    List.replicate (4 * (maxParticipants - uids.length)) 0)

def serviceReqConversations : Request := (.reqConversations, [])

def serviceDeleteGroup (convId : UInt32) : Request := (.deleteGroup, littleEndianBytes convId)

def serviceReqMembers (convId : UInt32) : Request := (.reqMembers, littleEndianBytes convId)

def serviceKickMember (convId targetUid : UInt32) : Request :=
  (.kickMember, littleEndianBytes convId ++ littleEndianBytes targetUid)

/- No service sends this one; the server handles it all the same. -/
def addMemberRequest (convId : UInt32) (friendCode : CString) : Request :=
  (.addMember, littleEndianBytes convId ++ (strncpy friendCodeLen friendCode).toList)

/-! Recorded sessions.

The foreign calls with the answers they give on the inputs of the sessions below: one
password under one salt, SHA-256 of one passphrase, AES-256-CBC of two texts under one
key and IV, and the time zone UTC. -/

def Request.event (r : Request) (fd : Int) (env : Env) : Event := .packet fd r.1.code r.2 env

def recordedHash : CString :=
  CString.lit "$6$rounds=5000$aaaaaaaaaaaaaaaa$" ++ CString.lit "xtWhxnZ6O3zSAnP68M4HhA9LYPGotC2Y" ++
    CString.lit "pQegySoUaoX43Vdah2k.IX844kY5BB3r" ++ CString.lit "cnTi6kxeXuQrFtnBe9wRL1"

def recordedKey : Key :=
  ⟨[43, 184, 13, 83, 123, 29, 163, 227, 139, 211, 3, 97, 170, 133, 86, 134,
    189, 224, 234, 205, 113, 98, 254, 246, 162, 95, 233, 123, 245, 39, 162, 91], rfl⟩

def recordedIv : Iv := ⟨[0, 1, 2, 3, 4, 5, 6, 7, 8, 9, 10, 11, 12, 13, 14, 15], rfl⟩

/- Plaintext and ciphertext; a single block leaves `Update` empty-handed. -/
def recordedTexts : List (List UInt8 × List UInt8) :=
  [((CString.lit "hi").bytes,
      [19, 8, 184, 174, 158, 38, 53, 72, 164, 141, 71, 44, 211, 116, 161, 203]),
    ((CString.lit "yo").bytes,
      [43, 106, 138, 44, 84, 14, 51, 54, 230, 177, 10, 30, 218, 131, 122, 58])]

def recordedPlatform : Platform where
  crypt password salt :=
    if password = CString.lit "pw" ∧
        (salt = CString.lit "$6$rounds=5000$aaaaaaaaaaaaaaaa" ∨ salt = recordedHash)
    then some recordedHash else none
  sha256 _ := recordedKey
  encryptUpdate _ _ _ := some []
  encryptFinal _ _ text := (recordedTexts.find? fun r => r.1 = text).map Prod.snd
  decryptUpdate _ _ _ := some []
  decryptFinal _ _ block := (recordedTexts.find? fun r => r.2 = block).map Prod.fst
  localtime t := (⟨(t / 3600 % 24).toNat, by omega⟩, ⟨(t / 60 % 60).toNat, by omega⟩)

/- The environment of the packet handled at time `n`; the friend code ends in `n`. -/
def recordedEnv (n : Nat) : Env where
  now := n
  code := ⟨[0, 0, 0, 0, 0, Fin.ofNat 16 n], rfl⟩
  salt := List.Vector.replicate 16 0
  randBytes := some recordedIv
  junk _ := 0
  plan := .scan

def arrival (fd : Int) (n : Nat) (email username : CString) : List Event :=
  [.connect fd,
    (serviceRegister email username (CString.lit "pw")).event fd (recordedEnv n),
    (serviceLogin email (CString.lit "pw")).event fd (recordedEnv n)]

def aliceArrives : List Event := arrival 7 1 (CString.lit "a@x") (CString.lit "alice")
def bobArrives : List Event := arrival 8 2 (CString.lit "b@x") (CString.lit "bob")

abbrev recordedServer := server recordedPlatform recordedKey

end MoT
