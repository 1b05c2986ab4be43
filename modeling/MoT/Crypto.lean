import MoT.Lib.CMemory

/-! Encryption of stored texts. OpenSSL, libcrypt and the time zone stay parameters. -/
namespace MoT
open CMemory

abbrev Key := List.Vector UInt8 32
abbrev Iv := List.Vector UInt8 16

/-- The foreign calls. A cipher call that does not return 1 is `none`; the `Update`
and `Final` functions give the bytes that call writes. -/
structure Platform where
  crypt : CString → CString → Option CString
  sha256 : CString → Key
  encryptUpdate : Key → Iv → List UInt8 → Option (List UInt8)
  encryptFinal : Key → Iv → List UInt8 → Option (List UInt8)
  decryptUpdate : Key → Iv → List UInt8 → Option (List UInt8)
  decryptFinal : Key → Iv → List UInt8 → Option (List UInt8)
  localtime : Int → Fin 24 × Fin 60

def cryptoInit (P : Platform) (keyStr : CString) : Option Key :=
  if keyStr.length = 0 then none else some (P.sha256 keyStr)

def hexDigit (n : Nat) : UInt8 := if n < 10 then UInt8.ofNat (48 + n) else UInt8.ofNat (87 + n)

def bytesToHex (bytes : List UInt8) : List UInt8 :=
  bytes.flatMap fun b => [hexDigit (b.toNat / 16), hexDigit (b.toNat % 16)]

def isSpace (c : UInt8) : Bool := c == 32 || (9 ≤ c && c ≤ 13)

def hexValue (c : UInt8) : Option UInt8 :=
  if 48 ≤ c ∧ c ≤ 57 then some (c - 48)
  else if 97 ≤ c ∧ c ≤ 102 then some (c - 87)
  else if 65 ≤ c ∧ c ≤ 70 then some (c - 55)
  else none

/- `sscanf` with %2hhx: white space is skipped, a sign counts towards the width, and a lone 0x is
taken for its zero, as glibc does. Nothing is assigned when there is no number. -/
def scanHex (text : List UInt8) : Cell :=
  match text.dropWhile isSpace with
  | [] => none
  | c :: rest =>
    if c = 43 then rest.head?.bind hexValue
    else if c = 45 then (rest.head?.bind hexValue).map fun v => 0 - v
    else (hexValue c).bind fun high =>
      match rest with
      | [] => some high
      | d :: _ =>
        match hexValue d with
        | some low => some (16 * high + low)
        | none => some high

def hexToBytes (hex : List UInt8) : List Cell :=
  (List.range (hex.length / 2)).map fun i => scanHex (hex.drop (2 * i))

/-- The bytes a reader of the block gets: what was written, else what lay there before. -/
def settle (junk : Nat → UInt8) (block : List Cell) : List UInt8 :=
  block.mapIdx fun i cell => cell.getD (junk i)

def cryptoEncrypt (P : Platform) (key : Option Key) (randBytes : Option Iv)
    (plaintext : CString) : Option CString := do
  let k ← key
  let iv ← randBytes
  let body ← P.encryptUpdate k iv plaintext.bytes
  let last ← P.encryptFinal k iv plaintext.bytes
  some (CString.cut (bytesToHex iv.toList ++ bytesToHex (body ++ last)))

def unreadable : CString := CString.lit "[Unreadable Encrypted Message]"

def cryptoDecrypt (P : Platform) (key : Option Key) (junk : Nat → UInt8) (hexIn : CString) :
    Option CString := do
  let k ← key
  if hexIn.length < 32 then none
  let ivCells := hexToBytes (hexIn.bytes.take 32)
  let iv : Iv := List.Vector.ofFn fun i => (ivCells[i.val]?.join).getD (junk i.val)
  let ciphertext := settle junk (hexToBytes (hexIn.bytes.drop 32))
  let body ← P.decryptUpdate k iv ciphertext
  match P.decryptFinal k iv ciphertext with
  | none => some unreadable
  | some last => some (CString.cut (body ++ last))

theorem hexDigit_scans : ∀ n < 16, isSpace (hexDigit n) = false ∧ hexDigit n ≠ 43 ∧
    hexDigit n ≠ 45 ∧ hexValue (hexDigit n) = some (UInt8.ofNat n) := by
  decide

def isLowerHex (c : UInt8) : Bool := (48 ≤ c && c ≤ 57) || (97 ≤ c && c ≤ 102)

theorem isLowerHex_hexDigit : ∀ n < 16, isLowerHex (hexDigit n) = true := by
  decide

theorem isLowerHex_bytesToHex {bytes : List UInt8} {c : UInt8} (member : c ∈ bytesToHex bytes) :
    isLowerHex c = true := by
  obtain ⟨b, -, digit⟩ := List.mem_flatMap.mp member
  have high : b.toNat / 16 < 16 := by
    have bound := b.toNat_lt
    omega
  have low : b.toNat % 16 < 16 := Nat.mod_lt _ (by decide)
  rcases List.mem_cons.mp digit with rfl | second
  · exact isLowerHex_hexDigit _ high
  · rw [List.mem_singleton.mp second]
    exact isLowerHex_hexDigit _ low

theorem nul_bytesToHex (bytes : List UInt8) : 0 ∉ bytesToHex bytes := fun nul =>
  absurd (isLowerHex_bytesToHex nul) (by decide)

@[simp] theorem bytesToHex_length (bytes : List UInt8) :
    (bytesToHex bytes).length = 2 * bytes.length := by
  induction bytes with
  | nil => rfl
  | cons b bytes ih =>
    rw [bytesToHex, List.flatMap_cons, List.length_append, ← bytesToHex, ih, List.length_cons]
    simp
    omega

theorem scanHex_digits (b : UInt8) (rest : List UInt8) :
    scanHex (hexDigit (b.toNat / 16) :: hexDigit (b.toNat % 16) :: rest) = some b := by
  have bound := b.toNat_lt
  obtain ⟨space, plus, minus, high⟩ := hexDigit_scans (b.toNat / 16) (by omega)
  obtain ⟨-, -, -, low⟩ := hexDigit_scans (b.toNat % 16) (by omega)
  have start : (hexDigit (b.toNat / 16) :: hexDigit (b.toNat % 16) :: rest).dropWhile isSpace =
      hexDigit (b.toNat / 16) :: hexDigit (b.toNat % 16) :: rest :=
    List.dropWhile_cons_of_neg (by simp [space])
  have value : 16 * UInt8.ofNat (b.toNat / 16) + UInt8.ofNat (b.toNat % 16) = b := by
    apply UInt8.toNat_inj.mp
    simp
    omega
  rw [scanHex, start]
  simp [plus, minus, high, low, value]

theorem hexToBytes_bytesToHex (bytes : List UInt8) :
    hexToBytes (bytesToHex bytes) = bytes.map some := by
  rw [hexToBytes, bytesToHex_length, Nat.mul_div_cancel_left _ (by decide)]
  induction bytes with
  | nil => rfl
  | cons b bytes ih =>
    rw [List.length_cons, List.range_succ_eq_map, List.map_cons, List.map_map, List.map_cons, ← ih]
    congr 1
    exact scanHex_digits b _

end MoT
