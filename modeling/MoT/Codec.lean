import MoT.History
import MoT.Lib.Text

/-! The buffers of the encryption of stored texts. `Crypto` says what string comes out; here
every write into a block is checked, and every `int` that a length is kept in. -/
namespace MoT
open CMemory Relational

inductive Misstep where
  | range
  | outside
  | unread
deriving DecidableEq

def asInt (n : Nat) : Except Misstep Nat := if n < 2 ^ 31 then .ok n else .error .range

def malloc (n : Nat) : List Cell := List.replicate n none

def write (block : List Cell) (offset : Nat) (bs : List UInt8) : Except Misstep (List Cell) :=
  match store block offset bs with
  | none => .error .outside
  | some block => .ok block

def readCells (block : List Cell) (n : Nat) : Except Misstep (List UInt8) :=
  match (block.take n).mapM id with
  | none => .error .unread
  | some bs => if bs.length = n then .ok bs else .error .outside

/- `sprintf` puts a NUL behind every two digits, and the next digits go over it. -/
def bytesToHexInto : List UInt8 → Nat → List Cell → Except Misstep (List Cell)
  | [], offset, hexOut => write hexOut offset [0]
  | b :: bytes, offset, hexOut => do
    let hexOut ← write hexOut offset [hexDigit (b.toNat / 16), hexDigit (b.toNat % 16), 0]
    bytesToHexInto bytes (offset + 2) hexOut

def scanInto (hex : CString) (bytes : List Cell) (i : Nat) : Except Misstep (List Cell) :=
  match scanHex (hex.bytes.drop (2 * i)) with
  | none => .ok bytes
  | some b => write bytes i [b]

def hexToBytesInto (hex : CString) (bytes : List Cell) : Except Misstep (List Cell) :=
  (List.range (hex.length / 2)).foldlM (scanInto hex) bytes

def cryptoEncryptInto (P : Platform) (key : Option Key) (randBytes : Option Iv)
    (plaintext : CString) : Except Misstep (Option (List Cell)) := do
  let some k := key | return none
  let len ← asInt plaintext.length
  let some iv := randBytes | return none
  let room ← asInt (len + 32)
  let some body := P.encryptUpdate k iv plaintext.bytes | return none
  let ciphertext ← write (malloc room) 0 body
  let some last := P.encryptFinal k iv plaintext.bytes | return none
  let ciphertext ← write ciphertext body.length last
  let totalLen ← asInt (body.length + last.length)
  let size ← asInt (32 + totalLen * 2 + 1)
  let bytes ← readCells ciphertext totalLen
  let hexOut ← bytesToHexInto iv.toList 0 (malloc size)
  let hexOut ← bytesToHexInto bytes 32 hexOut
  return some hexOut

def cryptoDecryptInto (P : Platform) (key : Option Key) (junk : Nat → UInt8) (hexIn : CString) :
    Except Misstep (Option (List Cell)) := do
  let some k := key | return none
  if hexIn.length < 32 then return none
  let ivHex ← write (malloc 33) 0 (strncpy 32 hexIn).toList
  let ivHex ← write ivHex 32 [0]
  let some ivText := CMemory.readString ivHex | throw .unread
  let ivCells ← hexToBytesInto (CString.cut ivText) (malloc 16)
  let cipherLen ← asInt ((hexIn.length - 32) / 2)
  let cells ← hexToBytesInto (hexIn.advance 32) (malloc cipherLen)
  let room ← asInt (cipherLen + 32)
  let iv : Iv := List.Vector.ofFn fun i => (ivCells[i.val]?.join).getD (junk i.val)
  let ciphertext := settle junk cells
  let some body := P.decryptUpdate k iv ciphertext | return none
  let plaintext ← write (malloc room) 0 body
  let some last := P.decryptFinal k iv ciphertext | return some ((unreadable.bytes ++ [0]).map some)
  let plaintext ← write plaintext body.length last
  let end' ← asInt (body.length + last.length)
  let plaintext ← write plaintext end' [0]
  return some plaintext

theorem write_append (front slack : List Cell) (bs : List UInt8) (fits : bs.length ≤ slack.length) :
    write (front ++ slack) front.length bs =
      .ok (front ++ bs.map some ++ slack.drop bs.length) := by
  rw [write, store_append front slack bs fits]

theorem malloc_drop (n k : Nat) : (malloc n).drop k = malloc (n - k) := List.drop_replicate

theorem write_behind (front bs : List UInt8) {n : Nat} (fits : bs.length ≤ n) :
    write (front.map some ++ malloc n) front.length bs =
      .ok ((front ++ bs).map some ++ malloc (n - bs.length)) := by
  have room : bs.length ≤ (malloc n).length := by
    rw [malloc, List.length_replicate]
    exact fits
  have done := write_append (front.map some) (malloc n) bs room
  rw [List.length_map, malloc_drop, ← List.map_append] at done
  exact done

theorem write_malloc (bs : List UInt8) {n : Nat} (fits : bs.length ≤ n) :
    write (malloc n) 0 bs = .ok (bs.map some ++ malloc (n - bs.length)) :=
  write_behind [] bs fits

theorem bytesToHexInto_eq (bytes : List UInt8) (front slack : List Cell)
    (fits : 2 * bytes.length + 1 ≤ slack.length) :
    bytesToHexInto bytes front.length (front ++ slack) = .ok (front ++
      (bytesToHex bytes).map some ++ some 0 :: slack.drop (2 * bytes.length + 1)) := by
  induction bytes generalizing front slack with
  | nil =>
    rw [bytesToHexInto, write_append front slack [0] fits]
    simp [bytesToHex]
  | cons b bytes ih =>
    rw [List.length_cons] at fits
    have two := write_append front slack
      [hexDigit (b.toNat / 16), hexDigit (b.toNat % 16), 0] (by simp; omega)
    have later := ih (front ++ [some (hexDigit (b.toNat / 16)), some (hexDigit (b.toNat % 16))])
      (some 0 :: slack.drop 3) (by simp; omega)
    rw [bytesToHexInto, two]
    simp only [List.length_append, List.length_cons, List.length_nil, List.append_assoc,
      List.cons_append, List.nil_append, List.map_cons, List.map_nil] at later ⊢
    refine later.trans ?_
    have behind : 3 + 2 * bytes.length = 2 * (bytes.length + 1) + 1 := by omega
    simp [bytesToHex, behind]

/- Where nothing is scanned the cell stays as unwritten as `malloc` left it. -/
theorem hexToBytesInto_malloc (hex : CString) {n : Nat} (fits : hex.length / 2 ≤ n) :
    hexToBytesInto hex (malloc n) =
      .ok (hexToBytes hex.bytes ++ malloc (n - hex.length / 2)) := by
  have steps : ∀ m ≤ n, (List.range m).foldlM (scanInto hex) (malloc n) =
      .ok ((List.range m).map (fun i => scanHex (hex.bytes.drop (2 * i))) ++ malloc (n - m)) := by
    intro m inside
    induction m with
    | zero => rfl
    | succ m ih =>
      have front : ((List.range m).map fun i => scanHex (hex.bytes.drop (2 * i))).length = m := by
        simp
      have fresh : malloc (n - m) = none :: malloc (n - (m + 1)) := by
        rw [malloc, malloc, ← List.replicate_succ]
        congr 1
        omega
      rw [List.range_succ, List.foldlM_append, ih (by omega), List.map_append, fresh]
      cases scanned : scanHex (hex.bytes.drop (2 * m)) with
      | none => simp [scanInto, scanned, pure, Except.pure, bind, Except.bind]
      | some b =>
        have stored := write_append ((List.range m).map fun i => scanHex (hex.bytes.drop (2 * i)))
          (none :: malloc (n - (m + 1))) [b] (by simp)
        rw [front] at stored
        simp [scanInto, scanned, stored, pure, Except.pure, bind, Except.bind]
  exact steps _ fits

theorem hexToBytesInto_bytesToHex {hex : CString} {bytes : List UInt8}
    (digits : hex.bytes = bytesToHex bytes) :
    hexToBytesInto hex (malloc bytes.length) = .ok (bytes.map some) := by
  have half : hex.length / 2 = bytes.length := by
    rw [CString.length, digits, bytesToHex_length]
    omega
  rw [hexToBytesInto_malloc hex (Nat.le_of_eq half), half, Nat.sub_self, digits,
    hexToBytes_bytesToHex]
  exact congrArg Except.ok (List.append_nil _)

theorem readCells_written (bs : List UInt8) (slack : List Cell) :
    readCells (bs.map some ++ slack) bs.length = .ok bs := by
  have cells : ∀ bs : List UInt8, (bs.map some).mapM id = some bs := by
    intro bs
    induction bs with
    | nil => rfl
    | cons b bs ih => simp [ih]
  rw [readCells, List.take_left' (List.length_map _), cells]
  exact if_pos rfl

theorem asInt_eq {n : Nat} (small : n < 2 ^ 31) : asInt n = .ok n := if_pos small

theorem cryptoEncryptInto_eq {P : Platform} {k : Key} {iv : Iv} {p : CString}
    {body last : List UInt8} (update : P.encryptUpdate k iv p.bytes = some body)
    (final : P.encryptFinal k iv p.bytes = some last)
    (room : body.length + last.length ≤ p.length + 32) (small : p.length < 2 ^ 29) :
    cryptoEncryptInto P (some k) (some iv) p =
      .ok (some ((bytesToHex iv.toList ++ bytesToHex (body ++ last)).map some ++ [some 0])) := by
  set n := body.length + last.length with total
  have ivLength : iv.toList.length = 16 := List.Vector.toList_length iv
  have joined : (body ++ last).length = n := List.length_append
  have start := write_malloc body (n := p.length + 32) (by omega)
  have both := write_behind body last (n := p.length + 32 - body.length) (by omega)
  have read := readCells_written (body ++ last) (malloc (p.length + 32 - body.length - last.length))
  have first : bytesToHexInto iv.toList 0 (malloc (32 + n * 2 + 1)) =
      .ok ((bytesToHex iv.toList).map some ++ some 0 :: malloc (n * 2)) := by
    have done := bytesToHexInto_eq iv.toList [] (malloc (32 + n * 2 + 1))
      (by rw [malloc, List.length_replicate]; omega)
    have rest : 32 + n * 2 + 1 - (2 * iv.toList.length + 1) = n * 2 := by omega
    rw [malloc_drop, rest] at done
    exact done
  have second : bytesToHexInto (body ++ last) 32
      ((bytesToHex iv.toList).map some ++ some 0 :: malloc (n * 2)) =
        .ok ((bytesToHex iv.toList ++ bytesToHex (body ++ last)).map some ++ [some 0]) := by
    have done := bytesToHexInto_eq (body ++ last) ((bytesToHex iv.toList).map some)
      (some 0 :: malloc (n * 2)) (by rw [List.length_cons, malloc, List.length_replicate]; omega)
    have rest : n * 2 - 2 * (body ++ last).length = 0 := by omega
    rw [List.length_map, bytesToHex_length, ivLength, List.drop_succ_cons, malloc_drop, rest,
      ← List.map_append] at done
    exact done
  rw [joined] at read
  simp only [cryptoEncryptInto, asInt_eq (show p.length < 2 ^ 31 by omega),
    asInt_eq (show p.length + 32 < 2 ^ 31 by omega), update, final, start, both, ← total,
    asInt_eq (show n < 2 ^ 31 by omega), asInt_eq (show 32 + n * 2 + 1 < 2 ^ 31 by omega), read,
    first, second, bind, Except.bind, pure, Except.pure]

theorem settle_written (junk : Nat → UInt8) (bs : List UInt8) : settle junk (bs.map some) = bs := by
  apply List.ext_getElem
  · simp [settle]
  · simp [settle]

theorem iv_written (iv : Iv) (junk : Nat → UInt8) :
    (List.Vector.ofFn fun i : Fin 16 =>
      ((iv.toList.map some)[i.val]?.join).getD (junk i.val)) = iv := by
  apply List.Vector.ext
  intro i
  have inside : i.val < iv.toList.length := by
    rw [List.Vector.toList_length]
    exact i.isLt
  rw [List.Vector.get_ofFn, List.getElem?_map, List.getElem?_eq_getElem inside]
  rfl

theorem cryptoDecryptInto_eq {P : Platform} {k : Key} {iv : Iv} {hex : CString}
    {ciphertext body last : List UInt8} (junk : Nat → UInt8)
    (encoded : hex.bytes = bytesToHex iv.toList ++ bytesToHex ciphertext)
    (update : P.decryptUpdate k iv ciphertext = some body)
    (final : P.decryptFinal k iv ciphertext = some last)
    (room : body.length + last.length < ciphertext.length + 32)
    (small : ciphertext.length + 32 < 2 ^ 31) :
    ∃ slack, cryptoDecryptInto P (some k) junk hex =
      .ok (some ((body ++ last ++ [0]).map some ++ malloc slack)) := by
  have ivLength : iv.toList.length = 16 := List.Vector.toList_length iv
  have ivHex : (bytesToHex iv.toList).length = 32 := by rw [bytesToHex_length, ivLength]
  have length : hex.length = 32 + 2 * ciphertext.length := by
    rw [CString.length, encoded, List.length_append, ivHex, bytesToHex_length]
  have long : ¬ hex.length < 32 := by omega
  have half : (hex.length - 32) / 2 = ciphertext.length := by omega
  have copied : (strncpy 32 hex).toList = bytesToHex iv.toList := by
    have gap : 32 - hex.bytes.length = 0 := by
      rw [CString.length] at length
      omega
    rw [strncpy_toList, gap, encoded, List.take_left' ivHex, List.replicate_zero, List.append_nil]
  have front : write (malloc 33) 0 (bytesToHex iv.toList) =
      .ok ((bytesToHex iv.toList).map some ++ malloc 1) := by
    have done := write_malloc (bytesToHex iv.toList) (n := 33) (by omega)
    rw [ivHex] at done
    exact done
  have closed : write ((bytesToHex iv.toList).map some ++ malloc 1) 32 [0] =
      .ok ((bytesToHex iv.toList ++ [0]).map some ++ malloc 0) := by
    have done := write_behind (bytesToHex iv.toList) [0] (n := 1) (by decide)
    rw [ivHex] at done
    exact done
  have read : CMemory.readString ((bytesToHex iv.toList ++ [0]).map some ++ malloc 0) =
      some (bytesToHex iv.toList) := by
    have text := readString_terminated ⟨bytesToHex iv.toList, nul_bytesToHex _⟩ (malloc 0)
    simpa using text
  have ivRead : hexToBytesInto (CString.cut (bytesToHex iv.toList)) (malloc 16) =
      .ok (iv.toList.map some) := by
    have digits : (CString.cut (bytesToHex iv.toList)).bytes = bytesToHex iv.toList :=
      congrArg CString.bytes (CString.cut_bytes ⟨_, nul_bytesToHex iv.toList⟩)
    have done := hexToBytesInto_bytesToHex digits
    rw [ivLength] at done
    exact done
  have cipherRead : hexToBytesInto (hex.advance 32) (malloc ciphertext.length) =
      .ok (ciphertext.map some) := by
    apply hexToBytesInto_bytesToHex
    rw [CString.advance_bytes, encoded, List.drop_left' ivHex]
  have start := write_malloc body (n := ciphertext.length + 32) (by omega)
  have both := write_behind body last (n := ciphertext.length + 32 - body.length) (by omega)
  have ended := write_behind (body ++ last) [0]
    (n := ciphertext.length + 32 - body.length - last.length) (by simp; omega)
  rw [List.length_append] at ended
  refine ⟨ciphertext.length + 32 - body.length - last.length - [(0 : UInt8)].length, ?_⟩
  simp only [cryptoDecryptInto, if_neg long, copied, front, closed, read, half,
    asInt_eq (show ciphertext.length < 2 ^ 31 by omega), asInt_eq small,
    asInt_eq (show body.length + last.length < 2 ^ 31 by omega), iv_written, cipherRead, ivRead,
    settle_written, update, final, start, both, ended, bind, Except.bind, pure, Except.pure]

theorem cryptoDecrypt_eq {P : Platform} {k : Key} {iv : Iv} {hex : CString}
    {ciphertext body last : List UInt8} (junk : Nat → UInt8)
    (encoded : hex.bytes = bytesToHex iv.toList ++ bytesToHex ciphertext)
    (update : P.decryptUpdate k iv ciphertext = some body)
    (final : P.decryptFinal k iv ciphertext = some last) :
    cryptoDecrypt P (some k) junk hex = some (CString.cut (body ++ last)) := by
  have ivHex : (bytesToHex iv.toList).length = 32 := by
    rw [bytesToHex_length, List.Vector.toList_length]
  have long : ¬ hex.length < 32 := by
    rw [CString.length, encoded, List.length_append, ivHex]
    omega
  simp only [cryptoDecrypt, Option.bind_eq_bind, Option.bind_some, if_neg long, encoded,
    List.take_left' ivHex, List.drop_left' ivHex, hexToBytes_bytesToHex, settle_written,
    iv_written, update, final]

/-- What OpenSSL documents of AES-256-CBC: a padded text has the next multiple of sixteen
bytes, and comes back under the same key and IV. -/
structure PaddedCbc (P : Platform) : Prop where
  inverse : ∀ k iv p, p.length < 2 ^ 31 → ∃ body last, P.encryptUpdate k iv p = some body ∧
    P.encryptFinal k iv p = some last ∧ (body ++ last).length = 16 * (p.length / 16 + 1) ∧
    ∃ front back, P.decryptUpdate k iv (body ++ last) = some front ∧
      P.decryptFinal k iv (body ++ last) = some back ∧ front ++ back = p

theorem nul_encoded (iv : Iv) (ciphertext : List UInt8) :
    0 ∉ bytesToHex iv.toList ++ bytesToHex ciphertext := by
  rw [List.mem_append, not_or]
  exact ⟨nul_bytesToHex _, nul_bytesToHex _⟩

/-- The cipher works on whole blocks, and a decryption of whole blocks fails at the padding or
not at all. -/
structure WholeBlocks (P : Platform) : Prop where
  encrypts : ∀ k iv p body last, P.encryptUpdate k iv p = some body →
    P.encryptFinal k iv p = some last → 16 ∣ (body ++ last).length ∧ body ++ last ≠ []
  decrypts : ∀ k iv ciphertext, 16 ∣ ciphertext.length → (P.decryptUpdate k iv ciphertext).isSome

/-! A cipher that pads as OpenSSL does, and gives the block that AES gives on one text. -/

def pad (p : List UInt8) : List UInt8 :=
  p ++ List.replicate (16 - p.length % 16) (UInt8.ofNat (16 - p.length % 16))

def unpad (c : List UInt8) : Option (List UInt8) :=
  c.getLast?.bind fun n =>
    if 0 < n ∧ n ≤ 16 ∧ c.drop (c.length - n.toNat) = List.replicate n.toNat n
    then some (c.take (c.length - n.toNat)) else none

theorem pad_length (p : List UInt8) : (pad p).length = 16 * (p.length / 16 + 1) := by
  rw [pad, List.length_append, List.length_replicate]
  omega

theorem unpad_pad (p : List UInt8) : unpad (pad p) = some p := by
  obtain ⟨n, slack, low, high⟩ : ∃ n, 16 - p.length % 16 = n + 1 ∧ n + 1 ≤ 16 ∧ 0 < n + 1 :=
    ⟨15 - p.length % 16, by omega, by omega, by omega⟩
  have value : (UInt8.ofNat (n + 1)).toNat = n + 1 := by
    rw [UInt8.toNat_ofNat']
    omega
  have last : (pad p).getLast? = some (UInt8.ofNat (n + 1)) := by
    rw [pad, slack, List.replicate_succ', ← List.append_assoc, List.getLast?_concat]
  have front : (pad p).length - (n + 1) = p.length := by
    rw [pad, slack, List.length_append, List.length_replicate]
    omega
  have shape : pad p = p ++ List.replicate (n + 1) (UInt8.ofNat (n + 1)) := by rw [pad, slack]
  rw [unpad, last, Option.bind_some, value, front, if_pos]
  · rw [shape, List.take_left]
  · refine ⟨?_, ?_, ?_⟩
    · rw [UInt8.lt_iff_toNat_lt, value]
      exact high
    · rw [UInt8.le_iff_toNat_le, value]
      exact low
    · rw [shape, List.drop_left]

def recordedBlocks : List UInt8 × List UInt8 :=
  (pad (CString.lit "hi").bytes,
    [19, 8, 184, 174, 158, 38, 53, 72, 164, 141, 71, 44, 211, 116, 161, 203])

def exchange (c : List UInt8) : List UInt8 :=
  if c = recordedBlocks.1 then recordedBlocks.2
  else if c = recordedBlocks.2 then recordedBlocks.1 else c

theorem exchange_exchange (c : List UInt8) : exchange (exchange c) = c := by
  have apart : recordedBlocks.2 ≠ recordedBlocks.1 := by decide
  by_cases plain : c = recordedBlocks.1
  · simp [exchange, plain, apart]
  · by_cases encrypted : c = recordedBlocks.2
    · simp [exchange, encrypted, apart]
    · simp [exchange, plain, encrypted]

theorem exchange_length (c : List UInt8) : (exchange c).length = c.length := by
  have sizes : recordedBlocks.1.length = 16 ∧ recordedBlocks.2.length = 16 := by decide
  by_cases plain : c = recordedBlocks.1
  · rw [exchange, if_pos plain, plain, sizes.1, sizes.2]
  · by_cases encrypted : c = recordedBlocks.2
    · rw [exchange, if_neg plain, if_pos encrypted, encrypted, sizes.1, sizes.2]
    · rw [exchange, if_neg plain, if_neg encrypted]

def paddedPlatform : Platform where
  crypt := recordedPlatform.crypt
  sha256 := recordedPlatform.sha256
  encryptUpdate _ _ _ := some []
  encryptFinal _ _ p := some (exchange (pad p))
  decryptUpdate _ _ _ := some []
  decryptFinal _ _ c := if c.length % 16 = 0 then unpad (exchange c) else none
  localtime := recordedPlatform.localtime

theorem paddedPlatform_cbc : PaddedCbc paddedPlatform := by
  constructor
  intro k iv p _
  have length := (exchange_length (pad p)).trans (pad_length p)
  have whole : (exchange (pad p)).length % 16 = 0 := by omega
  refine ⟨[], exchange (pad p), rfl, rfl, length, [], p, rfl, ?_, rfl⟩
  exact (if_pos whole).trans (by rw [List.nil_append, exchange_exchange, unpad_pad])

/- The functions with their buffers and the ones without do the same. -/
theorem codec_agrees {P : Platform} (cbc : PaddedCbc P) (k : Key) (iv : Iv) (junk : Nat → UInt8)
    {p : CString} (small : p.length < 2 ^ 29) :
    ∃ body last hexOut hex plaintext,
      P.encryptUpdate k iv p.bytes = some body ∧ P.encryptFinal k iv p.bytes = some last ∧
      hex.bytes = bytesToHex iv.toList ++ bytesToHex (body ++ last) ∧
      (cryptoEncryptInto P (some k) (some iv) p = .ok (some hexOut) ∧
        CMemory.readString hexOut = some hex.bytes ∧
        cryptoEncrypt P (some k) (some iv) p = some hex) ∧
      cryptoDecryptInto P (some k) junk hex = .ok (some plaintext) ∧
        CMemory.readString plaintext = some p.bytes ∧ cryptoDecrypt P (some k) junk hex = some p := by
  rw [CString.length] at small
  obtain ⟨body, last, update, final, size, front, back, decrypted, ended, same⟩ :=
    cbc.inverse k iv p.bytes (by omega)
  have bytes := nul_encoded iv (body ++ last)
  have lengths := congrArg List.length same
  rw [List.length_append] at size lengths
  have encoded : CString.bytes ⟨bytesToHex iv.toList ++ bytesToHex (body ++ last), bytes⟩ =
      bytesToHex iv.toList ++ bytesToHex (body ++ last) := rfl
  obtain ⟨slack, decoded⟩ := cryptoDecryptInto_eq junk encoded decrypted ended
    (by rw [List.length_append]; omega) (by rw [List.length_append]; omega)
  have direct := cryptoDecrypt_eq junk encoded decrypted ended
  rw [same] at decoded direct
  refine ⟨body, last, _, ⟨_, bytes⟩, _, update, final, rfl,
    ⟨cryptoEncryptInto_eq update final ?_ small, ?_, ?_⟩, decoded, ?_, ?_⟩
  · rw [CString.length]
    omega
  · exact readString_terminated ⟨_, bytes⟩ []
  · simp only [cryptoEncrypt, Option.bind_eq_bind, Option.bind_some, update, final]
    exact congrArg some (CString.cut_bytes ⟨_, bytes⟩)
  · have read := readString_terminated p (malloc slack)
    simpa using read
  · rw [direct, CString.cut_bytes]

theorem crypto_round_trip (P : Platform) (cbc : PaddedCbc P) (keyStr : CString)
    (given : keyStr.length ≠ 0) (iv : Iv) (junk : Nat → UInt8) (p : CString)
    (small : p.length < 2 ^ 29) :
    ∃ hexOut hex plaintext,
      cryptoEncryptInto P (cryptoInit P keyStr) (some iv) p = .ok (some hexOut) ∧
      CMemory.readString hexOut = some hex.bytes ∧
      cryptoDecryptInto P (cryptoInit P keyStr) junk hex = .ok (some plaintext) ∧
      CMemory.readString plaintext = some p.bytes ∧
      (∃ body last, P.encryptUpdate (P.sha256 keyStr) iv p.bytes = some body ∧
        P.encryptFinal (P.sha256 keyStr) iv p.bytes = some last ∧
        hex.length = 32 + 2 * (body ++ last).length) ∧
      (∀ c ∈ hex.bytes, isLowerHex c = true) ∧
      hexToBytes (hex.bytes.take 32) = iv.toList.map some := by
  have key : cryptoInit P keyStr = some (P.sha256 keyStr) := if_neg given
  have ivHex : (bytesToHex iv.toList).length = 32 := by
    rw [bytesToHex_length, List.Vector.toList_length]
  obtain ⟨body, last, hexOut, hex, plaintext, update, final, encoded, ⟨encrypted, text, -⟩,
    decrypted, back, -⟩ := codec_agrees cbc (P.sha256 keyStr) iv junk small
  rw [key]
  refine ⟨hexOut, hex, plaintext, encrypted, text, decrypted, back,
    ⟨body, last, update, final, ?_⟩, ?_, ?_⟩
  · rw [CString.length, encoded, List.length_append, ivHex, bytesToHex_length]
  · intro c member
    rw [encoded] at member
    exact (List.mem_append.mp member).elim isLowerHex_bytesToHex isLowerHex_bytesToHex
  · rw [encoded, List.take_left' ivHex, hexToBytes_bytesToHex]

theorem crypto_round_trip_hi :
    ∃ hexOut hex plaintext,
      cryptoEncryptInto paddedPlatform (cryptoInit paddedPlatform (CString.lit "secret"))
        (some recordedIv) (CString.lit "hi") = .ok (some hexOut) ∧
      CMemory.readString hexOut = some hex.bytes ∧
      cryptoDecryptInto paddedPlatform (cryptoInit paddedPlatform (CString.lit "secret"))
        (fun _ => 0) hex = .ok (some plaintext) ∧
      CMemory.readString plaintext = some (CString.lit "hi").bytes := by
  obtain ⟨hexOut, hex, plaintext, encrypted, text, decrypted, back, -⟩ :=
    crypto_round_trip paddedPlatform paddedPlatform_cbc (CString.lit "secret") (by decide)
      recordedIv (fun _ => 0) (CString.lit "hi") (by decide)
  exact ⟨hexOut, hex, plaintext, encrypted, text, decrypted, back⟩

/-- A row that `storage_log_message` added to the table, in a run of the server with some key. -/
def Logged (P : Platform) (m : Entry MessageRow) : Prop :=
  ∃ keyStr randBytes now db convId sender text, m ∉ db.messages.entries ∧
    m ∈ (storageLogMessage P (cryptoInit P keyStr) randBytes now db convId sender
      text).messages.entries

theorem cryptoEncrypt_encoded {P : Platform} (blocks : WholeBlocks P) {key : Option Key}
    {randBytes : Option Iv} {text hex : CString} (made : cryptoEncrypt P key randBytes text = some hex) :
    ∃ (iv : Iv) (ciphertext : List UInt8), 16 ∣ ciphertext.length ∧ ciphertext ≠ [] ∧
      hex.bytes = bytesToHex iv.toList ++ bytesToHex ciphertext := by
  simp only [cryptoEncrypt, Option.bind_eq_bind, Option.bind_eq_some_iff] at made
  obtain ⟨k, -, iv, -, body, update, last, final, made⟩ := made
  obtain ⟨whole, nonempty⟩ := blocks.encrypts k iv text.bytes body last update final
  refine ⟨iv, body ++ last, whole, nonempty, ?_⟩
  rw [← Option.some.inj made]
  exact congrArg CString.bytes (CString.cut_bytes ⟨_, nul_encoded iv (body ++ last)⟩)

theorem Logged.text {P : Platform} (blocks : WholeBlocks P) {m : Entry MessageRow}
    (logged : Logged P m) : ∃ (iv : Iv) (ciphertext : List UInt8),
      16 ∣ ciphertext.length ∧ ciphertext ≠ [] ∧
      m.row.text.bytes = bytesToHex iv.toList ++ bytesToHex ciphertext := by
  obtain ⟨keyStr, randBytes, now, db, convId, sender, text, fresh, member⟩ := logged
  rw [storageLogMessage_entries, List.mem_append, or_iff_right fresh] at member
  obtain ⟨encrypted, made, rfl⟩ := Option.map_eq_some_iff.mp (Option.mem_toList.mp member)
  exact cryptoEncrypt_encoded blocks made

end MoT
