import MoT.Config

/-! What a configuration file sets. The file is read through a buffer of 1024 bytes into an
`AppConfig` that nobody has cleared. -/
namespace MoT
open CMemory

variable {config : AppConfig} {f g : TextField} {val : CString} {file : List UInt8}

def AppConfig.front (config : AppConfig) (f : TextField) : List UInt8 :=
  (config.text f).toList.take (f.size - 1)

def AppConfig.last (config : AppConfig) (f : TextField) : List UInt8 :=
  (config.text f).toList.drop (f.size - 1)

def AppConfig.stored (config : AppConfig) (f : TextField) : CString := CString.cut (config.front f)

theorem front_append_last (config : AppConfig) (f : TextField) :
    config.front f ++ config.last f = (config.text f).toList :=
  List.take_append_drop _ _

theorem front_copyText (f : TextField) (val : CString) (config : AppConfig) :
    (copyText f val config).front f = (strncpy (f.size - 1) val).toList := by
  rw [AppConfig.front, copyText, AppConfig.text_setText, strncpyInto_front]

theorem text_copyText_other (other : g ≠ f) (val : CString) (config : AppConfig) :
    (copyText g val config).text f = config.text f :=
  AppConfig.text_setText_other config other _

theorem last_copyText (g f : TextField) (val : CString) (config : AppConfig) :
    (copyText g val config).last f = config.last f := by
  by_cases same : g = f
  · subst same
    rw [AppConfig.last, copyText, AppConfig.text_setText, strncpyInto_last, AppConfig.last]
  · rw [AppConfig.last, text_copyText_other same, AppConfig.last]

theorem text_clearText_other (other : g ≠ f) (config : AppConfig) :
    (clearText g config).text f = config.text f :=
  AppConfig.text_setText_other config other _

theorem size_pos (f : TextField) : 0 < f.size - 1 := by
  cases f <;> decide

theorem front_clearText (f : TextField) (config : AppConfig) :
    ∃ rest, (clearText f config).front f = 0 :: rest := by
  rw [AppConfig.front, clearText, AppConfig.text_setText]
  exact clearFirst_front (size_pos f) (Nat.sub_le _ _) _

theorem last_clearText (g f : TextField) (config : AppConfig) :
    (clearText g config).last f = config.last f := by
  by_cases same : g = f
  · subst same
    rw [AppConfig.last, clearText, AppConfig.text_setText, clearFirst_last (size_pos g),
      AppConfig.last]
  · rw [AppConfig.last, text_clearText_other same, AppConfig.last]

theorem front_copyText_other (other : g ≠ f) (val : CString) (config : AppConfig) :
    (copyText g val config).front f = config.front f := by
  rw [AppConfig.front, text_copyText_other other, AppConfig.front]

theorem front_clearText_other (other : g ≠ f) (config : AppConfig) :
    (clearText g config).front f = config.front f := by
  rw [AppConfig.front, text_clearText_other other, AppConfig.front]

def defaultText : TextField → CString
  | .serverHost => defaultHost
  | .caCertPath => CString.empty
  | .dbPath => defaultDbPath
  | .serverCertPath => CString.lit "server.crt"
  | .serverKeyPath => CString.lit "server.key"
  | .dbEncryptionKey => CString.empty

theorem default_short (f : TextField) : (defaultText f).length < f.size - 1 := by
  cases f <;> decide

/- After the defaults every string has its terminator, whatever was there before. -/
theorem front_applyDefaults (f : TextField) (config : AppConfig) :
    ∃ fill, (applyDefaults config).front f = (defaultText f).bytes ++ 0 :: fill := by
  have copied (val : CString) (config : AppConfig) (short : val.length < f.size - 1) :
      ∃ fill, (copyText f val config).front f = val.bytes ++ 0 :: fill := by
    rw [front_copyText]
    exact strncpy_short short
  have short := default_short f
  unfold applyDefaults
  cases f with
  | serverHost | dbPath | serverCertPath | serverKeyPath =>
    simp only [front_copyText_other, front_clearText_other, ne_eq, reduceCtorEq, not_false_eq_true]
    exact copied _ _ short
  | caCertPath | dbEncryptionKey =>
    simp only [front_copyText_other, front_clearText_other, ne_eq, reduceCtorEq, not_false_eq_true]
    exact front_clearText _ _

theorem last_applyDefaults (f : TextField) (config : AppConfig) :
    (applyDefaults config).last f = config.last f := by
  simp only [applyDefaults, last_copyText, last_clearText]
  cases f <;> rfl

theorem front_configLoad (file : List UInt8) (f : TextField) (config : AppConfig) :
    (configLoad (some file) config).1.front f =
      ((lastSet (.text f) (settings file)).map fun v => (strncpy (f.size - 1) v).toList).getD
        ((applyDefaults config).front f) := by
  refine foldl_lastSet assign (fun c => c.front f) _ ?_ ?_ (settings file) (applyDefaults config)
  · rintro c ⟨k, v⟩ other
    cases k with
    | port => rfl
    | text g => exact front_copyText_other (fun same => other (congrArg Setting.text same)) v c
  · exact fun c v => front_copyText f v c

theorem last_configLoad (file : List UInt8) (f : TextField) (config : AppConfig) :
    (configLoad (some file) config).1.last f = config.last f := by
  have kept : ∀ (ss : List (Setting × CString)) (c : AppConfig),
      (ss.foldl assign c).last f = c.last f := by
    intro ss
    induction ss with
    | nil => exact fun c => rfl
    | cons a ss ih =>
      intro c
      rw [List.foldl_cons, ih]
      obtain ⟨k, v⟩ := a
      cases k with
      | port => rfl
      | text g => exact last_copyText g f v c
  exact (kept _ _).trans (last_applyDefaults f config)

theorem port_configLoad (file : List UInt8) (config : AppConfig) :
    (configLoad (some file) config).1.port =
      ((lastSet .port (settings file)).map atoi).getD defaultPort := by
  refine foldl_lastSet assign AppConfig.port atoi ?_ ?_ (settings file) (applyDefaults config)
  · rintro c ⟨k, v⟩ other
    cases k with
    | port => exact absurd rfl other
    | text g => exact AppConfig.setText_port _ _ _
  · exact fun c v => rfl

theorem stored_configLoad (file : List UInt8) (f : TextField) (config : AppConfig) :
    (configLoad (some file) config).1.stored f =
      ((lastSet (.text f) (settings file)).getD (defaultText f)).truncate (f.size - 1) := by
  rw [AppConfig.stored, front_configLoad]
  cases lastSet (.text f) (settings file) with
  | some v => exact fieldString_strncpy _ _
  | none =>
    obtain ⟨fill, front⟩ := front_applyDefaults f config
    have short := default_short f
    rw [Option.map_none, Option.getD_none, Option.getD_none, front, CString.cut_append_nul]
    exact CString.ext (List.take_of_length_le (Nat.le_of_lt short)).symm

theorem drop_offset (config : AppConfig) (f : TextField) :
    ∃ later, config.arrays.drop (AppConfig.offset f) = (config.text f).toList ++ later := by
  have past {n : Nat} (array : List.Vector UInt8 n) (rest : List UInt8) (k : Nat) :
      (array.toList ++ rest).drop (n + k) = rest.drop k := by
    rw [← List.drop_drop, List.drop_left' (List.Vector.toList_length _)]
  have host := past config.serverHost
  have ca := past config.caCertPath
  have db := past config.dbPath
  have cert := past config.serverCertPath
  have key := past config.serverKeyPath
  cases f with
  | serverHost => exact ⟨_, rfl⟩
  | caCertPath => exact ⟨_, host _ 0⟩
  | dbPath => exact ⟨_, (host _ 512).trans (ca _ 0)⟩
  | serverCertPath => exact ⟨_, (host _ 1024).trans ((ca _ 512).trans (db _ 0))⟩
  | serverKeyPath =>
    exact ⟨_, (host _ 1536).trans ((ca _ 1024).trans ((db _ 512).trans (cert _ 0)))⟩
  | dbEncryptionKey =>
    refine ⟨[], ?_⟩
    rw [List.append_nil]
    exact (host _ 2048).trans ((ca _ 1536).trans ((db _ 1024).trans ((cert _ 512).trans (key _ 0))))

theorem string_terminated (ends : 0 ∈ config.front f) :
    config.string f = .ok (config.stored f) := by
  obtain ⟨later, split⟩ := drop_offset config f
  rw [← front_append_last, List.append_assoc] at split
  have found : 0 ∈ config.arrays.drop (AppConfig.offset f) := by
    rw [split]
    exact List.mem_append_left _ ends
  have cut := (CString.cut_take_iff (config.front f ++ (config.last f ++ later))
    (config.front f).length).mpr (.inl (by rwa [List.take_left]))
  rw [List.take_left] at cut
  rw [AppConfig.string, loadString, if_pos found, split, cut, AppConfig.stored]

/-- A start of a program with this file: what `main` reads of the configuration, whatever lay
in the memory of `config` before. -/
def Settled (file : List UInt8) : Prop :=
  ∀ before before' : AppConfig,
    let config := (configLoad (some file) before).1
    let config' := (configLoad (some file) before').1
    (∀ f, 0 ∈ (config.text f).toList) ∧ (∀ f, config.string f = config'.string f) ∧
      config.port = config'.port ∧
      ∀ P : Platform, (config.string .dbEncryptionKey).toOption.bind (cryptoInit P) =
        (config'.string .dbEncryptionKey).toOption.bind (cryptoInit P)

def dirty : AppConfig where
  port := 0
  serverHost := List.Vector.replicate 256 1
  caCertPath := List.Vector.replicate 512 1
  dbPath := List.Vector.replicate 512 1
  serverCertPath := List.Vector.replicate 512 1
  serverKeyPath := List.Vector.replicate 512 1
  dbEncryptionKey := List.Vector.replicate 256 1

theorem dirty_last (f : TextField) : 0 ∉ dirty.last f := by
  have ones (n : Nat) : 0 ∉ List.replicate n (1 : UInt8) := fun nul =>
    absurd (List.eq_of_mem_replicate nul) (by decide)
  have bytes : 0 ∉ (dirty.text f).toList := by
    cases f <;> exact ones _
  exact fun nul => bytes (List.mem_of_mem_drop nul)

theorem ends_configLoad
    (short : ∀ v ∈ lastSet (.text f) (settings file), v.length < f.size - 1) (config : AppConfig) :
    0 ∈ ((configLoad (some file) config).1).front f := by
  rw [front_configLoad]
  cases given : lastSet (.text f) (settings file) with
  | some v =>
    obtain ⟨fill, front⟩ := strncpy_short (short v given)
    rw [Option.map_some, Option.getD_some, front]
    simp
  | none =>
    obtain ⟨fill, front⟩ := front_applyDefaults f config
    rw [Option.map_none, Option.getD_none, front]
    simp

theorem config_settled_iff (file : List UInt8) :
    Settled file ↔ ∀ f, ∀ v ∈ lastSet (.text f) (settings file), v.length < f.size - 1 := by
  constructor
  · intro settled f v given
    have ends := (settled dirty dirty).1 f
    rw [← front_append_last, last_configLoad, List.mem_append, or_iff_left (dirty_last f),
      front_configLoad, given, Option.map_some, Option.getD_some, strncpy_toList, List.mem_append,
      List.mem_replicate] at ends
    rcases ends with text | ⟨room, -⟩
    · exact absurd (List.mem_of_mem_take text) v.noNul
    · rw [CString.length]
      omega
  · intro short before before'
    have same (f : TextField) : (configLoad (some file) before).1.string f =
        (configLoad (some file) before').1.string f := by
      rw [string_terminated (ends_configLoad (short f) before),
        string_terminated (ends_configLoad (short f) before'), stored_configLoad, stored_configLoad]
    refine ⟨fun f => ?_, same, ?_, fun P => ?_⟩
    · rw [← front_append_last]
      exact List.mem_append_left _ (ends_configLoad (short f) before)
    · rw [port_configLoad, port_configLoad]
    · rw [same]

def longKeyFile : List UInt8 := (CString.lit "db_key=").bytes ++ List.replicate 255 97 ++ [newline]

theorem long_key_unsettled : ¬ Settled longKeyFile := by
  intro settled
  have ends := (settled dirty dirty).1 .dbEncryptionKey
  revert ends
  decide +kernel

/-- What the values should be, without buffers or capacities. -/
structure Reference where
  port : Int
  text : TextField → CString

/- A line that is neither blank nor a comment is split at its first `=`. A blank value sets
nothing. -/
def referenceSetting (line : List UInt8) : Option (Setting × CString) :=
  let s := CString.cut line
  let p := s.skip isBlank
  if p.bytes = [] ∨ p.bytes.head? = some 35 ∨ 61 ∉ s.bytes then none
  else
    let key := s.span (· != 61)
    let val := (s.advance (key.length + 1)).trim
    if val.bytes = [] then none else (settingOf key.trim).map fun k => (k, val)

def Reference.assign (r : Reference) : Setting × CString → Reference
  | (.port, val) => { r with port := atoi val }
  | (.text f, val) => { r with text := Function.update r.text f val }

def referenceSettings (file : List UInt8) : List (Setting × CString) :=
  (lines file).filterMap referenceSetting

def reference (file : List UInt8) : Reference :=
  (referenceSettings file).foldl Reference.assign ⟨defaultPort, defaultText⟩

/-- Each field is the reference's, up to its capacity. -/
def Agrees (config : AppConfig) (r : Reference) : Prop :=
  config.port = r.port ∧ ∀ f, config.stored f = (r.text f).truncate (f.size - 1)

/- A line whose first visible character is `=`. -/
def NoKey (line : List UInt8) : Prop := (line.dropWhile isBlank).head? = some 61
deriving Decidable

def portOf (val : Option CString) : Int := (val.map atoi).getD defaultPort

def textOf (f : TextField) (val : Option CString) : CString :=
  (val.getD (defaultText f)).truncate (f.size - 1)

theorem reference_port (file : List UInt8) :
    (reference file).port = portOf (lastSet .port (referenceSettings file)) := by
  refine foldl_lastSet Reference.assign Reference.port atoi ?_ ?_ (referenceSettings file) _
  · rintro r ⟨k, v⟩ other
    cases k with
    | port => exact absurd rfl other
    | text g => rfl
  · exact fun r v => rfl

theorem reference_text (file : List UInt8) (f : TextField) :
    (reference file).text f = (lastSet (.text f) (referenceSettings file)).getD (defaultText f) := by
  have last := foldl_lastSet Reference.assign (fun r => r.text f) id (k := .text f) ?_ ?_
    (referenceSettings file) ⟨defaultPort, defaultText⟩
  · rw [Option.map_id] at last
    exact last
  · rintro r ⟨k, v⟩ other
    cases k with
    | port => rfl
    | text g => exact Function.update_of_ne (fun same => other (congrArg Setting.text same.symm)) _ _
  · exact fun r v => Function.update_self ..

def SameEnd (settings settings' : List (Setting × CString)) : Prop :=
  portOf (lastSet .port settings) = portOf (lastSet .port settings') ∧
    ∀ f, textOf f (lastSet (.text f) settings) = textOf f (lastSet (.text f) settings')

theorem agrees_iff (file : List UInt8) (config : AppConfig) :
    Agrees (configLoad (some file) config).1 (reference file) ↔
      SameEnd (settings file) (referenceSettings file) := by
  rw [Agrees, SameEnd, port_configLoad, reference_port]
  refine and_congr_right fun _ => forall_congr' fun f => ?_
  rw [stored_configLoad, reference_text]
  rfl

theorem line_end {line body front rest : List UInt8} (plain : newline ∉ body)
    (shape : line = body ∨ line = body ++ [newline]) (split : line = front ++ rest) :
    ∃ val, newline ∉ val ∧ (rest = val ∨ rest = val ++ [newline]) := by
  rcases shape with rfl | rfl
  · rw [split, List.mem_append, not_or] at plain
    exact ⟨rest, plain.2, .inl rfl⟩
  · cases rest using List.reverseRecOn with
    | nil => exact ⟨[], by simp, .inl rfl⟩
    | append_singleton val b =>
      rw [← List.append_assoc] at split
      obtain ⟨same, ends⟩ := List.append_inj' split rfl
      rw [same, List.mem_append, not_or] at plain
      exact ⟨val, plain.2, .inr (by rw [← List.singleton_inj.mp ends])⟩

/-- A line with a key: blanks, the key up to the first `=`, and the rest, which is the value
with or without the newline. -/
structure Pair (line key val : List UInt8) : Prop where
  noNul : 0 ∉ line
  plain : newline ∉ val
  noSign : 61 ∉ key
  visible : ∃ b ∈ key.head?, isBlank b = false ∧ b ≠ 35
  split : ∃ blanks rest, (∀ b ∈ blanks, isBlank b = true) ∧ line = blanks ++ key ++ 61 :: rest ∧
    (rest = val ∨ rest = val ++ [newline])

theorem cut_noNul {bs : List UInt8} (noNul : 0 ∉ bs) : (CString.cut bs).bytes = bs :=
  congrArg CString.bytes (CString.cut_bytes ⟨bs, noNul⟩)

theorem trim_eq {s : CString} {bs : List UInt8} (noNul : 0 ∉ bs)
    (same : strip s.bytes = strip bs) : s.trim = CString.cut (strip bs) := by
  apply CString.ext
  rw [CString.trim_bytes, same, cut_noNul fun nul => noNul (strip_subset bs nul)]

theorem Pair.key_ne_nil {line key val : List UInt8} (pair : Pair line key val) : key ≠ [] := by
  obtain ⟨b, head, -⟩ := pair.visible
  rintro rfl
  cases head

theorem Pair.keyNoNul {line key val : List UInt8} (pair : Pair line key val) : 0 ∉ key := by
  obtain ⟨blanks, rest, -, whole, -⟩ := pair.split
  intro nul
  apply pair.noNul
  rw [whole]
  simp [nul]

theorem Pair.valNoNul {line key val : List UInt8} (pair : Pair line key val) : 0 ∉ val := by
  obtain ⟨blanks, rest, -, whole, ends⟩ := pair.split
  intro nul
  apply pair.noNul
  rw [whole]
  rcases ends with rfl | rfl
  · simp [nul]
  · simp [nul]

theorem Pair.skip {line key val : List UInt8} (pair : Pair line key val) :
    ∃ rest, ((CString.cut line).skip isBlank).bytes = key ++ 61 :: rest ∧
      (rest = val ∨ rest = val ++ [newline]) ∧
      ¬ (((CString.cut line).skip isBlank).bytes = [] ∨
        ((CString.cut line).skip isBlank).bytes.head? = some 35) := by
  obtain ⟨blanks, rest, blank, whole, ends⟩ := pair.split
  obtain ⟨b, head, visible, comment⟩ := pair.visible
  have bytes : ((CString.cut line).skip isBlank).bytes = key ++ 61 :: rest := by
    rw [CString.skip_bytes, cut_noNul pair.noNul, whole, List.append_assoc,
      List.dropWhile_append_of_pos blank]
    cases key with
    | nil => cases head
    | cons c key =>
      cases head
      exact List.dropWhile_cons_of_neg (by simp [visible])
  refine ⟨rest, bytes, ends, ?_⟩
  rw [bytes]
  cases key with
  | nil => cases head
  | cons c key =>
    cases head
    simp [comment]

theorem lineSetting_token {line : List UInt8} {key rest : CString}
    (read : ¬ (((CString.cut line).skip isBlank).bytes = [] ∨
      ((CString.cut line).skip isBlank).bytes.head? = some 35))
    (found : ((CString.cut line).skip isBlank).strtok 61 = some (key, rest)) :
    lineSetting line = (rest.strtok newline).bind fun v =>
      (settingOf key.trim).map fun k => (k, v.1.trim) := by
  rw [lineSetting, if_neg read, found]
  dsimp only
  cases rest.strtok newline <;> rfl

theorem lineSetting_pair {line key val : List UInt8} (pair : Pair line key val) :
    lineSetting line = if val = [] then none
      else (settingOf (CString.cut (strip key))).map fun k => (k, CString.cut (strip val)) := by
  obtain ⟨rest, bytes, ends, read⟩ := pair.skip
  obtain ⟨t, r, found, keyBytes, restBytes⟩ :=
    CString.strtok_token pair.key_ne_nil pair.noSign (.inl bytes)
  rw [lineSetting_token read found]
  by_cases empty : val = []
  · have all : ∀ b ∈ r.bytes, b = newline := by
      rw [restBytes]
      rcases ends with rfl | rfl
      · simp [empty]
      · simp [empty]
    rw [if_pos empty, CString.strtok_none all, Option.bind_none]
  · obtain ⟨v, last, value, valBytes, -⟩ : ∃ v last, r.strtok newline = some (v, last) ∧
        v.bytes = val ∧ last.bytes = [] := by
      apply CString.strtok_token empty pair.plain
      rw [restBytes]
      exact ends.elim (fun same => .inr ⟨same, rfl⟩) .inl
    have keyTrim : t.trim = CString.cut (strip key) := trim_eq pair.keyNoNul (by rw [keyBytes])
    have valTrim : v.trim = CString.cut (strip val) := trim_eq pair.valNoNul (by rw [valBytes])
    rw [if_neg empty, value, Option.bind_some, keyTrim, valTrim]

theorem referenceSetting_pair {line key val : List UInt8} (pair : Pair line key val) :
    referenceSetting line = if strip val = [] then none
      else (settingOf (CString.cut (strip key))).map fun k => (k, CString.cut (strip val)) := by
  obtain ⟨-, -, -, read⟩ := pair.skip
  obtain ⟨blanks, rest, blank, whole, ends⟩ := pair.split
  have bytes := cut_noNul pair.noNul
  have sign : 61 ∈ (CString.cut line).bytes := by
    rw [bytes, whole]
    simp
  have before : ∀ b ∈ blanks ++ key, (b != 61) = true := by
    intro b member
    rcases List.mem_append.mp member with early | late
    · have isSign : b ≠ 61 := by
        rintro rfl
        exact absurd (blank 61 early) (by decide)
      simpa using isSign
    · simpa using ne_of_mem_of_not_mem late pair.noSign
  have keyBytes : ((CString.cut line).span (· != 61)).bytes = blanks ++ key := by
    rw [CString.span_bytes, bytes, whole, List.takeWhile_append_of_pos before]
    simp
  have valBytes : ((CString.cut line).advance
      (((CString.cut line).span (· != 61)).length + 1)).bytes = rest := by
    rw [CString.advance_bytes, CString.length, keyBytes, bytes, whole, List.drop_length_add_append]
    rfl
  have valStrip : strip rest = strip val := by
    rcases ends with rfl | rfl
    · rfl
    · apply strip_append_blank val
      intro b member
      cases List.mem_singleton.mp member
      rfl
  have keyTrim : ((CString.cut line).span (· != 61)).trim = CString.cut (strip key) :=
    trim_eq pair.keyNoNul (by rw [keyBytes, strip_blank_append blank])
  have valTrim : ((CString.cut line).advance
      (((CString.cut line).span (· != 61)).length + 1)).trim = CString.cut (strip val) :=
    trim_eq pair.valNoNul (by rw [valBytes, valStrip])
  have valNoNul : 0 ∉ strip val := fun nul => pair.valNoNul (strip_subset val nul)
  have read' : ¬ (((CString.cut line).skip isBlank).bytes = [] ∨
      ((CString.cut line).skip isBlank).bytes.head? = some 35 ∨ 61 ∉ (CString.cut line).bytes) :=
    fun skipped => (or_assoc.mpr skipped).elim read fun outside => outside sign
  rw [referenceSetting, if_neg read']
  dsimp only
  rw [keyTrim, valTrim, cut_noNul valNoNul]

theorem unsigned_line {line : List UInt8} (noNul : 0 ∉ line) (noSign : 61 ∉ line) :
    lineSetting line = none ∧ referenceSetting line = none := by
  have bytes := cut_noNul noNul
  constructor
  · by_cases read : ((CString.cut line).skip isBlank).bytes = [] ∨
      ((CString.cut line).skip isBlank).bytes.head? = some 35
    · exact if_pos read
    · have outside : 61 ∉ ((CString.cut line).skip isBlank).bytes := by
        rw [CString.skip_bytes, bytes]
        exact fun member => noSign ((List.dropWhile_sublist _).subset member)
      obtain ⟨t, r, found, -, restBytes⟩ :=
        CString.strtok_token (not_or.mp read).1 outside (.inr ⟨rfl, rfl⟩)
      have noValue : r.strtok newline = none := CString.strtok_none (by simp [restBytes])
      rw [lineSetting_token read found, noValue, Option.bind_none]
  · exact if_pos (.inr (.inr (bytes.symm ▸ noSign)))

theorem idle_line {line : List UInt8} (idle : ((CString.cut line).skip isBlank).bytes = [] ∨
    ((CString.cut line).skip isBlank).bytes.head? = some 35) :
    lineSetting line = none ∧ referenceSetting line = none :=
  ⟨if_pos idle, if_pos (idle.imp_right .inl)⟩

theorem pair_of_line {line body : List UInt8} (noNul : 0 ∉ line) (keyed : ¬ NoKey line)
    (plain : newline ∉ body) (shape : line = body ∨ line = body ++ [newline]) (sign : 61 ∈ line)
    (read : ¬ (((CString.cut line).skip isBlank).bytes = [] ∨
      ((CString.cut line).skip isBlank).bytes.head? = some 35)) :
    ∃ key val, Pair line key val := by
  rw [CString.skip_bytes, cut_noNul noNul, not_or] at read
  obtain ⟨nonempty, comment⟩ := read
  have blank : ∀ b ∈ line.takeWhile isBlank, isBlank b = true :=
    fun b member => List.mem_takeWhile_imp member
  have text : line.takeWhile isBlank ++ line.dropWhile isBlank = line :=
    List.takeWhile_append_dropWhile
  have inText : 61 ∈ line.dropWhile isBlank := by
    rw [← text, List.mem_append] at sign
    exact sign.resolve_left fun early => absurd (blank 61 early) (by decide)
  obtain ⟨key, rest, split, first⟩ := List.eq_append_cons_of_mem inText
  have whole : line = line.takeWhile isBlank ++ key ++ 61 :: rest := by
    rw [List.append_assoc, ← split, text]
  obtain ⟨val, valPlain, ends⟩ := line_end plain shape
    (whole.trans (List.append_cons (line.takeWhile isBlank ++ key) 61 rest))
  refine ⟨key, val, noNul, valPlain, first, ?_, line.takeWhile isBlank, rest, blank, whole, ends⟩
  have visible := List.head_dropWhile_not isBlank nonempty
  cases key with
  | nil => exact absurd (by rw [NoKey, split]; rfl) keyed
  | cons b key =>
    simp only [split] at comment visible
    exact ⟨b, rfl, by simpa using visible, fun same => comment (by rw [same]; rfl)⟩

/- On a whole line the loop does what the reference does, but for blank values. -/
theorem lineSetting_line {line body : List UInt8} (noNul : 0 ∉ line) (keyed : ¬ NoKey line)
    (plain : newline ∉ body) (shape : line = body ∨ line = body ++ [newline]) :
    referenceSetting line = (lineSetting line).filter fun a => a.2.bytes ≠ [] := by
  by_cases idle : ((CString.cut line).skip isBlank).bytes = [] ∨
    ((CString.cut line).skip isBlank).bytes.head? = some 35
  · obtain ⟨left, right⟩ := idle_line idle
    rw [left, right]
    rfl
  by_cases sign : 61 ∈ line
  · obtain ⟨key, val, pair⟩ := pair_of_line noNul keyed plain shape sign idle
    have bytes := cut_noNul fun nul => pair.valNoNul (strip_subset val nul)
    rw [lineSetting_pair pair, referenceSetting_pair pair]
    by_cases blank : strip val = []
    · have nothing := bytes.trans blank
      rw [if_pos blank]
      split
      · rfl
      · cases settingOf (CString.cut (strip key)) with
        | none => rfl
        | some k => simp [Option.filter, nothing]
    · have nonempty : val ≠ [] := by
        rintro rfl
        exact blank rfl
      rw [if_neg blank, if_neg nonempty]
      cases settingOf (CString.cut (strip key)) with
      | none => rfl
      | some k => simp [Option.filter, bytes, blank]
  · obtain ⟨left, right⟩ := unsigned_line noNul sign
    rw [left, right]
    rfl

theorem referenceSettings_eq (noNul : 0 ∉ file) (keyed : ∀ line ∈ lines file, ¬ NoKey line)
    (fits : ∀ line ∈ lines file, line.length ≤ 1023) :
    referenceSettings file = (settings file).filter fun a => a.2.bytes ≠ [] := by
  rw [referenceSettings, settings, pieces_eq_lines fits, List.filter_filterMap]
  apply List.filterMap_congr
  intro line member
  obtain ⟨-, inside, body, plain, shape⟩ := mem_lines member
  exact lineSetting_line (fun nul => noNul (inside nul)) (keyed line member) plain shape

/- The last value that a key is given is blank. -/
def BlankLast (k : Setting) (file : List UInt8) : Prop :=
  ∃ v ∈ lastSet k (settings file), v.bytes = []

theorem textOf_blank (f : TextField) {v : CString} (blank : v.bytes = []) :
    textOf f (some v) = CString.empty := by
  apply CString.ext
  change v.bytes.take _ = []
  rw [blank, List.take_nil]

theorem truncate_eq_empty {n : Nat} (positive : 0 < n) :
    val.truncate n = CString.empty ↔ val = CString.empty := by
  constructor
  · intro nothing
    apply CString.ext
    have bytes : val.bytes.take n = [] := congrArg CString.bytes nothing
    exact (List.take_eq_nil_iff.mp bytes).resolve_left (Nat.ne_of_gt positive)
  · rintro rfl
    exact CString.ext List.take_nil

theorem portOf_blank {v : CString} (blank : v.bytes = []) : portOf (some v) = 0 := by
  change atoi v = 0
  rw [atoi, blank]
  rfl

def reached : Setting × CString → Setting × Int × CString
  | (.port, val) => (.port, atoi val, CString.empty)
  | (.text f, val) => (.text f, 0, val.truncate (f.size - 1))

theorem lastSet_reached (k : Setting) (ss : List (Setting × CString)) :
    lastSet k (ss.map reached) = (lastSet k ss).map fun v => (reached (k, v)).2 := by
  have key (a : Setting × CString) : (reached a).1 = a.1 := by
    obtain ⟨k, v⟩ := a
    cases k <;> rfl
  rw [lastSet, lastSet, List.filter_map, ← List.getLast?_map, List.map_map, List.map_map]
  congr 1
  simp only [Function.comp_def, key]
  refine List.map_congr_left fun a member => ?_
  obtain ⟨k', v⟩ := a
  have same := of_decide_eq_true (List.mem_filter.mp member).2
  dsimp only at same
  rw [same]

theorem sameEnd_of_reached {ss ss' : List (Setting × CString)}
    (same : ss.map reached = ss'.map reached) : SameEnd ss ss' := by
  have last (k : Setting) : (lastSet k ss).map (fun v => (reached (k, v)).2) =
      (lastSet k ss').map fun v => (reached (k, v)).2 := by
    rw [← lastSet_reached, ← lastSet_reached, same]
  constructor
  · have port := congrArg (fun v => (v.map Prod.fst).getD defaultPort) (last .port)
    simpa [portOf, Option.map_map, Function.comp_def, reached] using port
  · intro f
    have text := congrArg (fun v => (v.map Prod.snd).getD ((defaultText f).truncate (f.size - 1)))
      (last (.text f))
    simpa [textOf, Option.map_map, Function.comp_def, reached] using text

/-- However the buffer cuts the line: its first piece sets what the line should set, up to the
capacity, and the others set nothing. -/
def ReadWhole (line : List UInt8) : Prop :=
  ∃ first later, pieces 1023 line = first :: later ∧ (∀ piece ∈ later, lineSetting piece = none) ∧
    (lineSetting first).map reached = (referenceSetting line).map reached

theorem sameEnd_of_readWhole (whole : ∀ line ∈ lines file, ReadWhole line) :
    SameEnd (settings file) (referenceSettings file) := by
  apply sameEnd_of_reached
  rw [settings, referenceSettings, pieces_lines]
  generalize lines file = ls at whole
  induction ls with
  | nil => rfl
  | cons line ls ih =>
    obtain ⟨first, later, cut, nothing, same⟩ := whole line List.mem_cons_self
    have rest := ih fun line member => whole line (List.mem_cons_of_mem _ member)
    have silent : later.filterMap lineSetting = [] := List.filterMap_eq_nil_iff.mpr nothing
    have head : (pieces 1023 line).filterMap lineSetting = (lineSetting first).toList := by
      rw [cut, List.filterMap_cons, silent]
      cases lineSetting first <;> rfl
    have front : ([line].filterMap referenceSetting) = (referenceSetting line).toList := by
      rw [List.filterMap_cons]
      cases referenceSetting line <;> rfl
    rw [List.flatMap_cons, List.filterMap_append, head, List.map_append, rest,
      ← List.singleton_append, List.filterMap_append, front, List.map_append]
    rw [← Option.toList_map, ← Option.toList_map, same]

/-- A file is read as the grammar says exactly when the text cut at every 1023 bytes gives each
field the same last value. With no longer line that means that a blank value is given last only
where there was nothing to lose; and a longer line does no harm as long as its first piece sets
what it should set and the others set nothing. -/
theorem config_agrees_iff (file : List UInt8) (noNul : 0 ∉ file)
    (keyed : ∀ line ∈ lines file, ¬ NoKey line) :
    ((∀ before, Agrees (configLoad (some file) before).1 (reference file)) ↔
      SameEnd (settings file) (referenceSettings file)) ∧
    ((∀ line ∈ lines file, line.length ≤ 1023) →
      ((∀ before, Agrees (configLoad (some file) before).1 (reference file)) ↔
        (BlankLast .port file → (reference file).port = 0) ∧
        ∀ f, BlankLast (.text f) file → (reference file).text f = CString.empty)) ∧
    ((∀ line ∈ lines file, ReadWhole line) →
      ∀ before, Agrees (configLoad (some file) before).1 (reference file)) := by
  have ends : (∀ before, Agrees (configLoad (some file) before).1 (reference file)) ↔
      SameEnd (settings file) (referenceSettings file) :=
    ⟨fun all => (agrees_iff file dirty).mp (all dirty), fun same before =>
      (agrees_iff file before).mpr same⟩
  refine ⟨ends, fun fits => ends.trans ?_, fun whole => ends.mpr (sameEnd_of_readWhole whole)⟩
  have kept (k : Setting) (solid : ¬ BlankLast k file) :
      lastSet k (referenceSettings file) = lastSet k (settings file) := by
    rw [referenceSettings_eq noNul keyed fits]
    apply lastSet_filter
    intro v given
    simpa using fun blank => solid ⟨v, given, blank⟩
  apply and_congr
  · rw [reference_port]
    constructor
    · rintro same ⟨v, given, blank⟩
      rw [← same, given, portOf_blank blank]
    · intro nothing
      by_cases last : BlankLast .port file
      · rw [nothing last]
        obtain ⟨v, given, blank⟩ := last
        rw [given, portOf_blank blank]
      · rw [kept .port last]
  · refine forall_congr' fun f => ?_
    have shown : textOf f (lastSet (.text f) (referenceSettings file)) =
        ((reference file).text f).truncate (f.size - 1) := by
      rw [reference_text]
      rfl
    rw [shown]
    constructor
    · rintro same ⟨v, given, blank⟩
      rw [given, textOf_blank f blank] at same
      exact (truncate_eq_empty (size_pos f)).mp same.symm
    · intro nothing
      by_cases last : BlankLast (.text f) file
      · rw [(truncate_eq_empty (size_pos f)).mpr (nothing last)]
        obtain ⟨v, given, blank⟩ := last
        rw [given, textOf_blank f blank]
      · rw [← shown, kept _ last]

theorem config_agrees_plain :
    (reference (CString.lit "server_port = 1\n").bytes).port = 1 ∧
    ∀ before, Agrees (configLoad (some (CString.lit "server_port = 1\n").bytes) before).1
      (reference (CString.lit "server_port = 1\n").bytes) := by
  have same : SameEnd (settings (CString.lit "server_port = 1\n").bytes)
      (referenceSettings (CString.lit "server_port = 1\n").bytes) :=
    ⟨by decide, fun f => by cases f <;> decide⟩
  exact ⟨by decide, (config_agrees_iff (CString.lit "server_port = 1\n").bytes (by decide)
    (by decide)).1.mpr same⟩

def blankHostFile : List UInt8 := (CString.lit "server_host= \n").bytes

def longCommentFile : List UInt8 :=
  35 :: List.replicate 1022 32 ++ (CString.lit "db_key=secret\n").bytes

theorem file_disagrees :
    (0 ∉ blankHostFile ∧ (∀ line ∈ lines blankHostFile, ¬ NoKey line) ∧
      ∀ before, ¬ Agrees (configLoad (some blankHostFile) before).1 (reference blankHostFile)) ∧
    (0 ∉ longCommentFile ∧ (∀ line ∈ lines longCommentFile, ¬ NoKey line) ∧
      ∀ before, ¬ Agrees (configLoad (some longCommentFile) before).1
        (reference longCommentFile)) := by
  have host : textOf .serverHost (lastSet (.text .serverHost) (settings blankHostFile)) ≠
      textOf .serverHost (lastSet (.text .serverHost) (referenceSettings blankHostFile)) := by
    decide +kernel
  have key : textOf .dbEncryptionKey (lastSet (.text .dbEncryptionKey) (settings longCommentFile)) ≠
      textOf .dbEncryptionKey
        (lastSet (.text .dbEncryptionKey) (referenceSettings longCommentFile)) := by
    decide +kernel
  refine ⟨⟨?_, ?_, fun before agrees => ?_⟩, ?_, ?_, fun before agrees => ?_⟩
  · decide +kernel
  · decide +kernel
  · exact host (((agrees_iff _ before).mp agrees).2 .serverHost)
  · decide +kernel
  · decide +kernel
  · exact key (((agrees_iff _ before).mp agrees).2 .dbEncryptionKey)

theorem settings_line (line : List UInt8) (plain : newline ∉ line) (fits : line.length + 1 ≤ 1023)
    (rest : List UInt8) :
    settings (line ++ newline :: rest) =
      (lineSetting (line ++ [newline])).toList ++ settings rest := by
  rw [settings, pieces_line plain fits, List.filterMap_cons]
  cases lineSetting (line ++ [newline]) <;> rfl

theorem lineSetting_written {key val : List UInt8} (noNul : 0 ∉ key ++ 61 :: val)
    (plain : newline ∉ val) (noSign : 61 ∉ key)
    (visible : ∃ b ∈ key.head?, isBlank b = false ∧ b ≠ 35) (nonempty : val ≠ [])
    (solid : strip val = val) :
    lineSetting (key ++ 61 :: val ++ [newline]) =
      (settingOf (CString.cut (strip key))).map fun k => (k, CString.cut val) := by
  have pair : Pair (key ++ 61 :: val ++ [newline]) key val := by
    refine ⟨?_, plain, noSign, visible, [], val ++ [newline], by simp, by simp, .inr rfl⟩
    rw [List.mem_append, not_or]
    exact ⟨noNul, by decide⟩
  rw [lineSetting_pair pair, if_neg nonempty, solid]

def titleLine : List UInt8 := (CString.lit "# MoT Client Configuration").bytes
def originLine : List UInt8 := (CString.lit "# Generated by First Run Wizard").bytes
def hostLine (host : CString) : List UInt8 := (CString.lit "server_host").bytes ++ 61 :: host.bytes
def portLine (port : Int) : List UInt8 := (CString.lit "server_port").bytes ++ 61 :: printInt port
def pathLine : List UInt8 := (CString.lit "# ca_path=/path/to/custom_server.crt").bytes

theorem configSaveClient_lines {host : CString} (stored : config.string .serverHost = .ok host) :
    configSaveClient config = .ok (titleLine ++ newline :: (originLine ++ newline ::
      ([] ++ newline :: (hostLine host ++ newline :: (portLine config.port ++ newline ::
        (pathLine ++ newline :: [])))))) := by
  have title : (CString.lit "# MoT Client Configuration\n").bytes = titleLine ++ [newline] := by
    decide
  have origin : (CString.lit "# Generated by First Run Wizard\n\n").bytes =
      originLine ++ [newline, newline] := by
    decide
  have hostKey : (CString.lit "server_host=").bytes = (CString.lit "server_host").bytes ++ [61] := by
    decide
  have portKey : (CString.lit "server_port=").bytes = (CString.lit "server_port").bytes ++ [61] := by
    decide
  have path : (CString.lit "# ca_path=/path/to/custom_server.crt\n").bytes =
      pathLine ++ [newline] := by
    decide
  simp only [configSaveClient, stored, title, origin, hostKey, portKey, path, hostLine, portLine]
  simp

theorem settings_saved {host : CString} (nonempty : host.bytes ≠ []) (short : host.length ≤ 254)
    (plain : newline ∉ host.bytes) (solid : strip host.bytes = host.bytes) {port : Int}
    (low : -2 ^ 31 ≤ port) (high : port < 2 ^ 31) :
    settings (titleLine ++ newline :: (originLine ++ newline :: ([] ++ newline ::
      (hostLine host ++ newline :: (portLine port ++ newline :: (pathLine ++ newline :: [])))))) =
      [(.text .serverHost, host), (.port, CString.cut (printInt port))] := by
  have hostPlain : newline ∉ hostLine host := by
    rw [hostLine, List.mem_append, List.mem_cons, not_or, not_or]
    exact ⟨by decide, by decide, plain⟩
  have portPlain : newline ∉ portLine port := by
    rw [portLine, List.mem_append, List.mem_cons, not_or, not_or]
    exact ⟨by decide, by decide, newline_printInt port⟩
  have hostFits : (hostLine host).length + 1 ≤ 1023 := by
    rw [CString.length] at short
    have key : (CString.lit "server_host").bytes.length = 11 := by decide
    rw [hostLine, List.length_append, List.length_cons, key]
    omega
  have portFits : (portLine port).length + 1 ≤ 1023 := by
    have digits := printInt_length low high
    have key : (CString.lit "server_port").bytes.length = 11 := by decide
    rw [portLine, List.length_append, List.length_cons, key]
    omega
  have hostNoNul : 0 ∉ hostLine host := by
    rw [hostLine, List.mem_append, List.mem_cons, not_or, not_or]
    exact ⟨by decide, by decide, host.noNul⟩
  have portNoNul : 0 ∉ portLine port := by
    rw [portLine, List.mem_append, List.mem_cons, not_or, not_or]
    exact ⟨by decide, by decide, nul_printInt port⟩
  have visible : strip (printInt port) = printInt port := by
    apply strip_solid (printInt_ne_nil port)
    · exact isBlank_printInt (List.head_mem _)
    · exact isBlank_printInt (List.getLast_mem _)
  have hostSet : lineSetting (hostLine host ++ [newline]) = some (.text .serverHost, host) := by
    rw [hostLine, lineSetting_written hostNoNul plain (by decide) (by decide) nonempty solid,
      CString.cut_bytes]
    have known : settingOf (CString.cut (strip (CString.lit "server_host").bytes)) =
        some (.text .serverHost) := by
      decide
    rw [known, Option.map_some]
  have portSet : lineSetting (portLine port ++ [newline]) =
      some (.port, CString.cut (printInt port)) := by
    rw [portLine, lineSetting_written portNoNul (newline_printInt port) (by decide) (by decide)
      (printInt_ne_nil port) visible]
    have known : settingOf (CString.cut (strip (CString.lit "server_port").bytes)) = some .port := by
      decide
    rw [known, Option.map_some]
  have titleSet : lineSetting (titleLine ++ [newline]) = none := by decide
  have originSet : lineSetting (originLine ++ [newline]) = none := by decide
  have pathSet : lineSetting (pathLine ++ [newline]) = none := by decide
  rw [settings_line titleLine (by decide) (by decide), titleSet,
    settings_line originLine (by decide) (by decide), originSet,
    settings_line [] (by decide) (by decide), settings_line _ hostPlain hostFits, hostSet,
    settings_line _ portPlain portFits, portSet,
    settings_line pathLine (by decide) (by decide), pathSet]
  rfl

theorem client_config_round_trip (config before : AppConfig) (host : CString)
    (stored : config.string .serverHost = .ok host) (nonempty : host.bytes ≠ [])
    (short : host.length ≤ 254) (plain : newline ∉ host.bytes)
    (first : isBlank (host.bytes.head nonempty) = false)
    (last : isBlank (host.bytes.getLast nonempty) = false)
    (low : -2 ^ 31 ≤ config.port) (high : config.port < 2 ^ 31) :
    ∃ file, configSaveClient config = .ok file ∧
      (configLoad (some file) before).2 = true ∧
      (configLoad (some file) before).1.port = config.port ∧
      (configLoad (some file) before).1.string .serverHost = .ok host ∧
      ∀ f, f ≠ .serverHost → (configLoad (some file) before).1.string f = .ok (defaultText f) := by
  have given := settings_saved nonempty short plain (strip_solid nonempty first last) low high
  refine ⟨_, configSaveClient_lines stored, rfl, ?_, ?_, fun f other => ?_⟩
  · rw [port_configLoad, given]
    exact atoi_printInt low high (cut_noNul (nul_printInt config.port))
  · have here : lastSet (.text .serverHost) [(Setting.text .serverHost, host),
        (Setting.port, CString.cut (printInt config.port))] = some host := rfl
    rw [string_terminated, stored_configLoad, given, here]
    · exact congrArg Except.ok (CString.ext (List.take_of_length_le (short.trans (by decide))))
    · apply ends_configLoad
      rw [given, here]
      rintro v ⟨⟩
      exact Nat.lt_succ_of_le short
  · have here : lastSet (.text f) [(Setting.text .serverHost, host),
        (Setting.port, CString.cut (printInt config.port))] = none := by
      cases f with
      | serverHost => exact absurd rfl other
      | caCertPath | dbPath | serverCertPath | serverKeyPath | dbEncryptionKey => rfl
    rw [string_terminated, stored_configLoad, given, here]
    · exact congrArg Except.ok
        (CString.ext (List.take_of_length_le (Nat.le_of_lt (default_short f))))
    · apply ends_configLoad
      rw [given, here]
      rintro v ⟨⟩

theorem default_config_round_trip :
    ∃ file, configSaveClient (applyDefaults dirty) = .ok file ∧
      (configLoad (some file) dirty).2 = true ∧
      (configLoad (some file) dirty).1.port = (applyDefaults dirty).port ∧
      (configLoad (some file) dirty).1.string .serverHost = .ok defaultHost ∧
      ∀ f, f ≠ .serverHost → (configLoad (some file) dirty).1.string f = .ok (defaultText f) :=
  client_config_round_trip (applyDefaults dirty) dirty defaultHost rfl (by decide) (by decide)
    (by decide) (by decide) (by decide) (by decide) (by decide)

end MoT
