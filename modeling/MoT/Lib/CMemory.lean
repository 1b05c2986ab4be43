import Mathlib.Data.List.TakeWhile
import Mathlib.Data.Vector.Defs

/-! C strings and byte blocks. A string is its bytes before the terminator, so no
byte of it is NUL. A block that was allocated but not yet written holds `none`
cells, and every access through a pointer is checked against the block. -/
namespace CMemory

structure CString where
  bytes : List UInt8
  noNul : 0 ∉ bytes
deriving DecidableEq

namespace CString

@[ext] theorem ext {s t : CString} (same : s.bytes = t.bytes) : s = t := by
  cases s
  cases t
  cases same
  rfl

def empty : CString := ⟨[], by simp⟩

def length (s : CString) : Nat := s.bytes.length

def append (s t : CString) : CString :=
  ⟨s.bytes ++ t.bytes, by simp [s.noNul, t.noNul]⟩

instance : Append CString := ⟨append⟩

def truncate (n : Nat) (s : CString) : CString :=
  ⟨s.bytes.take n, fun h => s.noNul (List.mem_of_mem_take h)⟩

/-- What `strlen` and `%s` see of a byte sequence: everything before its first NUL. -/
def cut (bs : List UInt8) : CString :=
  ⟨bs.takeWhile (· ≠ 0), fun h => by simpa using List.mem_takeWhile_imp h⟩

def lit (s : String) : CString := cut s.toUTF8.data.toList

def concat (ss : List CString) : CString := ss.foldr append empty

@[simp] theorem append_bytes (s t : CString) : (s ++ t).bytes = s.bytes ++ t.bytes := rfl
@[simp] theorem empty_bytes : empty.bytes = [] := rfl
@[simp] theorem concat_nil : concat [] = empty := rfl
@[simp] theorem concat_cons (s : CString) (ss : List CString) :
    concat (s :: ss) = s ++ concat ss := rfl
theorem concat_snoc (ss : List CString) (s : CString) :
    (concat (ss ++ [s])).bytes = (concat ss).bytes ++ s.bytes := by
  induction ss with
  | nil => simp
  | cons t ss ih => simp [ih]

@[simp] theorem truncate_bytes (n : Nat) (s : CString) :
    (truncate n s).bytes = s.bytes.take n := rfl

theorem length_append (s t : CString) : (s ++ t).length = s.length + t.length :=
  List.length_append

theorem cut_bytes (s : CString) : cut s.bytes = s := by
  apply ext
  refine List.takeWhile_eq_self_iff.mpr fun b hb => ?_
  simpa using fun zero : b = 0 => s.noNul (zero ▸ hb)

theorem cut_append_zero (bs rest : List UInt8) : cut (bs ++ 0 :: rest) = cut bs := by
  apply ext
  induction bs with
  | nil => simp [cut]
  | cons b bs ih =>
    simp only [cut, List.cons_append, List.takeWhile_cons] at ih ⊢
    rw [ih]

theorem cut_append_nul (s : CString) (rest : List UInt8) : cut (s.bytes ++ 0 :: rest) = s :=
  (cut_append_zero s.bytes rest).trans (cut_bytes s)

/- A scan stays within the first `n` bytes when they hold a NUL or one follows them. -/
theorem cut_take_iff (bs : List UInt8) (n : Nat) :
    cut bs = cut (bs.take n) ↔ 0 ∈ bs.take n ∨ (bs.drop n).headD 0 = 0 := by
  rw [CString.ext_iff]
  induction bs generalizing n with
  | nil => simp [cut]
  | cons b bs ih =>
    cases n with
    | zero =>
      by_cases nul : b = 0
      · simp [cut, nul]
      · simp [cut, nul]
    | succ n =>
      by_cases nul : b = 0
      · simp [cut, nul]
      · have head : (0 : UInt8) ≠ b := fun same => nul same.symm
        have rest := ih n
        simp only [cut, ne_eq, decide_not] at rest
        simp [cut, nul, head, rest]

theorem cut_length_le (bs : List UInt8) : (cut bs).length ≤ bs.length :=
  (List.takeWhile_sublist _).length_le

end CString

/-- `strncpy` into a field of `n` bytes: at most `n` bytes of the string, padded with
NULs, and no terminator when the string fills the field. -/
def strncpy (n : Nat) (s : CString) : List.Vector UInt8 n :=
  ⟨(s.bytes ++ List.replicate n 0).take n, by simp⟩

/-- The string a field of `n` bytes holds when its end also stops the scan. -/
def fieldString {n : Nat} (field : List.Vector UInt8 n) : CString := CString.cut field.toList

theorem fieldString_strncpy (n : Nat) (s : CString) :
    fieldString (strncpy n s) = s.truncate n := by
  have split : (strncpy n s).toList = s.bytes.take n ++ List.replicate (n - s.bytes.length) 0 := by
    change (s.bytes ++ List.replicate n 0).take n = _
    rw [List.take_append, List.take_replicate, Nat.min_eq_left (Nat.sub_le _ _)]
  rw [fieldString, split]
  cases pad : n - s.bytes.length with
  | zero => simpa using CString.cut_bytes (s.truncate n)
  | succ k => exact CString.cut_append_nul (s.truncate n) _

/-- One byte of memory; `none` until it is first written. -/
abbrev Cell := Option UInt8

/-- `realloc(block, n)`: the old contents up to the smaller size, then fresh cells. -/
def realloc (block : List Cell) (n : Nat) : List Cell :=
  block.take n ++ List.replicate (n - block.length) none

/-- Store bytes at an offset; `none` when one of them falls outside the block. -/
def store (block : List Cell) (offset : Nat) (bs : List UInt8) : Option (List Cell) :=
  if offset + bs.length ≤ block.length then
    some (block.take offset ++ bs.map some ++ block.drop (offset + bs.length))
  else none

/-- `sprintf(block + offset, "%s", s)`, terminator included. -/
def sprintf (block : List Cell) (offset : Nat) (s : CString) : Option (List Cell) :=
  store block offset (s.bytes ++ [0])

/-- The string at the start of a block. The scan fails on a byte nobody wrote and
on the end of the block. -/
def readString : List Cell → Option (List UInt8)
  | [] => none
  | none :: _ => none
  | some b :: rest => if b = 0 then some [] else (readString rest).map (b :: ·)

/-- `strcat(block, s)`: the string goes over the terminator of the one that is there. -/
def strcat (block : List Cell) (s : CString) : Option (List Cell) :=
  (readString block).bind fun bs => sprintf block bs.length s

theorem readString_terminated (s : CString) (rest : List Cell) :
    readString (s.bytes.map some ++ some 0 :: rest) = some s.bytes := by
  obtain ⟨bytes, noNul⟩ := s
  induction bytes with
  | nil => simp [readString]
  | cons b bs ih =>
    simp only [List.mem_cons, not_or] at noNul
    have nonzero : b ≠ 0 := fun h => noNul.1 h.symm
    have tail := ih noNul.2
    simp only [List.map_cons, List.cons_append, readString, if_neg nonzero] at tail ⊢
    rw [tail]
    rfl

theorem store_append (front slack : List Cell) (bs : List UInt8) (fits : bs.length ≤ slack.length) :
    store (front ++ slack) front.length bs =
      some (front ++ bs.map some ++ slack.drop bs.length) := by
  have inside : front.length + bs.length ≤ (front ++ slack).length := by
    rw [List.length_append]
    omega
  rw [store, if_pos inside, List.take_left, List.drop_length_add_append]

theorem store_length {block block' : List Cell} {offset : Nat} {bs : List UInt8}
    (done : store block offset bs = some block') : block'.length = block.length := by
  unfold store at done
  split at done
  · cases done
    simp only [List.length_append, List.length_take, List.length_map, List.length_drop]
    omega
  · cases done

theorem realloc_length (block : List Cell) (n : Nat) : (realloc block n).length = n := by
  simp only [realloc, List.length_append, List.length_take, List.length_replicate]
  omega

/-- Writing past a known prefix keeps it and puts the new bytes right behind it. -/
theorem store_realloc (front : List Cell) (slack : List Cell) (n : Nat) (bs : List UInt8)
    (grows : front.length + slack.length ≤ n) (fits : front.length + bs.length ≤ n) :
    store (realloc (front ++ slack) n) front.length bs =
      some (front ++ bs.map some ++
        (realloc (front ++ slack) n).drop (front.length + bs.length)) := by
  have old : (front ++ slack).take n = front ++ slack :=
    List.take_of_length_le (by simpa using grows)
  have split : realloc (front ++ slack) n =
      front ++ (slack ++ List.replicate (n - (front ++ slack).length) none) := by
    rw [realloc, old, List.append_assoc]
  have room : bs.length ≤ (slack ++ List.replicate (n - (front ++ slack).length) none).length := by
    simp only [List.length_append, List.length_replicate]
    omega
  rw [split, store_append front _ bs room, List.drop_length_add_append]

theorem readString_map {bs : List UInt8} (ends : 0 ∈ bs) :
    readString (bs.map some) = some (CString.cut bs).bytes := by
  induction bs with
  | nil => cases ends
  | cons b bs ih =>
    by_cases nul : b = 0
    · simp [readString, CString.cut, nul]
    · have later : 0 ∈ bs := (List.mem_cons.mp ends).resolve_left fun same => nul same.symm
      rw [List.map_cons, readString, if_neg nul, ih later]
      simp [CString.cut, nul]

theorem readString_some {block : List Cell} {bs : List UInt8} (read : readString block = some bs) :
    0 ∉ bs ∧ ∃ rest, block = bs.map some ++ some 0 :: rest := by
  induction block generalizing bs with
  | nil => cases read
  | cons c block ih =>
    cases c with
    | none => cases read
    | some b =>
      rw [readString] at read
      split at read
      · rename_i nul
        cases read
        exact ⟨List.not_mem_nil, block, by rw [nul]; rfl⟩
      · rename_i nonzero
        obtain ⟨tail, later, rfl⟩ := Option.map_eq_some_iff.mp read
        obtain ⟨noNul, rest, rfl⟩ := ih later
        refine ⟨?_, rest, rfl⟩
        simp [noNul, eq_comm, nonzero]

theorem readString_unterminated {bs : List UInt8} (noNul : 0 ∉ bs) :
    readString (bs.map some) = none := by
  induction bs with
  | nil => rfl
  | cons b bs ih =>
    simp only [List.mem_cons, not_or] at noNul
    rw [List.map_cons, readString, if_neg fun nul => noNul.1 nul.symm, ih noNul.2]
    rfl

theorem realloc_string {block : List Cell} {bs : List UInt8} {n : Nat}
    (old : readString block = some bs) (kept : bs.length < n) :
    ∃ rest, realloc block n = bs.map some ++ some 0 :: rest := by
  obtain ⟨-, rest, rfl⟩ := readString_some old
  obtain ⟨m, rfl⟩ := Nat.exists_eq_add_of_lt kept
  have front : (bs.map some ++ some 0 :: rest).take ((bs.map some).length + (m + 1)) =
      bs.map some ++ (some 0 :: rest).take (m + 1) := List.take_length_add_append _
  rw [List.length_map] at front
  have slack : bs.length + m + 1 - (bs.map some ++ some 0 :: rest).length = m - rest.length := by
    rw [List.length_append, List.length_map, List.length_cons]
    omega
  refine ⟨realloc rest m, ?_⟩
  rw [realloc, slack, Nat.add_assoc, front, List.take_succ_cons, List.append_assoc,
    List.cons_append, realloc]

theorem strcat_length {block block' : List Cell} {s : CString} (done : strcat block s = some block') :
    block'.length = block.length := by
  obtain ⟨found, -, stored⟩ := Option.bind_eq_some_iff.mp done
  exact store_length stored

/-- Where the write fits, `strcat` after `realloc` puts its string behind the old one. -/
theorem strcat_string {block block' : List Cell} {bs : List UInt8} {n : Nat} {s : CString}
    (old : readString block = some bs) (done : strcat (realloc block n) s = some block') :
    readString block' = some (bs ++ s.bytes) := by
  obtain ⟨noNul, rest, shape⟩ := readString_some old
  obtain ⟨found, read, stored⟩ := Option.bind_eq_some_iff.mp done
  have kept : bs.length < n := by
    by_contra short
    have cut : realloc block n = (bs.take n).map some := by
      have gone : n - block.length = 0 := by
        rw [shape, List.length_append, List.length_map]
        omega
      rw [realloc, gone, List.replicate_zero, List.append_nil, shape, List.take_append_of_le_length
        (by rw [List.length_map]; omega), List.map_take]
    have unread := readString_unterminated fun nul : 0 ∈ bs.take n =>
      noNul (List.mem_of_mem_take nul)
    rw [cut, unread] at read
    cases read
  obtain ⟨rest, same⟩ := realloc_string old kept
  rw [same] at read stored
  cases (readString_terminated ⟨bs, noNul⟩ rest).symm.trans read
  unfold sprintf store at stored
  split at stored
  · cases stored
    have joined : bs.map some ++ (s.bytes ++ [0]).map some =
        (bs ++ s.bytes).map some ++ [some 0] := by simp
    have whole : 0 ∉ bs ++ s.bytes := by simp [noNul, s.noNul]
    rw [List.take_left' (List.length_map ..), joined, List.append_assoc]
    exact readString_terminated ⟨bs ++ s.bytes, whole⟩ _
  · cases stored

/-- It fits in a block with room for both strings and the terminator. -/
theorem strcat_fits {block : List Cell} {bs : List UInt8} {n : Nat} {s : CString}
    (old : readString block = some bs) (room : bs.length + s.length + 1 ≤ n) :
    ∃ block', strcat (realloc block n) s = some block' := by
  have kept : bs.length < n := by omega
  obtain ⟨rest, same⟩ := realloc_string old kept
  have read : readString (realloc block n) = some bs := by
    rw [same]
    exact readString_terminated ⟨bs, (readString_some old).1⟩ rest
  have inside : bs.length + (s.bytes ++ [0]).length ≤ (realloc block n).length := by
    rw [realloc_length, List.length_append]
    exact room
  rw [strcat, read, Option.bind_some, sprintf, store, if_pos inside]
  exact ⟨_, rfl⟩

/-- Why a read through a pointer is undefined. -/
inductive Fault where
  | null
  | outside (index size : Nat)
deriving DecidableEq, Repr

/-- A readable block, or NULL. -/
abbrev Pointer := Option (List UInt8)

/-- Copy `n` bytes from an offset. Copying nothing touches nothing. -/
def load (p : Pointer) (offset n : Nat) : Except Fault (List UInt8) :=
  if n = 0 then .ok []
  else match p with
    | none => .error .null
    | some block =>
      if offset + n ≤ block.length then .ok ((block.drop offset).take n)
      else .error (.outside (max offset block.length) block.length)

theorem load_length {p : Pointer} {offset n : Nat} {bs : List UInt8}
    (done : load p offset n = .ok bs) : bs.length = n := by
  unfold load at done
  split at done
  · rename_i zero
    cases done
    exact zero.symm
  · cases p with
    | none => cases done
    | some block =>
      dsimp only at done
      split at done
      · cases done
        rw [List.length_take, List.length_drop]
        omega
      · cases done

theorem load_whole (block : List UInt8) : load (some block) 0 block.length = .ok block := by
  unfold load
  split
  · rename_i empty
    rw [List.length_eq_zero_iff.mp empty]
  · simp

def loadByte (p : Pointer) (offset : Nat) : Except Fault UInt8 :=
  (load p offset 1).map fun bs => bs.headD 0

def littleEndian : List UInt8 → Nat
  | [] => 0
  | b :: bs => b.toNat + 256 * littleEndian bs

def loadUInt32 (p : Pointer) (offset : Nat) : Except Fault UInt32 :=
  (load p offset 4).map fun bs => UInt32.ofNat (littleEndian bs)

/-- Scan to the first NUL, checking every byte on the way. -/
def loadString (p : Pointer) (offset : Nat) : Except Fault CString :=
  match p with
  | none => .error .null
  | some block =>
    if 0 ∈ block.drop offset then .ok (CString.cut (block.drop offset))
    else .error (.outside (max offset block.length) block.length)

section Arrays

variable {α β : Type}

/-- A block as it is read: what was never written is whatever the memory held before. -/
def fill (junk : Nat → UInt8) : List Cell → List UInt8
  | [] => []
  | c :: cells => c.getD (junk 0) :: fill (fun i => junk (i + 1)) cells

@[simp] theorem fill_length (junk : Nat → UInt8) (cells : List Cell) :
    (fill junk cells).length = cells.length := by
  induction cells generalizing junk with
  | nil => rfl
  | cons c cells ih => rw [fill, List.length_cons, List.length_cons, ih]

theorem fill_append (junk : Nat → UInt8) (front cells : List Cell) :
    fill junk (front ++ cells) = fill junk front ++ fill (fun i => junk (i + front.length)) cells := by
  induction front generalizing junk with
  | nil => rfl
  | cons c front ih =>
    have shifted : (fun i => junk (i + front.length + 1)) =
        fun i => junk (i + (c :: front).length) := rfl
    rw [List.cons_append, fill, ih, fill, List.cons_append, shifted]

@[simp] theorem fill_written (junk : Nat → UInt8) (bs : List UInt8) : fill junk (bs.map some) = bs := by
  induction bs generalizing junk with
  | nil => rfl
  | cons b bs ih => rw [List.map_cons, fill, ih, Option.getD_some]

/- What is read depends on the old memory unless every cell was written. -/
theorem fill_const_iff {cells : List Cell} :
    (∀ junk junk', fill junk cells = fill junk' cells) ↔ ∀ c ∈ cells, c.isSome := by
  constructor
  · intro const
    have two := const (fun _ => 0) fun _ => 1
    clear const
    induction cells with
    | nil => simp
    | cons c cells ih =>
      obtain ⟨here, later⟩ := List.cons.inj two
      refine List.forall_mem_cons.mpr ⟨?_, ih later⟩
      cases c with
      | none => cases here
      | some b => rfl
  · intro written junk junk'
    induction cells generalizing junk junk' with
    | nil => rfl
    | cons c cells ih =>
      obtain ⟨first, rest⟩ := List.forall_mem_cons.mp written
      obtain ⟨b, rfl⟩ := Option.isSome_iff_exists.mp first
      rw [fill, fill, ih rest (fun i => junk (i + 1)) fun i => junk' (i + 1), Option.getD_some,
        Option.getD_some]

def elements (size : Nat) (decode : List UInt8 → α) (block : List UInt8) : List α :=
  (List.range (block.length / size)).map fun i => decode ((block.drop (size * i)).take size)

theorem elements_length (size : Nat) (decode : List UInt8 → α) (block : List UInt8) :
    (elements size decode block).length = block.length / size := by
  rw [elements, List.length_map, List.length_range]

theorem elements_cons {size : Nat} (positive : 0 < size) (decode : List UInt8 → α)
    {front : List UInt8} (whole : front.length = size) (rest : List UInt8) :
    elements size decode (front ++ rest) = decode front :: elements size decode rest := by
  have count : (front ++ rest).length / size = rest.length / size + 1 := by
    rw [List.length_append, whole, Nat.add_div_left _ positive]
  have later (i : Nat) : (front ++ rest).drop (size * (i + 1)) = rest.drop (size * i) := by
    rw [Nat.mul_succ, Nat.add_comm, ← List.drop_drop, List.drop_left' whole]
  rw [elements, count, List.range_succ_eq_map, List.map_cons, List.map_map]
  congr 1
  · rw [Nat.mul_zero, List.drop_zero, List.take_left' whole]
  · refine List.map_congr_left fun i _ => ?_
    rw [Function.comp_apply, later]

theorem array_length {size : Nat} {cells : β → List Cell} {items : List β}
    (sizes : ∀ a ∈ items, (cells a).length = size) :
    (items.flatMap cells).length = items.length * size := by
  induction items with
  | nil => rw [List.flatMap_nil, List.length_nil, List.length_nil, Nat.zero_mul]
  | cons a items ih =>
    have rest := ih fun b hb => sizes b (List.mem_cons_of_mem _ hb)
    rw [List.flatMap_cons, List.length_append, rest, sizes a List.mem_cons_self, List.length_cons,
      Nat.succ_mul, Nat.add_comm]

/-- An array is read back element by element. -/
theorem elements_fill {size : Nat} (positive : 0 < size) (decode : List UInt8 → α)
    (cells : β → List Cell) {items : List β} (sizes : ∀ a ∈ items, (cells a).length = size)
    (junk : Nat → UInt8) :
    List.Forall₂ (fun a e => ∃ junk, e = decode (fill junk (cells a))) items
      (elements size decode (fill junk (items.flatMap cells))) := by
  induction items generalizing junk with
  | nil =>
    have empty : elements size decode (fill junk ([].flatMap cells)) = [] :=
      List.length_eq_zero_iff.mp (by rw [elements_length, fill_length]; exact Nat.zero_div size)
    rw [empty]
    exact .nil
  | cons a items ih =>
    have whole : (fill junk (cells a)).length = size :=
      (fill_length _ _).trans (sizes a List.mem_cons_self)
    rw [List.flatMap_cons, fill_append, elements_cons positive decode whole]
    exact .cons ⟨junk, rfl⟩ (ih (fun b hb => sizes b (List.mem_cons_of_mem _ hb)) _)

end Arrays

end CMemory
