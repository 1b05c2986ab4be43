import Mathlib.Data.List.DropRight
import Mathlib.Data.Nat.Digits.Lemmas
import MoT.Lib.CMemory

/-! Text that is read line by line through a buffer, cut up in place, and settings that later
ones override. -/
namespace CMemory

abbrev newline : UInt8 := 10

/- `isspace` in the C locale. -/
def isBlank (c : UInt8) : Bool := c == 32 || (9 ≤ c && c ≤ 13)

/-- The lines of a text, each with the newline that ends it. -/
def lines : List UInt8 → List (List UInt8)
  | [] => []
  | b :: bs =>
    if b = newline then [b] :: lines bs
    else match lines bs with
      | [] => [[b]]
      | line :: rest => (b :: line) :: rest

/-- What a buffer of `n + 1` bytes holds after each `fgets`, when the next one may still
read `room` bytes more. -/
def piecesFrom (n : Nat) : Nat → List UInt8 → List (List UInt8)
  | _, [] => []
  | room, b :: bs =>
    if b = newline ∨ room ≤ 1 then [b] :: piecesFrom n n bs
    else match piecesFrom n (room - 1) bs with
      | [] => [[b]]
      | piece :: rest => (b :: piece) :: rest

def pieces (n : Nat) (text : List UInt8) : List (List UInt8) := piecesFrom n n text

theorem piecesFrom_line {n room : Nat} {line : List UInt8} (plain : newline ∉ line)
    (fits : line.length + 1 ≤ room) (rest : List UInt8) :
    piecesFrom n room (line ++ newline :: rest) = (line ++ [newline]) :: pieces n rest := by
  induction line generalizing room with
  | nil => rw [List.nil_append, piecesFrom, if_pos (.inl rfl), List.nil_append, pieces]
  | cons b line ih =>
    simp only [List.mem_cons, not_or] at plain
    rw [List.length_cons] at fits
    have more : ¬ (b = newline ∨ room ≤ 1) := by
      rintro (here | full)
      · exact plain.1 here.symm
      · omega
    have later := @ih (room - 1) plain.2 (by omega)
    rw [List.cons_append, piecesFrom, if_neg more, later, List.cons_append]

theorem pieces_line {n : Nat} {line : List UInt8} (plain : newline ∉ line)
    (fits : line.length + 1 ≤ n) (rest : List UInt8) :
    pieces n (line ++ newline :: rest) = (line ++ [newline]) :: pieces n rest :=
  piecesFrom_line plain fits rest

@[simp] theorem lines_eq_nil {text : List UInt8} : lines text = [] ↔ text = [] := by
  cases text with
  | nil => exact iff_of_true rfl rfl
  | cons b bs =>
    apply iff_of_false _ (List.cons_ne_nil b bs)
    rw [lines]
    split
    · exact List.cons_ne_nil _ _
    · split
      · exact List.cons_ne_nil _ _
      · exact List.cons_ne_nil _ _

theorem mem_lines {text line : List UInt8} (member : line ∈ lines text) :
    line ≠ [] ∧ line ⊆ text ∧ ∃ body, newline ∉ body ∧ (line = body ∨ line = body ++ [newline]) := by
  induction text generalizing line with
  | nil => cases member
  | cons b bs ih =>
    rw [lines] at member
    split at member
    · rename_i ends
      rcases List.mem_cons.mp member with rfl | later
      · exact ⟨List.cons_ne_nil _ _, by simp, [], by simp, .inr (by rw [ends]; rfl)⟩
      · obtain ⟨nonempty, inside, shape⟩ := ih later
        exact ⟨nonempty, List.subset_cons_of_subset b inside, shape⟩
    · rename_i goes
      split at member
      · cases List.mem_singleton.mp member
        exact ⟨List.cons_ne_nil _ _, by simp, [b], by simp [eq_comm, goes], .inl rfl⟩
      · rename_i first rest others
        rcases List.mem_cons.mp member with rfl | later
        · obtain ⟨-, inside, body, plain, shape⟩ := ih (others ▸ List.mem_cons_self)
          refine ⟨List.cons_ne_nil _ _, List.cons_subset_cons b inside, b :: body, ?_, ?_⟩
          · simp [plain, eq_comm, goes]
          · rcases shape with rfl | rfl
            · exact .inl rfl
            · exact .inr rfl
        · obtain ⟨nonempty, inside, shape⟩ := ih (others ▸ List.mem_cons_of_mem _ later)
          exact ⟨nonempty, List.subset_cons_of_subset b inside, shape⟩

theorem piecesFrom_eq_lines {n room : Nat} {text : List UInt8}
    (first : ∀ line ∈ (lines text).head?, line.length ≤ room)
    (fits : ∀ line ∈ (lines text).tail, line.length ≤ n) : piecesFrom n room text = lines text := by
  induction text generalizing room with
  | nil => rfl
  | cons b bs ih =>
    rw [lines] at first fits ⊢
    rw [piecesFrom]
    by_cases ends : b = newline
    · rw [if_pos ends] at first fits ⊢
      rw [if_pos (.inl ends)]
      have later : piecesFrom n n bs = lines bs := by
        apply ih
        · exact fun line head => fits line (List.mem_of_mem_head? head)
        · exact fun line rest => fits line (List.mem_of_mem_tail rest)
      rw [later]
    · rw [if_neg ends] at first fits ⊢
      cases rest : lines bs with
      | nil =>
        simp [lines_eq_nil.mp rest, piecesFrom]
      | cons line others =>
        have positive := List.length_pos_of_ne_nil
          (mem_lines (rest ▸ List.mem_cons_self : line ∈ lines bs)).1
        rw [rest] at first fits ih
        have length : line.length + 1 ≤ room := first (b :: line) rfl
        have more : ¬ (b = newline ∨ room ≤ 1) := by
          rintro (here | full)
          · exact ends here
          · omega
        have later : piecesFrom n (room - 1) bs = line :: others := by
          apply ih
          · rintro first ⟨⟩
            omega
          · exact fits
        rw [if_neg more, later]

/-- A buffer as long as every line holds the lines one by one. -/
theorem pieces_eq_lines {n : Nat} {text : List UInt8} (fits : ∀ line ∈ lines text, line.length ≤ n) :
    pieces n text = lines text :=
  piecesFrom_eq_lines (fun line head => fits line (List.mem_of_mem_head? head))
    fun line rest => fits line (List.mem_of_mem_tail rest)

theorem piecesFrom_ne_nil (n room : Nat) {text : List UInt8} (nonempty : text ≠ []) :
    piecesFrom n room text ≠ [] := by
  cases text with
  | nil => exact absurd rfl nonempty
  | cons b bs =>
    rw [piecesFrom]
    split
    · exact List.cons_ne_nil _ _
    · split
      · exact List.cons_ne_nil _ _
      · exact List.cons_ne_nil _ _

/- Each line is cut up for itself; the first one may have begun before. -/
theorem piecesFrom_lines {n room : Nat} {text line : List UInt8} {rest : List (List UInt8)}
    (split : lines text = line :: rest) :
    piecesFrom n room text = piecesFrom n room line ++ rest.flatMap (pieces n) := by
  induction text generalizing line rest room with
  | nil => cases split
  | cons b bs ih =>
    rw [lines] at split
    by_cases ends : b = newline
    · rw [if_pos ends] at split
      cases split
      rw [piecesFrom, if_pos (.inl ends), piecesFrom, if_pos (.inl ends)]
      cases more : lines bs with
      | nil =>
        cases lines_eq_nil.mp more
        rfl
      | cons first others =>
        rw [ih more, List.flatMap_cons]
        rfl
    · rw [if_neg ends] at split
      cases more : lines bs with
      | nil =>
        rw [more] at split
        cases split
        cases lines_eq_nil.mp more
        exact (List.append_nil _).symm
      | cons first others =>
        rw [more] at split
        cases split
        by_cases full : room ≤ 1
        · rw [piecesFrom, if_pos (.inr full), piecesFrom, if_pos (.inr full), ih more]
          rfl
        · rw [piecesFrom, if_neg (not_or.mpr ⟨ends, full⟩), piecesFrom,
            if_neg (not_or.mpr ⟨ends, full⟩), ih more]
          have nonempty := (mem_lines (more ▸ List.mem_cons_self : first ∈ lines bs)).1
          obtain ⟨piece, later, cut⟩ :=
            List.exists_cons_of_ne_nil (piecesFrom_ne_nil n (room - 1) nonempty)
          rw [cut]
          rfl

theorem pieces_lines (n : Nat) (text : List UInt8) :
    pieces n text = (lines text).flatMap (pieces n) := by
  cases split : lines text with
  | nil =>
    cases lines_eq_nil.mp split
    rfl
  | cons line rest => exact piecesFrom_lines split

def strip (bs : List UInt8) : List UInt8 := (bs.dropWhile isBlank).rdropWhile isBlank

theorem strip_subset (bs : List UInt8) : strip bs ⊆ bs :=
  List.Subset.trans (List.rdropWhile_prefix isBlank _).subset (List.dropWhile_sublist isBlank).subset

theorem strip_blank_append {front : List UInt8} (blank : ∀ b ∈ front, isBlank b = true)
    (bs : List UInt8) : strip (front ++ bs) = strip bs := by
  rw [strip, List.dropWhile_append_of_pos blank, strip]

theorem strip_append_blank (bs : List UInt8) {back : List UInt8}
    (blank : ∀ b ∈ back, isBlank b = true) : strip (bs ++ back) = strip bs := by
  induction back using List.reverseRecOn with
  | nil => rw [List.append_nil]
  | append_singleton back b ih =>
    have last : isBlank b = true := blank b (by simp)
    rw [← List.append_assoc, ← ih fun c member => blank c (List.mem_append_left _ member), strip,
      List.dropWhile_append, strip]
    split
    · rename_i empty
      rw [List.isEmpty_iff.mp empty, List.dropWhile_cons_of_pos last, List.dropWhile_nil]
    · exact List.rdropWhile_concat_pos _ _ _ last

theorem strip_solid {bs : List UInt8} (nonempty : bs ≠ [])
    (first : isBlank (bs.head nonempty) = false) (last : isBlank (bs.getLast nonempty) = false) :
    strip bs = bs := by
  have start : bs.dropWhile isBlank = bs := by
    cases bs with
    | nil => rfl
    | cons b bs => exact List.dropWhile_cons_of_neg (by simpa using first)
  rw [strip, start]
  exact List.rdropWhile_eq_self_iff.mpr fun _ => by simp [last]

namespace CString

/-- A string made of bytes of another one. -/
def part (s : CString) (bytes : List UInt8) (inside : bytes ⊆ s.bytes) : CString :=
  ⟨bytes, fun nul => s.noNul (inside nul)⟩

@[simp] theorem part_bytes (s : CString) (bytes : List UInt8) (inside : bytes ⊆ s.bytes) :
    (s.part bytes inside).bytes = bytes := rfl

def trim (s : CString) : CString := s.part (strip s.bytes) (strip_subset s.bytes)

def skip (p : UInt8 → Bool) (s : CString) : CString :=
  s.part (s.bytes.dropWhile p) (List.dropWhile_sublist p).subset

def advance (n : Nat) (s : CString) : CString :=
  s.part (s.bytes.drop n) (List.drop_sublist n s.bytes).subset

def span (p : UInt8 → Bool) (s : CString) : CString :=
  s.part (s.bytes.takeWhile p) (List.takeWhile_sublist p).subset

/-- `strtok`: the token, and where the next call goes on. Delimiters at the start are skipped,
and there is no empty token. -/
def strtok (delim : UInt8) (s : CString) : Option (CString × CString) :=
  let start := s.skip (· == delim)
  let token := start.span (· != delim)
  if token.bytes = [] then none else some (token, start.advance (token.length + 1))

@[simp] theorem trim_bytes (s : CString) : s.trim.bytes = strip s.bytes := rfl
@[simp] theorem skip_bytes (p : UInt8 → Bool) (s : CString) :
    (s.skip p).bytes = s.bytes.dropWhile p := rfl
@[simp] theorem advance_bytes (n : Nat) (s : CString) : (s.advance n).bytes = s.bytes.drop n := rfl
@[simp] theorem span_bytes (p : UInt8 → Bool) (s : CString) :
    (s.span p).bytes = s.bytes.takeWhile p := rfl

theorem skip_of_head {p : UInt8 → Bool} {s : CString} (first : ∀ b ∈ s.bytes.head?, p b = false) :
    s.skip p = s := by
  apply CString.ext
  rw [skip_bytes]
  cases bytes : s.bytes with
  | nil => rfl
  | cons b bs =>
    rw [bytes] at first
    exact List.dropWhile_cons_of_neg (by simp [first b rfl])

theorem strtok_none {delim : UInt8} {s : CString} (all : ∀ b ∈ s.bytes, b = delim) :
    s.strtok delim = none := by
  have start : (s.skip (· == delim)).bytes = [] :=
    List.dropWhile_eq_nil_iff.mpr fun b member => by simp [all b member]
  rw [strtok, if_pos (by rw [span_bytes, start]; rfl)]

/- The first token ends at the first delimiter, or with the string. -/
theorem strtok_token {delim : UInt8} {s : CString} {token rest : List UInt8}
    (nonempty : token ≠ []) (plain : delim ∉ token)
    (bytes : s.bytes = token ++ delim :: rest ∨ s.bytes = token ∧ rest = []) :
    ∃ t r, s.strtok delim = some (t, r) ∧ t.bytes = token ∧ r.bytes = rest := by
  have others : ∀ b ∈ token, (b != delim) = true := fun b member => by
    simpa using ne_of_mem_of_not_mem member plain
  have stays : s.skip (· == delim) = s := by
    apply skip_of_head
    intro b head
    have member : b ∈ token := by
      cases token with
      | nil => exact absurd rfl nonempty
      | cons c token =>
        rcases bytes with split | ⟨whole, -⟩
        · rw [split] at head
          cases head
          exact List.mem_cons_self
        · rw [whole] at head
          cases head
          exact List.mem_cons_self
    simpa using others b member
  have found : (s.span (· != delim)).bytes = token := by
    rw [span_bytes]
    rcases bytes with split | ⟨whole, -⟩
    · rw [split, List.takeWhile_append_of_pos others, List.takeWhile_cons_of_neg (by simp),
        List.append_nil]
    · rw [whole]
      exact List.takeWhile_eq_self_iff.mpr others
  have size : (s.span (· != delim)).length = token.length := congrArg List.length found
  refine ⟨s.span (· != delim), s.advance (token.length + 1), ?_, found, ?_⟩
  · have some : (s.span (· != delim)).bytes ≠ [] := found.symm ▸ nonempty
    simp only [strtok, stays, if_neg some, size]
  · rw [advance_bytes]
    rcases bytes with split | ⟨whole, rfl⟩
    · rw [split, List.drop_length_add_append]
      rfl
    · rw [whole]
      exact List.drop_of_length_le (Nat.le_add_right _ _)

end CString

/-- A part of a text, and where it starts. -/
structure Stretch where
  start : Nat
  bytes : List UInt8
deriving DecidableEq

/-- What is between the delimiters of a text that starts at `i`, empty stretches included. -/
def stretches (delim : UInt8) : Nat → List UInt8 → List Stretch
  | i, [] => [⟨i, []⟩]
  | i, b :: bs =>
    if b = delim then ⟨i, []⟩ :: stretches delim (i + 1) bs
    else (stretches delim (i + 1) bs).modifyHead fun first => ⟨i, b :: first.bytes⟩

def tokens (delim : UInt8) (i : Nat) (bs : List UInt8) : List Stretch :=
  (stretches delim i bs).filter fun t => t.bytes ≠ []

theorem stretches_ne_nil (delim : UInt8) (i : Nat) (bs : List UInt8) : stretches delim i bs ≠ [] := by
  induction bs generalizing i with
  | nil => exact List.cons_ne_nil _ _
  | cons b bs ih =>
    rw [stretches]
    split
    · exact List.cons_ne_nil _ _
    · simpa using ih (i + 1)

/- A delimiter cuts a text in two that have nothing to do with each other. -/
theorem stretches_append (delim : UInt8) (i : Nat) (front back : List UInt8) :
    stretches delim i (front ++ delim :: back) =
      stretches delim i front ++ stretches delim (i + front.length + 1) back := by
  induction front generalizing i with
  | nil => simp [stretches]
  | cons b front ih =>
    have size : i + (b :: front).length + 1 = i + 1 + front.length + 1 := by
      rw [List.length_cons]
      omega
    rw [List.cons_append, stretches, stretches, ih, size]
    split
    · rw [List.cons_append]
    · cases first : stretches delim (i + 1) front with
      | nil => exact absurd first (stretches_ne_nil delim (i + 1) front)
      | cons s rest => rfl

theorem tokens_append (delim : UInt8) (i : Nat) (front back : List UInt8) :
    tokens delim i (front ++ delim :: back) =
      tokens delim i front ++ tokens delim (i + front.length + 1) back := by
  rw [tokens, stretches_append, List.filter_append, tokens, tokens]

@[simp] theorem tokens_nil (delim : UInt8) (i : Nat) : tokens delim i [] = [] := rfl

theorem tokens_skip {delim : UInt8} {front : List UInt8} (all : ∀ b ∈ front, b = delim) (i : Nat)
    (bs : List UInt8) : tokens delim i (front ++ bs) = tokens delim (i + front.length) bs := by
  induction front generalizing i with
  | nil => rfl
  | cons b front ih =>
    have first := all b List.mem_cons_self
    have rest := ih (fun c member => all c (List.mem_cons_of_mem _ member)) (i + 1)
    have size : i + (b :: front).length = i + 1 + front.length := by
      rw [List.length_cons]
      omega
    rw [first, List.cons_append, ← List.nil_append (delim :: _), tokens_append, tokens_nil,
      List.nil_append, List.length_nil, Nat.add_zero, rest, ← first, size]

theorem tokens_plain {delim : UInt8} {token : List UInt8} (nonempty : token ≠ [])
    (plain : delim ∉ token) (i : Nat) : tokens delim i token = [⟨i, token⟩] := by
  have whole : stretches delim i token = [⟨i, token⟩] := by
    clear nonempty
    induction token generalizing i with
    | nil => rfl
    | cons b token ih =>
      simp only [List.mem_cons, not_or] at plain
      rw [stretches, if_neg fun same => plain.1 same.symm, ih plain.2, List.modifyHead_cons]
  rw [tokens, whole, List.filter_cons_of_pos (by simpa using nonempty), List.filter_nil]

theorem tokens_sorted (delim : UInt8) (i : Nat) (bs : List UInt8) :
    (tokens delim i bs).Pairwise fun t u => t.start < u.start := by
  have sorted : (∀ t ∈ stretches delim i bs, i ≤ t.start) ∧
      (stretches delim i bs).Pairwise fun t u => t.start < u.start := by
    induction bs generalizing i with
    | nil => simp [stretches]
    | cons b bs ih =>
      obtain ⟨least, rest⟩ := ih (i + 1)
      rw [stretches]
      split
      · constructor
        · intro t member
          rcases List.mem_cons.mp member with rfl | later
          · exact Nat.le_refl _
          · have := least t later
            omega
        · exact List.pairwise_cons.mpr ⟨least, rest⟩
      · cases first : stretches delim (i + 1) bs with
        | nil => exact absurd first (stretches_ne_nil delim (i + 1) bs)
        | cons s others =>
          rw [first] at least rest
          obtain ⟨after, rest⟩ := List.pairwise_cons.mp rest
          have here := least s List.mem_cons_self
          rw [List.modifyHead_cons]
          constructor
          · intro t member
            rcases List.mem_cons.mp member with rfl | later
            · exact Nat.le_refl _
            · have := least t (List.mem_cons_of_mem _ later)
              omega
          · refine List.pairwise_cons.mpr ⟨?_, rest⟩
            intro t member
            have := after t member
            simp only
            omega
  exact sorted.2.filter _

theorem tokens_first {delim : UInt8} {bs : List UInt8} (nonempty : bs.takeWhile (· != delim) ≠ [])
    (i : Nat) : tokens delim i bs = ⟨i, bs.takeWhile (· != delim)⟩ ::
      tokens delim (i + (bs.takeWhile (· != delim)).length + 1)
        (bs.drop ((bs.takeWhile (· != delim)).length + 1)) := by
  have plain : delim ∉ bs.takeWhile (· != delim) := fun member => by
    simpa using List.mem_takeWhile_imp member
  have whole := List.takeWhile_append_dropWhile (p := (· != delim)) (l := bs)
  generalize bs.takeWhile (· != delim) = token at *
  cases after : bs.dropWhile (· != delim) with
  | nil =>
    rw [after, List.append_nil] at whole
    rw [← whole, tokens_plain nonempty plain, List.drop_of_length_le (Nat.le_add_right _ _),
      tokens_nil]
  | cons c tail =>
    have ends : c = delim := by
      have head := List.head?_dropWhile_not (· != delim) bs
      rw [after] at head
      simpa using head
    rw [after, ends] at whole
    rw [← whole, tokens_append, tokens_plain nonempty plain, List.drop_length_add_append]
    rfl

theorem tokens_strtok_none {delim : UInt8} {s : CString} (done : s.strtok delim = none) (i : Nat) :
    tokens delim i s.bytes = [] := by
  have empty : (s.bytes.dropWhile (· == delim)).takeWhile (· != delim) = [] := by
    rw [CString.strtok] at done
    split at done
    · assumption
    · cases done
  have all : ∀ b ∈ s.bytes, b = delim := by
    have head := List.head?_dropWhile_not (· == delim) s.bytes
    cases rest : s.bytes.dropWhile (· == delim) with
    | nil => simpa using List.dropWhile_eq_nil_iff.mp rest
    | cons c tail =>
      rw [rest] at empty head
      rw [List.takeWhile_cons_of_pos (by simpa using head)] at empty
      cases empty
  have skipped := tokens_skip all i []
  rwa [List.append_nil, tokens_nil] at skipped

theorem tokens_strtok_some {delim : UInt8} {s token rest : CString}
    (found : s.strtok delim = some (token, rest)) (i : Nat) :
    tokens delim i s.bytes =
      ⟨i + (s.bytes.takeWhile (· == delim)).length, token.bytes⟩ ::
        tokens delim (i + (s.bytes.takeWhile (· == delim)).length + token.length + 1) rest.bytes := by
  rw [CString.strtok] at found
  split at found
  · cases found
  · rename_i nonempty
    cases found
    have delims : ∀ b ∈ s.bytes.takeWhile (· == delim), b = delim := fun b member => by
      simpa using List.mem_takeWhile_imp member
    have skipped := tokens_skip delims i (s.bytes.dropWhile (· == delim))
    rw [List.takeWhile_append_dropWhile] at skipped
    rw [skipped]
    exact tokens_first nonempty _

def digitByte (d : Nat) : UInt8 := UInt8.ofNat (48 + d)

/- `%u` -/
def printNat (n : Nat) : List UInt8 :=
  if n = 0 then [digitByte 0] else (Nat.digits 10 n).reverse.map digitByte

/- `%d` -/
def printInt (i : Int) : List UInt8 :=
  if i < 0 then 45 :: printNat i.natAbs else printNat i.natAbs

def isDigit (c : UInt8) : Bool := 48 ≤ c && c ≤ 57

def scanNat (bs : List UInt8) : Nat :=
  (bs.takeWhile isDigit).foldl (fun n c => 10 * n + (c.toNat - 48)) 0

/- `strtol` in base 10, which stops at the limits of a `long`. -/
def strtol (bs : List UInt8) : Int :=
  let clamp (i : Int) : Int := max (-2 ^ 63) (min i (2 ^ 63 - 1))
  match bs.dropWhile isBlank with
  | [] => 0
  | c :: rest =>
    if c = 45 then clamp (-scanNat rest)
    else if c = 43 then clamp (scanNat rest)
    else clamp (scanNat (c :: rest))

/- `atoi`: the `long` cut down to an `int`. -/
def atoi (s : CString) : Int := (strtol s.bytes).bmod (2 ^ 32)

theorem digitByte_toNat {d : Nat} (digit : d < 10) : (digitByte d).toNat = 48 + d := by
  rw [digitByte, UInt8.toNat_ofNat']
  omega

theorem isDigit_digitByte {d : Nat} (digit : d < 10) : isDigit (digitByte d) = true := by
  have value := digitByte_toNat digit
  simp only [isDigit, Bool.and_eq_true, decide_eq_true_eq, UInt8.le_iff_toNat_le, value]
  exact ⟨by simp, by simp; omega⟩

theorem printNat_ne_nil (n : Nat) : printNat n ≠ [] := by
  rw [printNat]
  split
  · exact List.cons_ne_nil _ _
  · rename_i positive
    simpa [Nat.digits_eq_nil_iff_eq_zero] using positive

theorem mem_printNat {n : Nat} {c : UInt8} (member : c ∈ printNat n) :
    ∃ d, d < 10 ∧ c = digitByte d := by
  rw [printNat] at member
  split at member
  · exact ⟨0, by decide, List.mem_singleton.mp member⟩
  · obtain ⟨d, digit, rfl⟩ := List.mem_map.mp member
    exact ⟨d, Nat.digits_lt_base (by decide) (List.mem_reverse.mp digit), rfl⟩

theorem scanNat_printNat (n : Nat) : scanNat (printNat n) = n := by
  have digits : (printNat n).takeWhile isDigit = printNat n := by
    apply List.takeWhile_eq_self_iff.mpr
    intro c member
    obtain ⟨d, digit, rfl⟩ := mem_printNat member
    exact isDigit_digitByte digit
  have values : ∀ ds : List Nat, (∀ d ∈ ds, d < 10) →
      (ds.reverse.map digitByte).foldl (fun n c => 10 * n + (c.toNat - 48)) 0 = Nat.ofDigits 10 ds := by
    intro ds small
    induction ds with
    | nil => rfl
    | cons d ds ih =>
      have value := digitByte_toNat (small d List.mem_cons_self)
      rw [List.reverse_cons, List.map_append, List.foldl_append,
        ih fun e member => small e (List.mem_cons_of_mem _ member), Nat.ofDigits_cons]
      simp only [List.map_cons, List.map_nil, List.foldl_cons, List.foldl_nil, value]
      simp
      omega
  rw [scanNat, digits, printNat]
  split
  · rename_i zero
    rw [zero]
    rfl
  · rw [values _ fun d member => Nat.digits_lt_base (by decide) member, Nat.ofDigits_digits]

theorem printInt_ne_nil (i : Int) : printInt i ≠ [] := by
  rw [printInt]
  split
  · exact List.cons_ne_nil _ _
  · exact printNat_ne_nil _

theorem mem_printInt {i : Int} {c : UInt8} (member : c ∈ printInt i) :
    c = 45 ∨ ∃ d, d < 10 ∧ c = digitByte d := by
  rw [printInt] at member
  split at member
  · rcases List.mem_cons.mp member with minus | digit
    · exact .inl minus
    · exact .inr (mem_printNat digit)
  · exact .inr (mem_printNat member)

theorem isBlank_printInt {i : Int} {c : UInt8} (member : c ∈ printInt i) : isBlank c = false := by
  rcases mem_printInt member with rfl | ⟨d, digit, rfl⟩
  · decide
  · have value := digitByte_toNat digit
    have large : 48 ≤ (digitByte d).toNat := by omega
    simp only [isBlank, Bool.or_eq_false_iff, beq_eq_false_iff_ne, ne_eq, Bool.and_eq_false_iff,
      decide_eq_false_iff_not, UInt8.le_iff_toNat_le, ← UInt8.toNat_inj]
    simp
    omega

theorem newline_printInt (i : Int) : newline ∉ printInt i := fun member =>
  absurd (isBlank_printInt member) (by decide)

theorem nul_printInt (i : Int) : 0 ∉ printInt i := by
  intro member
  rcases mem_printInt member with minus | ⟨d, digit, nul⟩
  · exact absurd minus (by decide)
  · have value := digitByte_toNat digit
    rw [← nul] at value
    simp at value
    omega

theorem printInt_length {i : Int} (low : -2 ^ 31 ≤ i) (high : i < 2 ^ 31) :
    (printInt i).length ≤ 11 := by
  have digits : (printNat i.natAbs).length ≤ 10 := by
    rw [printNat]
    split
    · simp
    · rw [List.length_map, List.length_reverse, Nat.digits_length_le_iff (by decide)]
      omega
  rw [printInt]
  split
  · rw [List.length_cons]
    omega
  · omega

/-- `atoi` reads back every `int` that `%d` printed. -/
theorem atoi_printInt {i : Int} (low : -2 ^ 31 ≤ i) (high : i < 2 ^ 31) {s : CString}
    (printed : s.bytes = printInt i) : atoi s = i := by
  have read : strtol (printInt i) = i := by
    have start : (printInt i).dropWhile isBlank = printInt i := by
      cases bytes : printInt i with
      | nil => rfl
      | cons c rest =>
        have visible : isBlank c = false := isBlank_printInt (i := i) (bytes ▸ List.mem_cons_self)
        exact List.dropWhile_cons_of_neg (by simp [visible])
    rw [strtol, start]
    by_cases negative : i < 0
    · have minus : printInt i = 45 :: printNat i.natAbs := if_pos negative
      simp only [minus, scanNat_printNat, if_true]
      omega
    · have plain : printInt i = printNat i.natAbs := if_neg negative
      cases bytes : printNat i.natAbs with
      | nil => exact absurd bytes (printNat_ne_nil _)
      | cons c rest =>
        obtain ⟨d, digit, shape⟩ := mem_printNat (bytes ▸ List.mem_cons_self : c ∈ printNat i.natAbs)
        have value := digitByte_toNat digit
        have sign : c ≠ 45 ∧ c ≠ 43 := by
          constructor
          · rintro rfl
            rw [← shape] at value
            simp at value
            omega
          · rintro rfl
            rw [← shape] at value
            simp at value
            omega
        simp only [plain, bytes, if_neg sign.1, if_neg sign.2]
        rw [← bytes, scanNat_printNat]
        omega
  rw [atoi, printed, read]
  exact Int.bmod_eq_of_le (by simp; omega) (by simp; omega)

/- `strncpy(dst, s, n - 1)` into an array of `n` bytes. -/
def strncpyInto {n : Nat} (s : CString) (dst : List.Vector UInt8 n) : List.Vector UInt8 n :=
  ⟨(strncpy (n - 1) s).toList ++ dst.toList.drop (n - 1), by simp⟩

theorem strncpyInto_front {n : Nat} (s : CString) (dst : List.Vector UInt8 n) :
    (strncpyInto s dst).toList.take (n - 1) = (strncpy (n - 1) s).toList :=
  List.take_left' (List.Vector.toList_length _)

theorem strncpyInto_last {n : Nat} (s : CString) (dst : List.Vector UInt8 n) :
    (strncpyInto s dst).toList.drop (n - 1) = dst.toList.drop (n - 1) :=
  List.drop_left' (List.Vector.toList_length _)

theorem strncpy_toList (n : Nat) (s : CString) :
    (strncpy n s).toList = s.bytes.take n ++ List.replicate (n - s.bytes.length) 0 := by
  change (s.bytes ++ List.replicate n 0).take n = _
  rw [List.take_append, List.take_replicate, Nat.min_eq_left (Nat.sub_le _ _)]

theorem strncpy_short {n : Nat} {s : CString} (short : s.length < n) :
    ∃ fill, (strncpy n s).toList = s.bytes ++ 0 :: fill := by
  have whole : s.bytes.take n = s.bytes := List.take_of_length_le (Nat.le_of_lt short)
  obtain ⟨k, slack⟩ : ∃ k, n - s.bytes.length = k + 1 := ⟨n - s.bytes.length - 1, by
    rw [CString.length] at short
    omega⟩
  exact ⟨List.replicate k 0, by rw [strncpy_toList, whole, slack, List.replicate_succ]⟩

/- `dst[0] = '\0'` -/
def clearFirst {n : Nat} (dst : List.Vector UInt8 n) : List.Vector UInt8 n :=
  ⟨dst.toList.set 0 0, by simp⟩

theorem clearFirst_front {n m : Nat} (positive : 0 < m) (fits : m ≤ n) (dst : List.Vector UInt8 n) :
    ∃ rest, (clearFirst dst).toList.take m = 0 :: rest := by
  have length : dst.toList.length = n := List.Vector.toList_length _
  change ∃ rest, (dst.toList.set 0 0).take m = 0 :: rest
  cases bytes : dst.toList with
  | nil =>
    rw [bytes, List.length_nil] at length
    omega
  | cons b bs =>
    obtain ⟨k, rfl⟩ : ∃ k, m = k + 1 := ⟨m - 1, by omega⟩
    exact ⟨bs.take k, rfl⟩

theorem clearFirst_last {n m : Nat} (positive : 0 < m) (dst : List.Vector UInt8 n) :
    (clearFirst dst).toList.drop m = dst.toList.drop m :=
  List.drop_set_of_lt positive

def clearLast {n : Nat} (dst : List.Vector UInt8 n) : List.Vector UInt8 n :=
  ⟨dst.toList.set (n - 1) 0, by simp⟩

/- `strncpy` leaves a string in the array when its last byte is then cleared. -/
theorem fieldString_clearLast {n : Nat} (positive : 0 < n) (s : CString) :
    fieldString (clearLast (strncpy n s)) = s.truncate (n - 1) := by
  obtain ⟨n, rfl⟩ := Nat.exists_eq_succ_of_ne_zero (Nat.pos_iff_ne_zero.mp positive)
  have size : (strncpy (n + 1) s).toList.length = n + 1 := List.Vector.toList_length _
  have front : (strncpy (n + 1) s).toList.take n = (strncpy n s).toList := by
    change ((s.bytes ++ List.replicate (n + 1) 0).take (n + 1)).take n =
      (s.bytes ++ List.replicate n 0).take n
    rw [List.take_take, Nat.min_eq_left (Nat.le_succ n), List.replicate_succ', ← List.append_assoc]
    exact List.take_append_of_le_length (by simp)
  have cleared : (clearLast (strncpy (n + 1) s)).toList = (strncpy n s).toList ++ [0] := by
    change (strncpy (n + 1) s).toList.set n 0 = _
    rw [List.set_eq_take_append_cons_drop, if_pos (by omega), front,
      List.drop_of_length_le (by omega)]
  rw [fieldString, cleared, CString.cut_append_zero]
  exact fieldString_strncpy n s

section Settings

variable {σ κ β γ : Type} [DecidableEq κ]

/-- The value that a list of settings gives a key in the end. -/
def lastSet (k : κ) (settings : List (κ × β)) : Option β :=
  ((settings.filter fun a => a.1 = k).map Prod.snd).getLast?

theorem lastSet_append_other (settings : List (κ × β)) {k : κ} {a : κ × β} (other : a.1 ≠ k) :
    lastSet k (settings ++ [a]) = lastSet k settings := by
  simp [lastSet, List.filter_append, other]

theorem lastSet_append_own (settings : List (κ × β)) (k : κ) (v : β) :
    lastSet k (settings ++ [(k, v)]) = some v := by
  simp [lastSet, List.filter_append]

theorem lastSet_filter (p : κ × β → Bool) (k : κ) (settings : List (κ × β))
    (kept : ∀ v ∈ lastSet k settings, p (k, v) = true) :
    lastSet k (settings.filter p) = lastSet k settings := by
  induction settings using List.reverseRecOn with
  | nil => rfl
  | append_singleton settings a ih =>
    obtain ⟨j, v⟩ := a
    by_cases here : j = k
    · subst here
      have stays : p (j, v) = true := kept v (lastSet_append_own settings j v)
      rw [List.filter_append, List.filter_cons_of_pos stays, List.filter_nil, lastSet_append_own,
        lastSet_append_own]
    · rw [lastSet_append_other settings here] at kept ⊢
      rw [← ih kept, List.filter_append]
      by_cases stays : p (j, v) = true
      · rw [List.filter_cons_of_pos stays, List.filter_nil, lastSet_append_other _ here]
      · rw [List.filter_cons_of_neg stays, List.filter_nil, List.append_nil]

/-- Where each setting overwrites what its key stands for and leaves the rest, the last one
counts. -/
theorem foldl_lastSet (set : σ → κ × β → σ) (get : σ → γ) (value : β → γ) {k : κ}
    (other : ∀ s a, a.1 ≠ k → get (set s a) = get s) (own : ∀ s v, get (set s (k, v)) = value v)
    (settings : List (κ × β)) (s : σ) :
    get (settings.foldl set s) = ((lastSet k settings).map value).getD (get s) := by
  induction settings using List.reverseRecOn with
  | nil => rfl
  | append_singleton settings a ih =>
    rw [List.foldl_append, List.foldl_cons, List.foldl_nil]
    obtain ⟨j, v⟩ := a
    by_cases here : j = k
    · subst here
      rw [own, lastSet_append_own]
      rfl
    · rw [other _ _ here, ih, lastSet_append_other settings here]

end Settings

end CMemory
