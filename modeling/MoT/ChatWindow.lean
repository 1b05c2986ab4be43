import MoT.ChatBuffer
import MoT.Lib.Text

/-! The lines of the open chat on the screen. The screen is filled from the oldest line on, so
the newest one is missing as soon as there are more lines than rows. -/
namespace MoT
open CMemory

structure DrawnLine where
  row : Int
  line : Stretch
  highlighted : Bool
deriving DecidableEq

abbrev tempHistLen : Nat := 16384

/- The copy that is cut up: the last byte of the array ends it. -/
def tempHist (history : CString) : CString :=
  fieldString (clearLast (strncpy tempHistLen history))

def drawLine (row : Int) (line : Stretch) : DrawnLine :=
  ⟨row, line, line.bytes.take 3 = (CString.lit "Me:").bytes⟩

/- The loop with `strtok`, which goes on at `saved` in the copy. -/
def drawLines (height row : Int) (saved : Nat) (rest : CString) : List DrawnLine :=
  match rest.strtok newline with
  | none => []
  | some (line, after) =>
    if row < height - 3 then
      let start := saved + (rest.bytes.takeWhile (· == newline)).length
      drawLine row ⟨start, line.bytes⟩ ::
        drawLines height (row + 1) (start + line.length + 1) after
    else []
termination_by (height - 3 - row).toNat

def uiDrawChat (height : Int) (history : CString) : List DrawnLine :=
  drawLines height 3 0 (tempHist history)

/-- The lines of a history that are not empty, with their places. -/
def historyLines (history : CString) : List Stretch := tokens newline 0 history.bytes

theorem tempHist_eq (history : CString) : tempHist history = history.truncate (tempHistLen - 1) :=
  fieldString_clearLast (by decide) history

/-- The rows from the first one down get the lines from the oldest one on. -/
theorem drawLines_eq (height row : Int) (saved : Nat) (rest : CString) :
    drawLines height row saved rest =
      ((tokens newline saved rest.bytes).take (height - 3 - row).toNat).mapIdx
        fun i line => drawLine (row + i) line := by
  fun_induction drawLines height row saved rest with
  | case1 row saved rest done => rw [tokens_strtok_none done]; simp
  | case2 row saved rest line after found room start ih =>
    have rows : (height - 3 - row).toNat = (height - 3 - (row + 1)).toNat + 1 := by omega
    have below : (fun (i : Nat) line => drawLine (row + 1 + i) line) =
        fun i line => drawLine (row + (i + 1 : Nat)) line := by
      funext i line
      congr 1
      omega
    rw [tokens_strtok_some found, rows, List.take_succ_cons, List.mapIdx_cons, ih, below]
    simp [start]
  | case3 row saved rest line after found full =>
    have rows : (height - 3 - row).toNat = 0 := by omega
    rw [rows]
    simp

abbrev windowRows (height : Int) : Nat := (height - 6).toNat

@[simp] theorem drawLine_line (row : Int) (line : Stretch) : (drawLine row line).line = line := rfl

theorem uiDrawChat_eq (height : Int) (history : CString) :
    uiDrawChat height history =
      ((historyLines (history.truncate (tempHistLen - 1))).take (windowRows height)).mapIdx
        fun i line => drawLine (3 + i) line := by
  have rows : (height - 3 - 3).toNat = windowRows height := by
    rw [Int.sub_sub]
    rfl
  rw [uiDrawChat, drawLines_eq, tempHist_eq, rows, historyLines]

/-- What fits in the copy is drawn from its first line on. -/
theorem drawn_lines {history : CString} (fits : history.length ≤ tempHistLen - 1) (height : Int) :
    (uiDrawChat height history).map DrawnLine.line =
      (historyLines history).take (windowRows height) := by
  have whole : history.truncate (tempHistLen - 1) = history :=
    CString.ext (List.take_of_length_le fits)
  rw [uiDrawChat_eq, whole]
  apply List.ext_getElem
  · simp
  · intro i _ _
    simp

theorem drawn_rows (height : Int) (history : CString) :
    ((uiDrawChat height history).map DrawnLine.row).Pairwise (· < ·) ∧
      ∀ d ∈ uiDrawChat height history, 3 ≤ d.row ∧ d.row < height - 3 := by
  rw [uiDrawChat_eq]
  constructor
  · apply List.pairwise_iff_getElem.mpr
    intro i j _ _ before
    simp [drawLine]
    omega
  · intro d member
    obtain ⟨i, inside, rfl⟩ := List.mem_mapIdx.mp member
    have window : i < (height - 6).toNat := by
      rw [List.length_take] at inside
      exact Nat.lt_of_lt_of_le inside (Nat.min_le_left _ _)
    simp only [drawLine]
    omega

theorem historyLines_nodup (history : CString) : (historyLines history).Nodup := by
  have sorted := tokens_sorted newline 0 history.bytes
  refine sorted.imp ?_
  rintro t u before rfl
  exact Nat.lt_irrefl _ before

theorem last_taken_iff {α : Type} {l : List α} (nodup : l.Nodup) (n : Nat) :
    (∀ last ∈ l.getLast?, last ∈ l.take n) ↔ l.length ≤ n := by
  constructor
  · intro taken
    by_contra more
    have nonempty : l ≠ [] := by
      rintro rfl
      exact more (Nat.zero_le n)
    have left : l.drop n ≠ [] := by
      simpa using more
    have dropped : l.getLast nonempty ∈ l.drop n :=
      List.getLast_drop left ▸ List.getLast_mem left
    have last := taken _ (List.getLast?_eq_some_getLast nonempty)
    exact List.disjoint_take_drop nodup (Nat.le_refl n) last dropped
  · intro few last member
    rw [List.take_of_length_le few]
    exact List.mem_of_getLast? member

/-- The newest line is on the screen, and all that is drawn are lines of the history in order. -/
structure NewestVisible (height : Int) (history : CString) : Prop where
  newest : ∀ last ∈ (historyLines history).getLast?,
    last ∈ (uiDrawChat height history).map DrawnLine.line
  inOrder : ((uiDrawChat height history).map DrawnLine.line).Sublist (historyLines history)

theorem newest_visible_iff (height : Int) (history : CString)
    (fits : history.length ≤ 16383) (tall : 7 ≤ height) :
    NewestVisible height history ↔ ((historyLines history).length : Int) ≤ height - 6 := by
  have drawn := drawn_lines fits height
  have rows : ((historyLines history).length : Int) ≤ height - 6 ↔
      (historyLines history).length ≤ windowRows height := by
    rw [windowRows]
    omega
  rw [rows, ← last_taken_iff (historyLines_nodup history), ← drawn]
  constructor
  · exact fun visible => visible.newest
  · intro newest
    exact ⟨newest, drawn ▸ List.take_sublist _ _⟩

theorem newest_visible_two :
    NewestVisible 24 (CString.lit "[bob]: hi\nMe: hello\n") := by
  apply (newest_visible_iff 24 _ (by decide) (by decide)).mpr
  decide

/-- On 24 rows, the last of nineteen messages is not drawn. -/
theorem newest_line_missing : ¬ ∀ (height : Int) (history : CString),
    history.length ≤ 16383 → 7 ≤ height → NewestVisible height history := by
  intro visible
  have visible := visible 24 (CString.concat (List.replicate 19 (CString.lit "Me: a\n")))
    (by decide) (by decide)
  have newest := visible.newest ⟨108, (CString.lit "Me: a").bytes⟩ (by decide)
  rw [drawn_lines (by decide)] at newest
  revert newest
  decide

theorem historyLines_append {history body : CString}
    (whole : ∀ b ∈ history.bytes.getLast?, b = newline) (solid : body.bytes ≠ [])
    (single : newline ∉ body.bytes) :
    historyLines (history ++ body ++ CString.lit "\n") =
      historyLines history ++ [⟨history.length, body.bytes⟩] := by
  have bytes : (history ++ body ++ CString.lit "\n").bytes =
      history.bytes ++ body.bytes ++ newline :: [] := rfl
  have before : tokens newline 0 (history.bytes ++ body.bytes) =
      tokens newline 0 history.bytes ++ tokens newline history.bytes.length body.bytes := by
    rcases List.eq_nil_or_concat' history.bytes with empty | ⟨front, last, ends⟩
    · simp [empty]
    · have last : last = newline := whole last (by simp [ends])
      rw [ends, last, List.append_assoc, List.singleton_append, tokens_append, tokens_append,
        tokens_nil, List.append_nil, List.length_append, List.length_singleton, Nat.zero_add]
  rw [historyLines, bytes, tokens_append, before, tokens_plain solid single, tokens_nil,
    List.append_nil]
  rfl

/-- A message is on the screen when it comes in exactly as long as there is a row left for it. -/
theorem appended_line_drawn_iff {history body : CString}
    (whole : ∀ b ∈ history.bytes.getLast?, b = newline) (solid : body.bytes ≠ [])
    (single : newline ∉ body.bytes)
    (fits : (history ++ body ++ CString.lit "\n").length ≤ tempHistLen - 1) (height : Int) :
    ⟨history.length, body.bytes⟩ ∈
        (uiDrawChat height (history ++ body ++ CString.lit "\n")).map DrawnLine.line ↔
      ((historyLines history).length : Int) < height - 6 := by
  have lines := historyLines_append whole solid single
  have last : (historyLines (history ++ body ++ CString.lit "\n")).getLast? =
      some ⟨history.length, body.bytes⟩ := by
    rw [lines, List.getLast?_concat]
  have newest := last_taken_iff (historyLines_nodup (history ++ body ++ CString.lit "\n"))
    (windowRows height)
  rw [last, ← drawn_lines fits, lines, List.length_append, List.length_singleton] at newest
  have row : (historyLines history).length + 1 ≤ (height - 6).toNat ↔
      ((historyLines history).length : Int) < height - 6 := by
    omega
  rw [← row, ← newest]
  simp

theorem own_line_drawn_iff {allocates : Nat → Bool} (memory : ∀ n, allocates n = true)
    {s : MainState} {shown : CString} (holds : Holds s.toAppState shown)
    (whole : ∀ b ∈ shown.bytes.getLast?, b = newline) (typed : 0 < s.chatInputBuffer.length)
    (single : newline ∉ s.chatInputBuffer.bytes) (short : s.chatInputBuffer.length ≤ 1194)
    (fits : shown.length + s.chatInputBuffer.length + 5 ≤ tempHistLen - 1) (height : Int) :
    ∃ turn after, sendInput allocates s = .ok turn ∧ Holds turn.state.toAppState after ∧
      (⟨shown.length, (CString.lit "Me: " ++ s.chatInputBuffer).bytes⟩ ∈
          (uiDrawChat height after).map DrawnLine.line ↔
        ((historyLines shown).length : Int) < height - 6) := by
  obtain ⟨turn, sent, after⟩ := sendInput_holds memory holds typed
  have size : (CString.lit "Me: " ++ s.chatInputBuffer ++ CString.lit "\n").length =
      s.chatInputBuffer.length + 5 := by
    rw [CString.length_append, CString.length_append]
    change 4 + _ + 1 = _
    omega
  have uncut : myLine s.chatInputBuffer =
      CString.lit "Me: " ++ s.chatInputBuffer ++ CString.lit "\n" := by
    have room : (CString.lit "Me: " ++ s.chatInputBuffer ++ CString.lit "\n").length ≤ 1199 := by
      omega
    exact CString.ext (List.take_of_length_le room)
  have line : shown ++ myLine s.chatInputBuffer =
      shown ++ (CString.lit "Me: " ++ s.chatInputBuffer) ++ CString.lit "\n" := by
    apply CString.ext
    simp only [uncut, CString.append_bytes, List.append_assoc]
  refine ⟨turn, _, sent, after, ?_⟩
  rw [line]
  apply appended_line_drawn_iff whole
  · exact List.cons_ne_nil _ _
  · have label : newline ∉ (CString.lit "Me: ").bytes := by decide
    simp [label, single]
  · rw [← line, uncut, CString.length_append, size]
    omega

end MoT
