import Mathlib.Data.List.Basic

/-! Items sent one behind the other over a stream of symbols, and a receiver that finds
the end of each item by itself. -/
namespace Framing

variable {α β δ ε σ : Type}

/-- What these items put on the stream. -/
def stream (encode : α → List β) (items : List α) : List β := items.flatMap encode

@[simp] theorem stream_nil (encode : α → List β) : stream encode [] = [] := rfl

@[simp] theorem stream_cons (encode : α → List β) (a : α) (items : List α) :
    stream encode (a :: items) = encode a ++ stream encode items := rfl

/-- The items that end within the first `n` symbols. -/
def contained (encode : α → List β) : Nat → List α → List α
  | _, [] => []
  | n, a :: items =>
    if (encode a).length ≤ n then a :: contained encode (n - (encode a).length) items else []

/-- Receive again and again, at most `n` times, until something else than an item comes. -/
def collect (receive : σ → Except ε δ × σ) : Nat → σ → List δ × Option ε × σ
  | 0, s => ([], none, s)
  | n + 1, s =>
    match receive s with
    | (.error e, t) => ([], some e, t)
    | (.ok d, t) => (d :: (collect receive n t).1, (collect receive n t).2)

/-- With a whole item ahead the receiver takes exactly that item off the stream, and with
less than one it fails in one of the ways of `bad`. -/
structure Delimits (encode : α → List β) (unread : σ → List β)
    (receive : σ → Except ε δ × σ) (view : α → δ) (bad : ε → Prop) : Prop where
  whole : ∀ a s rest, unread s = encode a ++ rest →
    ∃ t, receive s = (.ok (view a), t) ∧ unread t = rest
  short : ∀ a s n, n < (encode a).length → unread s = (encode a).take n →
    ∃ e t, receive s = (.error e, t) ∧ bad e
  ended : ∀ s, unread s = [] → ∃ e t, receive s = (.error e, t) ∧ bad e

section Receiving

variable {encode : α → List β} {unread : σ → List β} {receive : σ → Except ε δ × σ} {view : α → δ}
  {bad : ε → Prop}

theorem collect_stream (delimits : Delimits encode unread receive view bad) (items : List α)
    {s : σ} {rest : List β} (ahead : unread s = stream encode items ++ rest) :
    ∃ t, collect receive items.length s = (items.map view, none, t) ∧ unread t = rest := by
  induction items generalizing s with
  | nil => exact ⟨s, rfl, ahead⟩
  | cons a items ih =>
    rw [stream_cons, List.append_assoc] at ahead
    obtain ⟨t, received, left⟩ := delimits.whole a s _ ahead
    obtain ⟨u, later, remains⟩ := ih left
    refine ⟨u, ?_, remains⟩
    simp only [List.length_cons, collect, received, later, List.map_cons]

/-- From a stream that was cut the receiver gets the items that were whole, and then it
fails. -/
theorem collect_cut (delimits : Delimits encode unread receive view bad) (items : List α)
    (n cut : Nat) {s : σ} (ahead : unread s = (stream encode items).take cut) :
    ∃ failure t, collect receive n s = (((contained encode cut items).take n).map view, failure, t) ∧
      (failure = none ↔ n ≤ (contained encode cut items).length) ∧ ∀ e ∈ failure, bad e := by
  induction items generalizing n cut s with
  | nil =>
    cases n with
    | zero => exact ⟨none, s, rfl, by simp, by simp⟩
    | succ n =>
      obtain ⟨e, t, failed, isBad⟩ := delimits.ended s (by simpa using ahead)
      refine ⟨some e, t, ?_, by simp [contained], by simpa using isBad⟩
      simp only [collect, failed, contained, List.take_nil, List.map_nil]
  | cons a items ih =>
    cases n with
    | zero => exact ⟨none, s, rfl, by simp, by simp⟩
    | succ n =>
      rw [stream_cons, List.take_append] at ahead
      by_cases fits : (encode a).length ≤ cut
      · rw [List.take_of_length_le fits] at ahead
        obtain ⟨t, received, left⟩ := delimits.whole a s _ ahead
        obtain ⟨failure, u, later, none_iff, isBad⟩ := ih n _ left
        refine ⟨failure, u, ?_, ?_, isBad⟩
        · simp only [collect, received, later, contained, if_pos fits, List.take_succ_cons,
            List.map_cons]
        · simp [none_iff, contained, fits]
      · have nothing : cut - (encode a).length = 0 := by omega
        rw [nothing, List.take_zero, List.append_nil] at ahead
        obtain ⟨e, t, failed, isBad⟩ := delimits.short a s cut (by omega) ahead
        refine ⟨some e, t, ?_, by simp [contained, fits], by simpa using isBad⟩
        simp only [collect, failed, contained, if_neg fits, List.take_nil, List.map_nil]

end Receiving

end Framing
