import MoT.Lib.Transition

/-! First in, first out: what the moments of a run put into a queue and take out of it, in order;
and whoever holds a copy of a value, and hears of it through a queue, will hold what the newest
message tells. -/
namespace Transition

variable {σ ε ο α β V : Type}

/-- What the moments of a past contribute, in the order in which they came. -/
def gathered (f : Moment σ ε ο → List α) : List (Moment σ ε ο) → List α
  | [] => []
  | m :: past => gathered f past ++ f m

theorem gathered_filterMap (f : Moment σ ε ο → List α) (h : α → Option β)
    (past : List (Moment σ ε ο)) :
    (gathered f past).filterMap h = gathered (fun m => (f m).filterMap h) past := by
  induction past with
  | nil => rfl
  | cons m past ih => rw [gathered, List.filterMap_append, ih, gathered]

theorem gathered_filter (f : Moment σ ε ο → List α) (p : α → Bool) (past : List (Moment σ ε ο)) :
    (gathered f past).filter p = gathered (fun m => (f m).filter p) past := by
  induction past with
  | nil => rfl
  | cons m past ih => rw [gathered, List.filter_append, ih, gathered]

theorem gathered_sublist {f g : Moment σ ε ο → List α} {past : List (Moment σ ε ο)}
    (part : ∀ m ∈ past, (f m).Sublist (g m)) : (gathered f past).Sublist (gathered g past) := by
  induction past with
  | nil => exact List.Sublist.refl _
  | cons m past ih =>
    exact (ih fun m' member => part m' (List.mem_cons_of_mem m member)).append
      (part m List.mem_cons_self)

theorem gathered_congr {f g : Moment σ ε ο → List α} {past : List (Moment σ ε ο)}
    (same : ∀ m ∈ past, f m = g m) : gathered f past = gathered g past := by
  induction past with
  | nil => rfl
  | cons m past ih =>
    rw [gathered, gathered, same m List.mem_cons_self,
      ih fun m' member => same m' (List.mem_cons_of_mem m member)]

theorem mem_gathered {f : Moment σ ε ο → List α} {past : List (Moment σ ε ο)} {a : α} :
    a ∈ gathered f past ↔ ∃ m ∈ past, a ∈ f m := by
  induction past with
  | nil => simp [gathered]
  | cons m past ih => simp [gathered, ih, or_comm]

variable {tells : α → Option V} {held : V} {queue : List α}

/-- What is held when all the messages have been taken; some say nothing about the value. -/
def settled (tells : α → Option V) (held : V) (queue : List α) : V :=
  queue.foldl (fun held m => (tells m).getD held) held

theorem settled_append (tells : α → Option V) (held : V) (queue new : List α) :
    settled tells held (queue ++ new) = settled tells (settled tells held queue) new :=
  List.foldl_append

theorem settled_take (first : α) (rest : List α) :
    settled tells held (first :: rest) = settled tells ((tells first).getD held) rest := rfl

/- It is what was held when no message tells anything, and else what one of them tells. -/
theorem settled_cases (tells : α → Option V) (held : V) (queue : List α) :
    (settled tells held queue = held ∧ ∀ m ∈ queue, tells m = none) ∨
      ∃ m ∈ queue, tells m = some (settled tells held queue) := by
  induction queue generalizing held with
  | nil => exact .inl ⟨rfl, List.forall_mem_nil _⟩
  | cons first rest ih =>
    rw [settled_take]
    rcases ih ((tells first).getD held) with ⟨same, silent⟩ | ⟨m, member, said⟩
    · rw [same]
      cases tells_first : tells first with
      | none => exact .inl ⟨rfl, List.forall_mem_cons.mpr ⟨tells_first, silent⟩⟩
      | some v => exact .inr ⟨first, List.mem_cons_self, tells_first⟩
    · exact .inr ⟨m, List.mem_cons_of_mem first member, said⟩

end Transition
