import Mathlib.Logic.Function.Basic

/-! Threads that share a state and one lock. The lock is not recursive: a thread that takes it
while holding it waits for itself. -/
namespace Lock

inductive Instr (φ σ ο : Type) where
  | lock
  | unlock
  | work (f : σ → Except φ (σ × List ο))

/-- Every thread has a list of what is left of its handler; an idle one has nothing. -/
structure Threads (τ φ σ ο : Type) where
  shared : σ
  holder : Option τ
  todo : τ → List (Instr φ σ ο)

variable {τ φ σ ο : Type} [DecidableEq τ]

def Threads.begin (t : τ) (handler : List (Instr φ σ ο)) (s : Threads τ φ σ ο) :
    Threads τ φ σ ο :=
  { s with todo := Function.update s.todo t handler }

/- The next instruction of a thread, unless it waits or its work fails. A lock that somebody
else holds is not given back. -/
def go (t : τ) (s : Threads τ φ σ ο) : Option (Threads τ φ σ ο × List ο) :=
  match s.todo t with
  | [] => none
  | .lock :: rest =>
    if s.holder = none then some ({ s.begin t rest with holder := some t }, []) else none
  | .unlock :: rest =>
    if s.holder = some t then some ({ s.begin t rest with holder := none }, []) else none
  | .work f :: rest =>
    match f s.shared with
    | .ok r => some ({ s.begin t rest with shared := r.1 }, r.2)
    | .error _ => none

/-- A handler that nobody interrupts. -/
def alone : List (Instr φ σ ο) → σ → Except φ (σ × List ο)
  | [], s => .ok (s, [])
  | .lock :: rest, s => alone rest s
  | .unlock :: rest, s => alone rest s
  | .work f :: rest, s => do
    let r ← f s
    let r' ← alone rest r.1
    return (r'.1, r.2 ++ r'.2)

/-- By its own instructions the thread comes to give the lock back, unless its work fails. -/
inductive GivesBack (t : τ) : Threads τ φ σ ο → Prop
  | fails {s : Threads τ φ σ ο} {f : σ → Except φ (σ × List ο)} {rest : List (Instr φ σ ο)}
      {fault : φ} (next : s.todo t = .work f :: rest) (failed : f s.shared = .error fault) :
      GivesBack t s
  | now {s s' : Threads τ φ σ ο} {out : List ο} (goes : go t s = some (s', out))
      (free : s'.holder = none) : GivesBack t s
  | later {s s' : Threads τ φ σ ο} {out : List ο} (goes : go t s = some (s', out))
      (after : GivesBack t s') : GivesBack t s

structure Disciplined (s : Threads τ φ σ ο) : Prop where
  finished : ∀ t, s.todo t = [] → s.holder ≠ some t
  once : ∀ t rest, s.todo t = .lock :: rest → s.holder ≠ some t
  returned : ∀ t, s.holder = some t → GivesBack t s

/-- The instructions fit together when the thread has the lock before the first of them, or
has not. -/
def Sectioned : Bool → List (Instr φ σ ο) → Prop
  | held, [] => held = false
  | held, .lock :: rest => held = false ∧ Sectioned true rest
  | held, .unlock :: rest => held = true ∧ Sectioned false rest
  | held, .work _ :: rest => Sectioned held rest

def Orderly (s : Threads τ φ σ ο) : Prop :=
  ∀ t, Sectioned (decide (s.holder = some t)) (s.todo t)

section Orderly
variable {s s' : Threads τ φ σ ο} {t : τ} {rest : List (Instr φ σ ο)} {out : List ο}

theorem go_cases (goes : go t s = some (s', out)) :
    (∃ rest, s.todo t = .lock :: rest ∧ s.holder = none ∧
      s' = { s.begin t rest with holder := some t }) ∨
    (∃ rest, s.todo t = .unlock :: rest ∧ s.holder = some t ∧
      s' = { s.begin t rest with holder := none }) ∨
    ∃ f rest shared, s.todo t = .work f :: rest ∧ f s.shared = .ok (shared, out) ∧
      s' = { s.begin t rest with shared := shared } := by
  unfold go at goes
  cases todo : s.todo t with
  | nil =>
    rw [todo] at goes
    cases goes
  | cons i rest =>
    rw [todo] at goes
    cases i with
    | lock =>
      obtain ⟨free, same⟩ := Option.ite_none_right_eq_some.mp goes
      exact .inl ⟨rest, rfl, free, (congrArg Prod.fst (Option.some.inj same)).symm⟩
    | unlock =>
      obtain ⟨mine, same⟩ := Option.ite_none_right_eq_some.mp goes
      exact .inr (.inl ⟨rest, rfl, mine, (congrArg Prod.fst (Option.some.inj same)).symm⟩)
    | work f =>
      dsimp only at goes
      cases worked : f s.shared with
      | error fault =>
        rw [worked] at goes
        cases goes
      | ok r =>
        rw [worked] at goes
        cases goes
        exact .inr (.inr ⟨f, rest, r.1, rfl, worked, rfl⟩)

theorem Orderly.begin_of (orderly : Orderly s) {handler : List (Instr φ σ ο)} (holder : Option τ)
    (others : ∀ u ≠ t, (holder = some u ↔ s.holder = some u))
    (fits : Sectioned (decide (holder = some t)) handler) (shared : σ) :
    Orderly { s.begin t handler with holder := holder, shared := shared } := by
  intro u
  by_cases same : u = t
  · subst same
    simpa [Threads.begin] using fits
  · simpa [Threads.begin, same, others u same] using orderly u

theorem Orderly.begin (orderly : Orderly s) (idle : s.todo t = [])
    {handler : List (Instr φ σ ο)} (fits : Sectioned false handler) (shared : σ) :
    Orderly { s.begin t handler with shared := shared } := by
  have rests := orderly t
  rw [idle] at rests
  apply orderly.begin_of s.holder (fun _ _ => Iff.rfl)
  rw [show decide (s.holder = some t) = false from rests]
  exact fits

theorem Orderly.go (orderly : Orderly s) (goes : Lock.go t s = some (s', out)) : Orderly s' := by
  have fits := orderly t
  rcases go_cases goes with ⟨rest, todo, free, rfl⟩ | ⟨rest, todo, mine, rfl⟩ |
    ⟨f, rest, shared, todo, -, rfl⟩
  · rw [todo] at fits
    apply orderly.begin_of (some t)
    · intro u other
      simp [free, Ne.symm other]
    · simpa using fits.2
  · rw [todo] at fits
    apply orderly.begin_of none
    · intro u other
      simp [mine, Ne.symm other]
    · simpa using fits.2
  · rw [todo, Sectioned] at fits
    exact orderly.begin_of s.holder (fun _ _ => Iff.rfl) fits shared

/- By induction on what the holder has left: the lock comes back at the first `unlock`. -/
theorem gives_back (todo : s.todo t = rest) (fits : Sectioned true rest)
    (mine : s.holder = some t) : GivesBack t s := by
  induction rest generalizing s with
  | nil => cases fits
  | cons i rest ih =>
    cases i with
    | lock => cases fits.1
    | unlock =>
      have goes : Lock.go t s = some ({ s.begin t rest with holder := none }, []) := by
        simp [Lock.go, todo, mine]
      exact .now goes rfl
    | work f =>
      cases worked : f s.shared with
      | error fault => exact .fails todo worked
      | ok r =>
        have goes : Lock.go t s = some ({ s.begin t rest with shared := r.1 }, r.2) := by
          simp [Lock.go, todo, worked]
        exact .later goes (ih (by simp [Threads.begin]) fits mine)

theorem Orderly.disciplined (orderly : Orderly s) : Disciplined s where
  finished t idle mine := by
    have fits := orderly t
    rw [idle, decide_eq_true mine] at fits
    cases fits
  once t rest waits mine := by
    have fits := orderly t
    rw [waits, decide_eq_true mine] at fits
    cases fits.1
  returned t mine := by
    have fits := orderly t
    rw [decide_eq_true mine] at fits
    exact gives_back rfl fits mine

end Orderly

end Lock
