import Mathlib.Data.List.Basic

/-! Statements that commit one by one. Any of them may fail on its own, and the process may
stop at the boundary before any of them. -/
namespace Script

/-- What becomes of a statement that is reached. -/
inductive Verdict
  | runs
  | fails
  deriving DecidableEq

/-- What comes next may depend on what a statement returns; `failed` is what is seen of
one that fails. -/
inductive Prog (σ α : Type) : Type 1
  | done (a : α)
  | stmt {β : Type} (run : σ → σ × β) (failed : β) (next : β → Prog σ α)

variable {σ α β γ : Type}

def Prog.bind (p : Prog σ α) (f : α → Prog σ γ) : Prog σ γ :=
  match p with
  | .done a => f a
  | .stmt run failed next => .stmt run failed fun b => (next b).bind f

instance : Monad (Prog σ) where
  pure := .done
  bind := .bind

def ask (run : σ → σ × β) (failed : β) : Prog σ β := .stmt run failed .done

def act (run : σ → σ) : Prog σ Unit := ask (fun s => (run s, ())) ()

def each (run : β → σ → σ) : List β → Prog σ Unit
  | [] => pure ()
  | b :: bs => do
    act (run b)
    each run bs

/-- The state that is left, and what was returned with the verdicts still to come. Where
there is no verdict the process stops. -/
def exec : Prog σ α → List Verdict → σ → σ × Option (α × List Verdict)
  | .done a, vs, s => (s, some (a, vs))
  | .stmt _ _ _, [], s => (s, none)
  | .stmt run _ next, .runs :: vs, s => exec (next (run s).2) vs (run s).1
  | .stmt _ failed next, .fails :: vs, s => exec (next failed) vs s

/-- Nothing fails and nothing stops. -/
def complete : Prog σ α → σ → σ × α
  | .done a, s => (s, a)
  | .stmt run _ next, s => complete (next (run s).2) (run s).1

/-- No statement fails and the process does not stop. -/
def Undisturbed (p : Prog σ α) (vs : List Verdict) (s : σ) : Prop :=
  (∀ v ∈ vs, v = .runs) ∧ (exec p vs s).2.isSome

/-- Whatever fails and wherever the process stops, all of the work is done or none. -/
def Atomic (p : Prog σ α) : Prop :=
  ∀ vs s, (exec p vs s).1 = s ∨ (exec p vs s).1 = (complete p s).1

/-- The statement at this place was reached and ran. -/
abbrev Ran (vs : List Verdict) (i : Nat) : Prop := vs[i]? = some .runs

/-- The items whose statements ran. -/
def kept : List Verdict → List β → List β
  | _, [] => []
  | [], _ :: _ => []
  | .runs :: vs, b :: bs => b :: kept vs bs
  | .fails :: vs, _ :: bs => kept vs bs

@[simp] theorem exec_pure (a : α) (vs : List Verdict) (s : σ) :
    exec (pure a : Prog σ α) vs s = (s, some (a, vs)) := rfl

@[simp] theorem exec_ask_stopped (run : σ → σ × β) (failed : β) (s : σ) :
    exec (ask run failed) [] s = (s, none) := rfl

@[simp] theorem exec_ask_runs (run : σ → σ × β) (failed : β) (vs : List Verdict) (s : σ) :
    exec (ask run failed) (.runs :: vs) s = ((run s).1, some ((run s).2, vs)) := rfl

@[simp] theorem exec_ask_fails (run : σ → σ × β) (failed : β) (vs : List Verdict) (s : σ) :
    exec (ask run failed) (.fails :: vs) s = (s, some (failed, vs)) := rfl

theorem exec_act (run : σ → σ) (vs : List Verdict) (s : σ) :
    exec (act run) vs s =
      (if Ran vs 0 then run s else s, if vs = [] then none else some ((), vs.tail)) := by
  cases vs with
  | nil => rfl
  | cons v vs => cases v <;> rfl

theorem exec_bind (p : Prog σ α) (f : α → Prog σ γ) (vs : List Verdict) (s : σ) :
    exec (p >>= f) vs s =
      match exec p vs s with
      | (t, none) => (t, none)
      | (t, some (a, rest)) => exec (f a) rest t := by
  induction p generalizing vs s with
  | done a => rfl
  | stmt run failed next ih =>
    cases vs with
    | nil => rfl
    | cons v vs =>
      cases v with
      | runs => exact ih (run s).2 vs (run s).1
      | fails => exact ih failed vs s

theorem complete_bind (p : Prog σ α) (f : α → Prog σ γ) (s : σ) :
    complete (p >>= f) s = complete (f (complete p s).2) (complete p s).1 := by
  induction p generalizing s with
  | done a => rfl
  | stmt run failed next ih => exact ih (run s).2 (run s).1

theorem Undisturbed.complete {p : Prog σ α} {vs : List Verdict} {s : σ}
    (undisturbed : Undisturbed p vs s) : (exec p vs s).1 = (complete p s).1 := by
  obtain ⟨good, ended⟩ := undisturbed
  induction p generalizing vs s with
  | done a => rfl
  | stmt run failed next ih =>
    cases vs with
    | nil => cases ended
    | cons v vs =>
      cases good v List.mem_cons_self
      exact ih (run s).2 (fun w member => good w (List.mem_cons_of_mem _ member)) ended

theorem exec_each (run : β → σ → σ) (bs : List β) (vs : List Verdict) (s : σ) :
    exec (each run bs) vs s =
      ((kept vs bs).foldl (fun s b => run b s) s,
        if bs.length ≤ vs.length then some ((), vs.drop bs.length) else none) := by
  induction bs generalizing vs s with
  | nil => simp [each, kept]
  | cons b bs ih =>
    cases vs with
    | nil => simp [each, act, exec_bind, kept]
    | cons v vs => cases v <;> simp [each, act, exec_bind, ih, kept]

theorem complete_each (run : β → σ → σ) (bs : List β) (s : σ) :
    complete (each run bs) s = (bs.foldl (fun s b => run b s) s, ()) := by
  induction bs generalizing s with
  | nil => rfl
  | cons b bs ih =>
    rw [each, complete_bind]
    exact ih (run b s)

end Script
