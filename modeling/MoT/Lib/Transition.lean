import Mathlib.Logic.Relation
import Mathlib.Order.RelClasses

/-! Systems that handle one event after another, and what holds over all their runs.
An event may fail to complete; a run goes on only through events that did. -/
namespace Transition

structure System (σ ε ο : Type) where
  start : σ
  step : σ → ε → Option (σ × ο)

structure Moment (σ ε ο : Type) where
  before : σ
  event : ε
  after : σ
  output : ο

variable {σ ε ο τ : Type} {S : System σ ε ο}

/-- A run with its whole past, newest moment first. -/
inductive Run (S : System σ ε ο) : List (Moment σ ε ο) → σ → Prop where
  | start : Run S [] S.start
  | step {past : List (Moment σ ε ο)} {s t : σ} {e : ε} {o : ο} :
      Run S past s → S.step s e = some (t, o) → Run S (⟨s, e, t, o⟩ :: past) t

def Reachable (S : System σ ε ο) (s : σ) : Prop := ∃ past, Run S past s

def Moment.Valid (S : System σ ε ο) (m : Moment σ ε ο) : Prop :=
  S.step m.before m.event = some (m.after, m.output)

theorem Reachable.start : Reachable S S.start := ⟨[], .start⟩

theorem Reachable.step {s t : σ} {e : ε} {o : ο} (h : Reachable S s)
    (stepped : S.step s e = some (t, o)) : Reachable S t := by
  obtain ⟨past, run⟩ := h
  exact ⟨_, run.step stepped⟩

/-- What holds at the start and survives every step holds in every reachable state. -/
theorem Reachable.invariant (P : σ → Prop) (initial : P S.start)
    (preserved : ∀ s e t o, P s → S.step s e = some (t, o) → P t) {s : σ}
    (h : Reachable S s) : P s := by
  obtain ⟨past, run⟩ := h
  induction run with
  | start => exact initial
  | step _ stepped ih => exact preserved _ _ _ _ ih stepped

/-- The same rule for a property of the state together with its past; the step may
use that the state before it is reachable. -/
theorem Run.invariant (P : List (Moment σ ε ο) → σ → Prop) (initial : P [] S.start)
    (preserved : ∀ past s e t o, Run S past s → P past s → S.step s e = some (t, o) →
      P (⟨s, e, t, o⟩ :: past) t)
    {past : List (Moment σ ε ο)} {s : σ} (run : Run S past s) : P past s := by
  induction run with
  | start => exact initial
  | step before stepped ih => exact preserved _ _ _ _ _ before ih stepped

theorem Run.reachable {past : List (Moment σ ε ο)} {s : σ} (run : Run S past s) :
    Reachable S s := ⟨past, run⟩

/-- A run can be cut at any of its moments. -/
theorem Run.cut {later past : List (Moment σ ε ο)} {m : Moment σ ε ο} {s : σ}
    (run : Run S (later ++ m :: past) s) :
    Run S past m.before ∧ Run S (m :: past) m.after ∧ m.Valid S := by
  induction later generalizing s with
  | nil =>
    cases run with
    | step before stepped => exact ⟨before, before.step stepped, stepped⟩
  | cons n later ih =>
    cases run with
    | step before stepped => exact ih before

/-- What no step destroys that meets a condition holds for as long as steps meet it. -/
theorem Run.persists_while (P : σ → Prop) (B : Moment σ ε ο → Prop)
    (kept : ∀ s e t o, P s → S.step s e = some (t, o) → B ⟨s, e, t, o⟩ → P t)
    {later past : List (Moment σ ε ο)} {m : Moment σ ε ο} {s : σ}
    (run : Run S (later ++ m :: past) s) (met : ∀ n ∈ later, B n) (held : P m.after) : P s := by
  induction later generalizing s with
  | nil =>
    cases run with
    | step before stepped => exact held
  | cons n later ih =>
    cases run with
    | step before stepped =>
      have earlier := ih before fun n member => met n (List.mem_cons_of_mem _ member)
      exact kept _ _ _ _ earlier stepped (met _ List.mem_cons_self)

/-- What no step destroys still holds at the end of the run. -/
theorem Run.persists (P : σ → Prop) (kept : ∀ s e t o, P s → S.step s e = some (t, o) → P t)
    {later past : List (Moment σ ε ο)} {m : Moment σ ε ο} {s : σ}
    (run : Run S (later ++ m :: past) s) (held : P m.after) : P s :=
  run.persists_while P (fun _ => True) (fun s e t o held stepped _ => kept s e t o held stepped)
    (fun _ _ => trivial) held

/-- Each moment of a past meets a condition on it and on what came before it. -/
def Along (B : List (Moment σ ε ο) → Moment σ ε ο → Prop) : List (Moment σ ε ο) → Prop
  | [] => True
  | m :: past => B past m ∧ Along B past

instance Along.decidable {B : List (Moment σ ε ο) → Moment σ ε ο → Prop}
    [∀ past m, Decidable (B past m)] : (past : List (Moment σ ε ο)) → Decidable (Along B past)
  | [] => .isTrue trivial
  | m :: past =>
    haveI : Decidable (Along B past) := Along.decidable past
    inferInstanceAs (Decidable (B past m ∧ Along B past))

theorem along_iff_forall {B : Moment σ ε ο → Prop} {past : List (Moment σ ε ο)} :
    Along (fun _ => B) past ↔ ∀ m ∈ past, B m := by
  induction past with
  | nil => simp [Along]
  | cons m past ih => rw [Along, ih, List.forall_mem_cons]

/-- A property of the state with its past that a step keeps exactly when the step meets a
condition holds at every moment of a run exactly when every step of it met the condition. `Q`
delimits the runs that count; what comes before the end of such a run is one as well. -/
theorem Run.along_iff (Q A : List (Moment σ ε ο) → σ → Prop)
    (B : List (Moment σ ε ο) → Moment σ ε ο → Prop) (initial : A [] S.start)
    (earlier : ∀ past s e t o, S.step s e = some (t, o) → Q (⟨s, e, t, o⟩ :: past) t → Q past s)
    (kept : ∀ past s e t o, Run S past s → S.step s e = some (t, o) →
      Q (⟨s, e, t, o⟩ :: past) t → A past s →
      (A (⟨s, e, t, o⟩ :: past) t ↔ B past ⟨s, e, t, o⟩))
    {past : List (Moment σ ε ο)} {s : σ} (run : Run S past s) (counts : Q past s) :
    Along (fun before m => A (m :: before) m.after) past ↔ Along B past := by
  have both : (Along (fun before m => A (m :: before) m.after) past ↔ Along B past) ∧
      (Along B past → A past s) := by
    induction run with
    | start => exact ⟨Iff.rfl, fun _ => initial⟩
    | @step past s t e o before stepped ih =>
      obtain ⟨same, holds⟩ := ih (earlier _ _ _ _ _ stepped counts)
      have now := kept _ _ _ _ _ before stepped counts
      constructor
      · constructor
        · rintro ⟨after, always⟩
          have met := same.mp always
          exact ⟨(now (holds met)).mp after, met⟩
        · rintro ⟨here, met⟩
          exact ⟨(now (holds met)).mpr here, same.mpr met⟩
      · rintro ⟨here, met⟩
        exact (now (holds met)).mpr here
  exact both.1

/-- The same for a property of the state alone. -/
theorem Run.always_iff (Q : List (Moment σ ε ο) → σ → Prop) (A : σ → Prop)
    (B : Moment σ ε ο → Prop) (initial : A S.start)
    (earlier : ∀ past s e t o, S.step s e = some (t, o) → Q (⟨s, e, t, o⟩ :: past) t → Q past s)
    (kept : ∀ past s e t o, Run S past s → S.step s e = some (t, o) →
      Q (⟨s, e, t, o⟩ :: past) t → A s → (A t ↔ B ⟨s, e, t, o⟩))
    {past : List (Moment σ ε ο)} {s : σ} (run : Run S past s) (counts : Q past s) :
    (∀ m ∈ past, A m.after) ↔ ∀ m ∈ past, B m := by
  have always := run.along_iff Q (fun _ => A) (fun _ => B) initial earlier kept counts
  rwa [along_iff_forall, along_iff_forall] at always

/-- `B` came to pass, and no `E` after it. -/
def Since (B E : Moment σ ε ο → Prop) : List (Moment σ ε ο) → Prop
  | [] => False
  | m :: past => B m ∨ Since B E past ∧ ¬ E m

theorem since_iff_exists {B E : Moment σ ε ο → Prop} {past : List (Moment σ ε ο)} :
    Since B E past ↔
      ∃ later m earlier, past = later ++ m :: earlier ∧ B m ∧ ∀ n ∈ later, ¬ E n := by
  induction past with
  | nil =>
    constructor
    · exact False.elim
    · rintro ⟨later, m, earlier, cut, -⟩
      simp at cut
  | cons n past ih =>
    constructor
    · rintro (now | ⟨since, quiet⟩)
      · exact ⟨[], n, past, rfl, now, by simp⟩
      · obtain ⟨later, m, earlier, rfl, begun, rest⟩ := ih.mp since
        refine ⟨n :: later, m, earlier, rfl, begun, ?_⟩
        exact List.forall_mem_cons.mpr ⟨quiet, rest⟩
    · rintro ⟨later, m, earlier, cut, begun, rest⟩
      cases later with
      | nil =>
        cases cut
        exact .inl begun
      | cons n' later =>
        cases cut
        obtain ⟨quiet, rest⟩ := List.forall_mem_cons.mp rest
        exact .inr ⟨ih.mpr ⟨later, m, earlier, rfl, begun, rest⟩, quiet⟩

/-- What some steps bring about, other steps end and all the rest leave as it is holds exactly
when it was brought about and not ended since. -/
theorem Run.since_iff (Q : List (Moment σ ε ο) → σ → Prop) (A : σ → Prop)
    (B E : Moment σ ε ο → Prop) (initial : ¬ A S.start)
    (earlier : ∀ past s e t o, S.step s e = some (t, o) → Q (⟨s, e, t, o⟩ :: past) t → Q past s)
    (kept : ∀ past s e t o, Run S past s → S.step s e = some (t, o) →
      Q (⟨s, e, t, o⟩ :: past) t → (A t ↔ B ⟨s, e, t, o⟩ ∨ A s ∧ ¬ E ⟨s, e, t, o⟩))
    {past : List (Moment σ ε ο)} {s : σ} (run : Run S past s) (counts : Q past s) :
    A s ↔ Since B E past := by
  induction run with
  | start => exact iff_of_false initial id
  | step before stepped ih =>
    have same := ih (earlier _ _ _ _ _ stepped counts)
    rw [kept _ _ _ _ _ before stepped counts, same, Since]

/-- A relation that every step can follow with abstract steps holds between every
reachable state and some reachable abstract state. -/
theorem Reachable.simulation (R : σ → τ → Prop) (A : τ → τ → Prop) {t : τ}
    (initial : R S.start t)
    (matched : ∀ s e s' o u, R s u → S.step s e = some (s', o) →
      ∃ u', Relation.ReflTransGen A u u' ∧ R s' u')
    {s : σ} (h : Reachable S s) : ∃ u, Relation.ReflTransGen A t u ∧ R s u := by
  obtain ⟨past, run⟩ := h
  induction run with
  | start => exact ⟨t, .refl, initial⟩
  | step _ stepped ih =>
    obtain ⟨u, reached, related⟩ := ih
    obtain ⟨u', further, related'⟩ := matched _ _ _ _ u related stepped
    exact ⟨u', reached.trans further, related'⟩

def System.exec (S : System σ ε ο) (s : σ) : List ε → Option σ
  | [] => some s
  | e :: es => (S.step s e).bind fun next => S.exec next.1 es

def System.trace (S : System σ ε ο) (past : List (Moment σ ε ο)) (s : σ) :
    List ε → Option (List (Moment σ ε ο) × σ)
  | [] => some (past, s)
  | e :: es => (S.step s e).bind fun next => S.trace (⟨s, e, next.1, next.2⟩ :: past) next.1 es

theorem Run.trace {es : List ε} {past past' : List (Moment σ ε ο)} {s t : σ} (run : Run S past s)
    (done : S.trace past s es = some (past', t)) : Run S past' t := by
  induction es generalizing past s with
  | nil =>
    cases Option.some.inj done
    exact run
  | cons e es ih =>
    obtain ⟨⟨next, o⟩, stepped, rest⟩ := Option.bind_eq_some_iff.mp done
    exact ih (run.step stepped) rest

theorem System.trace_events {es : List ε} {past past' : List (Moment σ ε ο)} {s t : σ}
    (done : S.trace past s es = some (past', t)) :
    past'.map Moment.event = es.reverse ++ past.map Moment.event := by
  induction es generalizing past s with
  | nil =>
    cases Option.some.inj done
    rfl
  | cons e es ih =>
    obtain ⟨⟨next, o⟩, stepped, rest⟩ := Option.bind_eq_some_iff.mp done
    rw [ih rest]
    simp

def System.history (S : System σ ε ο) (es : List ε)
    (completes : (S.trace [] S.start es).isSome) : List (Moment σ ε ο) × σ :=
  (S.trace [] S.start es).get completes

theorem System.history_events (es : List ε) (completes : (S.trace [] S.start es).isSome) :
    (S.history es completes).1.map Moment.event = es.reverse := by
  have events := System.trace_events (Option.some_get completes).symm
  rw [List.map_nil, List.append_nil] at events
  exact events

theorem Run.history (es : List ε) (completes : (S.trace [] S.start es).isSome) :
    Run S (S.history es completes).1 (S.history es completes).2 :=
  Run.start.trace (Option.some_get completes).symm

/-- `t` comes after `s` through some events, or is `s`. -/
def Leads (S : System σ ε ο) (s t : σ) : Prop := ∃ es, S.exec s es = some t

theorem Leads.invariant (P : σ → Prop)
    (kept : ∀ s e t o, P s → S.step s e = some (t, o) → P t) {s t : σ}
    (leads : Leads S s t) (held : P s) : P t := by
  obtain ⟨es, done⟩ := leads
  induction es generalizing s with
  | nil => exact Option.some.inj done ▸ held
  | cons e es ih =>
    obtain ⟨⟨next, o⟩, stepped, rest⟩ := Option.bind_eq_some_iff.mp done
    exact ih (kept s e next o held stepped) rest

theorem Reachable.leads {s t : σ} (h : Reachable S s) (leads : Leads S s t) : Reachable S t :=
  leads.invariant (Reachable S) (fun _ _ _ _ reached stepped => reached.step stepped) h

theorem Reachable.of_exec {es : List ε} {t : σ} (done : S.exec S.start es = some t) :
    Reachable S t :=
  Reachable.start.leads ⟨es, done⟩

/-- The state after a list of events that all complete. -/
def System.after (S : System σ ε ο) (es : List ε) (completes : (S.exec S.start es).isSome) : σ :=
  (S.exec S.start es).get completes

theorem Reachable.after (es : List ε) (completes : (S.exec S.start es).isSome) :
    Reachable S (S.after es completes) :=
  .of_exec (Option.some_get completes).symm

end Transition
