import Mathlib.Data.List.Pairwise
import Mathlib.Data.List.Sort

/-! Tables whose constraints are part of their type. Two rows clash when a PRIMARY
KEY or UNIQUE constraint forbids them together; a statement that would bring two
clashing rows into a table fails as a whole and leaves the table as it was. -/
namespace Relational

variable {α β : Type} {clash : α → α → Bool}

structure Table (α : Type) (clash : α → α → Bool) where
  rows : List α
  unique : rows.Pairwise fun a b => clash a b = false

namespace Table

def empty : Table α clash := ⟨[], .nil⟩

/-- INSERT of one row; `none` when the row clashes with one already there. -/
def insert? (t : Table α clash) (a : α) : Option (Table α clash) :=
  if fits : ∀ b ∈ t.rows, clash b a = false then
    some ⟨t.rows ++ [a], by
      simpa [List.pairwise_append, t.unique] using fits⟩
  else none

/-- One INSERT with several rows is one statement: all of them or none. -/
def insertAll? (t : Table α clash) : List α → Option (Table α clash)
  | [] => some t
  | a :: as => (t.insert? a).bind fun u => u.insertAll? as

/-- An INSERT whose error nobody looks at, and INSERT OR IGNORE. -/
def insertIgnored (t : Table α clash) (a : α) : Table α clash := (t.insert? a).getD t

def insertEach (t : Table α clash) (as : List α) : Table α clash := as.foldl insertIgnored t

def deleteWhere (t : Table α clash) (p : α → Bool) : Table α clash :=
  ⟨t.rows.filter fun a => !p a, t.unique.filter _⟩

@[ext] theorem ext {t u : Table α clash} (same : t.rows = u.rows) : t = u := by
  cases t
  cases u
  cases same
  rfl

@[simp] theorem empty_rows : (empty : Table α clash).rows = [] := rfl

theorem eq_of_clash (t : Table α clash) (comm : ∀ a b, clash a b = clash b a) {a b : α}
    (ha : a ∈ t.rows) (hb : b ∈ t.rows) (clashing : clash a b = true) : a = b := by
  by_contra differ
  have symmetric : Std.Symm fun a b => clash a b = false := ⟨fun a b h => comm a b ▸ h⟩
  exact Bool.false_ne_true ((t.unique.forall ha hb differ).symm.trans clashing)

theorem nodup (t : Table α clash) (self : ∀ a, clash a a = true) : t.rows.Nodup := by
  refine t.unique.imp fun {a b} apart same => ?_
  rw [same, self] at apart
  cases apart

theorem insert?_rows {t u : Table α clash} {a : α} (done : t.insert? a = some u) :
    u.rows = t.rows ++ [a] := by
  unfold insert? at done
  split at done
  · cases Option.some.inj done
    rfl
  · contradiction

theorem insert?_isSome (t : Table α clash) (a : α) :
    (t.insert? a).isSome ↔ ∀ b ∈ t.rows, clash b a = false := by
  unfold insert?
  split
  · rename_i fits
    simpa using fits
  · rename_i clashing
    simpa using clashing

theorem insert?_eq_none (t : Table α clash) (a : α) :
    t.insert? a = none ↔ ∃ b ∈ t.rows, clash b a = true := by
  rw [← Option.not_isSome_iff_eq_none, insert?_isSome]
  simp

theorem insertAll?_rows {as : List α} {t u : Table α clash} (done : t.insertAll? as = some u) :
    u.rows = t.rows ++ as := by
  induction as generalizing t with
  | nil =>
    cases Option.some.inj done
    simp
  | cons a as ih =>
    obtain ⟨mid, first, rest⟩ := Option.bind_eq_some_iff.mp done
    rw [ih rest, insert?_rows first, List.append_assoc, List.singleton_append]

/-- An ignored INSERT adds the row at the end, unless it clashes. -/
theorem insertIgnored_rows (t : Table α clash) (a : α) :
    (t.insertIgnored a).rows = t.rows ++ [a] ∨
      (t.insertIgnored a).rows = t.rows ∧ ∃ b ∈ t.rows, clash b a = true := by
  unfold insertIgnored
  cases done : t.insert? a with
  | none => exact .inr ⟨rfl, (insert?_eq_none t a).mp done⟩
  | some u => exact .inl (insert?_rows done)

theorem insertIgnored_same_iff (t : Table α clash) (a : α) :
    (t.insertIgnored a).rows = t.rows ↔ ∃ b ∈ t.rows, clash b a = true := by
  constructor
  · intro same
    rcases insertIgnored_rows t a with grown | ⟨-, clashing⟩
    · rw [grown, List.append_right_eq_self] at same
      cases same
    · exact clashing
  · intro clashing
    rw [insertIgnored, (insert?_eq_none t a).mpr clashing, Option.getD_none]

theorem deleteWhere_same_iff (t : Table α clash) (p : α → Bool) :
    (t.deleteWhere p).rows = t.rows ↔ ∀ a ∈ t.rows, p a = false := by
  simp [deleteWhere, List.filter_eq_self]

theorem mem_insertIgnored {t : Table α clash} {a b : α} (member : b ∈ (t.insertIgnored a).rows) :
    b ∈ t.rows ∨ b = a := by
  rcases insertIgnored_rows t a with rows | ⟨rows, _⟩
  · simpa [rows] using member
  · exact .inl (rows ▸ member)

/- Rows of no interest to `p` leave what `p` selects alone. -/
theorem filter_insertIgnored (t : Table α clash) {a : α} {p : α → Bool} (other : p a = false) :
    (t.insertIgnored a).rows.filter p = t.rows.filter p := by
  rcases insertIgnored_rows t a with rows | ⟨rows, _⟩
  · simp [rows, other]
  · rw [rows]

theorem filter_insertEach {as : List α} {p : α → Bool} (other : ∀ a ∈ as, p a = false)
    (t : Table α clash) : (t.insertEach as).rows.filter p = t.rows.filter p := by
  induction as generalizing t with
  | nil => rfl
  | cons a as ih =>
    have rest := ih (fun b hb => other b (List.mem_cons_of_mem _ hb)) (t.insertIgnored a)
    exact rest.trans (filter_insertIgnored t (other a List.mem_cons_self))

theorem mem_insertEach {as : List α} {t : Table α clash} {b : α}
    (member : b ∈ (t.insertEach as).rows) : b ∈ t.rows ∨ b ∈ as := by
  induction as generalizing t with
  | nil => exact .inl member
  | cons a as ih =>
    rcases ih member with old | new
    · rcases mem_insertIgnored old with old | rfl
      · exact .inl old
      · exact .inr List.mem_cons_self
    · exact .inr (List.mem_cons_of_mem _ new)

theorem insertIgnored_keeps {t : Table α clash} (a : α) {b : α} (member : b ∈ t.rows) :
    b ∈ (t.insertIgnored a).rows := by
  rcases insertIgnored_rows t a with rows | ⟨rows, -⟩
  · rw [rows]
    exact List.mem_append_left _ member
  · exact rows ▸ member

theorem insertEach_keeps (as : List α) {t : Table α clash} {b : α} (member : b ∈ t.rows) :
    b ∈ (t.insertEach as).rows := by
  induction as generalizing t with
  | nil => exact member
  | cons a as ih => exact ih (insertIgnored_keeps a member)

theorem insertEach_appends (t : Table α clash) (as : List α) :
    ∃ new, (t.insertEach as).rows = t.rows ++ new ∧ ∀ a ∈ new, a ∈ as := by
  induction as generalizing t with
  | nil => exact ⟨[], (List.append_nil _).symm, by simp⟩
  | cons a as ih =>
    obtain ⟨new, appended, some⟩ := ih (t.insertIgnored a)
    have later : ∀ b ∈ new, b ∈ a :: as := fun b hb => List.mem_cons_of_mem _ (some b hb)
    rcases insertIgnored_rows t a with rows | ⟨rows, -⟩
    · refine ⟨a :: new, ?_, List.forall_mem_cons.mpr ⟨List.mem_cons_self, later⟩⟩
      rw [insertEach, List.foldl_cons]
      rw [insertEach] at appended
      rw [appended, rows, List.append_assoc, List.singleton_append]
    · refine ⟨new, ?_, later⟩
      rw [insertEach, List.foldl_cons]
      rw [insertEach] at appended
      rw [appended, rows]

theorem insertEach_fits {t : Table α clash} {as : List α}
    (fits : (t.rows ++ as).Pairwise fun a b => clash a b = false) :
    (t.insertEach as).rows = t.rows ++ as := by
  induction as generalizing t with
  | nil => exact (List.append_nil _).symm
  | cons a as ih =>
    have split : (t.rows ++ [a] ++ as).Pairwise fun a b => clash a b = false := by
      rw [List.append_assoc, List.singleton_append]
      exact fits
    have first : ∀ b ∈ t.rows, clash b a = false := fun b member =>
      (List.pairwise_append.mp fits).2.2 b member a List.mem_cons_self
    obtain ⟨u, inserted⟩ := Option.isSome_iff_exists.mp ((insert?_isSome t a).mpr first)
    have rows := insert?_rows inserted
    have later := ih (t := u) (rows ▸ split)
    rw [insertEach, List.foldl_cons, insertIgnored, inserted, Option.getD_some, ← insertEach, later,
      rows, List.append_assoc, List.singleton_append]

theorem insertEach_covers {as : List α} {t : Table α clash} {a : α} (member : a ∈ as) :
    ∃ b ∈ (t.insertEach as).rows, b = a ∨ clash b a = true := by
  induction as generalizing t with
  | nil => cases member
  | cons c as ih =>
    rcases List.mem_cons.mp member with rfl | later
    · rcases insertIgnored_rows t a with rows | ⟨-, b, old, clashing⟩
      · have inserted : a ∈ (t.insertIgnored a).rows := by simp [rows]
        exact ⟨a, insertEach_keeps as inserted, .inl rfl⟩
      · exact ⟨b, insertEach_keeps as (insertIgnored_keeps a old), .inr clashing⟩
    · exact ih later

@[simp] theorem deleteWhere_rows (t : Table α clash) (p : α → Bool) :
    (t.deleteWhere p).rows = t.rows.filter fun a => !p a := rfl

theorem filter_deleteWhere (t : Table α clash) {p q : α → Bool}
    (apart : ∀ a ∈ t.rows, q a = true → p a = false) :
    (t.deleteWhere p).rows.filter q = t.rows.filter q := by
  rw [deleteWhere_rows, List.filter_filter]
  refine List.filter_congr fun a member => ?_
  cases selected : q a with
  | false => rfl
  | true => simp [apart a member selected]

end Table

structure Entry (α : Type) where
  rowid : Int
  row : α
deriving DecidableEq

/-- `seq` is the largest rowid ever handed out, so no rowid is handed out twice. -/
structure AutoTable (α : Type) (clash : α → α → Bool) where
  entries : List (Entry α)
  seq : Int
  started : 0 ≤ seq
  unique : entries.Pairwise fun d e => clash d.row e.row = false
  ascending : entries.Pairwise fun d e => d.rowid < e.rowid
  issued : ∀ e ∈ entries, 1 ≤ e.rowid ∧ e.rowid ≤ seq

namespace AutoTable

def empty : AutoTable α clash := ⟨[], 0, Int.le_refl 0, .nil, .nil, by simp⟩

/-- INSERT without a key: the table and the rowid it chose. -/
def insert? (t : AutoTable α clash) (a : α) : Option (AutoTable α clash × Int) :=
  if fits : ∀ e ∈ t.entries, clash e.row a = false then
    some (⟨t.entries ++ [⟨t.seq + 1, a⟩], t.seq + 1, Int.le_add_one t.started,
      by simpa [List.pairwise_append, t.unique] using fits,
      by
        simp only [List.pairwise_append, t.ascending, List.pairwise_singleton, true_and,
          List.mem_singleton, forall_eq]
        exact fun e he => Int.lt_add_one_of_le (t.issued e he).2,
      by
        have started := t.started
        intro e he
        rcases List.mem_append.mp he with old | new
        · have bounds := t.issued e old
          omega
        · cases List.mem_singleton.mp new
          exact ⟨Int.le_add_of_nonneg_left started, Int.le_refl _⟩⟩, t.seq + 1)
  else none

def deleteWhere (t : AutoTable α clash) (p : Entry α → Bool) : AutoTable α clash :=
  ⟨t.entries.filter fun e => !p e, t.seq, t.started, t.unique.filter _, t.ascending.filter _,
    fun e he => t.issued e (List.mem_of_mem_filter he)⟩

def assign (p : Entry α → Bool) (f : α → α) (e : Entry α) : Entry α :=
  if p e then ⟨e.rowid, f e.row⟩ else e

theorem assign_rowid (p : Entry α → Bool) (f : α → α) (e : Entry α) :
    (assign p f e).rowid = e.rowid := by
  unfold assign
  split <;> rfl

/-- UPDATE of the rows that satisfy `p`; `none` when the result would break a
constraint. -/
def updateWhere? (t : AutoTable α clash) (p : Entry α → Bool) (f : α → α) :
    Option (AutoTable α clash) :=
  if fits : (t.entries.map (assign p f)).Pairwise fun d e => clash d.row e.row = false then
    some ⟨t.entries.map (assign p f), t.seq, t.started, fits,
      by simpa [List.pairwise_map, assign_rowid] using t.ascending,
      by
        intro e he
        obtain ⟨d, hd, rfl⟩ := List.mem_map.mp he
        rw [assign_rowid]
        exact t.issued d hd⟩
  else none

@[simp] theorem empty_entries : (empty : AutoTable α clash).entries = [] := rfl

theorem insert?_spec {t u : AutoTable α clash} {a : α} {id : Int}
    (done : t.insert? a = some (u, id)) :
    u.entries = t.entries ++ [⟨t.seq + 1, a⟩] ∧ u.seq = t.seq + 1 ∧ id = t.seq + 1 := by
  unfold insert? at done
  split at done
  · cases Option.some.inj done
    exact ⟨rfl, rfl, rfl⟩
  · contradiction

/- Without a constraint on the other columns an INSERT cannot fail. -/
theorem insert?_free (t : AutoTable α clash) {a : α} (free : ∀ b, clash b a = false) :
    ∃ u, t.insert? a = some (u, t.seq + 1) := by
  have fits : ∀ e ∈ t.entries, clash e.row a = false := fun e _ => free e.row
  unfold insert?
  rw [dif_pos fits]
  exact ⟨_, rfl⟩

theorem updateWhere?_spec {t u : AutoTable α clash} {p : Entry α → Bool} {f : α → α}
    (done : t.updateWhere? p f = some u) :
    u.entries = t.entries.map (assign p f) ∧ u.seq = t.seq := by
  unfold updateWhere? at done
  split at done
  · cases Option.some.inj done
    exact ⟨rfl, rfl⟩
  · contradiction

theorem map_assign_eq_iff {p : Entry α → Bool} {f : α → α} {entries : List (Entry α)} :
    entries.map (assign p f) = entries ↔ ∀ e ∈ entries, p e = true → f e.row = e.row := by
  induction entries with
  | nil => simp
  | cons e es ih =>
    rw [List.map_cons, List.cons.injEq, ih, List.forall_mem_cons]
    refine and_congr_left' ?_
    unfold assign
    split
    · rename_i selected
      simp only [selected, forall_const]
      exact ⟨congrArg Entry.row, fun same => by rw [same]⟩
    · rename_i other
      simp [other]

/- An UPDATE of columns that no constraint mentions cannot fail. -/
theorem updateWhere?_blind (t : AutoTable α clash) {p : Entry α → Bool} {f : α → α}
    (left : ∀ a b, clash (f a) b = clash a b) (right : ∀ a b, clash a (f b) = clash a b) :
    ∃ u, t.updateWhere? p f = some u := by
  have fits : (t.entries.map (assign p f)).Pairwise fun d e => clash d.row e.row = false := by
    refine List.pairwise_map.mpr (t.unique.imp fun {d e} apart => ?_)
    unfold assign
    split
    · split
      · exact (left d.row _).trans ((right d.row e.row).trans apart)
      · exact (left d.row e.row).trans apart
    · split
      · exact (right d.row e.row).trans apart
      · exact apart
  unfold updateWhere?
  rw [dif_pos fits]
  exact ⟨_, rfl⟩

theorem updateWhere?_free (t : AutoTable α clash) {p : Entry α → Bool} {f : α → α}
    (free : ∀ a b, clash a b = false) : ∃ u, t.updateWhere? p f = some u :=
  t.updateWhere?_blind (fun _ _ => (free _ _).trans (free _ _).symm)
    fun _ _ => (free _ _).trans (free _ _).symm

theorem filter_rowid (t : AutoTable α clash) {e : Entry α} (he : e ∈ t.entries) :
    t.entries.filter (fun d => e.rowid = d.rowid) = [e] := by
  obtain ⟨before, after, split⟩ := List.append_of_mem he
  have ascending := t.ascending
  rw [split, List.pairwise_append, List.pairwise_cons] at ascending
  obtain ⟨-, ⟨larger, -⟩, smaller⟩ := ascending
  have noneBefore : before.filter (fun d => e.rowid = d.rowid) = [] := by
    refine List.filter_eq_nil_iff.mpr fun d hd => ?_
    have less := smaller d hd e List.mem_cons_self
    simp [less.ne']
  have noneAfter : after.filter (fun d => e.rowid = d.rowid) = [] := by
    refine List.filter_eq_nil_iff.mpr fun d hd => ?_
    simp [(larger d hd).ne]
  rw [split, List.filter_append, noneBefore, List.filter_cons, noneAfter]
  simp

theorem eq_of_clash (t : AutoTable α clash) (comm : ∀ a b, clash a b = clash b a)
    {d e : Entry α} (hd : d ∈ t.entries) (he : e ∈ t.entries)
    (clashing : clash d.row e.row = true) : d = e := by
  by_contra differ
  have symmetric : Std.Symm fun d e : Entry α => clash d.row e.row = false :=
    ⟨fun d e apart => comm d.row e.row ▸ apart⟩
  exact Bool.false_ne_true ((t.unique.forall hd he differ).symm.trans clashing)

theorem eq_of_rowid (t : AutoTable α clash) {d e : Entry α} (hd : d ∈ t.entries)
    (he : e ∈ t.entries) (same : d.rowid = e.rowid) : d = e := by
  have member : e ∈ t.entries.filter fun x => d.rowid = x.rowid :=
    List.mem_filter.mpr ⟨he, decide_eq_true same⟩
  rw [t.filter_rowid hd, List.mem_singleton] at member
  exact member.symm

theorem nodup (t : AutoTable α clash) : t.entries.Nodup :=
  t.ascending.imp fun {_ _} less same => Int.ne_of_lt less (congrArg Entry.rowid same)

end AutoTable

def join (on : α → β → Bool) (as : List α) (bs : List β) : List (α × β) :=
  as.flatMap fun a => (bs.filter (on a)).map (Prod.mk a)

theorem mem_join {on : α → β → Bool} {as : List α} {bs : List β} {a : α} {b : β} :
    (a, b) ∈ join on as bs ↔ a ∈ as ∧ b ∈ bs ∧ on a b = true := by
  simp only [join, List.mem_flatMap, List.mem_map, List.mem_filter, Prod.mk.injEq]
  constructor
  · rintro ⟨x, hx, y, hy, rfl, rfl⟩
    exact ⟨hx, hy⟩
  · rintro ⟨ha, hb⟩
    exact ⟨a, ha, b, hb, rfl, rfl⟩

theorem filter_join (on : α → β → Bool) (p : α → Bool) (as : List α) (bs : List β) :
    (join on as bs).filter (fun r => p r.1) = join on (as.filter p) bs := by
  induction as with
  | nil => rfl
  | cons a as ih =>
    have rest := ih
    simp only [join, List.flatMap_cons, List.filter_append, List.filter_map] at rest ⊢
    rw [rest]
    cases selected : p a with
    | true => simp [selected, Function.comp_def]
    | false => simp [selected, Function.comp_def]

theorem filter_join_right (on : α → β → Bool) (q : β → Bool) (as : List α) (bs : List β) :
    (join on as bs).filter (fun r => q r.2) = join on as (bs.filter q) := by
  induction as with
  | nil => rfl
  | cons a as ih =>
    have rest := ih
    simp only [join, List.flatMap_cons, List.filter_append, List.filter_map] at rest ⊢
    rw [rest, List.filter_filter, List.filter_filter]
    simp only [Function.comp_def, Bool.and_comm]

/- Rows without a partner may be left out beforehand. -/
theorem join_filter_left {on : α → β → Bool} {p : α → Bool} {as : List α} {bs : List β}
    (needed : ∀ a b, a ∈ as → b ∈ bs → on a b = true → p a = true) :
    join on as bs = join on (as.filter p) bs := by
  rw [← filter_join]
  refine (List.filter_eq_self.mpr ?_).symm
  rintro ⟨a, b⟩ member
  obtain ⟨ha, hb, together⟩ := mem_join.mp member
  exact needed a b ha hb together

theorem map_fst_join {on : α → β → Bool} {as : List α} {bs : List β}
    (partner : ∀ a ∈ as, ∃ b, bs.filter (on a) = [b]) : (join on as bs).map Prod.fst = as := by
  induction as with
  | nil => rfl
  | cons a as ih =>
    obtain ⟨b, found⟩ := partner a List.mem_cons_self
    have rest := ih fun c hc => partner c (List.mem_cons_of_mem _ hc)
    simp only [join, List.flatMap_cons, found, List.map_append] at rest ⊢
    rw [rest]
    rfl

theorem join_nodup {on : α → β → Bool} {as : List α} {bs : List β} (left : as.Nodup)
    (right : bs.Nodup) : (join on as bs).Nodup := by
  refine List.nodup_flatMap.mpr ⟨fun a _ => ?_, left.imp fun {a c} differ => ?_⟩
  · exact (right.filter _).map fun b d same => (Prod.mk.inj same).2
  · rintro ⟨x, y⟩ first second
    obtain ⟨b, -, here⟩ := List.mem_map.mp first
    obtain ⟨d, -, there⟩ := List.mem_map.mp second
    exact differ ((Prod.mk.inj here).1.trans (Prod.mk.inj there).1.symm)

/-- The order in which a SELECT yields its rows, where the statement leaves it open. -/
structure RowOrder (α : Type) where
  arrange : List α → List α
  perm : ∀ rows, (arrange rows).Perm rows

def RowOrder.scan : RowOrder α := ⟨id, fun _ => .refl _⟩

@[simp] theorem RowOrder.mem_arrange (o : RowOrder α) {rows : List α} {a : α} :
    a ∈ o.arrange rows ↔ a ∈ rows := (o.perm rows).mem_iff

theorem map_perm {rows : List α} (nodup : rows.Nodup) {f : α → β}
    (key : ∀ a ∈ rows, ∀ b ∈ rows, f a = f b → a = b) {column : List β} (once : column.Nodup)
    (same : ∀ b, b ∈ column ↔ ∃ a ∈ rows, f a = b) : (rows.map f).Perm column := by
  apply (List.perm_ext_iff_of_nodup (nodup.map_on key) once).mpr
  intro b
  rw [List.mem_map]
  exact (same b).symm

/-- The first rows of a SELECT are some of its rows, and all of them where there are no more. -/
theorem RowOrder.page (o : RowOrder α) {rows : List α} {f : α → β} {column : List β}
    (all : (rows.map f).Perm column) (limit : Nat) :
    (((o.arrange rows).take limit).map f).Subperm column ∧
      (((o.arrange rows).take limit).map f).length = min limit column.length := by
  have arranged : ((o.arrange rows).map f).Perm column := ((o.perm rows).map f).trans all
  have first : (((o.arrange rows).take limit).map f).Sublist ((o.arrange rows).map f) :=
    (List.take_sublist _ _).map f
  refine ⟨first.subperm.trans arranged.subperm, ?_⟩
  rw [← arranged.length_eq, List.length_map, List.length_map, List.length_take]

theorem RowOrder.page_nonempty (o : RowOrder α) {rows : List α} {a : α} (member : a ∈ rows)
    {limit : Nat} (positive : 0 < limit) : (o.arrange rows).take limit ≠ [] := by
  have nonempty : o.arrange rows ≠ [] := List.ne_nil_of_mem (o.mem_arrange.mpr member)
  intro empty
  rcases List.take_eq_nil_iff.mp empty with none | gone
  · exact absurd none positive.ne'
  · exact nonempty gone

/-- ORDER BY a column, ascending; rows with equal keys come in any order. -/
def orderBy (key : α → Int) (o : RowOrder α) (rows : List α) : List α :=
  (o.arrange rows).insertionSort fun a b => key a ≤ key b

theorem orderBy_perm (key : α → Int) (o : RowOrder α) (rows : List α) :
    (orderBy key o rows).Perm rows :=
  (List.perm_insertionSort _ _).trans (o.perm rows)

theorem orderBy_sorted (key : α → Int) (o : RowOrder α) (rows : List α) :
    (orderBy key o rows).Pairwise fun a b => key a ≤ key b := by
  have total : Std.Total fun a b : α => key a ≤ key b := ⟨fun a b => Int.le_total _ _⟩
  have trans : IsTrans α fun a b : α => key a ≤ key b := ⟨fun _ _ _ => Int.le_trans⟩
  exact List.pairwise_insertionSort _ _

/-- Rows that already come in order keep that order. -/
theorem orderBy_scan (key : α → Int) (rows : List α)
    (ordered : rows.Pairwise fun a b => key a ≤ key b) :
    orderBy key RowOrder.scan rows = rows :=
  ordered.insertionSort_eq

end Relational
