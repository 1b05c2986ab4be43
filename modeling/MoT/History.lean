import MoT.Effects
import MoT.Services

/-! The history of a conversation: what the loop of `storage_get_history` leaves in its
buffer, and which rows its query gives to the loop. -/
namespace MoT
open CMemory Relational Transition

variable {P : Platform} {key : Option Key} {junk : Nat → UInt8}

def historyLine (P : Platform) (key : Option Key) (junk : Nat → UInt8) (row : HistoryRow) :
    Option CString :=
  (cryptoDecrypt P key junk row.1.row.text).map fun text =>
    lineHeader P row ++ text ++ CString.lit "\n"

def Prints (P : Platform) (key : Option Key) (junk : Nat → UInt8) (rows : List HistoryRow)
    (lines : List CString) : Prop :=
  List.Forall₂ (fun row line => historyLine P key junk row = some line) rows lines

theorem Prints.map_eq {rows : List HistoryRow} {lines : List CString}
    (printed : Prints P key junk rows lines) :
    rows.map (historyLine P key junk) = lines.map some := by
  induction printed with
  | nil => rfl
  | cons first _ ih => rw [List.map_cons, first, ih, List.map_cons]

/- Every line followed by its own NUL, as the loop lays them out. -/
def terminated (lines : List CString) : List Cell :=
  lines.flatMap fun line => (line.bytes ++ [0]).map some

theorem terminated_append (lines : List CString) (line : CString) :
    terminated (lines ++ [line]) = terminated lines ++ (line.bytes ++ [0]).map some := by
  simp [terminated]

/-- After these lines the offset stands behind the last NUL, and the buffer ends at
most one cell later. -/
structure Appended (lines : List CString) (state : Option (List Cell) × Nat) : Prop where
  offset : state.2 = (terminated lines).length
  block : ∃ slack : List Cell, slack.length ≤ 1 ∧ state.1.getD [] = terminated lines ++ slack
  allocated : lines ≠ [] → state.1.isSome

theorem historyStep_appended {lines : List CString} {state : Option (List Cell) × Nat}
    {row : HistoryRow} {line : CString} (appended : Appended lines state)
    (printed : historyLine P key junk row = some line) :
    ∃ next, historyStep P key junk state row = .ok next ∧ Appended (lines ++ [line]) next := by
  obtain ⟨text, decrypted, rfl⟩ := Option.map_eq_some_iff.mp printed
  obtain ⟨slack, short, block⟩ := appended.block
  have offset := appended.offset
  set line := lineHeader P row ++ text ++ CString.lit "\n" with hline
  have length : (lineHeader P row).length + text.length + 1 = line.length := by
    rw [hline, CString.length_append, CString.length_append]
    rfl
  have size : state.2 + ((lineHeader P row).length + text.length + 2) + 1 =
      (terminated lines).length + line.length + 2 := by omega
  have bytes : (line.bytes ++ [0]).length = line.length + 1 := by
    rw [List.length_append]
    rfl
  obtain ⟨tail, short', stored⟩ : ∃ tail : List Cell, tail.length ≤ 1 ∧
      store (realloc (terminated lines ++ slack) ((terminated lines).length + line.length + 2))
        (terminated lines).length (line.bytes ++ [0]) =
          some (terminated lines ++ (line.bytes ++ [0]).map some ++ tail) := by
    refine ⟨_, ?_, store_realloc _ _ _ _ (by omega) (by omega)⟩
    rw [List.length_drop, realloc_length]
    omega
  refine ⟨(some (terminated lines ++ (line.bytes ++ [0]).map some ++ tail),
    (terminated lines).length + line.length + 1), ?_, ?_, ⟨tail, short', ?_⟩, fun _ => rfl⟩
  · simp only [historyStep, decrypted, size, block, sprintf, ← hline]
    rw [offset, stored]
    simp only [← length]
    rfl
  · rw [terminated_append, List.length_append, List.length_map, bytes]
    rfl
  · rw [terminated_append, Option.getD_some]

theorem historyFold_appended {rows : List HistoryRow} {lines : List CString}
    (printed : Prints P key junk rows lines) {done : List CString}
    {state : Option (List Cell) × Nat} (appended : Appended done state) :
    ∃ next, rows.foldlM (historyStep P key junk) state = .ok next ∧
      Appended (done ++ lines) next := by
  induction printed generalizing done state with
  | nil => exact ⟨state, rfl, by simpa using appended⟩
  | cons first _ ih =>
    obtain ⟨mid, stepped, after⟩ := historyStep_appended appended first
    obtain ⟨next, folded, whole⟩ := ih after
    refine ⟨next, ?_, by simpa using whole⟩
    rw [List.foldlM_cons, stepped]
    exact folded

/-- Whatever the number of rows, the string that is returned is the first line. -/
theorem storageGetHistory_string {plan : Plan} {db : Database} {k : UInt32} {lines : List CString}
    (printed : Prints P key junk (historyRows plan db k) lines) :
    ∃ hist, storageGetHistory P key junk plan db k = .ok hist ∧
      CMemory.readString hist = some (lines.headD CString.empty).bytes := by
  have initial : Appended [] (none, 0) := ⟨rfl, ⟨[], by simp, rfl⟩, fun h => absurd rfl h⟩
  obtain ⟨⟨buf, len⟩, folded, appended⟩ := historyFold_appended printed initial
  refine ⟨buf.getD [some 0], ?_, ?_⟩
  · rw [storageGetHistory, folded]
    rfl
  · obtain ⟨slack, -, block⟩ := appended.block
    cases lines with
    | nil =>
      rw [List.forall₂_nil_right_iff.mp printed] at folded
      cases Except.ok.inj folded
      rfl
    | cons line rest =>
      obtain ⟨block', rfl⟩ := Option.isSome_iff_exists.mp (appended.allocated (by simp))
      have start : block' = line.bytes.map some ++ some 0 :: (terminated rest ++ slack) := by
        simpa [terminated] using block
      rw [Option.getD_some, start, readString_terminated]
      rfl

/-- The answer to a history request is every line of the query's rows, in their order. -/
def Faithful (P : Platform) (env : Env) (s : Server) (k : UInt32) : Prop :=
  ∃ lines, Prints P (some s.masterKey) env.junk (historyRows env.plan s.db k) lines ∧
    (∃ hist, storageGetHistory P (some s.masterKey) env.junk env.plan s.db k = .ok hist ∧
      CMemory.readString hist = some (CString.concat lines).bytes) ∧
    ∀ cli p, readUInt32 p RequestHistoryPayload.convId = .ok k →
      handleReqHistory P env s cli p =
        .ok (s, [⟨cli.fd, .respHistory (CString.concat lines).bytes⟩])

theorem historyLine_nonempty {row : HistoryRow} {line : CString}
    (printed : historyLine P key junk row = some line) : line.bytes ≠ [] := by
  obtain ⟨text, -, rfl⟩ := Option.map_eq_some_iff.mp printed
  have newline : (CString.lit "\n").bytes = [10] := by decide
  simp [newline]

/- The first line alone is the whole answer only when there is no second one. -/
theorem single_line {rows : List HistoryRow} {lines : List CString}
    (printed : Prints P key junk rows lines)
    (whole : (lines.headD CString.empty).bytes = (CString.concat lines).bytes) :
    rows.length ≤ 1 := by
  cases printed with
  | nil => simp
  | cons first others =>
    cases others with
    | nil => simp
    | cons second rest =>
      simp only [List.headD_cons, CString.concat_cons, CString.append_bytes,
        List.self_eq_append_right, List.append_eq_nil_iff] at whole
      exact absurd whole.1 (historyLine_nonempty second)

theorem historyRows_perm {plan : Plan} {db : Database} {k : UInt32}
    (few : (joinedMessages db k).length ≤ 50) :
    (historyRows plan db k).Perm (joinedMessages db k) := by
  have ordered := orderBy_perm (fun r => r.1.row.timestamp) plan.history (joinedMessages db k)
  have all : historyRows plan db k =
      orderBy (fun r => r.1.row.timestamp) plan.history (joinedMessages db k) :=
    List.take_of_length_le (ordered.length_eq.trans_le few)
  exact all ▸ ordered

theorem historyRows_length (plan : Plan) (db : Database) (k : UInt32) :
    (historyRows plan db k).length = min 50 (joinedMessages db k).length := by
  rw [historyRows, List.length_take, (orderBy_perm _ _ _).length_eq]

theorem prints_of_decrypts {rows : List HistoryRow}
    (decrypts : ∀ r ∈ rows, (cryptoDecrypt P key junk r.1.row.text).isSome) :
    ∃ lines, Prints P key junk rows lines := by
  induction rows with
  | nil => exact ⟨[], .nil⟩
  | cons row rows ih =>
    obtain ⟨text, decrypted⟩ := Option.isSome_iff_exists.mp (decrypts row List.mem_cons_self)
    obtain ⟨lines, printed⟩ := ih fun r hr => decrypts r (List.mem_cons_of_mem _ hr)
    exact ⟨_ :: lines, .cons (Option.map_eq_some_iff.mpr ⟨text, decrypted, rfl⟩) printed⟩

theorem decrypts_of_prints {rows : List HistoryRow} {lines : List CString}
    (printed : Prints P key junk rows lines) :
    ∀ r ∈ rows, (cryptoDecrypt P key junk r.1.row.text).isSome := by
  induction printed with
  | nil => simp
  | cons first _ ih =>
    obtain ⟨text, decrypted, -⟩ := Option.map_eq_some_iff.mp first
    intro r member
    rcases List.mem_cons.mp member with rfl | later
    · exact Option.isSome_of_eq_some decrypted
    · exact ih r later

theorem historyFold_decrypts {rows : List HistoryRow} {state next : Option (List Cell) × Nat}
    (folded : rows.foldlM (historyStep P key junk) state = .ok next) :
    ∀ r ∈ rows, (cryptoDecrypt P key junk r.1.row.text).isSome := by
  induction rows generalizing state with
  | nil => simp
  | cons row rows ih =>
    rw [List.foldlM_cons, ok_bind_iff] at folded
    obtain ⟨mid, stepped, rest⟩ := folded
    intro r member
    rcases List.mem_cons.mp member with rfl | later
    · cases decrypted : cryptoDecrypt P key junk r.1.row.text with
      | none => simp [historyStep, decrypted] at stepped
      | some text => rfl
    · exact ih rest r later

theorem storageGetHistory_answer {plan : Plan} {db : Database} {k : UInt32} {hist : List Cell}
    {bytes : List UInt8} (built : storageGetHistory P key junk plan db k = .ok hist)
    (string : CMemory.readString hist = some bytes) :
    ∃ lines, Prints P key junk (historyRows plan db k) lines ∧
      bytes = (lines.headD CString.empty).bytes := by
  obtain ⟨next, folded, -⟩ := ok_bind_iff.mp built
  obtain ⟨lines, printed⟩ := prints_of_decrypts (historyFold_decrypts folded)
  obtain ⟨hist', built', string'⟩ := storageGetHistory_string printed
  cases Except.ok.inj (built.symm.trans built')
  exact ⟨lines, printed, Option.some.inj (string.symm.trans string')⟩

/-- A history arrives whole exactly when at most one message of the conversation has its
sender in the users table, and that message decrypts. -/
theorem history_faithful_iff (P : Platform) (env : Env) (s : Server) (k : UInt32) :
    Faithful P env s k ↔ (joinedMessages s.db k).length ≤ 1 ∧
      ∀ r ∈ joinedMessages s.db k,
        (cryptoDecrypt P (some s.masterKey) env.junk r.1.row.text).isSome := by
  constructor
  · rintro ⟨lines, printed, ⟨hist, built, string⟩, -⟩
    obtain ⟨hist', built', string'⟩ := storageGetHistory_string printed
    cases Except.ok.inj (built.symm.trans built')
    have one := single_line printed (Option.some.inj (string'.symm.trans string))
    rw [historyRows_length] at one
    have few : (joinedMessages s.db k).length ≤ 1 := by omega
    have perm : (historyRows env.plan s.db k).Perm (joinedMessages s.db k) :=
      historyRows_perm (by omega)
    exact ⟨few, fun r member => decrypts_of_prints printed r (perm.mem_iff.mpr member)⟩
  · rintro ⟨few, decrypts⟩
    have perm : (historyRows env.plan s.db k).Perm (joinedMessages s.db k) :=
      historyRows_perm (by omega)
    obtain ⟨lines, printed⟩ :=
      prints_of_decrypts fun r member => decrypts r (perm.mem_iff.mp member)
    have length : lines.length ≤ 1 := by
      rw [← printed.length_eq, perm.length_eq]
      exact few
    have whole : (lines.headD CString.empty).bytes = (CString.concat lines).bytes := by
      match lines, length with
      | [], _ => rfl
      | [line], _ => simp
    obtain ⟨hist, built, string⟩ := storageGetHistory_string printed
    rw [whole] at string
    refine ⟨lines, printed, ⟨hist, built, string⟩, fun cli p readK => ?_⟩
    simp only [handleReqHistory, readK, built, bind, Except.bind, string]
    rfl

def twoTextsSession : List Event :=
  aliceArrives ++
    [(serviceCreateGroup 1 (CString.lit "team") CString.empty []).event 7 (recordedEnv 2),
      (serviceSendText 1 (CString.lit "hi")).event 7 (recordedEnv 3),
      (serviceSendText 1 (CString.lit "yo")).event 7 (recordedEnv 4)]

theorem twoTextsSession_completes :
    (recordedServer.exec recordedServer.start twoTextsSession).isSome := by decide +kernel

abbrev twoTextsState : Server := recordedServer.after twoTextsSession twoTextsSession_completes

theorem history_loses_lines :
    ¬ ∀ (P : Platform) (env : Env) (s : Server) (k : UInt32),
      (∀ r ∈ joinedMessages s.db k,
        (cryptoDecrypt P (some s.masterKey) env.junk r.1.row.text).isSome) → Faithful P env s k := by
  intro claimed
  have seen : (∀ r ∈ joinedMessages twoTextsState.db 1, (cryptoDecrypt recordedPlatform
        (some twoTextsState.masterKey) (recordedEnv 5).junk r.1.row.text).isSome) ∧
      (historyRows (recordedEnv 5).plan twoTextsState.db 1).map
        (historyLine recordedPlatform (some twoTextsState.masterKey) (recordedEnv 5).junk) =
          [CString.lit "[00:00] alice: hi\n", CString.lit "[00:00] alice: yo\n"].map some ∧
      (handleReqHistory recordedPlatform (recordedEnv 5) twoTextsState
        ⟨7, 1, strncpy maxNameLen (CString.lit "alice"), true⟩
        (deliver (serviceReqHistory 1).2)).toOption.map Prod.snd =
          some [⟨7, .respHistory (CString.lit "[00:00] alice: hi\n").bytes⟩] := by decide +kernel
  obtain ⟨decrypts, two, answered⟩ := seen
  obtain ⟨lines, printed, -, answer⟩ :=
    claimed recordedPlatform (recordedEnv 5) twoTextsState 1 decrypts
  have both : lines = [CString.lit "[00:00] alice: hi\n", CString.lit "[00:00] alice: yo\n"] :=
    (Option.some_injective _).list_map (printed.map_eq.symm.trans two)
  rw [answer _ _ (by decide), both] at answered
  exact absurd answered (by decide +kernel)

def logged (db : Database) (k : UInt32) : List (Entry MessageRow) :=
  db.messages.entries.filter fun m => m.row.convId = bindInt k

theorem logged_storageLogMessage (P : Platform) (key : Option Key) (randBytes : Option Iv)
    (now : Int) (db : Database) (k sender : UInt32) (text : CString) :
    logged (storageLogMessage P key randBytes now db k sender text) k =
      logged db k ++ ((cryptoEncrypt P key randBytes text).map fun encrypted =>
        ⟨db.messages.seq + 1, bindInt k, bindInt sender, encrypted, now⟩).toList := by
  rw [logged, storageLogMessage_entries, List.filter_append, logged]
  cases cryptoEncrypt P key randBytes text with
  | none => simp
  | some encrypted => simp

theorem joinedMessages_logged {db : Database} {k : UInt32}
    (senders : ∀ m ∈ logged db k, ∃ u ∈ db.users.entries, u.rowid = m.row.senderId) :
    (joinedMessages db k).map Prod.fst = logged db k := by
  have selected : joinedMessages db k =
      join (fun m u => m.row.senderId = u.rowid) (logged db k) db.users.entries :=
    filter_join _ (fun m : Entry MessageRow => m.row.convId = bindInt k) _ _
  rw [selected]
  refine map_fst_join fun m member => ?_
  obtain ⟨u, hu, sender⟩ := senders m member
  rw [← sender]
  exact ⟨u, db.users.filter_rowid hu⟩

/-- The rows are the last fifty messages, in chronological order. -/
def Latest (plan : Plan) (db : Database) (k : UInt32) : Prop :=
  ((historyRows plan db k).map Prod.fst).Perm ((logged db k).drop ((logged db k).length - 50)) ∧
    ((historyRows plan db k).map Prod.fst).Pairwise fun a b => a.row.timestamp ≤ b.row.timestamp

theorem historyRows_chronological (plan : Plan) (db : Database) (k : UInt32) :
    ((historyRows plan db k).map Prod.fst).Pairwise fun a b =>
      a.row.timestamp ≤ b.row.timestamp :=
  List.pairwise_map.mpr ((orderBy_sorted _ _ _).sublist (List.take_sublist 50 _))

/- In the order of the table the query picks the first fifty messages. -/
theorem historyRows_scan {db : Database} {k : UInt32}
    (ordered : (logged db k).Pairwise fun a b => a.row.timestamp ≤ b.row.timestamp)
    (senders : ∀ m ∈ logged db k, ∃ u ∈ db.users.entries, u.rowid = m.row.senderId) :
    (historyRows .scan db k).map Prod.fst = (logged db k).take 50 := by
  have messages := joinedMessages_logged senders
  have already : (joinedMessages db k).Pairwise fun a b =>
      a.1.row.timestamp ≤ b.1.row.timestamp := by
    rw [← messages, List.pairwise_map] at ordered
    exact ordered
  have unsorted : historyRows .scan db k = (joinedMessages db k).take 50 :=
    congrArg (List.take 50) (orderBy_scan _ _ already)
  rw [unsorted, List.map_take, messages]

/- The oldest message is not among the last fifty of more than fifty. -/
theorem oldest_dropped {db : Database} {k : UInt32} {m : Entry MessageRow}
    {rest : List (Entry MessageRow)} (split : logged db k = m :: rest)
    (many : 50 < (logged db k).length) :
    m ∉ (logged db k).drop ((logged db k).length - 50) := by
  have ascending : (m :: rest).Pairwise fun a b => a.rowid < b.rowid :=
    split ▸ db.messages.ascending.filter _
  intro member
  obtain ⟨n, size⟩ : ∃ n, (logged db k).length - 50 = n + 1 :=
    ⟨(logged db k).length - 51, by omega⟩
  rw [size, split, List.drop_succ_cons] at member
  exact lt_irrefl _ ((List.pairwise_cons.mp ascending).1 m (List.mem_of_mem_drop member))

/-- A history request looks at the latest messages exactly while there are at most
fifty of them. -/
theorem history_latest_iff (db : Database) (k : UInt32)
    (ordered : (logged db k).Pairwise fun a b => a.row.timestamp ≤ b.row.timestamp)
    (senders : ∀ m ∈ logged db k, ∃ u ∈ db.users.entries, u.rowid = m.row.senderId) :
    (∀ plan, Latest plan db k) ↔ (logged db k).length ≤ 50 := by
  have messages := joinedMessages_logged senders
  constructor
  · intro latest
    by_contra many
    have perm := (latest .scan).1
    rw [historyRows_scan ordered senders] at perm
    cases split : logged db k with
    | nil => simp [split] at many
    | cons m rest =>
      refine oldest_dropped split (by omega) (perm.mem_iff.mp ?_)
      rw [split]
      exact List.mem_cons_self
  · intro few plan
    refine ⟨?_, historyRows_chronological plan db k⟩
    have joined : (joinedMessages db k).length ≤ 50 := by
      rw [← List.length_map Prod.fst, messages]
      exact few
    have all : (logged db k).length - 50 = 0 := by omega
    rw [all, List.drop_zero, ← messages]
    exact (historyRows_perm joined).map Prod.fst

theorem history_latest_iff_two :
    (∀ plan, Latest plan twoTextsState.db 1) ↔ (logged twoTextsState.db 1).length ≤ 50 :=
  history_latest_iff _ 1 (by decide +kernel) (by decide +kernel)

def busySession : List Event :=
  aliceArrives ++
    (serviceCreateGroup 1 (CString.lit "team") CString.empty []).event 7 (recordedEnv 2) ::
    (List.range 51).map fun i =>
      (serviceSendText 1 (CString.lit "hi")).event 7 { recordedEnv 3 with now := 100 + i }

theorem busySession_completes :
    (recordedServer.exec recordedServer.start busySession).isSome := by decide +kernel

abbrev busyState : Server := recordedServer.after busySession busySession_completes

theorem history_misses_latest :
    ¬ ∀ (P : Platform) (key : Key) (s : Server), Reachable (server P key) s → ∀ k,
      ((logged s.db k).Pairwise fun a b => a.row.timestamp ≤ b.row.timestamp) →
      (∀ m ∈ logged s.db k, ∃ u ∈ s.db.users.entries, u.rowid = m.row.senderId) →
      ∀ plan, Latest plan s.db k := by
  intro claimed
  have seen : ((logged busyState.db 1).Pairwise fun a b => a.row.timestamp ≤ b.row.timestamp) ∧
      (∀ m ∈ logged busyState.db 1, ∃ u ∈ busyState.db.users.entries,
        u.rowid = m.row.senderId) ∧
      ¬ (150 ∈ ((historyRows .scan busyState.db 1).map Prod.fst).map (fun m => m.row.timestamp) ↔
        150 ∈ ((logged busyState.db 1).drop ((logged busyState.db 1).length - 50)).map
          fun m => m.row.timestamp) := by
    decide +kernel
  obtain ⟨ordered, known, missed⟩ := seen
  have latest := claimed recordedPlatform recordedKey busyState
    (.after busySession busySession_completes) 1 ordered known .scan
  have timestamps := (latest.1.map fun m => m.row.timestamp).mem_iff (a := 150)
  exact missed timestamps

end MoT
