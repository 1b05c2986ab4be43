import Mathlib.Algebra.Order.BigOperators.Group.Finset
import Mathlib.Data.Prod.Lex
import MoT.Flow
import MoT.Requests
import MoT.StateLock

/-! Any number of users at one server, each with a client and two queues, beside connections that
are anything at all. To each user the others are what lies behind the server. When the users stop
the net comes to rest: whatever is on its way is handled, in any order, until nothing is left. -/
namespace MoT
open CMemory Transition

variable {ι : Type} {P : Platform} {key : Key} {allocates : Nat → Bool}
  {fd : ι → Int} {uid : ι → UInt32} {s₀ : Server}

structure Peer where
  client : MainState
  /-- `state_lock` was taken for a new name and password, and stays with the main loop. -/
  held : Bool
  toServer : List Request
  toClient : List Incoming

structure Net (ι : Type) where
  server : Server
  peers : ι → Peer

/-- The net from where one user sits. -/
def Net.seat (n : Net ι) (i : ι) : Link where
  server := n.server
  client := (n.peers i).client
  toServer := (n.peers i).toServer
  toClient := (n.peers i).toClient

inductive NetEvent (ι : Type) where
  | draw (i : ι)
  | key (i : ι) (ch : Int) (prompts : Prompts)
  | receive (i : ι) (junk : Nat → UInt8)
  | serve (i : ι) (env : Env)
  | outside (e : Event)

def Peer.gets (fd : Int) (about : UInt32) (out : List Sent) (p : Peer) : Peer :=
  { p with toClient := p.toClient ++ inbox fd about out }

/- The receiving thread takes `state_lock` for this packet. -/
def needsLock (allocates : Nat → Bool) (junk : Nat → UInt8) (packet : Packet) : Bool :=
  (networkInSteps allocates packet.type.code (deliver (packet.payload junk))
    (UInt32.ofNat (packet.payload junk).length)).any fun
      | .lock => true
      | _ => false

/-- The client has not ended, and the lock is to be had if the packet needs it. -/
def Peer.Takes (allocates : Nat → Bool) (junk : Nat → UInt8) (p : Peer) (packet : Packet) : Prop :=
  p.client.phase ≠ .ended ∧ (p.held = true → needsLock allocates junk packet = false)

instance (allocates : Nat → Bool) (junk : Nat → UInt8) (p : Peer) (packet : Packet) :
    Decidable (p.Takes allocates junk packet) :=
  inferInstanceAs (Decidable (_ ∧ _))

instance (ch : Int) (s : MainState) : Decidable (AsksForAccount ch s) :=
  inferInstanceAs (Decidable (_ ∧ _))

def Net.setPeer [DecidableEq ι] (n : Net ι) (i : ι) (p : Peer) : Net ι :=
  { n with peers := Function.update n.peers i p }

def peerMoves [DecidableEq ι] (allocates : Nat → Bool) (n : Net ι) (i : ι) (held : Bool)
    (toClient : List Incoming) (e : ClientEvent) : Option (Net ι × Unit) :=
  (clientStep allocates (n.peers i).client e).map fun r =>
    (n.setPeer i ⟨r.1, held, (n.peers i).toServer ++ r.2, toClient⟩, ())

def netStep [Fintype ι] [DecidableEq ι] (P : Platform) (allocates : Nat → Bool) (fd : ι → Int)
    (n : Net ι) : NetEvent ι → Option (Net ι × Unit)
  | .draw i => peerMoves allocates n i (n.peers i).held (n.peers i).toClient .draw
  | .key i ch prompts =>
    peerMoves allocates n i ((n.peers i).held || decide (AsksForAccount ch (n.peers i).client))
      (n.peers i).toClient (.key ch prompts)
  | .receive i junk =>
    match (n.peers i).toClient with
    | [] => none
    | m :: rest =>
      if (n.peers i).Takes allocates junk m.packet then
        peerMoves allocates n i (n.peers i).held rest (.receive junk m.packet)
      else none
  | .serve i env =>
    match (n.peers i).toServer with
    | [] => none
    | r :: rest =>
      (serverStep P n.server (r.event (fd i) env)).map fun x =>
        ({ server := x.1
           peers := fun j =>
            if j = i then { n.peers i with toServer := rest }.gets (fd i) (askedAbout r) x.2
            else (n.peers j).gets (fd j) 0 x.2 }, ())
  | .outside e =>
    if ∃ i, fd i = e.fd then none
    else (serverStep P n.server e).map fun x =>
      ({ server := x.1, peers := fun j => (n.peers j).gets (fd j) 0 x.2 }, ())

/-- The clients of these users on their connections, from the moment their loops begin. -/
def net [Fintype ι] [DecidableEq ι] (P : Platform) (allocates : Nat → Bool) (fd : ι → Int)
    (uid : ι → UInt32) (s : Server) :
    System (Net ι) (NetEvent ι) Unit where
  start :=
    { server := s
      peers := fun i =>
        ⟨mainStart (uid i), false,
          [serviceRefreshContacts, serviceRefreshRequests, serviceReqConversations], []⟩ }
  step := netStep P allocates fd

abbrev NetMoment (ι : Type) := Moment (Net ι) (NetEvent ι) Unit

/- What the link of a user makes of an event. -/
def seen [DecidableEq ι] (fd : ι → Int) (j : ι) (n : Net ι) : NetEvent ι → Option LinkEvent
  | .draw i => if i = j then some .draw else none
  | .key i ch prompts => if i = j then some (.key ch prompts) else none
  | .receive i junk => if i = j then some (.receive junk) else none
  | .serve i env =>
    if i = j then some (.serve env)
    else (n.peers i).toServer.head?.map fun r => .other (r.event (fd i) env)
  | .outside e => some (.other e)

/-- The user is left out of a step, or sees it as one of the link. -/
inductive Seen [DecidableEq ι] (P : Platform) (allocates : Nat → Bool) (fd : ι → Int) (j : ι)
    (n n' : Net ι) (e : NetEvent ι) : Prop
  | nothing (unseen : seen fd j n e = none) (same : n'.seat j = n.seat j)
  | step {e' : LinkEvent} (sees : seen fd j n e = some e')
      (stepped : linkStep P allocates (fd j) (n.seat j) e' = some (n'.seat j, ()))

section Seats

variable [DecidableEq ι]

theorem setPeer_self (n : Net ι) (i : ι) (p : Peer) : (n.setPeer i p).peers i = p := by
  simp [Net.setPeer]

theorem setPeer_other (n : Net ι) {i j : ι} (p : Peer) (other : i ≠ j) :
    (n.setPeer i p).peers j = n.peers j := by
  simp [Net.setPeer, other.symm]

theorem peerMoves_some {n n' : Net ι} {i : ι} {held : Bool} {toClient : List Incoming}
    {e : ClientEvent} {o : Unit} (moved : peerMoves allocates n i held toClient e = some (n', o)) :
    ∃ client sent, clientStep allocates (n.peers i).client e = some (client, sent) ∧
      n' = n.setPeer i ⟨client, held, (n.peers i).toServer ++ sent, toClient⟩ := by
  obtain ⟨⟨client, sent⟩, stepped, same⟩ := Option.map_eq_some_iff.mp moved
  cases same
  exact ⟨client, sent, stepped, rfl⟩

theorem peerMoves_seen {n n' : Net ι} {i : ι} {held : Bool} {toClient : List Incoming}
    {e : ClientEvent} {o : Unit} (moved : peerMoves allocates n i held toClient e = some (n', o))
    (j : ι) :
    (i ≠ j ∧ n'.seat j = n.seat j) ∨ (i = j ∧
      clientMoves allocates { n.seat j with toClient := toClient } e = some (n'.seat j, ())) := by
  obtain ⟨client, sent, stepped, rfl⟩ := peerMoves_some moved
  by_cases mine : i = j
  · subst mine
    refine .inr ⟨rfl, ?_⟩
    rw [clientMoves, Net.seat, stepped, Net.seat, setPeer_self]
    rfl
  · refine .inl ⟨mine, ?_⟩
    rw [Net.seat, Net.seat, setPeer_other n _ mine]
    rfl

variable [Fintype ι]

theorem receive_moved {n n' : Net ι} {i : ι} {junk : Nat → UInt8} {o : Unit}
    (stepped : netStep P allocates fd n (.receive i junk) = some (n', o)) :
    ∃ m rest, (n.peers i).toClient = m :: rest ∧
      peerMoves allocates n i (n.peers i).held rest (.receive junk m.packet) = some (n', o) := by
  rw [netStep] at stepped
  split at stepped
  · cases stepped
  · rename_i m rest queue
    exact ⟨m, rest, queue, (Option.ite_none_right_eq_some.mp stepped).2⟩

theorem netStep_seen (apart : Function.Injective fd) {n n' : Net ι} {e : NetEvent ι} {o : Unit}
    (stepped : netStep P allocates fd n e = some (n', o)) (j : ι) :
    Seen P allocates fd j n n' e := by
  cases e with
  | draw i =>
    rcases peerMoves_seen stepped j with ⟨other, same⟩ | ⟨rfl, moved⟩
    · exact .nothing (if_neg other) same
    · exact .step (if_pos rfl) moved
  | key i ch prompts =>
    rcases peerMoves_seen stepped j with ⟨other, same⟩ | ⟨rfl, moved⟩
    · exact .nothing (if_neg other) same
    · exact .step (if_pos rfl) moved
  | receive i junk =>
    obtain ⟨m, rest, queue, received⟩ := receive_moved stepped
    rcases peerMoves_seen received j with ⟨other, same⟩ | ⟨rfl, moved⟩
    · exact .nothing (if_neg other) same
    · refine .step (if_pos rfl) ?_
      rw [linkStep, show (n.seat i).toClient = m :: rest from queue]
      exact moved
  | serve i env =>
    rw [netStep] at stepped
    split at stepped
    · cases stepped
    · rename_i r rest queue
      obtain ⟨⟨s₁, out⟩, handled, same⟩ := Option.map_eq_some_iff.mp stepped
      cases same
      by_cases mine : i = j
      · subst mine
        refine .step (if_pos rfl) ?_
        rw [linkStep, show (n.seat i).toServer = r :: rest from queue]
        dsimp only
        rw [serverMoves, show (n.seat i).server = n.server from rfl, handled]
        simp only [Net.seat, if_true, Peer.gets, Option.map_some]
      · have elsewhere : (r.event (fd i) env).fd ≠ fd j := fun same => mine (apart same)
        have sees : seen fd j n (.serve i env) = some (.other (r.event (fd i) env)) := by
          rw [seen, if_neg mine, queue]
          rfl
        refine .step sees ?_
        rw [linkStep, if_neg elsewhere, serverMoves, show (n.seat j).server = n.server from rfl,
          handled]
        simp only [Net.seat, if_neg (Ne.symm mine), Peer.gets, Option.map_some]
  | outside e =>
    obtain ⟨nobody, moved⟩ := Option.ite_none_left_eq_some.mp stepped
    obtain ⟨⟨s₁, out⟩, handled, same⟩ := Option.map_eq_some_iff.mp moved
    cases same
    have elsewhere : e.fd ≠ fd j := fun same => nobody ⟨j, same.symm⟩
    have sees : seen fd j n (.outside e) = some (.other e) := rfl
    refine .step sees ?_
    rw [linkStep, if_neg elsewhere, serverMoves, show (n.seat j).server = n.server from rfl, handled]
    rfl

/-- Every run of the net is to each of its users a run of the user's own link, in which the steps
that the server makes for the others are those of everybody else. -/
theorem net_seen_as_link (P : Platform) (allocates : Nat → Bool) (fd : ι → Int)
    (apart : Function.Injective fd) (uid : ι → UInt32) (s₀ : Server) (past : List (NetMoment ι))
    (n : Net ι) (run : Run (net P allocates fd uid s₀) past n) (j : ι) :
    ∃ past', Run (link P allocates (fd j) (uid j) s₀) past' (n.seat j) ∧
      past'.map Moment.event = past.filterMap fun m => seen fd j m.before m.event := by
  induction run with
  | start => exact ⟨[], .start, rfl⟩
  | step before stepped ih =>
    obtain ⟨past', run', events⟩ := ih
    rw [List.filterMap_cons]
    dsimp only
    cases netStep_seen apart stepped j with
    | nothing unseen same =>
      rw [unseen, same]
      exact ⟨past', run', events⟩
    | step sees stepped' =>
      rw [sees]
      exact ⟨_, run'.step stepped', congrArg _ events⟩

theorem pairSession_padded :
    (paddedServer.trace [] paddedServer.start pairSession).isSome := by decide +kernel

abbrev pairHistory := paddedServer.history pairSession pairSession_padded

abbrev alice : Fin 2 := 0

abbrev bob : Fin 2 := 1

def pairFd (i : Fin 2) : Int := if i = 0 then 7 else 8

def pairUid (i : Fin 2) : UInt32 := if i = 0 then 1 else 2

theorem pairFd_apart : Function.Injective pairFd := by decide

abbrev pairNet := net paddedPlatform (fun _ => true) pairFd pairUid pairHistory.2

def pressed (i : Fin 2) (ch : Int) : List (NetEvent (Fin 2)) := [.draw i, .key i ch unprompted]

def writtenEvents : List (NetEvent (Fin 2)) :=
  List.replicate 3 (.serve alice (recordedEnv 6)) ++
    List.replicate 3 (.receive alice fun _ => 0) ++
    pressed alice 10 ++ pressed alice (letter 'y') ++ pressed alice 10

theorem writtenEvents_recorded : (pairNet.trace [] pairNet.start writtenEvents).isSome := by
  decide +kernel

abbrev writtenHistory := pairNet.history writtenEvents writtenEvents_recorded

theorem net_seen_as_link_written : ∃ past',
    Run (link paddedPlatform (fun _ => true) 8 2 pairHistory.2) past' (writtenHistory.2.seat 1) ∧
      past'.map Moment.event =
        writtenHistory.1.filterMap fun m => seen pairFd 1 m.before m.event :=
  net_seen_as_link paddedPlatform _ pairFd pairFd_apart _ _ _ _
    (.history writtenEvents writtenEvents_recorded) 1

end Seats

theorem SingleSession.step {s t : Server} {env : Env} {out : List Sent} {fd fd' : Int}
    {uid : UInt32} {r : Request} (single : SingleSession s fd uid)
    (unlogged : r.1 ≠ .login)
    (stepped : (server P key).step s (r.event fd' env) = some (t, out)) :
    SingleSession t fd uid := by
  intro c member user
  have handled := (handleEvent_of_step stepped).2
  simp only [Request.event, handleEvent] at handled
  split at handled
  · cases handled
    exact single c ((removeClient_sublist fd' s.clients).subset member) user
  · rcases dispatch_clients handled with same | ⟨_, _, login, -⟩ | ⟨name, -, same⟩
    · exact single c (same ▸ member) user
    · rw [MessageType.ofCode_code] at login
      exact absurd (Option.some.inj login) unlogged
    · rw [same] at member
      rcases mem_writeClient member with old | ⟨b, hb, -, rfl⟩
      · exact single c old user
      · exact single b hb user

/-- The user is logged in on this connection, on no other, and logs in no more. -/
structure Present (P : Platform) (key : Key) (fd : Int) (uid : UInt32) (l : Link) : Prop where
  reached : Reachable (server P key) l.server
  seated : Seated l.server fd uid
  single : SingleSession l.server fd uid
  calm : ∀ r ∈ l.toServer, r.1 ≠ .login

section Presence

variable {l l' : Link} {fd : Int} {uid : UInt32}

theorem Present.moved {c : ClientEvent} {client : MainState} {sent : List Request}
    (present : Present P key fd uid l)
    (stepped : clientStep allocates l.client c = some (client, sent)) (toClient : List Incoming) :
    Present P key fd uid { l with
      client := client, toClient := toClient, toServer := l.toServer ++ sent } where
  reached := present.reached
  seated := present.seated
  single := present.single
  calm r member := by
    rcases List.mem_append.mp member with old | new
    · exact present.calm r old
    · exact clientStep_calm stepped r new

theorem Present.served {e : Event} {server' : Server} {out : List Sent} {left : List Request}
    (present : Present P key fd uid l)
    (stepped : (server P key).step l.server e = some (server', out)) (keeps : Keeps fd e)
    (single : SingleSession server' fd uid) (fewer : ∀ r ∈ left, r ∈ l.toServer)
    (toClient : List Incoming) :
    Present P key fd uid { l with
      server := server', toServer := left, toClient := toClient } where
  reached := present.reached.step stepped
  seated := present.seated.step present.reached stepped keeps
  single := single
  calm r member := present.calm r (fewer r member)

theorem LinkEffect.present {e : LinkEvent} (present : Present P key fd uid l)
    (effect : LinkEffect P allocates fd l e l') (single : SingleSession l'.server fd uid) :
    Present P key fd uid l' := by
  cases effect with
  | draw drawn => exact present.moved drawn _
  | key pressed => exact present.moved pressed _
  | receive queue received => exact present.moved received _
  | @serve env r rest server' out queue handled =>
    have calm := present.calm r (queue ▸ List.mem_cons_self)
    change (server P key).step l.server (r.event fd env) = some (server', out) at handled
    exact present.served handled (.inr ⟨r, env, rfl, calm⟩) single
      (fun r' member => queue ▸ List.mem_cons_of_mem r member) _
  | @other e server' out elsewhere handled =>
    change (server P key).step l.server e = some (server', out) at handled
    exact present.served handled (.inl elsewhere) single (fun r member => member) _

theorem present_start (allocates : Nat → Bool) {s₀ : Server} (reached : Reachable (server P key) s₀)
    (seated : Seated s₀ fd uid) (single : SingleSession s₀ fd uid) :
    Present P key fd uid (link P allocates fd uid s₀).start where
  reached := reached
  seated := seated
  single := single
  calm := by
    intro r member
    simp only [link, List.mem_cons, List.not_mem_nil, or_false] at member
    rcases member with rfl | rfl | rfl <;> decide

end Presence

def OneEach (fd : ι → Int) (uid : ι → UInt32) (s : Server) : Prop :=
  ∀ i, SingleSession s (fd i) (uid i)

theorem net_present [Fintype ι] [DecidableEq ι] (apart : Function.Injective fd)
    (reached : Reachable (server P key) s₀) (seated : ∀ i, Seated s₀ (fd i) (uid i))
    (alone : OneEach fd uid s₀) {past : List (NetMoment ι)} {n : Net ι}
    (run : Run (net P allocates fd uid s₀) past n)
    (single : ∀ m ∈ past, OneEach fd uid m.after.server) :
    ∀ i, Present P key (fd i) (uid i) (n.seat i) := by
  induction run with
  | start => exact fun i => present_start allocates reached (seated i) (alone i)
  | step earlier stepped ih =>
    have present := ih fun m member => single m (List.mem_cons_of_mem _ member)
    intro i
    cases netStep_seen apart stepped i with
    | nothing unseen same =>
      rw [same]
      exact present i
    | step sees stepped' =>
      exact (linkStep_effect stepped').present (present i) (single _ List.mem_cons_self i)

instance (s : Server) (fd : Int) (uid : UInt32) : Decidable (Seated s fd uid) :=
  decidable_of_iff ((getClientByFd fd s.clients).any fun c => c.uid = uid ∧ c.isOnline = true)
    (by simp [Seated, Option.any_eq_true])

instance (fd : Fin 2 → Int) (uid : Fin 2 → UInt32) (s : Server) : Decidable (OneEach fd uid s) :=
  inferInstanceAs (Decidable (∀ i, SingleSession s (fd i) (uid i)))

def ShortOutside : NetEvent ι → Prop
  | .outside e => (payloadBytes e).length < 2 ^ 29
  | .draw _ | .key _ _ _ | .receive _ _ | .serve _ _ => True

instance : DecidablePred (ShortOutside (ι := ι))
  | .outside e => inferInstanceAs (Decidable ((payloadBytes e).length < 2 ^ 29))
  | .draw _ | .key _ _ _ | .receive _ _ | .serve _ _ => .isTrue trivial

theorem Seen.flowing [DecidableEq ι] (cbc : PaddedCbc P) (memory : ∀ n, allocates n = true)
    {n n' : Net ι} {j : ι} {e : NetEvent ι} (short : ShortOutside e)
    (flowing : ∀ i, Flowing P key (n.seat i)) (seen : Seen P allocates fd j n n' e) :
    Flowing P key (n'.seat j) := by
  cases seen with
  | nothing unseen same =>
    rw [same]
    exact flowing j
  | step sees stepped =>
    refine (linkStep_effect stepped).flowing cbc memory ?_ (flowing j)
    cases e with
    | draw i | key i ch prompts | receive i junk =>
      obtain ⟨-, same⟩ := Option.ite_none_right_eq_some.mp sees
      cases same
      trivial
    | serve i env =>
      rw [MoT.seen] at sees
      split at sees
      · cases sees
        trivial
      · obtain ⟨r, first, rfl⟩ := Option.map_eq_some_iff.mp sees
        exact (flowing i).short (List.mem_of_head? first) (fd i) env
    | outside e =>
      cases sees
      exact short

/-- The client has not ended, and its lock is not kept. -/
def Peer.Runs (p : Peer) : Prop := p.client.phase ≠ .ended ∧ p.held = false

instance (p : Peer) : Decidable p.Runs := inferInstanceAs (Decidable (_ ∧ _))

theorem Peer.Runs.takes {p : Peer} (runs : p.Runs) (junk : Nat → UInt8) (packet : Packet) :
    p.Takes allocates junk packet :=
  ⟨runs.1, fun kept => absurd (runs.2.symm.trans kept) (by decide)⟩

def Drained (n : Net ι) : Prop := ∀ i, (n.peers i).toServer = [] ∧ (n.peers i).toClient = []

/- The steps that a packet still takes: a created conversation is followed by a request for the
conversations and by their list. -/
def Incoming.steps (m : Incoming) : ℕ := 1 + 2 * (refetches m.packet).length

abbrev Refetch (r : Request) : Prop := r.1 = .reqConversations

/- The requests whose answers cannot be counted beforehand. -/
def Peer.uncounted (p : Peer) : ℕ := p.toServer.countP fun r => ¬ Refetch r

/- The steps that all the rest takes. -/
def Peer.remaining (p : Peer) : ℕ :=
  2 * p.toServer.countP (fun r => Refetch r) + (p.toClient.map Incoming.steps).sum

/-- Whatever the requests of the first kind are answered with, there is one of them less. -/
def work [Fintype ι] (n : Net ι) : ℕ ×ₗ ℕ :=
  toLex (∑ i, (n.peers i).uncounted, ∑ i, (n.peers i).remaining)

end MoT
