import MoT.MainLoop
import MoT.Server

/-! One client and the server, with a queue in each direction. The steps of the client's two
threads, of the server for this client and of the server for everybody else come in any
order. -/
namespace MoT
open CMemory Transition

/-- A packet on its way to the client, with the conversation that the request it answers
was about. The note is for proofs: nobody reads it on the way. -/
structure Incoming where
  packet : Packet
  about : UInt32

structure Link where
  server : Server
  client : MainState
  toServer : List Request
  toClient : List Incoming

inductive LinkEvent where
  | draw
  | key (ch : Int) (prompts : Prompts)
  | receive (junk : Nat → UInt8)
  | serve (env : Env)
  | other (e : Event)

/- The first word of a request: a conversation, where the request is about one. -/
def askedAbout (r : Request) : UInt32 :=
  match readUInt32 (deliver r.2) RequestHistoryPayload.convId with
  | .ok convId => convId
  | .error _ => 0

def inbox (fd : Int) (about : UInt32) (out : List Sent) : List Incoming :=
  (out.filter fun m => m.fd = fd).map fun m => ⟨m.packet, about⟩

def clientMoves (allocates : Nat → Bool) (s : Link) (e : ClientEvent) : Option (Link × Unit) :=
  (clientStep allocates s.client e).map fun r =>
    ({ s with client := r.1, toServer := s.toServer ++ r.2 }, ())

def serverMoves (P : Platform) (fd : Int) (about : UInt32) (s : Link) (e : Event) :
    Option (Link × Unit) :=
  (serverStep P s.server e).map fun r =>
    ({ s with server := r.1, toClient := s.toClient ++ inbox fd about r.2 }, ())

def linkStep (P : Platform) (allocates : Nat → Bool) (fd : Int) (s : Link) :
    LinkEvent → Option (Link × Unit)
  | .draw => clientMoves allocates s .draw
  | .key ch prompts => clientMoves allocates s (.key ch prompts)
  | .receive junk =>
    match s.toClient with
    | [] => none
    | m :: rest => clientMoves allocates { s with toClient := rest } (.receive junk m.packet)
  | .serve env =>
    match s.toServer with
    | [] => none
    | r :: rest => serverMoves P fd (askedAbout r) { s with toServer := rest } (r.event fd env)
  | .other e => if e.fd = fd then none else serverMoves P fd 0 s e

/-- The user's client on connection `fd` of this server, from the moment its loop begins. -/
def link (P : Platform) (allocates : Nat → Bool) (fd : Int) (uid : UInt32) (s : Server) :
    System Link LinkEvent Unit where
  start :=
    { server := s
      client := mainStart uid
      toServer := [serviceRefreshContacts, serviceRefreshRequests, serviceReqConversations]
      toClient := [] }
  step := linkStep P allocates fd

abbrev LinkMoment := Moment Link LinkEvent Unit

theorem clientMoves_some {allocates : Nat → Bool} {s t : Link} {e : ClientEvent} {o : Unit}
    (moved : clientMoves allocates s e = some (t, o)) :
    ∃ client sent, clientStep allocates s.client e = some (client, sent) ∧
      t = { s with client := client, toServer := s.toServer ++ sent } := by
  obtain ⟨⟨client, sent⟩, stepped, same⟩ := Option.map_eq_some_iff.mp moved
  cases same
  exact ⟨client, sent, stepped, rfl⟩

theorem serverMoves_some {P : Platform} {fd : Int} {about : UInt32} {s t : Link} {e : Event}
    {o : Unit} (moved : serverMoves P fd about s e = some (t, o)) :
    ∃ server out, serverStep P s.server e = some (server, out) ∧
      t = { s with server := server, toClient := s.toClient ++ inbox fd about out } := by
  obtain ⟨⟨server, out⟩, stepped, same⟩ := Option.map_eq_some_iff.mp moved
  cases same
  exact ⟨server, out, stepped, rfl⟩

inductive LinkEffect (P : Platform) (allocates : Nat → Bool) (fd : Int) (s : Link) :
    LinkEvent → Link → Prop
  | draw {client : MainState} {sent : List Request}
      (drawn : clientStep allocates s.client .draw = some (client, sent)) :
      LinkEffect P allocates fd s .draw
        { s with client := client, toServer := s.toServer ++ sent }
  | key {ch : Int} {prompts : Prompts} {client : MainState} {sent : List Request}
      (pressed : clientStep allocates s.client (.key ch prompts) = some (client, sent)) :
      LinkEffect P allocates fd s (.key ch prompts)
        { s with client := client, toServer := s.toServer ++ sent }
  | receive {junk : Nat → UInt8} {first : Incoming} {rest : List Incoming} {client : MainState}
      {sent : List Request} (queue : s.toClient = first :: rest)
      (received : clientStep allocates s.client (.receive junk first.packet) =
        some (client, sent)) :
      LinkEffect P allocates fd s (.receive junk)
        { s with client := client, toClient := rest, toServer := s.toServer ++ sent }
  | serve {env : Env} {r : Request} {rest : List Request} {server : Server} {out : List Sent}
      (queue : s.toServer = r :: rest)
      (handled : serverStep P s.server (r.event fd env) = some (server, out)) :
      LinkEffect P allocates fd s (.serve env)
        { s with
          server := server
          toServer := rest
          toClient := s.toClient ++ inbox fd (askedAbout r) out }
  | other {e : Event} {server : Server} {out : List Sent} (elsewhere : e.fd ≠ fd)
      (handled : serverStep P s.server e = some (server, out)) :
      LinkEffect P allocates fd s (.other e)
        { s with server := server, toClient := s.toClient ++ inbox fd 0 out }

theorem linkStep_effect {P : Platform} {allocates : Nat → Bool} {fd : Int} {s t : Link}
    {e : LinkEvent} {o : Unit} (stepped : linkStep P allocates fd s e = some (t, o)) :
    LinkEffect P allocates fd s e t := by
  cases e with
  | draw =>
    obtain ⟨client, sent, drawn, rfl⟩ := clientMoves_some stepped
    exact .draw drawn
  | key ch prompts =>
    obtain ⟨client, sent, pressed, rfl⟩ := clientMoves_some stepped
    exact .key pressed
  | receive junk =>
    rw [linkStep] at stepped
    split at stepped
    · cases stepped
    · rename_i first rest queue
      obtain ⟨client, sent, received, rfl⟩ := clientMoves_some stepped
      exact .receive queue received
  | serve env =>
    rw [linkStep] at stepped
    split at stepped
    · cases stepped
    · rename_i r rest queue
      obtain ⟨server, out, handled, rfl⟩ := serverMoves_some stepped
      exact .serve queue handled
  | other e =>
    obtain ⟨elsewhere, moved⟩ := Option.ite_none_left_eq_some.mp stepped
    obtain ⟨server, out, handled, rfl⟩ := serverMoves_some moved
    exact .other elsewhere handled

def served : LinkEvent := .serve (recordedEnv 6)
def taken : LinkEvent := .receive fun _ => 0
def press (ch : Int) : List LinkEvent := [.draw, .key ch unprompted]

end MoT
