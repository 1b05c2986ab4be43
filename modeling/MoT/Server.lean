import MoT.Handlers
import MoT.Lib.Transition

/-! The event loop as a system of steps. A step that runs into undefined behaviour
does not complete, and no run goes on from there. -/
namespace MoT
open CMemory Transition

def dispatch (P : Platform) (env : Env) (s : Server) (cli : Client) (type : UInt32)
    (p : Pointer) : Outcome :=
  match MessageType.ofCode type with
  | some .register => handleRegister P env s cli p
  | some .login => handleLogin P s cli p
  | some .updateUser => handleUpdateUser P env s cli p
  | some .sendText => handleSendText P env s cli p
  | some .reqHistory => handleReqHistory P env s cli p
  | some .createConv => handleCreateConv env s cli p
  | some .reqConversations => .ok (s, handleReqConversations env s cli)
  | some .updateGroup => handleUpdateGroup env s cli p
  | some .addMember => handleAddMember env s cli p
  | some .reqMembers => handleReqMembers env s cli p
  | some .kickMember => handleKickMember env s cli p
  | some .deleteGroup => handleDeleteGroup env s cli p
  | some .reqContacts => .ok (s, handleReqContacts env s cli)
  | some .addByCode => handleAddByCode env s cli p
  | some .getRequests => .ok (s, handleGetRequests env s cli)
  | some .decideRequest => handleDecideRequest env s cli p
  | _ => .ok (s, [])

inductive Event where
  | connect (fd : Int)
  | packet (fd : Int) (type : UInt32) (bytes : List UInt8) (env : Env)
  | disconnect (fd : Int)

def Event.fd : Event → Int
  | .connect fd => fd
  | .packet fd _ _ _ => fd
  | .disconnect fd => fd

def handleEvent (P : Platform) (s : Server) : Event → Outcome
  | .connect fd => .ok ({ s with clients := addClient fd s.clients }, [])
  | .packet fd type bytes env =>
    match getClientByFd fd s.clients with
    | none => .ok ({ s with clients := removeClient fd s.clients }, [])
    | some cli => dispatch P env s cli type (deliver bytes)
  | .disconnect fd => .ok ({ s with clients := removeClient fd s.clients }, [])

/- `accept` never returns a descriptor that is still open. -/
def Event.possible (s : Server) : Event → Bool
  | .connect fd => (getClientByFd fd s.clients).isNone
  | _ => true

def serverStep (P : Platform) (s : Server) (e : Event) : Option (Server × List Sent) :=
  if e.possible s then (handleEvent P s e).toOption else none

/-- The server on an empty database, with the key it derived from its passphrase. -/
def server (P : Platform) (key : Key) : System Server Event (List Sent) :=
  { start := ⟨key, storageInit, []⟩, step := serverStep P }

theorem handleEvent_of_step {P : Platform} {key : Key} {s t : Server} {e : Event}
    {out : List Sent} (stepped : (server P key).step s e = some (t, out)) :
    e.possible s = true ∧ handleEvent P s e = .ok (t, out) := by
  simp only [server, serverStep] at stepped
  split at stepped
  · rename_i possible
    refine ⟨possible, ?_⟩
    cases handled : handleEvent P s e with
    | error fault => simp [handled, Except.toOption] at stepped
    | ok result =>
      rw [handled] at stepped
      exact congrArg Except.ok (Option.some.inj stepped)
  · contradiction

end MoT
