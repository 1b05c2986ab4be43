import MoT.Delivery
import MoT.NetworkThread

/-! The event loop over the byte streams of its connections. `epoll_wait` reports a listening
socket or a connection with something to read, `recv_packet` takes one packet off the stream, and
what the handlers send goes onto the streams of those it is for. Seen packet by packet this is
the server above, whatever the peers send and however the bytes are cut up on the way. -/
namespace MoT
open CMemory Relational Transition Framing

variable {P : Platform} {key : Key} {env : Env} {cli : Client} {out : List Sent} {fd : Int}
  {allocates : Nat → Bool} {bytes : List UInt8}

/-- A packet of this type as it lies on the wire. -/
def frame (type : UInt32) (bytes : List UInt8) : List UInt8 :=
  messageHeader type (UInt32.ofNat bytes.length) ++ bytes

theorem recvPayload_named {R : Reader} {type payloadLen : UInt32} {c c' : Receiver} {p : Received}
    (done : recvPayload R allocates type payloadLen c = (.ok p, c')) :
    p.type = type ∧ p.payloadLen = payloadLen ∧ (p.payload = none ↔ ¬ payloadLen > 0) := by
  unfold recvPayload at done
  split at done
  · rename_i positive
    split at done
    · split at done
      · cases done
      · cases done
      · split at done
        · cases done
        · cases done
          exact ⟨rfl, rfl, by simp [positive]⟩
    · cases done
  · rename_i zero
    cases done
    exact ⟨rfl, rfl, by simp [zero]⟩

/-- What `recv_packet` gives is the packet at the front of the stream, and it leaves what comes
behind it. -/
theorem recvPacket_exact {R : Reader} (bounded : R.Bounded) {c c' : Receiver} {p : Received}
    (done : recvPacket (some R) allocates c = (.ok p, c')) :
    ∃ bytes, c.unread = frame p.type bytes ++ c'.unread ∧ bytes.length < 2 ^ 31 ∧
      p.payload = (deliver bytes).map fun block => block.map some := by
  have fetched := recvAll_fetched bounded (show MessageHeader.size < 2 ^ 31 by decide)
    (allocated MessageHeader.size) (Nat.le_refl _) 0 c (Nat.zero_le _)
  unfold recvPacket at done
  dsimp only at done
  split at done
  · cases done
  · rename_i block mid ended
    rw [ended] at fetched
    obtain ⟨header, size, read, filled⟩ := fetched
    have whole : block = header.map some := by
      have nothing : (allocated MessageHeader.size).drop MessageHeader.size = [] := rfl
      rw [filled, List.take_zero, List.nil_append, nothing, List.append_nil]
    obtain ⟨type, payloadLen, rfl⟩ := messageHeader_of_length size
    rw [whole, mapM_written] at done
    simp only [messageHeader_type, messageHeader_payloadLen, ntohl_htonl] at done
    obtain ⟨rfl, rfl, null⟩ := recvPayload_named done
    have contained := recvPayload_contained bounded allocates p.type p.payloadLen size read
    rw [done] at contained
    obtain ⟨header, bytes, split, length, count, block⟩ := contained
    have front : header = messageHeader p.type p.payloadLen := by
      rw [List.append_assoc] at split
      exact (List.append_inj (read.symm.trans split) (size.trans length.symm)).1.symm
    have number : UInt32.ofNat bytes.length = p.payloadLen := by rw [count, UInt32.ofNat_toNat]
    have unread : c.unread = frame p.type bytes ++ c'.unread := by
      rw [split, front, frame, number]
    cases payload : p.payload with
    | none =>
      have zero := null.mp payload
      have empty : bytes = [] := by
        rw [gt_iff_lt, UInt32.lt_iff_toNat_lt, ← count] at zero
        exact List.eq_nil_of_length_eq_zero (Nat.eq_zero_of_not_pos zero)
      subst empty
      exact ⟨[], unread, by decide, rfl⟩
    | some block' =>
      obtain ⟨short, -, filled⟩ := block block' (Option.mem_def.mpr payload)
      have positive : ¬ ¬ p.payloadLen > 0 := fun zero => by
        rw [null.mpr zero] at payload
        cases payload
      have nonempty : bytes ≠ [] := by
        rintro rfl
        rw [not_not, gt_iff_lt, UInt32.lt_iff_toNat_lt, ← count] at positive
        exact absurd positive (by decide)
      refine ⟨bytes, unread, short, ?_⟩
      rw [filled, deliver, if_neg nonempty]
      simp

structure Loop where
  server : Server
  inbound : Int → Receiver
  outbound : Int → Sender

inductive LoopEvent where
  | accept (fd : Int)
  | arrive (fd : Int) (bytes : List UInt8)
  | ready (fd : Int) (R : Reader) (W : Int → Writer) (env : Env)

/- Each packet goes to the connection it is for, and nobody looks at what `send_packet`
returns. -/
def sendOut (W : Int → Writer) (junk : Nat → UInt8) :
    List Sent → (Int → Sender) → Except CMemory.Fault (Int → Sender)
  | [], outbound => .ok outbound
  | m :: out, outbound =>
    let payload := m.packet.payload junk
    match sendPacket (some (W m.fd)) (outbound m.fd) m.packet.type.code (some payload)
        (UInt32.ofNat payload.length) with
    | .error fault => .error fault
    | .ok (_, sender) => sendOut W junk out (Function.update outbound m.fd sender)

/- A connection is closed when `recv_packet` returns nothing positive. -/
def loopStep (P : Platform) (allocates : Nat → Bool) (s : Loop) :
    LoopEvent → Option (Loop × List Sent)
  | .accept fd =>
    if (getClientByFd fd s.server.clients).isNone then
      some ({ server := { s.server with clients := addClient fd s.server.clients }
              inbound := Function.update s.inbound fd ⟨0, []⟩
              outbound := Function.update s.outbound fd ⟨0, []⟩ }, [])
    else none
  | .arrive fd bytes =>
    let c := s.inbound fd
    some ({ s with inbound := Function.update s.inbound fd { c with unread := c.unread ++ bytes } },
      [])
  | .ready fd R W env =>
    let closed := { s.server with clients := removeClient fd s.server.clients }
    match getClientByFd fd s.server.clients with
    | none => some ({ s with server := closed }, [])
    | some cli =>
      match recvPacket (some R) allocates (s.inbound fd) with
      | (.error (.status _), c) =>
        some ({ s with server := closed, inbound := Function.update s.inbound fd c }, [])
      | (.error _, _) => none
      | (.ok p, c) =>
        match dispatch P env s.server cli p.type (p.payload.map (fill env.junk)) with
        | .error _ => none
        | .ok (server, out) =>
          match sendOut W env.junk out s.outbound with
          | .error _ => none
          | .ok outbound => some (⟨server, Function.update s.inbound fd c, outbound⟩, out)

def eventLoop (P : Platform) (allocates : Nat → Bool) (key : Key) :
    System Loop LoopEvent (List Sent) where
  start := ⟨⟨key, storageInit, []⟩, fun _ => ⟨0, []⟩, fun _ => ⟨0, []⟩⟩
  step := loopStep P allocates

abbrev LoopMoment := Moment Loop LoopEvent (List Sent)

/-- `SSL_read` behaves as it must, whatever the peer does. -/
def Reads : LoopEvent → Prop
  | .ready _ R _ _ => R.Bounded
  | _ => True

inductive LoopEffect (P : Platform) (s : Loop) : LoopEvent → Loop → List Sent → Prop
  | accepted (fd : Int) (free : (getClientByFd fd s.server.clients).isNone) :
      LoopEffect P s (.accept fd)
        ⟨{ s.server with clients := addClient fd s.server.clients },
          Function.update s.inbound fd ⟨0, []⟩, Function.update s.outbound fd ⟨0, []⟩⟩ []
  | arrived (fd : Int) (bytes : List UInt8) (c : Receiver)
      (more : c.unread = (s.inbound fd).unread ++ bytes) :
      LoopEffect P s (.arrive fd bytes) { s with inbound := Function.update s.inbound fd c } []
  | closed (fd : Int) (R : Reader) (W : Int → Writer) (env : Env) (c : Receiver) :
      LoopEffect P s (.ready fd R W env)
        { s with
          server := { s.server with clients := removeClient fd s.server.clients }
          inbound := Function.update s.inbound fd c } []
  | handled (fd : Int) (R : Reader) (W : Int → Writer) (env : Env) (cli : Client) (type : UInt32)
      (bytes : List UInt8) (c : Receiver) (server : Server) (out : List Sent)
      (outbound : Int → Sender) (listed : getClientByFd fd s.server.clients = some cli)
      (read : (s.inbound fd).unread = frame type bytes ++ c.unread)
      (done : dispatch P env s.server cli type (deliver bytes) = .ok (server, out))
      (sent : sendOut W env.junk out s.outbound = .ok outbound) :
      LoopEffect P s (.ready fd R W env) ⟨server, Function.update s.inbound fd c, outbound⟩ out

theorem loopStep_effect {s t : Loop} {e : LoopEvent} (reads : Reads e)
    (stepped : loopStep P allocates s e = some (t, out)) : LoopEffect P s e t out := by
  cases e with
  | accept fd =>
    obtain ⟨free, same⟩ := Option.ite_none_right_eq_some.mp stepped
    cases same
    exact .accepted fd free
  | arrive fd bytes =>
    cases stepped
    exact .arrived fd bytes _ rfl
  | ready fd R W env =>
    rw [loopStep] at stepped
    dsimp only at stepped
    split at stepped
    · cases stepped
      have same := LoopEffect.closed (P := P) (s := s) fd R W env (s.inbound fd)
      rwa [Function.update_eq_self] at same
    · rename_i cli listed
      split at stepped
      · cases stepped
        exact .closed fd R W env _
      · cases stepped
      · rename_i p c received
        obtain ⟨bytes, read, -, payload⟩ := recvPacket_exact reads received
        have block : p.payload.map (fill env.junk) = deliver bytes := by
          rw [payload, Option.map_map]
          cases deliver bytes with
          | none => rfl
          | some b => exact congrArg some (fill_written env.junk b)
        rw [block] at stepped
        split at stepped
        · cases stepped
        · rename_i server out' done
          split at stepped
          · cases stepped
          · rename_i outbound sent
            cases stepped
            exact .handled fd R W env cli p.type bytes c server out outbound listed read done sent

/-- The bytes that have arrived on a connection since it was accepted. -/
def heard (fd : Int) : List LoopMoment → List UInt8
  | [] => []
  | m :: past =>
    match m.event with
    | .accept fd' => if fd' = fd then [] else heard fd past
    | .arrive fd' bytes => if fd' = fd then heard fd past ++ bytes else heard fd past
    | .ready .. => heard fd past

def requestFrame (m : ServerMoment) : List UInt8 :=
  match m.event with
  | .packet _ type bytes _ => frame type bytes
  | _ => []

/-- A packet that the server sends, with the memory that its unwritten bytes show. -/
def packetFrame (junk : Nat → UInt8) (packet : Packet) : List UInt8 :=
  frame packet.type.code (packet.payload junk)

/-- What has been sent on a connection since it was accepted. -/
def told (fd : Int) : List ServerMoment → List UInt8
  | [] => []
  | m :: past =>
    match m.event with
    | .packet _ _ _ env => told fd past ++ stream (packetFrame env.junk) (sentTo fd m.output)
    | .connect fd' => if fd' = fd then [] else told fd past
    | .disconnect fd' => if fd' = fd then [] else told fd past

abbrev Open (s : Server) (fd : Int) : Prop := (getClientByFd fd s.clients).isSome

/-- On this connection `SSL_write` takes bytes until it has them all, and no payload is too long
for its `int`. -/
def Writes (fd : Int) (m : LoopMoment) : Prop :=
  match m.event with
  | .ready _ _ W env => (W fd).Lawful ∧
      ∀ x ∈ m.output, x.fd = fd → (x.packet.payload env.junk).length ≤ 2 ^ 31 - 1
  | _ => True

/-- A run of the server on packets: the bytes that came in are the packets it has handled, and
the start of the next one; the bytes that went out are the packets it has sent. -/
structure Carried (P : Platform) (key : Key) (past : List LoopMoment)
    (packets : List ServerMoment) (s : Loop) : Prop where
  run : Run (server P key) packets s.server
  heard : ∀ fd, Open s.server fd →
    heard fd past = stream requestFrame (requests fd packets) ++ (s.inbound fd).unread
  told : ∀ fd, (∀ m ∈ past, Writes fd m) → Open s.server fd →
    (s.outbound fd).wire = told fd packets

/- What becomes of the other connections is no matter. -/
theorem sendOut_lawful {W : Int → Writer} (lawful : (W fd).Lawful) {junk : Nat → UInt8}
    (short : ∀ x ∈ out, x.fd = fd → (x.packet.payload junk).length ≤ 2 ^ 31 - 1)
    {outbound outbound' : Int → Sender} (sent : sendOut W junk out outbound = .ok outbound') :
    (outbound' fd).wire = (outbound fd).wire ++ stream (packetFrame junk) (sentTo fd out) := by
  induction out generalizing outbound with
  | nil =>
    cases sent
    simp [sentTo]
  | cons m out ih =>
    obtain ⟨fits, rest⟩ := List.forall_mem_cons.mp short
    by_cases same : m.fd = fd
    · subst same
      obtain ⟨calls, written⟩ := sendPacket_lawful lawful
        ⟨m.packet.type.code, some (m.packet.payload junk), m.packet.payload junk, fits rfl,
          load_whole _⟩ (outbound m.fd)
      simp only [Outgoing.payloadLen, Outgoing.onWire] at written
      simp only [sendOut, written] at sent
      rw [ih rest sent]
      simp [sentTo, packetFrame, frame]
    · rw [sendOut] at sent
      split at sent
      · cases sent
      · rw [ih rest sent]
        simp [sentTo, same, Function.update_of_ne (Ne.symm same)]

theorem open_addClient {s : Server} {fd fd' : Int} :
    Open { s with clients := addClient fd s.clients } fd' ↔ fd = fd' ∨ Open s fd' := by
  simp only [Open, addClient, getClientByFd_cons]
  split
  · rename_i same
    simp [same]
  · rename_i other
    simp [other]

theorem open_removeClient {s : Server} (connected : Connected s.clients) {fd fd' : Int} :
    Open { s with clients := removeClient fd s.clients } fd' ↔ fd ≠ fd' ∧ Open s fd' := by
  simp only [Open, getClientByFd_removeClient fd fd' connected.distinct]
  split
  · rename_i same
    simp [same]
  · rename_i other
    simp [other]

theorem open_dispatch {s t : Server} {code : UInt32} {p : Pointer}
    (done : dispatch P env s cli code p = .ok (t, out)) (fd' : Int) :
    Open t fd' ↔ Open s fd' := by
  have kept {f : Client → Client} (keeps : ∀ c, (f c).fd = c.fd) :
      (getClientByFd fd' (writeClient cli.fd f s.clients)).isSome ↔
        (getClientByFd fd' s.clients).isSome := by
    rw [getClientByFd_writeClient cli.fd keeps]
    split
    · rename_i same
      rw [same, Option.isSome_map]
    · exact Iff.rfl
  rcases dispatch_clients done with same | ⟨uid, username, -, written⟩ | ⟨username, -, written⟩
  · rw [Open, Open, same]
  · rw [Open, Open, written]
    exact kept fun _ => rfl
  · rw [Open, Open, written]
    exact kept fun _ => rfl

theorem requests_other {m : ServerMoment} {past : List ServerMoment} (other : m.event.fd ≠ fd) :
    requests fd (m :: past) = requests fd past := if_pos other

theorem Carried.step {past : List LoopMoment} {packets : List ServerMoment} {s t : Loop}
    {e : LoopEvent} (carried : Carried P key past packets s) (effect : LoopEffect P s e t out) :
    ∃ packets', Carried P key (⟨s, e, t, out⟩ :: past) packets' t ∧
      ((t.server = s.server ∧ packets' = packets ∧ ∃ fd bytes, e = .arrive fd bytes) ∨
        ∃ e', packets' = ⟨s.server, e', t.server, out⟩ :: packets) := by
  have connected := reachable_connected carried.run.reachable
  cases effect with
  | accepted fd free =>
    have stepped : (server P key).step s.server (.connect fd) =
        some ({ s.server with clients := addClient fd s.server.clients }, []) := by
      simp [server, serverStep, Event.possible, handleEvent, free, Except.toOption]
    refine ⟨_, ⟨carried.run.step stepped, fun fd' isOpen => ?_, fun fd' writes isOpen => ?_⟩,
      .inr ⟨_, rfl⟩⟩
    · by_cases same : fd = fd'
      · subst same
        simp [MoT.heard, requests, Event.fd]
      · have before : Open s.server fd' := (open_addClient.mp isOpen).resolve_left same
        rw [MoT.heard, requests_other (by simpa [Event.fd] using same)]
        dsimp only
        rw [if_neg same, Function.update_of_ne (Ne.symm same), carried.heard fd' before]
    · by_cases same : fd = fd'
      · subst same
        simp [MoT.told]
      · have before : Open s.server fd' := (open_addClient.mp isOpen).resolve_left same
        rw [MoT.told]
        dsimp only
        rw [if_neg same, Function.update_of_ne (Ne.symm same)]
        exact carried.told fd' (List.forall_mem_cons.mp writes).2 before
  | arrived fd bytes c more =>
    refine ⟨packets, ⟨carried.run, fun fd' isOpen => ?_, fun fd' writes =>
      carried.told fd' (List.forall_mem_cons.mp writes).2⟩, .inl ⟨rfl, rfl, fd, bytes, rfl⟩⟩
    rw [MoT.heard]
    dsimp only
    by_cases same : fd = fd'
    · subst same
      rw [if_pos rfl, Function.update_self, more, carried.heard fd isOpen, List.append_assoc]
    · rw [if_neg same, Function.update_of_ne (Ne.symm same), carried.heard fd' isOpen]
  | closed fd R W env c =>
    have stepped : (server P key).step s.server (.disconnect fd) =
        some ({ s.server with clients := removeClient fd s.server.clients }, []) := rfl
    refine ⟨_, ⟨carried.run.step stepped, fun fd' isOpen => ?_, fun fd' writes isOpen => ?_⟩,
      .inr ⟨_, rfl⟩⟩
    · obtain ⟨other, before⟩ := (open_removeClient connected).mp isOpen
      rw [MoT.heard, requests_other (by simpa [Event.fd] using other)]
      dsimp only
      rw [Function.update_of_ne (Ne.symm other), carried.heard fd' before]
    · obtain ⟨other, before⟩ := (open_removeClient connected).mp isOpen
      rw [MoT.told]
      dsimp only
      rw [if_neg other]
      exact carried.told fd' (List.forall_mem_cons.mp writes).2 before
  | handled fd R W env cli type bytes c server' out outbound listed read done sent =>
    have stepped : (server P key).step s.server (.packet fd type bytes env) =
        some (server', out) := by
      simp [server, serverStep, Event.possible, handleEvent, listed, done, Except.toOption]
    refine ⟨_, ⟨carried.run.step stepped, fun fd' isOpen => ?_, fun fd' writes isOpen => ?_⟩,
      .inr ⟨_, rfl⟩⟩
    · have before : Open s.server fd' := (open_dispatch done fd').mp isOpen
      rw [MoT.heard]
      dsimp only
      by_cases same : fd = fd'
      · subst same
        rw [carried.heard fd before, Function.update_self, read]
        simp [requests, Event.fd, stream, requestFrame]
      · rw [requests_other (by simpa [Event.fd] using same),
          Function.update_of_ne (Ne.symm same), carried.heard fd' before]
    · have before : Open s.server fd' := (open_dispatch done fd').mp isOpen
      obtain ⟨⟨lawful, short⟩, earlier⟩ := List.forall_mem_cons.mp writes
      rw [MoT.told, ← carried.told fd' earlier before]
      exact sendOut_lawful lawful short sent

theorem run_carried {past : List LoopMoment} {s : Loop}
    (run : Run (eventLoop P allocates key) past s) (reads : ∀ m ∈ past, Reads m.event) :
    ∃ packets, Carried P key past packets s := by
  induction run with
  | start =>
    refine ⟨[], .start, fun fd isOpen => ?_, fun _ fd isOpen => ?_⟩
    · cases isOpen
    · cases isOpen
  | step before stepped ih =>
    obtain ⟨now, earlier⟩ := List.forall_mem_cons.mp reads
    obtain ⟨packets, carried⟩ := ih earlier
    obtain ⟨packets', carried', -⟩ := carried.step (loopStep_effect now stepped)
    exact ⟨packets', carried'⟩

/-- Whatever the peers send and however the streams are cut up, the loop does what the server
does on a run of packets. On each open connection the packets handled are the bytes that have
arrived, in order, without what is not a whole packet yet; and as long as writing to it succeeds
the bytes sent are the packets of that run for this connection, in order. -/
theorem event_loop_refines_server (P : Platform) (allocates : Nat → Bool) (key : Key)
    (past : List LoopMoment) (s : Loop) (run : Run (eventLoop P allocates key) past s)
    (reads : ∀ m ∈ past, Reads m.event) :
    ∃ packets, Run (server P key) packets s.server ∧
      (∀ fd, Open s.server fd → heard fd past =
        stream requestFrame (requests fd packets) ++ (s.inbound fd).unread) ∧
      (∀ fd, (∀ m ∈ past, Writes fd m) → Open s.server fd →
        (s.outbound fd).wire = told fd packets) := by
  obtain ⟨packets, carried⟩ := run_carried run reads
  exact ⟨packets, carried.run, carried.heard, carried.told⟩

theorem sendOut_completes {W : Int → Writer} (lawful : ∀ fd, (W fd).Lawful) {junk : Nat → UInt8}
    (short : ∀ x ∈ out, (x.packet.payload junk).length ≤ 2 ^ 31 - 1) (outbound : Int → Sender) :
    ∃ outbound', sendOut W junk out outbound = .ok outbound' := by
  induction out generalizing outbound with
  | nil => exact ⟨outbound, rfl⟩
  | cons m out ih =>
    obtain ⟨fits, rest⟩ := List.forall_mem_cons.mp short
    obtain ⟨calls, written⟩ := sendPacket_lawful (lawful m.fd)
      ⟨m.packet.type.code, some (m.packet.payload junk), m.packet.payload junk, fits,
        load_whole _⟩ (outbound m.fd)
    simp only [Outgoing.payloadLen, Outgoing.onWire] at written
    obtain ⟨outbound', sent⟩ := ih rest (Function.update outbound m.fd
      ⟨calls, (outbound m.fd).wire ++ (messageHeader m.packet.type.code
        (UInt32.ofNat (m.packet.payload junk).length) ++ m.packet.payload junk)⟩)
    exact ⟨outbound', by simp only [sendOut, written, sent]⟩

/-- When a whole packet is at the front of the stream, the loop handles exactly that packet. -/
theorem loopStep_whole {R : Reader} (reads : R.Lawful) (memory : ∀ n, allocates n = true)
    {W : Int → Writer} (lawful : ∀ fd, (W fd).Lawful) {s : Loop} {t : Server} {type : UInt32}
    {rest : List UInt8} (listed : getClientByFd fd s.server.clients = some cli)
    (front : (s.inbound fd).unread = frame type bytes ++ rest) (small : bytes.length ≤ 2 ^ 31 - 1)
    (done : dispatch P env s.server cli type (deliver bytes) = .ok (t, out))
    (short : ∀ x ∈ out, (x.packet.payload env.junk).length ≤ 2 ^ 31 - 1) :
    ∃ calls outbound, loopStep P allocates s (.ready fd R W env) =
      some (⟨t, Function.update s.inbound fd ⟨calls, rest⟩, outbound⟩, out) ∧
      ∀ fd', (outbound fd').wire =
        (s.outbound fd').wire ++ stream (packetFrame env.junk) (sentTo fd' out) := by
  obtain ⟨calls, received⟩ := recvPacket_whole reads memory
    ⟨type, some bytes, bytes, small, load_whole _⟩ rest (s.inbound fd).calls
  have ahead : s.inbound fd = ⟨(s.inbound fd).calls, frame type bytes ++ rest⟩ := by
    rw [← front]
  have block : ((deliver bytes).map fun b => b.map some).map (fill env.junk) = deliver bytes := by
    rw [Option.map_map]
    cases deliver bytes with
    | none => rfl
    | some b => exact congrArg some (fill_written env.junk b)
  obtain ⟨outbound, sent⟩ := sendOut_completes lawful short s.outbound
  refine ⟨calls, outbound, ?_, fun fd' =>
    sendOut_lawful (lawful fd') (fun x member _ => short x member) sent⟩
  have taken : recvPacket (some R) allocates ⟨(s.inbound fd).calls, frame type bytes ++ rest⟩ =
      (.ok ⟨type, (deliver bytes).map fun b => b.map some, UInt32.ofNat bytes.length⟩,
        ⟨calls, rest⟩) := received
  rw [loopStep, listed, ahead, taken]
  simp only [block, done, sent]

def pieceReader : Reader := fun _ num ahead => if num ≤ 0 then -1 else min num (min 3 ahead)

def pieceWriter : Int → Writer := fun _ _ num => min num 5

theorem pieceReader_lawful : pieceReader.Lawful := by
  intro i num ahead positive
  rw [pieceReader, if_neg (by omega)]
  omega

theorem pieceReader_bounded : pieceReader.Bounded := by
  intro i num ahead
  unfold pieceReader
  split
  · omega
  · omega

theorem pieceWriter_lawful (fd : Int) : (pieceWriter fd).Lawful := by
  intro i num positive
  unfold pieceWriter
  omega

def askingBytes : List UInt8 := frame MessageType.reqContacts.code [] ++ [0, 0, 0]

abbrev pieceLoop := eventLoop recordedPlatform (fun _ => true) recordedKey

def acceptedLoop : Loop where
  server := ⟨recordedKey, storageInit, addClient 7 []⟩
  inbound := Function.update (fun _ => ⟨0, []⟩) 7 ⟨0, []⟩
  outbound := Function.update (fun _ => ⟨0, []⟩) 7 ⟨0, []⟩

def askingLoop : Loop :=
  { acceptedLoop with inbound := Function.update acceptedLoop.inbound 7 ⟨0, askingBytes⟩ }

theorem event_loop_refines_server_contacts : ∃ past s packets, Run pieceLoop past s ∧
    Run recordedServer packets s.server ∧ Open s.server 7 ∧ (s.inbound 7).unread = [0, 0, 0] ∧
    heard 7 past = stream requestFrame (requests 7 packets) ++ [0, 0, 0] ∧
    (s.outbound 7).wire = told 7 packets := by
  have accepted : pieceLoop.step pieceLoop.start (.accept 7) = some (acceptedLoop, []) := rfl
  have arrived : pieceLoop.step acceptedLoop (.arrive 7 askingBytes) = some (askingLoop, []) := rfl
  have done : dispatch recordedPlatform (recordedEnv 0) askingLoop.server
      ⟨7, 0, List.Vector.replicate maxNameLen 0, false⟩ MessageType.reqContacts.code (deliver []) =
        .ok (askingLoop.server, [⟨7, .respContacts []⟩]) := rfl
  have fits : ∀ x ∈ [Sent.mk 7 (.respContacts [])],
      (x.packet.payload (recordedEnv 0).junk).length ≤ 2 ^ 31 - 1 := by decide
  have front : (askingLoop.inbound 7).unread = frame MessageType.reqContacts.code [] ++ [0, 0, 0] :=
    rfl
  obtain ⟨calls, outbound, ready, -⟩ := loopStep_whole pieceReader_lawful (fun _ => rfl)
    pieceWriter_lawful rfl front (by decide) done fits
  have answered : pieceLoop.step askingLoop (.ready 7 pieceReader pieceWriter (recordedEnv 0)) =
      some (⟨askingLoop.server, Function.update askingLoop.inbound 7 ⟨calls, [0, 0, 0]⟩, outbound⟩,
        [⟨7, .respContacts []⟩]) := ready
  have run := ((Run.start.step accepted).step arrived).step answered
  obtain ⟨packets, server, hears, tells⟩ := event_loop_refines_server _ _ _ _ _ run
    (by simp [Reads, pieceReader_bounded])
  have unread : (Function.update askingLoop.inbound 7 ⟨calls, [0, 0, 0]⟩ 7).unread = [0, 0, 0] := by
    rw [Function.update_self]
  refine ⟨_, _, packets, run, server, rfl, unread, ?_, tells 7 ?_ rfl⟩
  · rw [← unread]
    exact hears 7 rfl
  · simpa [Writes, pieceWriter_lawful] using fits

end MoT
