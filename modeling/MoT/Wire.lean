import MoT.Lib.Framing
import MoT.Services

/-! Packets on a TLS connection. How many bytes each call of `SSL_write` and `SSL_read`
moves is a parameter, and so is whether an allocation succeeds. -/
namespace MoT
open CMemory Framing

/- A `size_t` passed for an `int`. -/
def toInt (n : Nat) : Int := Int.bmod n (2 ^ 32)

theorem toInt_small {n : Nat} (small : n < 2 ^ 31) : toInt n = n := by
  apply Int.bmod_eq_of_le_mul_two
  · omega
  · omega

theorem toInt_large {n : Nat} (large : 2 ^ 31 ≤ n) (word : n < 2 ^ 32) : toInt n < 0 := by
  have wrapped : toInt n = ((n : Int) - 2 ^ 32).bmod (2 ^ 32) := (Int.sub_bmod_right _ _).symm
  rw [wrapped, Int.bmod_eq_of_le_mul_two]
  · omega
  · omega
  · omega

/- The host is little endian, so the network order is the other one. -/
def htonl (u : UInt32) : UInt32 := UInt32.ofNat (littleEndian (littleEndianBytes u).reverse)

def ntohl (u : UInt32) : UInt32 := htonl u

theorem littleEndianBytes_of (a b c d : UInt8) :
    littleEndianBytes (UInt32.ofNat (littleEndian [a, b, c, d])) = [a, b, c, d] := by
  have ha := a.toNat_lt
  have hb := b.toNat_lt
  have hc := c.toNat_lt
  have hd := d.toNat_lt
  simp [littleEndianBytes, littleEndian, ← UInt8.toNat_inj, UInt32.toNat_toUInt8,
    UInt32.toNat_shiftRight, Nat.shiftRight_eq_div_pow]
  omega

theorem ntohl_htonl (u : UInt32) : ntohl (htonl u) = u := by
  have back : littleEndianBytes (htonl u) = (littleEndianBytes u).reverse := littleEndianBytes_of _ _ _ _
  rw [ntohl, htonl, back, List.reverse_reverse, littleEndian_bytes]

namespace MessageHeader
abbrev type : Nat := 0
abbrev payloadLen : Nat := 4
abbrev size : Nat := 8
end MessageHeader

def messageHeader (type payloadLen : UInt32) : List UInt8 :=
  littleEndianBytes (htonl type) ++ littleEndianBytes (htonl payloadLen)

/-- What each call of `SSL_write` returns, given how many bytes it is asked to write. -/
abbrev Writer := Nat → Int → Int

/-- It accepts some of the bytes, and no more than it is given. -/
def Writer.Lawful (W : Writer) : Prop := ∀ i num, 0 < num → 0 < W i num ∧ W i num ≤ num

structure Sender where
  calls : Nat
  wire : List UInt8

def sslWrite (W : Writer) (s : Sender) (data : List UInt8) (num : Int) : Int × Sender :=
  (W s.calls num, ⟨s.calls + 1, s.wire ++ data.take (W s.calls num).toNat⟩)

def sendAll (W : Writer) (data : List UInt8) (totalSent : Nat) (s : Sender) : Int × Sender :=
  if totalSent < data.length then
    match sslWrite W s (data.drop totalSent) (toInt (data.length - totalSent)) with
    | (sent, s) => if sent ≤ 0 then (-1, s) else sendAll W data (totalSent + sent.toNat) s
  else (0, s)
termination_by data.length - totalSent

/- The payload is read from its pointer, as far as its length says. -/
def sendPacket (ssl : Option Writer) (s : Sender) (type : UInt32) (payload : Pointer)
    (payloadLen : UInt32) : Except CMemory.Fault (Int × Sender) :=
  match ssl with
  | none => .ok (-1, s)
  | some W =>
    let header := sendAll W (messageHeader type payloadLen) 0 s
    if header.1 = -1 then .ok (-1, header.2)
    else if payloadLen > 0 ∧ payload ≠ none then
      match load payload 0 payloadLen.toNat with
      | .error fault => .error fault
      | .ok data =>
        let body := sendAll W data 0 header.2
        .ok (if body.1 = -1 then -1 else 1, body.2)
    else .ok (1, header.2)

/-- A packet to send. The pointer leads to the bytes, and may be NULL when there are none. -/
structure Outgoing where
  type : UInt32
  payload : Pointer
  bytes : List UInt8
  short : bytes.length ≤ 2 ^ 31 - 1
  points : load payload 0 bytes.length = .ok bytes

namespace Outgoing

def payloadLen (p : Outgoing) : UInt32 := UInt32.ofNat p.bytes.length

theorem payloadLen_toNat (p : Outgoing) : p.payloadLen.toNat = p.bytes.length := by
  have short := p.short
  have small : p.bytes.length < 2 ^ 32 := by omega
  exact UInt32.toNat_ofNat_of_lt' small

theorem payloadLen_pos (p : Outgoing) (nonempty : p.bytes ≠ []) : p.payloadLen > 0 := by
  rw [gt_iff_lt, UInt32.lt_iff_toNat_lt, p.payloadLen_toNat]
  exact List.length_pos_of_ne_nil nonempty

/- The size of the block it is received into does not wrap around. -/
theorem payloadLen_succ (p : Outgoing) : (p.payloadLen + 1).toNat = p.bytes.length + 1 := by
  have short := p.short
  have small : p.bytes.length + 1 < 2 ^ 32 := by omega
  rw [UInt32.toNat_add, p.payloadLen_toNat]
  exact Nat.mod_eq_of_lt small

def onWire (p : Outgoing) : List UInt8 := messageHeader p.type p.payloadLen ++ p.bytes

end Outgoing

def sendPackets (ssl : Option Writer) (s : Sender) :
    List Outgoing → Except CMemory.Fault (List Int × Sender)
  | [] => .ok ([], s)
  | p :: packets =>
    match sendPacket ssl s p.type p.payload p.payloadLen with
    | .error fault => .error fault
    | .ok (status, s) => (sendPackets ssl s packets).map fun r => (status :: r.1, r.2)

theorem sendAll_lawful {W : Writer} (lawful : W.Lawful) (data : List UInt8)
    (short : data.length < 2 ^ 31) (totalSent : Nat) (s : Sender) :
    ∃ calls, sendAll W data totalSent s = (0, ⟨calls, s.wire ++ data.drop totalSent⟩) := by
  fun_induction sendAll W data totalSent s with
  | case1 totalSent s more sent t written failed =>
    have asked : toInt (data.length - totalSent) = (data.length - totalSent : Nat) :=
      toInt_small (by omega)
    have progress := (lawful s.calls (toInt (data.length - totalSent)) (by omega)).1
    cases written
    exact absurd failed (Int.not_le.mpr progress)
  | case2 totalSent s more sent t written accepted ih =>
    obtain ⟨calls, rest⟩ := ih
    refine ⟨calls, ?_⟩
    cases written
    rw [rest]
    simp only [List.append_assoc, ← List.drop_drop, List.take_append_drop]
  | case3 totalSent s done =>
    refine ⟨s.calls, ?_⟩
    rw [List.drop_of_length_le (by omega), List.append_nil]

theorem sendPacket_lawful {W : Writer} (lawful : W.Lawful) (p : Outgoing) (s : Sender) :
    ∃ calls, sendPacket (some W) s p.type p.payload p.payloadLen =
      .ok (1, ⟨calls, s.wire ++ p.onWire⟩) := by
  have short := p.short
  have points := p.points
  obtain ⟨calls, header⟩ := sendAll_lawful lawful (messageHeader p.type p.payloadLen)
    (by simp [messageHeader, littleEndianBytes]) 0 s
  obtain ⟨calls', body⟩ := sendAll_lawful lawful p.bytes (by omega) 0
    ⟨calls, s.wire ++ messageHeader p.type p.payloadLen⟩
  rw [List.drop_zero] at header body
  by_cases empty : p.bytes = []
  · have none : ¬ p.payloadLen > 0 := by simp [Outgoing.payloadLen, empty]
    refine ⟨calls, ?_⟩
    simp [sendPacket, header, none, Outgoing.onWire, empty]
  · have some := p.payloadLen_pos empty
    have pointer : p.payload ≠ .none := by
      intro null
      rw [null, load, if_neg (by simpa using empty)] at points
      cases points
    refine ⟨calls', ?_⟩
    simp [sendPacket, header, some, pointer, p.payloadLen_toNat, points, body, Outgoing.onWire]

theorem sendPackets_lawful {W : Writer} (lawful : W.Lawful) (packets : List Outgoing) (s : Sender) :
    ∃ calls, sendPackets (some W) s packets =
      .ok (List.replicate packets.length 1, ⟨calls, s.wire ++ stream Outgoing.onWire packets⟩) := by
  induction packets generalizing s with
  | nil => exact ⟨s.calls, by simp [sendPackets]⟩
  | cons p packets ih =>
    obtain ⟨calls, sent⟩ := sendPacket_lawful lawful p s
    obtain ⟨calls', rest⟩ := ih ⟨calls, s.wire ++ p.onWire⟩
    refine ⟨calls', ?_⟩
    simp [sendPackets, sent, rest, Except.map, List.replicate_succ]

/-- What each call of `SSL_read` returns, given how many bytes it is asked for and how many
there are. -/
abbrev Reader := Nat → Int → Nat → Int

/-- It returns some of the bytes, no more than it is asked for, and fails at the end. -/
def Reader.Lawful (R : Reader) : Prop := ∀ i num ahead, 0 < num →
  (ahead = 0 → R i num ahead ≤ 0) ∧
    (0 < ahead → 0 < R i num ahead ∧ R i num ahead ≤ num ∧ R i num ahead ≤ ahead)

structure Receiver where
  calls : Nat
  unread : List UInt8

/-- No packet: the value returned, or why the call is undefined. -/
inductive RecvFailure where
  | status (returned : Int)
  | fault (fault : CMemory.Fault)
  | unwritten
deriving DecidableEq

/- The out parameters, when 1 is returned. -/
structure Received where
  type : UInt32
  payload : Option (List Cell)
  payloadLen : UInt32
deriving DecidableEq

def sslRead (R : Reader) (c : Receiver) (num : Int) : Int × List UInt8 × Receiver :=
  let received := R c.calls num c.unread.length
  (received, c.unread.take received.toNat, ⟨c.calls + 1, c.unread.drop received.toNat⟩)

def recvAll (R : Reader) (len : Nat) (data : List Cell) (totalReceived : Nat) (c : Receiver) :
    Except RecvFailure (List Cell) × Receiver :=
  if totalReceived < len then
    match sslRead R c (toInt (len - totalReceived)) with
    | (received, bytes, c) =>
      if received ≤ 0 then (.error (.status received), c)
      else match store data totalReceived bytes with
        | none => (.error (.fault (.outside data.length data.length)), c)
        | some data => recvAll R len data (totalReceived + received.toNat) c
  else (.ok data, c)
termination_by len - totalReceived

def allocated (n : Nat) : List Cell := List.replicate n none

/- After the header: a block with room for a NUL, whose size is computed in 32 bits. -/
def recvPayload (R : Reader) (allocates : Nat → Bool) (type payloadLen : UInt32) (c : Receiver) :
    Except RecvFailure Received × Receiver :=
  if payloadLen > 0 then
    if allocates (payloadLen + 1).toNat then
      match recvAll R payloadLen.toNat (allocated (payloadLen + 1).toNat) 0 c with
      | (.error (.status _), c) => (.error (.status (-1)), c)
      | (.error failure, c) => (.error failure, c)
      | (.ok block, c) =>
        match store block payloadLen.toNat [0] with
        | none => (.error (.fault (.outside block.length block.length)), c)
        | some block => (.ok ⟨type, some block, payloadLen⟩, c)
    else (.error (.status (-1)), c)
  else (.ok ⟨type, none, payloadLen⟩, c)

def recvPacket (ssl : Option Reader) (allocates : Nat → Bool) (c : Receiver) :
    Except RecvFailure Received × Receiver :=
  match ssl with
  | none => (.error (.status (-1)), c)
  | some R =>
    match recvAll R MessageHeader.size (allocated MessageHeader.size) 0 c with
    | (.error failure, c) => (.error failure, c)
    | (.ok header, c) =>
      match header.mapM id with
      | none => (.error .unwritten, c)
      | some header =>
        match loadUInt32 (some header) MessageHeader.type,
            loadUInt32 (some header) MessageHeader.payloadLen with
        | .ok type, .ok payloadLen => recvPayload R allocates (ntohl type) (ntohl payloadLen) c
        | .error fault, _ | _, .error fault => (.error (.fault fault), c)

/-- The packet as it is received: the payload with a NUL behind it, or NULL. -/
def Outgoing.received (p : Outgoing) : Received :=
  ⟨p.type, (deliver p.bytes).map fun block => block.map some, p.payloadLen⟩

section Loop

variable {R : Reader} {len : Nat} (front slack : List Cell) (unread : List UInt8)

theorem recvAll_step (lawful : R.Lawful) (short : len < 2 ^ 31) (missing : front.length < len)
    (room : len ≤ front.length + slack.length) (ahead : unread ≠ []) (calls : Nat) :
    ∃ n, 0 < n ∧ front.length + n ≤ len ∧ n ≤ unread.length ∧
      recvAll R len (front ++ slack) front.length ⟨calls, unread⟩ =
        recvAll R len (front ++ (unread.take n).map some ++ slack.drop n)
          (front ++ (unread.take n).map some).length ⟨calls + 1, unread.drop n⟩ := by
  have asked : toInt (len - front.length) = (len - front.length : Nat) := toInt_small (by omega)
  obtain ⟨positive, most, there⟩ :=
    (lawful calls (toInt (len - front.length)) unread.length (by omega)).2
      (List.length_pos_of_ne_nil ahead)
  obtain ⟨n, received⟩ := Int.eq_ofNat_of_zero_le (Int.le_of_lt positive)
  have bytes : (unread.take n).length = n := by
    rw [List.length_take]
    omega
  have stored := store_append front slack (unread.take n) (by omega)
  rw [bytes] at stored
  refine ⟨n, by omega, by omega, by omega, ?_⟩
  have grown : (front ++ (unread.take n).map some).length = front.length + n := by
    rw [List.length_append, List.length_map, bytes]
  rw [recvAll, if_pos missing, grown]
  simp only [sslRead, received, Int.toNat_natCast, stored]
  exact if_neg (by omega)

theorem recvAll_ended (lawful : R.Lawful) (short : len < 2 ^ 31) (missing : front.length < len)
    (calls : Nat) : ∃ status c, status ≤ 0 ∧
      recvAll R len (front ++ slack) front.length ⟨calls, []⟩ = (.error (.status status), c) := by
  have asked : toInt (len - front.length) = (len - front.length : Nat) := toInt_small (by omega)
  have failed := (lawful calls (toInt (len - front.length)) 0 (by omega)).1 rfl
  refine ⟨_, ⟨calls + 1, []⟩, failed, ?_⟩
  rw [recvAll, if_pos missing]
  simp only [sslRead, List.length_nil, if_pos failed, List.drop_nil]

theorem recvAll_whole (lawful : R.Lawful) (short : len < 2 ^ 31) (within : front.length ≤ len)
    (room : len ≤ front.length + slack.length) (whole : len ≤ front.length + unread.length)
    (calls : Nat) : ∃ calls', recvAll R len (front ++ slack) front.length ⟨calls, unread⟩ =
      (.ok (front ++ (unread.take (len - front.length)).map some ++
        slack.drop (len - front.length)), ⟨calls', unread.drop (len - front.length)⟩) := by
  induction missing : len - front.length using Nat.strong_induction_on
    generalizing front slack unread calls with
  | _ missing' ih =>
    subst missing
    rcases Nat.lt_or_ge front.length len with missing | done
    · have ahead : unread ≠ [] := by
        rintro rfl
        rw [List.length_nil] at whole
        omega
      obtain ⟨n, positive, fits, there, step⟩ :=
        recvAll_step front slack unread lawful short missing room ahead calls
      have grown : (front ++ (unread.take n).map some).length = front.length + n := by
        rw [List.length_append, List.length_map, List.length_take]
        omega
      have left : len - front.length = n + (len - (front.length + n)) := by omega
      obtain ⟨calls', rest⟩ := ih (len - (front.length + n)) (by omega)
        (front ++ (unread.take n).map some) (slack.drop n) (unread.drop n)
        (by rw [grown]; omega) (by rw [grown, List.length_drop]; omega)
        (by rw [grown, List.length_drop]; omega) (calls + 1) (by rw [grown])
      refine ⟨calls', ?_⟩
      rw [step, rest, left, List.take_add, List.map_append, List.drop_drop, List.drop_drop]
      simp only [List.append_assoc]
    · have nothing : len - front.length = 0 := by omega
      refine ⟨calls, ?_⟩
      rw [recvAll, if_neg (by omega), nothing]
      simp

theorem recvAll_short (lawful : R.Lawful) (short : len < 2 ^ 31)
    (room : len ≤ front.length + slack.length) (lacks : front.length + unread.length < len)
    (calls : Nat) : ∃ status c, status ≤ 0 ∧
      recvAll R len (front ++ slack) front.length ⟨calls, unread⟩ = (.error (.status status), c) := by
  induction ahead : unread.length using Nat.strong_induction_on
    generalizing front slack unread calls with
  | _ ahead' ih =>
    subst ahead
    by_cases ended : unread = []
    · subst ended
      exact recvAll_ended front slack lawful short (by omega) calls
    · obtain ⟨n, positive, fits, there, step⟩ :=
        recvAll_step front slack unread lawful short (by omega) room ended calls
      have grown : (front ++ (unread.take n).map some).length = front.length + n := by
        rw [List.length_append, List.length_map, List.length_take]
        omega
      rw [step]
      exact ih (unread.drop n).length (by rw [List.length_drop]; omega)
        (front ++ (unread.take n).map some) (slack.drop n) (unread.drop n)
        (by rw [grown, List.length_drop]; omega) (by rw [grown, List.length_drop]; omega)
        (calls + 1) rfl

end Loop

theorem mapM_written (bytes : List UInt8) : (bytes.map some).mapM id = some bytes := by
  induction bytes with
  | nil => rfl
  | cons b bytes ih =>
    rw [List.map_cons, List.mapM_cons, ih]
    rfl

theorem messageHeader_type (type payloadLen : UInt32) :
    loadUInt32 (some (messageHeader type payloadLen)) MessageHeader.type = .ok (htonl type) := by
  have word : load (some (messageHeader type payloadLen)) MessageHeader.type 4 =
      .ok (littleEndianBytes (htonl type)) := rfl
  rw [loadUInt32, word, Except.map, littleEndian_bytes]

theorem messageHeader_payloadLen (type payloadLen : UInt32) :
    loadUInt32 (some (messageHeader type payloadLen)) MessageHeader.payloadLen =
      .ok (htonl payloadLen) := by
  have word : load (some (messageHeader type payloadLen)) MessageHeader.payloadLen 4 =
      .ok (littleEndianBytes (htonl payloadLen)) := rfl
  rw [loadUInt32, word, Except.map, littleEndian_bytes]

theorem messageHeader_length (type payloadLen : UInt32) :
    (messageHeader type payloadLen).length = MessageHeader.size := rfl

theorem recvHeader_short {R : Reader} (lawful : R.Lawful) (unread : List UInt8)
    (short : unread.length < MessageHeader.size) (calls : Nat) :
    ∃ status c, status ≤ 0 ∧ recvAll R MessageHeader.size (allocated MessageHeader.size) 0
      ⟨calls, unread⟩ = (.error (.status status), c) :=
  recvAll_short [] (allocated MessageHeader.size) unread lawful (by decide) (Nat.le_refl _)
    (by rw [List.length_nil, Nat.zero_add]; exact short) calls

theorem recvPacket_header {R : Reader} (lawful : R.Lawful) (allocates : Nat → Bool)
    (type payloadLen : UInt32) (rest : List UInt8) (calls : Nat) :
    ∃ calls', recvPacket (some R) allocates ⟨calls, messageHeader type payloadLen ++ rest⟩ =
      recvPayload R allocates type payloadLen ⟨calls', rest⟩ := by
  obtain ⟨calls', header⟩ : ∃ calls', recvAll R MessageHeader.size (allocated MessageHeader.size) 0
      ⟨calls, messageHeader type payloadLen ++ rest⟩ =
        (.ok ((messageHeader type payloadLen).map some), ⟨calls', rest⟩) :=
    recvAll_whole [] (allocated MessageHeader.size) (messageHeader type payloadLen ++ rest) lawful
      (show MessageHeader.size < 2 ^ 31 by decide) (Nat.zero_le _) (Nat.le_refl _)
      (by simp [messageHeader_length]) calls
  refine ⟨calls', ?_⟩
  simp only [recvPacket, header, mapM_written, messageHeader_type, messageHeader_payloadLen,
    ntohl_htonl]

theorem recvPacket_whole {R : Reader} (lawful : R.Lawful) {allocates : Nat → Bool}
    (memory : ∀ n, allocates n = true) (p : Outgoing) (rest : List UInt8) (calls : Nat) :
    ∃ calls', recvPacket (some R) allocates ⟨calls, p.onWire ++ rest⟩ =
      (.ok p.received, ⟨calls', rest⟩) := by
  have short := p.short
  obtain ⟨calls', header⟩ :=
    recvPacket_header lawful allocates p.type p.payloadLen (p.bytes ++ rest) calls
  rw [Outgoing.onWire, List.append_assoc, header]
  by_cases empty : p.bytes = []
  · have none : ¬ p.payloadLen > 0 := by simp [Outgoing.payloadLen, empty]
    refine ⟨calls', ?_⟩
    rw [recvPayload, if_neg none, empty, Outgoing.received, deliver, if_pos empty]
    rfl
  · have some := p.payloadLen_pos empty
    obtain ⟨calls'', body⟩ : ∃ calls'', recvAll R p.bytes.length (allocated (p.bytes.length + 1)) 0
        ⟨calls', p.bytes ++ rest⟩ = (.ok (p.bytes.map .some ++ [none]), ⟨calls'', rest⟩) := by
      obtain ⟨calls'', body⟩ := recvAll_whole [] (allocated (p.bytes.length + 1)) (p.bytes ++ rest)
        lawful (show p.bytes.length < 2 ^ 31 by omega) (Nat.zero_le _) (by simp [allocated])
        (by simp) calls'
      refine ⟨calls'', body.trans ?_⟩
      simp [allocated]
    have stored := store_append (p.bytes.map Option.some) [none] [0] (by simp)
    rw [List.length_map] at stored
    refine ⟨calls'', ?_⟩
    simp only [recvPayload, if_pos some, memory, if_true, p.payloadLen_toNat, p.payloadLen_succ,
      body, stored]
    simp [Outgoing.received, deliver, empty]

theorem recvPacket_short {R : Reader} (lawful : R.Lawful) {allocates : Nat → Bool}
    (memory : ∀ n, allocates n = true) (p : Outgoing) {n : Nat} (cut : n < p.onWire.length)
    (calls : Nat) : ∃ status c, status ≤ 0 ∧
      recvPacket (some R) allocates ⟨calls, p.onWire.take n⟩ = (.error (.status status), c) := by
  have short := p.short
  rw [Outgoing.onWire, List.length_append, messageHeader_length] at cut
  rcases Nat.lt_or_ge n MessageHeader.size with early | late
  · obtain ⟨status, c, failed, header⟩ := recvHeader_short lawful
      (p.onWire.take n) (by rw [List.length_take]; omega) calls
    exact ⟨status, c, failed, by simp only [recvPacket, header]⟩
  · have split : p.onWire.take n =
        messageHeader p.type p.payloadLen ++ p.bytes.take (n - MessageHeader.size) := by
      rw [Outgoing.onWire, List.take_append, messageHeader_length,
        List.take_of_length_le (by rw [messageHeader_length]; exact late)]
    obtain ⟨calls', header⟩ := recvPacket_header lawful allocates p.type p.payloadLen
      (p.bytes.take (n - MessageHeader.size)) calls
    have some := p.payloadLen_pos (List.ne_nil_of_length_pos (by omega))
    obtain ⟨status, c, failed, body⟩ := recvAll_short [] (allocated (p.bytes.length + 1))
      (p.bytes.take (n - MessageHeader.size)) lawful (show p.bytes.length < 2 ^ 31 by omega)
      (by simp [allocated]) (by rw [List.length_nil, List.length_take]; omega) calls'
    rw [List.nil_append, List.length_nil] at body
    refine ⟨-1, c, by decide, ?_⟩
    rw [split, header]
    simp only [recvPayload, if_pos some, memory, if_true, p.payloadLen_toNat, p.payloadLen_succ,
      body]

theorem packets_delimited {R : Reader} (lawful : R.Lawful) {allocates : Nat → Bool}
    (memory : ∀ n, allocates n = true) :
    Delimits Outgoing.onWire Receiver.unread (recvPacket (some R) allocates) Outgoing.received
      fun failure => ∃ status ≤ 0, failure = .status status where
  whole := by
    rintro p ⟨calls, unread⟩ rest rfl
    obtain ⟨calls', received⟩ := recvPacket_whole lawful memory p rest calls
    exact ⟨_, received, rfl⟩
  short := by
    rintro p ⟨calls, unread⟩ n cut rfl
    obtain ⟨status, c, failed, received⟩ := recvPacket_short lawful memory p cut calls
    exact ⟨_, c, received, status, failed, rfl⟩
  ended := by
    rintro ⟨calls, unread⟩ rfl
    obtain ⟨status, c, failed, header⟩ := recvHeader_short lawful [] (by decide) calls
    exact ⟨_, c, by simp only [recvPacket, header], status, failed, rfl⟩

/-- Packets that are sent arrive as they are, however the two sides cut up the bytes. From a
stream that ends early arrive the packets that were whole, and then nothing. -/
theorem framing_round_trip (W : Writer) (R : Reader) (allocates : Nat → Bool) (writes : W.Lawful)
    (reads : R.Lawful) (memory : ∀ n, allocates n = true) (packets : List Outgoing) (k l : Nat) :
    ∃ wire, (∃ calls, sendPackets (some W) ⟨k, []⟩ packets =
        .ok (List.replicate packets.length 1, ⟨calls, wire⟩)) ∧
      (∃ calls, collect (recvPacket (some R) allocates) packets.length ⟨l, wire⟩ =
        (packets.map Outgoing.received, none, ⟨calls, []⟩)) ∧
      ∀ cut n, ∃ failure c, collect (recvPacket (some R) allocates) n ⟨l, wire.take cut⟩ =
          (((contained Outgoing.onWire cut packets).take n).map Outgoing.received, failure, c) ∧
        (failure = none ↔ n ≤ (contained Outgoing.onWire cut packets).length) ∧
        ∀ e ∈ failure, ∃ status ≤ 0, e = .status status := by
  have delimited := packets_delimited reads memory
  refine ⟨stream Outgoing.onWire packets, ?_, ?_, ?_⟩
  · exact sendPackets_lawful writes packets ⟨k, []⟩
  · obtain ⟨⟨calls, unread⟩, received, rfl⟩ := collect_stream delimited packets
      (s := ⟨l, stream Outgoing.onWire packets⟩) (List.append_nil _).symm
    exact ⟨calls, received⟩
  · intro cut n
    exact collect_cut delimited packets n cut rfl

def greeting : List Outgoing :=
  [⟨30, some [104, 105, 0], [104, 105], by decide, rfl⟩, ⟨21, none, [], by decide, rfl⟩]

theorem framing_round_trip_greeting :
    ∃ wire failure c, (∃ calls, sendPackets (some fun _ _ => 1) ⟨0, []⟩ greeting =
        .ok ([1, 1], ⟨calls, wire⟩)) ∧
      collect (recvPacket (some fun _ num ahead => min num (min 3 ahead)) fun _ => true) 2
          ⟨0, wire.take 13⟩ =
        ([⟨30, some [some 104, some 105, some 0], 2⟩], some failure, c) := by
  have writes : Writer.Lawful fun _ _ => 1 := fun _ _ positive => ⟨Int.one_pos, positive⟩
  have reads : Reader.Lawful fun _ num ahead => min num (min 3 ahead) := by
    intro i num ahead positive
    dsimp only
    omega
  obtain ⟨wire, sent, -, cut⟩ :=
    framing_round_trip _ _ (fun _ => true) writes reads (fun _ => rfl) greeting 0 0
  obtain ⟨failure, c, received, more, -⟩ := cut 13 2
  have one : (contained Outgoing.onWire 13 greeting).length = 1 := rfl
  cases failure with
  | none => exact absurd (more.mp rfl) (by rw [one]; decide)
  | some failure => exact ⟨wire, failure, c, sent, received⟩

/-- All that is asked of `SSL_read` here: it fails when it is asked for nothing or less, gives
no more than it is asked for, and nothing that the peer did not send. -/
def Reader.Bounded (R : Reader) : Prop := ∀ i num ahead,
  (num ≤ 0 → R i num ahead ≤ 0) ∧ (0 < num → R i num ahead ≤ num) ∧ R i num ahead ≤ ahead

/- How a loop over `len` bytes ends: it fails, or the block holds the bytes that were missing. -/
def Fetched (len : Nat) (data : List Cell) (totalReceived : Nat) (c : Receiver) :
    Except RecvFailure (List Cell) × Receiver → Prop
  | (.error failure, _) => ∃ status ≤ 0, failure = .status status
  | (.ok block, c') => ∃ bytes, bytes.length = len - totalReceived ∧ c.unread = bytes ++ c'.unread ∧
      block = data.take totalReceived ++ bytes.map some ++ data.drop len

theorem Fetched.pass {len totalReceived n : Nat} {data : List Cell} {c c' : Receiver}
    {outcome : Except RecvFailure (List Cell) × Receiver} (room : len ≤ data.length)
    (few : totalReceived + n ≤ len) (sent : n ≤ c.unread.length) (left : c'.unread = c.unread.drop n)
    (rest : Fetched len (data.take totalReceived ++ (c.unread.take n).map some ++
      data.drop (totalReceived + n)) (totalReceived + n) c' outcome) :
    Fetched len data totalReceived c outcome := by
  obtain ⟨outcome, c''⟩ := outcome
  cases outcome with
  | error failure => exact rest
  | ok block =>
    obtain ⟨bytes, length, read, filled⟩ := rest
    have size : (c.unread.take n).length = n := List.length_take_of_le sent
    have front : (data.take totalReceived ++ (c.unread.take n).map some).length =
        totalReceived + n := by
      rw [List.length_append, List.length_map, size, List.length_take]
      omega
    refine ⟨c.unread.take n ++ bytes, ?_, ?_, ?_⟩
    · rw [List.length_append, size, length]
      omega
    · rw [List.append_assoc, ← read, left, List.take_append_drop]
    · have later : len = (totalReceived + n) + (len - (totalReceived + n)) := by omega
      rw [filled, List.take_left' front, later, List.drop_append, front, List.drop_drop,
        List.drop_of_length_le (by rw [front]; omega), Nat.add_sub_cancel_left,
        List.map_append, List.nil_append]
      simp only [List.append_assoc]

theorem recvAll_fetched {R : Reader} (bounded : R.Bounded) {len : Nat} (short : len < 2 ^ 31)
    (data : List Cell) (room : len ≤ data.length) (totalReceived : Nat) (c : Receiver)
    (within : totalReceived ≤ len) :
    Fetched len data totalReceived c (recvAll R len data totalReceived c) := by
  fun_induction recvAll R len data totalReceived c with
  | case1 data totalReceived c more received bytes c' read failed =>
    exact ⟨received, failed, rfl⟩
  | case2 data totalReceived c more received bytes c' read accepted overflows =>
    cases read
    have asked : toInt (len - totalReceived) = (len - totalReceived : Nat) := toInt_small (by omega)
    have most := (bounded c.calls (toInt (len - totalReceived)) c.unread.length).2.1 (by omega)
    have fits : totalReceived + (c.unread.take (R c.calls (toInt (len - totalReceived))
        c.unread.length).toNat).length ≤ data.length := by
      rw [List.length_take]
      omega
    rw [store, if_pos fits] at overflows
    cases overflows
  | case3 data totalReceived c more received bytes c' read accepted block stored ih =>
    cases read
    have asked : toInt (len - totalReceived) = (len - totalReceived : Nat) := toInt_small (by omega)
    obtain ⟨-, most, sent⟩ := bounded c.calls (toInt (len - totalReceived)) c.unread.length
    have few := most (by omega)
    have size : (c.unread.take (R c.calls (toInt (len - totalReceived)) c.unread.length).toNat).length
        = (R c.calls (toInt (len - totalReceived)) c.unread.length).toNat :=
      List.length_take_of_le (by omega)
    have kept := store_length stored
    simp only [store, size, Option.ite_none_right_eq_some, Option.some.injEq] at stored
    obtain ⟨-, rfl⟩ := stored
    have rest := ih (kept ▸ room) (by omega)
    exact Fetched.pass room (by omega) (by omega) rfl rest
  | case4 data totalReceived c done =>
    have all : totalReceived = len := by omega
    subst all
    exact ⟨[], by simp⟩

/- A length that is negative as an `int` is not read at all. -/
theorem recvAll_negative {R : Reader} (bounded : R.Bounded) {len : Nat} (large : 2 ^ 31 ≤ len)
    (word : len < 2 ^ 32) (data : List Cell) (c : Receiver) :
    ∃ status c', recvAll R len data 0 c = (.error (.status status), c') := by
  have asked : toInt (len - 0) ≤ 0 := Int.le_of_lt (toInt_large large word)
  have failed := (bounded c.calls (toInt (len - 0)) c.unread.length).1 asked
  have more : 0 < len := by omega
  rw [recvAll, if_pos more]
  exact ⟨_, _, if_pos failed⟩

/-- What can come out of `recv_packet` where nothing is read or written out of bounds: a status,
or a payload of less than 2^31 bytes, all of them received, with a NUL behind it. -/
def Contained (c : Receiver) : Except RecvFailure Received × Receiver → Prop
  | (.error failure, _) => ∃ status ≤ 0, failure = .status status
  | (.ok p, c') => ∃ header bytes, c.unread = header ++ bytes ++ c'.unread ∧
      header.length = MessageHeader.size ∧ bytes.length = p.payloadLen.toNat ∧
      ∀ block ∈ p.payload, bytes.length < 2 ^ 31 ∧ block.length = (p.payloadLen + 1).toNat ∧
        block = bytes.map some ++ [some 0]

theorem recvPayload_contained {R : Reader} (bounded : R.Bounded) (allocates : Nat → Bool)
    (type payloadLen : UInt32) {c c₀ : Receiver} {header : List UInt8}
    (size : header.length = MessageHeader.size) (before : c₀.unread = header ++ c.unread) :
    Contained c₀ (recvPayload R allocates type payloadLen c) := by
  have word : payloadLen.toNat < 2 ^ 32 := payloadLen.toNat_lt
  unfold recvPayload
  split
  · split
    · rcases Nat.lt_or_ge payloadLen.toNat (2 ^ 31) with short | large
      · have succ : (payloadLen + 1).toNat = payloadLen.toNat + 1 := by
          rw [UInt32.toNat_add]
          exact Nat.mod_eq_of_lt (by rw [UInt32.toNat_one]; omega)
        have room : payloadLen.toNat ≤ (allocated (payloadLen + 1).toNat).length := by
          rw [allocated, List.length_replicate, succ]
          omega
        have fetched := recvAll_fetched bounded short (allocated (payloadLen + 1).toNat) room 0 c
          (Nat.zero_le _)
        split
        · exact ⟨-1, by decide, rfl⟩
        · rename_i failure c' other ended
          rw [ended] at fetched
          obtain ⟨status, -, rfl⟩ := fetched
          exact absurd rfl (other status)
        · rename_i block c' ended
          rw [ended] at fetched
          obtain ⟨bytes, length, read, filled⟩ := fetched
          rw [Nat.sub_zero] at length
          have split : block = bytes.map some ++ [none] := by
            rw [filled, allocated, succ, List.take_zero, List.drop_replicate, List.nil_append]
            simp
          have stored : store block payloadLen.toNat [0] = some (bytes.map some ++ [some 0]) := by
            have end_here : payloadLen.toNat = (bytes.map some).length := by
              rw [List.length_map, length]
            rw [split, end_here, store_append (bytes.map some) [none] [0] (Nat.le_refl 1)]
            simp
          rw [stored]
          refine ⟨header, bytes, ?_, size, length, ?_⟩
          · rw [before, read, List.append_assoc]
          · intro block' same
            cases Option.mem_some.mp same
            refine ⟨length ▸ short, ?_, rfl⟩
            rw [succ, List.length_append, List.length_map, length]
            rfl
      · obtain ⟨status, c', failed⟩ := recvAll_negative bounded large word
          (allocated (payloadLen + 1).toNat) c
        rw [failed]
        exact ⟨-1, by decide, rfl⟩
    · exact ⟨-1, by decide, rfl⟩
  · rename_i zero
    have none : payloadLen.toNat = 0 := by
      rw [gt_iff_lt, UInt32.lt_iff_toNat_lt] at zero
      exact Nat.eq_zero_of_not_pos zero
    refine ⟨header, [], by rw [List.append_nil, before], size, none.symm, ?_⟩
    intro block impossible
    cases impossible

theorem messageHeader_of_length {header : List UInt8} (size : header.length = MessageHeader.size) :
    ∃ type payloadLen, header = messageHeader type payloadLen := by
  have split : header = header.take 4 ++ header.drop 4 := (List.take_append_drop 4 header).symm
  have word {bytes : List UInt8} (four : bytes.length = 4) :
      littleEndianBytes (htonl (ntohl (UInt32.ofNat (littleEndian bytes)))) = bytes := by
    match bytes, four with
    | [a, b, c, d], _ => exact (congrArg _ (ntohl_htonl _)).trans (littleEndianBytes_of a b c d)
  refine ⟨ntohl (UInt32.ofNat (littleEndian (header.take 4))),
    ntohl (UInt32.ofNat (littleEndian (header.drop 4))), ?_⟩
  rw [messageHeader, word, word, ← split]
  · rw [List.length_drop, size]
    rfl
  · rw [List.length_take, size]
    rfl

theorem recvPacket_cases {R : Reader} (bounded : R.Bounded) (allocates : Nat → Bool)
    (c : Receiver) :
    (∃ status ≤ 0, ∃ c', recvPacket (some R) allocates c = (.error (.status status), c')) ∨
    ∃ header type payloadLen c', header.length = MessageHeader.size ∧ c.unread = header ++ c'.unread ∧
      recvPacket (some R) allocates c = recvPayload R allocates type payloadLen c' := by
  have fetched := recvAll_fetched bounded (show MessageHeader.size < 2 ^ 31 by decide)
    (allocated MessageHeader.size) (Nat.le_refl _) 0 c (Nat.zero_le _)
  unfold recvPacket
  dsimp only
  split
  · rename_i failure c' ended
    rw [ended] at fetched
    obtain ⟨status, failed, rfl⟩ := fetched
    exact .inl ⟨status, failed, c', rfl⟩
  · rename_i block c' ended
    rw [ended] at fetched
    obtain ⟨header, size, read, filled⟩ := fetched
    have whole : block = header.map some := by
      have nothing : (allocated MessageHeader.size).drop MessageHeader.size = [] := rfl
      rw [filled, List.take_zero, List.nil_append, nothing, List.append_nil]
    obtain ⟨type, payloadLen, rfl⟩ := messageHeader_of_length size
    rw [whole, mapM_written]
    simp only [messageHeader_type, messageHeader_payloadLen, ntohl_htonl]
    exact .inr ⟨_, type, payloadLen, c', size, read, rfl⟩

/-- Whatever header a peer sends, and however `SSL_read` cuts up what comes behind it,
`recv_packet` stays within the block that it asked for. -/
theorem recv_packet_contained (R : Reader) (bounded : R.Bounded) (allocates : Nat → Bool)
    (c : Receiver) : Contained c (recvPacket (some R) allocates c) := by
  rcases recvPacket_cases bounded allocates c with ⟨status, failed, c', ended⟩ |
    ⟨header, type, payloadLen, c', size, read, received⟩
  · rw [ended]
    exact ⟨status, failed, rfl⟩
  · rw [received]
    exact recvPayload_contained bounded allocates type payloadLen size read

/- A header that promises 2^32 - 1 bytes: the block would have none, and nothing is read. -/
theorem recv_packet_contained_wrapped :
    Contained ⟨0, messageHeader 30 4294967295 ++ [104, 105]⟩
      (recvPacket (some fun _ num ahead => if num ≤ 0 then -1 else min num (min 3 ahead))
        (fun _ => true) ⟨0, messageHeader 30 4294967295 ++ [104, 105]⟩) := by
  apply recv_packet_contained
  intro i num ahead
  dsimp only
  split
  · omega
  · omega

end MoT
