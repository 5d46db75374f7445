import Hataori.Lib.Machine
import Hataori.Transport.Bootstrap

/-!
# Streams between connected members

The members of a connected TCP transport with the bytes between them. Every service
`drive` makes of a stream is a step of its own, with the budget of events it is given
and the bytes the sockets take and give, so a run contains every cut of a byte stream
into writes, reads and calls of `progress`, in any interleaving.
-/

namespace Hataori.Transport

open Hataori.Runtime Lib.Bytes Lib.Machine

/-! ## One direction of one stream -/

/-- One direction of one stream: the queues of the sender, the bytes between the two
    sides, the buffer of the receiver; and what was accepted, completed and handed out so
    far. -/
structure Link where
  inbox : List Submission
  writes : List WriteFrame
  wire : List UInt8
  read : List UInt8
  accepted : List (SendTicket × Parcel)
  completed : List SendTicket
  delivered : List Parcel

namespace Link

/-- The bytes still to be written. -/
def unsent (link : Link) : List UInt8 :=
  (link.writes.flatMap fun frame => frame.bytes.drop frame.offset) ++
    link.inbox.flatMap fun submission => wireFrame submission.parcel

/-- An accepted parcel and its frame in the write queue, of which some bytes are left. -/
structure Writing (entry : SendTicket × Parcel) (frame : WriteFrame) : Prop where
  ticket : frame.ticket = entry.1
  bytes : frame.bytes = wireFrame entry.2
  reserved : frame.reservedBytes = frame.bytes.length
  unfinished : frame.offset < frame.bytes.length

/-- What the sender and the receiver of a direction have done is one sequence: the
    accepted parcels are the completed ones, then those being written, then those still
    queued; and they are the parcels handed out, then those whose frames make up the
    bytes that are buffered, on the wire, or still to be written. -/
structure Exact (carried : Parcel → Prop) (link : Link) : Prop where
  carried : ∀ entry ∈ link.accepted, carried entry.2
  sender : ∃ done busy, link.completed = done.map Prod.fst ∧ List.Forall₂ Writing busy link.writes ∧
    link.accepted = done ++ (busy ++ link.inbox.map fun submission =>
      (submission.ticket, submission.parcel))
  reserved : ∀ submission ∈ link.inbox,
    submission.reservedBytes = (wireFrame submission.parcel).length
  receiver : ∃ rest, link.accepted.map Prod.snd = link.delivered ++ rest ∧
    link.read ++ (link.wire ++ link.unsent) = rest.flatMap wireFrame

variable {carried : Parcel → Prop} {link : Link}

theorem Exact.send (h : link.Exact carried) {parcel : Parcel} (hparcel : carried parcel)
    (ticket : SendTicket) {reserved : Nat} (hreserved : reserved = (wireFrame parcel).length) :
    Exact carried { link with
      accepted := link.accepted ++ [(ticket, parcel)]
      inbox := link.inbox ++ [⟨ticket, parcel, reserved⟩] } := by
  obtain ⟨done, busy, hcompleted, hbusy, haccepted⟩ := h.sender
  obtain ⟨rest, hdelivered, hbytes⟩ := h.receiver
  refine ⟨?_, ⟨done, busy, hcompleted, hbusy, ?_⟩, ?_, ⟨rest ++ [parcel], ?_, ?_⟩⟩
  · intro entry hmem
    rcases List.mem_append.mp hmem with hold | hnew
    · exact h.carried entry hold
    · rw [List.mem_singleton.mp hnew]
      exact hparcel
  · simp [haccepted]
  · intro submission hmem
    rcases List.mem_append.mp hmem with hold | hnew
    · exact h.reserved submission hold
    · rw [List.mem_singleton.mp hnew]
      exact hreserved
  · simp [hdelivered]
  · rw [List.flatMap_append, ← hbytes]
    simp [unsent]

theorem Exact.take (h : link.Exact carried) {submission : Submission} {later : List Submission}
    (hinbox : link.inbox = submission :: later) :
    Exact carried { link with
      inbox := later
      writes := link.writes ++
        [⟨wireFrame submission.parcel, 0, submission.ticket, submission.reservedBytes⟩] } := by
  obtain ⟨done, busy, hcompleted, hbusy, haccepted⟩ := h.sender
  obtain ⟨rest, hdelivered, hbytes⟩ := h.receiver
  have hreserved := h.reserved submission (by rw [hinbox]; exact List.mem_cons_self)
  refine ⟨h.carried, ⟨done, busy ++ [(submission.ticket, submission.parcel)], hcompleted, ?_, ?_⟩,
    ?_, ⟨rest, hdelivered, ?_⟩⟩
  · apply List.rel_append hbusy
    refine .cons ⟨rfl, rfl, hreserved, ?_⟩ .nil
    dsimp only
    rw [length_wireFrame, lengthBytes]
    omega
  · simp [haccepted, hinbox]
  · intro other hmem
    exact h.reserved other (by rw [hinbox]; exact List.mem_cons_of_mem _ hmem)
  · rw [← hbytes]
    simp [unsent, hinbox]

/-- A write that ends inside the frame in front. -/
theorem Exact.writePartial (h : link.Exact carried) {frame : WriteFrame} {later : List WriteFrame}
    (hwrites : link.writes = frame :: later) {written : Nat}
    (hshort : frame.offset + written < frame.bytes.length) :
    Exact carried { link with
      writes := { frame with offset := frame.offset + written } :: later
      wire := link.wire ++ (frame.bytes.drop frame.offset).take written } := by
  obtain ⟨done, busy, hcompleted, hbusy, haccepted⟩ := h.sender
  obtain ⟨rest, hdelivered, hbytes⟩ := h.receiver
  rw [hwrites] at hbusy
  cases hbusy with
  | @cons entry _ busy _ hfirst hlater =>
    refine ⟨h.carried, ⟨done, entry :: busy, hcompleted, ?_, haccepted⟩, h.reserved,
      ⟨rest, hdelivered, ?_⟩⟩
    · exact .cons ⟨hfirst.ticket, hfirst.bytes, hfirst.reserved, hshort⟩ hlater
    · rw [← hbytes]
      have hsplit : (frame.bytes.drop frame.offset).take written ++
          frame.bytes.drop (frame.offset + written) = frame.bytes.drop frame.offset := by
        rw [← List.drop_drop, List.take_append_drop]
      simp only [unsent, hwrites, List.flatMap_cons, List.append_assoc]
      rw [← List.append_assoc (List.take _ _), hsplit]

/-- A write that takes the last byte of the frame in front. -/
theorem Exact.writeLast (h : link.Exact carried) {frame : WriteFrame} {later : List WriteFrame}
    (hwrites : link.writes = frame :: later) :
    Exact carried { link with
      writes := later
      wire := link.wire ++ frame.bytes.drop frame.offset
      completed := link.completed ++ [frame.ticket] } := by
  obtain ⟨done, busy, hcompleted, hbusy, haccepted⟩ := h.sender
  obtain ⟨rest, hdelivered, hbytes⟩ := h.receiver
  rw [hwrites] at hbusy
  cases hbusy with
  | @cons entry _ busy _ hfirst hlater =>
    refine ⟨h.carried, ⟨done ++ [entry], busy, ?_, hlater, ?_⟩, h.reserved, ⟨rest, hdelivered, ?_⟩⟩
    · simp [hcompleted, hfirst.ticket]
    · simp [haccepted]
    · rw [← hbytes]
      simp [unsent, hwrites]

/-- The receiver took `arrived` off the wire and handed out the parcels it completes. -/
theorem Exact.read (h : link.Exact carried) {arrived beyond left : List UInt8}
    {found : List Parcel} (hwire : link.wire = arrived ++ beyond)
    (hread : link.read ++ arrived = found.flatMap wireFrame ++ left)
    (hfound : ∃ more, link.accepted.map Prod.snd = link.delivered ++ (found ++ more)) :
    Exact carried { link with
      wire := beyond, read := left, delivered := link.delivered ++ found } := by
  obtain ⟨rest, hdelivered, hbytes⟩ := h.receiver
  obtain ⟨more, hmore⟩ := hfound
  refine ⟨h.carried, h.sender, h.reserved, ⟨more, by rw [hmore, List.append_assoc], ?_⟩⟩
  have hrest : rest = found ++ more := List.append_cancel_left (hdelivered.symm.trans hmore)
  rw [hwire, List.append_assoc, ← List.append_assoc, hread, hrest, List.flatMap_append,
    List.append_assoc] at hbytes
  exact List.append_cancel_left hbytes

/-- Once no byte is left anywhere, every accepted parcel was handed out. -/
theorem Exact.drained (h : link.Exact carried) (hread : link.read = []) (hwire : link.wire = [])
    (hunsent : link.unsent = []) : link.delivered = link.accepted.map Prod.snd := by
  obtain ⟨rest, hdelivered, hbytes⟩ := h.receiver
  rw [hread, hwire, hunsent] at hbytes
  cases rest with
  | nil => rw [hdelivered, List.append_nil]
  | cons parcel more =>
    have hlength := congrArg List.length hbytes
    simp only [List.append_nil, List.length_nil, List.flatMap_cons, List.length_append,
      length_wireFrame, lengthBytes] at hlength
    omega

end Link

/-! ## The members and the bytes between them -/

/-- A table kept for each direction of each stream: from, to, channel. -/
abbrev PerLink (α : Type) := Nat → Nat → Channel → α

/-- A table with one entry replaced. -/
def PerLink.set {α : Type} (table : PerLink α) (source destination : Nat) (channel : Channel)
    (value : α) : PerLink α :=
  fun i j c => if i = source ∧ j = destination ∧ c = channel then value else table i j c

@[simp] theorem PerLink.set_same {α : Type} (table : PerLink α) (i j : Nat) (channel : Channel)
    (value : α) : table.set i j channel value i j channel = value :=
  if_pos ⟨rfl, rfl, rfl⟩

theorem PerLink.set_of_ne {α : Type} {table : PerLink α} {source destination i j : Nat}
    {channel c : Channel} {value : α}
    (h : ¬(i = source ∧ j = destination ∧ c = channel)) :
    table.set source destination channel value i j c = table i j c :=
  if_neg h

/-- The members, the bytes written and not yet read, and the history of each direction. -/
structure Net where
  drivers : Nat → TcpDriver
  wire : PerLink (List UInt8)
  accepted : PerLink (List (SendTicket × Parcel))
  completed : PerLink (List SendTicket)
  delivered : PerLink (List Parcel)

namespace Net

/-- A net of members that have just connected. -/
def start (drivers : Nat → TcpDriver) : Net where
  drivers := drivers
  wire := fun _ _ _ => []
  accepted := fun _ _ _ => []
  completed := fun _ _ _ => []
  delivered := fun _ _ _ => []

/-- One direction of one stream. -/
def link (net : Net) (i j : Nat) (channel : Channel) : Link where
  inbox := (net.drivers i).receivers j channel
  writes := ((net.drivers i).peers j channel).writes
  wire := net.wire i j channel
  read := ((net.drivers j).peers i channel).read
  accepted := net.accepted i j channel
  completed := net.completed i j channel
  delivered := net.delivered i j channel

/-- The steps: a send, and the three services `drive` makes of the stream between
    `member` and `peer`. A write takes `written` bytes, a read finds `chunks` before the
    socket would block. -/
inductive Action where
  | send (member : Nat) (parcel : Parcel)
  | take (member peer : Nat) (channel : Channel) (budget : Nat)
  | write (member peer : Nat) (channel : Channel) (written : Nat)
  | read (member peer : Nat) (channel : Channel) (budget : Nat) (chunks : List (List UInt8))

/-- `progress` and `flush` fail the driver when a service did. -/
def settle (driver : TcpDriver) : Except TransportError Bool → TcpDriver
  | .ok _ => driver
  | .error error => driver.fail error

/-- A driver that has not failed services the streams to the other members. -/
def Serves (net : Net) (count member peer : Nat) : Prop :=
  member < count ∧ peer < count ∧ member ≠ peer ∧ (net.drivers member).failed = none

instance (net : Net) (count member peer : Nat) : Decidable (net.Serves count member peer) :=
  inferInstanceAs (Decidable (_ ∧ _ ∧ _ ∧ _))

/-- One step among `count` members. -/
def step (count : Nat) (net : Net) : Action → Option Net
  | .send member parcel =>
    if member < count then
      let peer := parcel.destination.get.toNat
      match (net.drivers member).trySend parcel with
      | (driver, .error _) => some { net with drivers := Function.update net.drivers member driver }
      | (driver, .ok ticket) =>
        some { net with
          drivers := Function.update net.drivers member driver
          accepted := net.accepted.set member peer parcel.channel
            (net.accepted member peer parcel.channel ++ [(ticket, parcel)]) }
    else none
  | .take member peer channel budget =>
    if net.Serves count member peer then
      let driver := ((net.drivers member).takeSubmission peer channel budget).1
      some { net with drivers := Function.update net.drivers member driver }
    else none
  | .write member peer channel written =>
    match ((net.drivers member).peers peer channel).writes with
    | [] => none
    | frame :: _ =>
      if net.Serves count member peer ∧ 0 < written ∧
          frame.offset + written ≤ frame.bytes.length then
        match (net.drivers member).writeStream peer channel (.wrote written) with
        | (driver, events, result) =>
          some { net with
            drivers := Function.update net.drivers member (settle driver result)
            wire := net.wire.set member peer channel
              (net.wire member peer channel ++ (frame.bytes.drop frame.offset).take written)
            completed := net.completed.set member peer channel
              (net.completed member peer channel ++ completedTickets events) }
      else none
  | .read member peer channel budget chunks =>
    if net.Serves count member peer ∧ (∀ chunk ∈ chunks, chunk ≠ []) ∧
        chunks.flatten <+: net.wire peer member channel then
      match (net.drivers member).readStream peer channel budget (chunks.map .data) with
      | (driver, events, result) =>
        some { net with
          drivers := Function.update net.drivers member (settle driver result)
          wire := net.wire.set peer member channel
            ((net.wire peer member channel).drop chunks.flatten.length)
          delivered := net.delivered.set peer member channel
            (net.delivered peer member channel ++ incomingParcels events) }
    else none

/-- The bytes a read finds fit the buffer together with those already in it. -/
def Roomy (limits : ProtocolLimits) (net : Net) : Action → Prop
  | .read member peer channel _ chunks =>
    ((net.drivers member).peers peer channel).read.length + chunks.flatten.length ≤
      limits.maxFrameBytes + lengthBytes
  | _ => True

instance (limits : ProtocolLimits) (net : Net) : ∀ action, Decidable (net.Roomy limits action)
  | .send _ _ => .isTrue trivial
  | .take _ _ _ _ => .isTrue trivial
  | .write _ _ _ _ => .isTrue trivial
  | .read _ _ _ _ _ => inferInstanceAs (Decidable (_ ≤ _))

/-! ### Other links -/

/-- The histories and the wire of every direction but one are the same. -/
structure OnlyLink (before after : Net) (i j : Nat) (channel : Channel) : Prop where
  wire : ∀ a b c, ¬(a = i ∧ b = j ∧ c = channel) → after.wire a b c = before.wire a b c
  accepted : ∀ a b c, ¬(a = i ∧ b = j ∧ c = channel) → after.accepted a b c = before.accepted a b c
  completed : ∀ a b c, ¬(a = i ∧ b = j ∧ c = channel) →
    after.completed a b c = before.completed a b c
  delivered : ∀ a b c, ¬(a = i ∧ b = j ∧ c = channel) →
    after.delivered a b c = before.delivered a b c

variable {net next : Net} {i j : Nat} {channel : Channel}

/-- A step of the sending side of one direction leaves every other direction alone. -/
theorem OnlyLink.sending (h : OnlyLink net next i j channel)
    (hothers : ∀ k, k ≠ i → next.drivers k = net.drivers k)
    (hstream : TcpDriver.OnlyStream (net.drivers i) (next.drivers i) j channel)
    (hread : ((next.drivers i).peers j channel).read = ((net.drivers i).peers j channel).read)
    {a b : Nat} {c : Channel} (hne : ¬(a = i ∧ b = j ∧ c = channel)) :
    next.link a b c = net.link a b c := by
  have hreceivers : (next.drivers a).receivers b c = (net.drivers a).receivers b c := by
    by_cases ha : a = i
    · subst ha
      exact hstream.receivers b c fun hbc => hne ⟨rfl, hbc⟩
    · rw [hothers a ha]
  have hpeers : (next.drivers a).peers b c = (net.drivers a).peers b c := by
    by_cases ha : a = i
    · subst ha
      exact hstream.peers b c fun hbc => hne ⟨rfl, hbc⟩
    · rw [hothers a ha]
  have hback : ((next.drivers b).peers a c).read = ((net.drivers b).peers a c).read := by
    by_cases hb : b = i
    · subst hb
      by_cases hac : a = j ∧ c = channel
      · rw [hac.1, hac.2, hread]
      · rw [hstream.peers a c hac]
    · rw [hothers b hb]
  simp only [link, hreceivers, hpeers, hback, h.wire a b c hne, h.accepted a b c hne,
    h.completed a b c hne, h.delivered a b c hne]

/-- A step of the receiving side of one direction leaves every other direction alone. -/
theorem OnlyLink.receiving (h : OnlyLink net next j i channel)
    (hothers : ∀ k, k ≠ i → next.drivers k = net.drivers k)
    (hstream : TcpDriver.OnlyStream (net.drivers i) (next.drivers i) j channel)
    (hwrites : ((next.drivers i).peers j channel).writes = ((net.drivers i).peers j channel).writes)
    (hinbox : (next.drivers i).receivers j channel = (net.drivers i).receivers j channel)
    {a b : Nat} {c : Channel} (hne : ¬(a = j ∧ b = i ∧ c = channel)) :
    next.link a b c = net.link a b c := by
  have hreceivers : (next.drivers a).receivers b c = (net.drivers a).receivers b c := by
    by_cases ha : a = i
    · subst ha
      by_cases hbc : b = j ∧ c = channel
      · rw [hbc.1, hbc.2, hinbox]
      · exact hstream.receivers b c hbc
    · rw [hothers a ha]
  have hpeers : ((next.drivers a).peers b c).writes = ((net.drivers a).peers b c).writes := by
    by_cases ha : a = i
    · subst ha
      by_cases hbc : b = j ∧ c = channel
      · rw [hbc.1, hbc.2, hwrites]
      · rw [hstream.peers b c hbc]
    · rw [hothers a ha]
  have hback : ((next.drivers b).peers a c).read = ((net.drivers b).peers a c).read := by
    by_cases hb : b = i
    · subst hb
      rw [hstream.peers a c fun hac => hne ⟨hac.1, rfl, hac.2⟩]
    · rw [hothers b hb]
  simp only [link, hreceivers, hpeers, hback, h.wire a b c hne, h.accepted a b c hne,
    h.completed a b c hne, h.delivered a b c hne]

end Net

end Hataori.Transport
