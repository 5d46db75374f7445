import Hataori.Transport.Drive

/-!
# Connecting

`TcpTransport::connect`: every member dials the members before it and accepts those
after it, one stream a channel. On each stream the two hellos are exchanged and
checked, and the limits of the connection negotiated.
-/

namespace Hataori.Transport

open Hataori.Runtime Lib.Bytes

/-- `SocketAddr`. -/
structure SocketAddr where
  ip : List UInt8
  port : UInt16
  deriving DecidableEq, Repr

/-- `TcpConfig`; when its two timeouts expire is the environment's choice. -/
structure TcpConfig where
  localId : LocalityId
  endpoints : List SocketAddr
  hello : Hello
  deriving DecidableEq

/-- What the sockets answer while a transport connects: whether the listener could be
    bound, the bytes each dialled peer answered on each channel, and the bytes that
    arrived on each accepted stream. -/
structure Bootstrap where
  bound : Except TransportError Unit
  dialled : PerChannel (Except TransportError (List UInt8))
  accepted : List (Except TransportError (List UInt8))

/-- The bytes `write_bootstrap` writes. -/
def bootstrapBytes (localId : LocalityId) (channel : Channel) (encoded : List UInt8) : List UInt8 :=
  toLe 8 localId.get.toNat ++ toLe 1 channel.code ++ toLe 4 encoded.length ++ encoded

/-- `write_bootstrap`. -/
def writeBootstrap (localId : LocalityId) (channel : Channel) (hello : Hello) :
    Except TransportError (List UInt8) := do
  let encoded ← fromProtocol (encodeHello hello)
  if 2 ^ 32 ≤ encoded.length then .error (.peer "hello is too large")
  return bootstrapBytes localId channel encoded

/-- `read_bootstrap` from a stream that holds `bytes`; `read_exact` of more is an
    I/O error. -/
def readBootstrap (bytes : List UInt8) : Except TransportError (LocalityId × Channel × Hello) := do
  if bytes.length < 13 then .error (.io "failed to fill whole buffer")
  let peer : LocalityId := ⟨UInt64.ofNat (field bytes 0 8)⟩
  let channel ← fromProtocol (Channel.tryFrom (field bytes 8 1))
  let length := field bytes 9 4
  if 4096 < length then .error (.byteLimit length 4096)
  if bytes.length < 13 + length then .error (.io "failed to fill whole buffer")
  let hello ← fromProtocol (decodeHello (slice bytes 13 length))
  return (peer, channel, hello)

/-- `bootstrap_exchange` as `connect` calls it, with the local side the initiator. -/
def bootstrapExchange (config : TcpConfig) (peer : LocalityId) (channel : Channel)
    (answer : List UInt8) : Except TransportError UInt64 := do
  let _ ← writeBootstrap config.localId channel config.hello
  let (actualPeer, actualChannel, peerHello) ← readBootstrap answer
  if actualPeer ≠ peer ∨ actualChannel ≠ channel then
    .error (.peer "TCP handshake identity mismatch")
  let negotiated ← fromProtocol (config.hello.validatePeer peerHello)
  return negotiated.capabilities

/-- `bootstrap_exchange_accept`. -/
def bootstrapExchangeAccept (config : TcpConfig) (bytes : List UInt8) :
    Except TransportError (LocalityId × Channel × UInt64) := do
  let (peer, channel, peerHello) ← readBootstrap bytes
  let negotiated ← fromProtocol (config.hello.validatePeer peerHello)
  let _ ← writeBootstrap config.localId channel config.hello
  return (peer, channel, negotiated.capabilities)

/-- The loops of `connect` over the peers it dials, with the capabilities agreed so
    far. -/
def dialPeers (config : TcpConfig) (bootstrap : Bootstrap) :
    List (Nat × Channel) → UInt64 → Except TransportError UInt64
  | [], capabilities => .ok capabilities
  | (peer, channel) :: rest, capabilities => do
    let answer ← bootstrap.dialled peer channel
    let agreed ← bootstrapExchange config ⟨UInt64.ofNat peer⟩ channel answer
    dialPeers config bootstrap rest (capabilities &&& agreed)

/-- The accept loop of `connect`, with the streams established so far. -/
def acceptPeers (config : TcpConfig) (localIndex : Nat) :
    Nat → List (Except TransportError (List UInt8)) → List (Nat × Channel) → UInt64 →
      Except TransportError (List (Nat × Channel) × UInt64)
  | 0, _, established, capabilities => .ok (established, capabilities)
  | _ + 1, [], _, _ => .error (.timeout "TCP bootstrap accept")
  | expected + 1, stream :: later, established, capabilities => do
    let bytes ← stream
    let (peer, channel, agreed) ← bootstrapExchangeAccept config bytes
    let peerIndex ← memberIndex peer config.endpoints.length
    if peerIndex ≤ localIndex ∨ (peerIndex, channel) ∈ established then
      .error (.peer "unexpected or duplicate TCP bootstrap peer")
    acceptPeers config localIndex expected later ((peerIndex, channel) :: established)
      (capabilities &&& agreed)

/-- The peers below `localIndex`, in the order `connect` dials them. -/
def dialOrder (localIndex : Nat) : List (Nat × Channel) :=
  (List.range localIndex).flatMap fun peer => channels.map fun channel => (peer, channel)

/-- The handle and the driver `connect` builds. -/
def TcpDriver.fresh (config : TcpConfig) (capabilities : UInt64) : TcpDriver where
  localId := config.localId
  runId := config.hello.runId
  members := config.endpoints.length
  capabilities := capabilities
  limits := config.hello.limits
  receivers := fun _ _ => []
  peers := fun _ _ => ⟨[], []⟩
  pendingEvents := []
  shared := SubmissionState.new config.hello.limits
  failed := none
  shutdown := false

/-- `TcpTransport::connect`. -/
def connect (config : TcpConfig) (bootstrap : Bootstrap) : Except TransportError TcpDriver := do
  let _ ← fromProtocol config.hello.limits.validate
  let members := config.endpoints.length
  let localIndex ← memberIndex config.localId members
  if members = 0 then .error (.peer "TCP membership is empty")
  if ¬config.endpoints.Nodup then .error (.peer "TCP endpoints must be unique")
  bootstrap.bound
  let dialled := dialOrder localIndex
  let capabilities ← dialPeers config bootstrap dialled config.hello.capabilities
  let (established, capabilities) ←
    acceptPeers config localIndex ((members - localIndex - 1) * 3) bootstrap.accepted dialled
      capabilities
  if ∃ peer ∈ List.range members, peer ≠ localIndex ∧
      ∃ channel ∈ channels, (peer, channel) ∉ established then
    .error (.peer "TCP bootstrap did not establish every channel")
  return TcpDriver.fresh config capabilities

/-! ## What a connection agreed on -/

theorem fromProtocol_ok {α : Type} {found : Except ProtocolError α} {value : α}
    (h : fromProtocol found = .ok value) : found = .ok value := by
  cases found with
  | error error => cases h
  | ok found =>
    cases h
    rfl

theorem writeBootstrap_ok {localId : LocalityId} {channel : Channel} {hello : Hello}
    {bytes : List UInt8} (h : writeBootstrap localId channel hello = .ok bytes) :
    bytes = bootstrapBytes localId channel (helloBytes hello) ∧ hello.limits.Sendable := by
  obtain ⟨encoded, hencoded, h⟩ := bind_ok h
  obtain ⟨rfl, hsendable⟩ := encodeHello_ok (fromProtocol_ok hencoded)
  rw [if_neg (by rw [length_helloBytes]; decide)] at h
  cases h
  exact ⟨rfl, hsendable⟩

/-- What a peer wrote is read back. -/
theorem readBootstrap_bootstrapBytes (localId : LocalityId) (channel : Channel) {hello : Hello}
    (h : hello.limits.Sendable) :
    readBootstrap (bootstrapBytes localId channel (helloBytes hello)) =
      .ok (localId, channel, hello) := by
  have hsize : (bootstrapBytes localId channel (helloBytes hello)).length = 13 + helloByteCount := by
    simp [bootstrapBytes, length_helloBytes, helloByteCount]
  have hid : field (bootstrapBytes localId channel (helloBytes hello)) 0 8 =
      localId.get.toNat := by
    rw [field, bootstrapBytes, List.append_assoc, List.append_assoc, slice_front (length_toLe _ _),
      ofLe_toLe localId.get.toNat_lt]
  have hchannel : field (bootstrapBytes localId channel (helloBytes hello)) 8 1 =
      channel.code := by
    rw [field, bootstrapBytes, List.append_assoc, List.append_assoc,
      slice_skip (length_toLe _ _) (Nat.le_refl _), Nat.sub_self, slice_front (length_toLe _ _),
      ofLe_toLe (by cases channel <;> decide)]
  have hlength : field (bootstrapBytes localId channel (helloBytes hello)) 9 4 =
      helloByteCount := by
    rw [field, bootstrapBytes, List.append_assoc,
      slice_skip (show (_ ++ _ : List UInt8).length = 9 by simp) (Nat.le_refl _), Nat.sub_self,
      slice_front (length_toLe _ _), length_helloBytes, ofLe_toLe (by decide)]
  have hhello : slice (bootstrapBytes localId channel (helloBytes hello)) 13 helloByteCount =
      helloBytes hello := by
    rw [bootstrapBytes, slice_skip (show (_ ++ _ : List UInt8).length = 13 by simp) (Nat.le_refl _),
      Nat.sub_self, slice_whole (length_helloBytes hello)]
  unfold readBootstrap
  simp only [hsize, hid, hchannel, hlength, hhello, Channel.tryFrom_code, fromProtocol,
    decodeHello_helloBytes h, bind, Except.bind, pure, Except.pure, UInt64.ofNat_toNat]
  rw [if_neg (by decide), if_neg (by decide), if_neg (by decide)]

/-- A member that dialled its peers exchanged hellos with each of them. -/
theorem dialPeers_ok {config : TcpConfig} {bootstrap : Bootstrap} {pairs : List (Nat × Channel)}
    {before after : UInt64} (h : dialPeers config bootstrap pairs before = .ok after) :
    ∀ pair ∈ pairs, ∃ answer agreed, bootstrap.dialled pair.1 pair.2 = .ok answer ∧
      bootstrapExchange config ⟨UInt64.ofNat pair.1⟩ pair.2 answer = .ok agreed := by
  induction pairs generalizing before with
  | nil => simp
  | cons pair rest ih =>
    obtain ⟨answer, hanswer, h⟩ := bind_ok h
    obtain ⟨agreed, hagreed, h⟩ := bind_ok h
    intro other hmem
    rcases List.mem_cons.mp hmem with rfl | hrest
    · exact ⟨answer, agreed, hanswer, hagreed⟩
    · exact ih h other hrest

theorem bootstrapExchange_ok {config : TcpConfig} {peer : LocalityId} {channel : Channel}
    {answer : List UInt8} {agreed : UInt64}
    (h : bootstrapExchange config peer channel answer = .ok agreed) :
    config.hello.limits.Sendable ∧ ∃ hello negotiated,
      readBootstrap answer = .ok (peer, channel, hello) ∧
      config.hello.validatePeer hello = .ok negotiated := by
  obtain ⟨written, hwritten, h⟩ := bind_ok h
  obtain ⟨⟨actualPeer, actualChannel, hello⟩, hread, h⟩ := bind_ok h
  dsimp only at h
  by_cases hsame : actualPeer ≠ peer ∨ actualChannel ≠ channel
  · rw [if_pos hsame] at h
    cases h
  rw [if_neg hsame] at h
  obtain ⟨negotiated, hnegotiated, -⟩ := bind_ok h
  simp only [ne_eq, not_or, not_not] at hsame
  obtain ⟨rfl, rfl⟩ := hsame
  exact ⟨(writeBootstrap_ok hwritten).2, hello, negotiated, hread, fromProtocol_ok hnegotiated⟩

/-- What a successful `connect` returned, and the exchanges it made on the way. -/
theorem connect_ok {config : TcpConfig} {bootstrap : Bootstrap} {driver : TcpDriver}
    (h : connect config bootstrap = .ok driver) :
    (∃ capabilities, driver = TcpDriver.fresh config capabilities) ∧
      ∀ peer < config.localId.get.toNat, ∀ channel,
        ∃ answer agreed, bootstrap.dialled peer channel = .ok answer ∧
          bootstrapExchange config ⟨UInt64.ofNat peer⟩ channel answer = .ok agreed := by
  obtain ⟨limits, -, h⟩ := bind_ok h
  obtain ⟨index, hindex, h⟩ := bind_ok h
  obtain ⟨rfl, -⟩ := memberIndex_ok hindex
  dsimp only at h
  by_cases hempty : config.endpoints.length = 0
  · rw [if_pos hempty] at h
    cases h
  rw [if_neg hempty] at h
  by_cases hnodup : config.endpoints.Nodup
  · rw [if_neg (not_not.mpr hnodup)] at h
    obtain ⟨_, -, h⟩ := bind_ok h
    obtain ⟨agreed, hdial, h⟩ := bind_ok h
    obtain ⟨⟨established, capabilities⟩, -, h⟩ := bind_ok h
    dsimp only at h
    split at h
    · cases h
    cases h
    refine ⟨⟨capabilities, rfl⟩, ?_⟩
    intro peer hpeer channel
    apply dialPeers_ok hdial (peer, channel)
    apply List.mem_flatMap.mpr
    refine ⟨peer, List.mem_range.mpr hpeer, List.mem_map.mpr ⟨channel, ?_, rfl⟩⟩
    cases channel <;> decide
  · rw [if_pos hnodup] at h
    cases h

theorem validatePeer_ok {hello peer : Hello} {negotiated : NegotiatedHello}
    (h : hello.validatePeer peer = .ok negotiated) :
    hello.runId = peer.runId ∧ negotiated.limits = hello.limits.least peer.limits ∧
      (hello.limits.least peer.limits).validate = .ok (hello.limits.least peer.limits) := by
  unfold Hello.validatePeer at h
  split at h
  · cases h
  rename_i hrun
  split at h
  · cases h
  split at h
  · cases h
  split at h
  · cases h
  split at h
  · cases h
  rename_i limits hlimits
  cases h
  obtain ⟨_, -, hlimits⟩ := bind_ok hlimits
  obtain ⟨_, -, hlimits⟩ := bind_ok hlimits
  have hsame := ProtocolLimits.validate_ok hlimits
  subst hsame
  exact ⟨not_not.mp hrun, rfl, hlimits⟩

theorem ProtocolLimits.least_comm (limits peer : ProtocolLimits) :
    limits.least peer = peer.least limits := by
  simp only [ProtocolLimits.least, Nat.min_comm]

/-- A parcel fits the component-wise minimum if and only if it fits both sides. -/
theorem Parcel.fits_least_iff {parcel : Parcel} {limits peer : ProtocolLimits}
    (hlimits : limits.validate = .ok limits) (hpeer : peer.validate = .ok peer)
    (hleast : (limits.least peer).validate = .ok (limits.least peer)) :
    parcel.Fits (limits.least peer) ↔ parcel.Fits limits ∧ parcel.Fits peer := by
  constructor
  · intro h
    have hsegments := h.segments
    have hpayload := h.payload
    have hframe := h.frame
    simp only [ProtocolLimits.least, le_min_iff] at hsegments hpayload hframe
    exact ⟨⟨hlimits, hsegments.1, hpayload.1, hframe.1, h.bound⟩,
      ⟨hpeer, hsegments.2, hpayload.2, hframe.2, h.bound⟩⟩
  · rintro ⟨hmine, htheirs⟩
    exact ⟨hleast, le_min hmine.segments htheirs.segments, le_min hmine.payload htheirs.payload,
      le_min hmine.frame htheirs.frame, hmine.bound⟩

/-! ## A connected membership -/

theorem localityId_ext {first second : LocalityId} (h : first.get.toNat = second.get.toNat) :
    first = second := by
  obtain ⟨first⟩ := first
  obtain ⟨second⟩ := second
  exact congrArg LocalityId.mk (UInt64.toNat_inj.mp h)

/-- Members that all connected, each reading what the members before it wrote. -/
structure Connected (count : Nat) (configs : Nat → TcpConfig) (bootstraps : Nat → Bootstrap)
    (drivers : Nat → TcpDriver) : Prop where
  index : ∀ i < count, (configs i).localId.get.toNat = i
  members : ∀ i < count, (configs i).endpoints.length = count
  dialled : ∀ i < count, ∀ j < i, ∀ channel, (bootstraps i).dialled j channel =
    writeBootstrap (configs j).localId channel (configs j).hello
  connected : ∀ i < count, connect (configs i) (bootstraps i) = .ok (drivers i)

/-- Two hellos that passed the checks of a connection. -/
structure Compatible (hello peer : Hello) : Prop where
  runId : hello.runId = peer.runId
  mine : hello.limits.Sendable
  theirs : peer.limits.Sendable
  least : (hello.limits.least peer.limits).validate = .ok (hello.limits.least peer.limits)

theorem Compatible.symm {hello peer : Hello} (h : Compatible hello peer) :
    Compatible peer hello :=
  ⟨h.runId.symm, h.theirs, h.mine, by rw [ProtocolLimits.least_comm]; exact h.least⟩

variable {count : Nat} {configs : Nat → TcpConfig} {bootstraps : Nat → Bootstrap}
  {drivers : Nat → TcpDriver}

theorem Connected.dialler (h : Connected count configs bootstraps drivers) {i j : Nat}
    (hi : i < count) (hj : j < i) : Compatible (configs i).hello (configs j).hello := by
  obtain ⟨-, hexchanges⟩ := connect_ok (h.connected i hi)
  rw [h.index i hi] at hexchanges
  obtain ⟨answer, agreed, hanswer, hexchange⟩ := hexchanges j hj .control
  rw [h.dialled i hi j hj] at hanswer
  obtain ⟨rfl, htheirs⟩ := writeBootstrap_ok hanswer
  obtain ⟨hmine, hello, negotiated, hread, hvalid⟩ := bootstrapExchange_ok hexchange
  rw [readBootstrap_bootstrapBytes _ _ htheirs] at hread
  simp only [Except.ok.injEq, Prod.mk.injEq] at hread
  obtain ⟨-, -, rfl⟩ := hread
  obtain ⟨hrun, -, hleast⟩ := validatePeer_ok hvalid
  exact ⟨hrun, hmine, htheirs, hleast⟩

/-- Any two members of a connected membership are compatible. -/
theorem Connected.compatible (h : Connected count configs bootstraps drivers) {i j : Nat}
    (hi : i < count) (hj : j < count) (hne : i ≠ j) :
    Compatible (configs i).hello (configs j).hello := by
  rcases Nat.lt_or_gt_of_ne hne with hlt | hgt
  · exact (h.dialler hj hlt).symm
  · exact h.dialler hi hgt

theorem Connected.fixed (h : Connected count configs bootstraps drivers) {i : Nat} (hi : i < count)
    (ops : List TcpDriver.Op) :
    (ops.foldl TcpDriver.apply (drivers i)).fixed =
      ((configs i).localId, (configs i).hello.runId, count, (configs i).hello.limits) := by
  obtain ⟨⟨capabilities, hfresh⟩, -⟩ := connect_ok (h.connected i hi)
  rw [TcpDriver.fixed_foldl, hfresh, ← h.members i hi]
  rfl

/-- The receiver hands out the parcel that the sender has just queued for it, however the
    bytes of its frame arrive at a stream that stands between two frames. -/
def Accepts (sender receiver : TcpDriver) (parcel : Parcel) : Prop :=
  ∃ submission frame,
    (sender.receivers parcel.destination.get.toNat parcel.channel).getLast? = some submission ∧
    submission.parcel = parcel ∧ encodeSubmission submission sender.limits = .ok frame ∧
    ∀ chunks : List (List UInt8), (∀ chunk ∈ chunks, chunk ≠ []) → chunks.flatten = frame.bytes →
      ∀ budget, 0 < budget →
        (serviceRead
          { receiver.peers parcel.source.get.toNat parcel.channel with read := [] }
          (receiver.identity parcel.source.get.toNat) receiver.limits budget
          (chunks.map .data)).2 = ([.incoming parcel], .ok true)

/-- A frame alone on a stream is handed out if and only if it fits the reader's limits
    and those leave room for the length in front of it. -/
theorem serviceRead_frame_iff {stream : StreamIo} {identity : ConnectionIdentity}
    {limits : ProtocolLimits} {parcel : Parcel} (hstream : stream.read = [])
    (hbound : parcel.frame < u64Bound) (hcount : parcel.segments.length < 2 ^ 32)
    (hrun : parcel.runId = identity.runId) (hsource : parcel.source = identity.peer)
    (hdestination : parcel.destination = identity.localId) :
    (∀ chunks : List (List UInt8), (∀ chunk ∈ chunks, chunk ≠ []) →
      chunks.flatten = wireFrame parcel → ∀ budget, 0 < budget →
        (serviceRead stream identity limits budget (chunks.map .data)).2 =
          ([.incoming parcel], .ok true)) ↔
      parcel.Fits limits ∧ limits.maxFrameBytes + lengthBytes < u64Bound := by
  constructor
  · intro h
    have hnonempty : wireFrame parcel ≠ [] := by
      intro hnil
      have hlength := length_wireFrame parcel
      rw [hnil, List.length_nil, lengthBytes] at hlength
      omega
    have hread := h [wireFrame parcel] (by simpa using hnonempty) (by simp) 1 (by decide)
    unfold serviceRead at hread
    split at hread
    · cases hread
    rename_i hlimits
    refine ⟨?_, not_le.mp hlimits⟩
    rw [hstream] at hread
    by_cases hroom : (wireFrame parcel).length ≤ limits.maxFrameBytes + lengthBytes
    · rw [receive_data (by simpa using hnonempty) [] (by simpa using hroom)] at hread
      have hflat : [] ++ [wireFrame parcel].flatten = wireFrame parcel ++ [] := by simp
      rw [hflat] at hread
      dsimp only at hread
      cases hparse : parse identity limits 1 (wireFrame parcel ++ []) with
      | mk left rest =>
        obtain ⟨events, result⟩ := rest
        cases result with
        | error error =>
          rw [hparse] at hread
          cases hread
        | ok done => exact fits_of_parse hbound hcount hparse
    · obtain ⟨left, actual, hfail⟩ := @receive_overflow (limits.maxFrameBytes + lengthBytes)
        identity.peer [wireFrame parcel] (by simpa using hnonempty) []
        (by simpa using not_le.mp hroom) (Nat.zero_le _)
      rw [hfail] at hread
      cases hread
  · rintro ⟨hfits, hlimits⟩ chunks hchunks hflat budget hbudget
    have hcarried : ∀ p ∈ [parcel], Carried identity limits p := by
      intro p hp
      rw [List.mem_singleton.mp hp]
      exact ⟨hfits, hcount, hrun, hsource, hdestination⟩
    have hframe := hfits.frame
    have hroom : stream.read.length + chunks.flatten.length ≤
        limits.maxFrameBytes + lengthBytes := by
      rw [hstream, hflat, length_wireFrame, List.length_nil]
      omega
    obtain ⟨found, rest, left, hparcels, hread, hserve, hleft, -, hshort⟩ :=
      serviceRead_stream hlimits hcarried hchunks hroom budget
        (show stream.read ++ chunks.flatten ++ [] = [parcel].flatMap wireFrame by
          rw [hstream, hflat]; simp)
    have hsome : chunks ≠ [] := by
      rintro rfl
      have hlength := congrArg List.length hflat
      rw [length_wireFrame, lengthBytes, List.flatten_nil, List.length_nil] at hlength
      omega
    rw [hserve]
    cases found with
    | nil =>
      have hall : left = wireFrame parcel := by
        rw [hstream, hflat] at hread
        simpa using hread.symm
      have hhead := hshort hbudget parcel (by rw [← show [parcel] = rest from hparcels]; rfl)
      rw [hall] at hhead
      omega
    | cons first more =>
      obtain ⟨rfl, hmore⟩ := List.cons.inj hparcels
      obtain ⟨rfl, -⟩ := List.append_eq_nil_iff.mp hmore.symm
      simp [hsome]

/-- Once the members are connected, a parcel that `try_send` accepted, in whatever state
    the sender was, is accepted by its destination if and only if it passes
    `Parcel::validate` under the component-wise minimum of the two sides' limits and the
    receiver's frame limit leaves room for the length prefix. -/
theorem accepts_iff_fits_negotiated (h : Connected count configs bootstraps drivers)
    (sends receives : List TcpDriver.Op) {i : Nat} (hi : i < count) {parcel : Parcel}
    {ticket : SendTicket} {sender : TcpDriver}
    (hsend : (sends.foldl TcpDriver.apply (drivers i)).trySend parcel = (sender, .ok ticket))
    {j : Nat} (hj : parcel.destination.get.toNat = j) :
    Accepts sender (receives.foldl TcpDriver.apply (drivers j)) parcel ↔
      parcel.validate ((configs i).hello.limits.least (configs j).hello.limits) = .ok () ∧
        (configs j).hello.limits.maxFrameBytes + lengthBytes < u64Bound := by
  obtain ⟨hsent, shared, -, hafter⟩ := TcpDriver.trySend_ok hsend
  have hsender := h.fixed hi sends
  simp only [TcpDriver.fixed, Prod.mk.injEq] at hsender
  obtain ⟨hlocal, hrun, hmembers, hlimits⟩ := hsender
  have hjlt : j < count := by
    have hmember := hsent.member
    rw [hmembers, hj] at hmember
    exact hmember
  have hfrom : parcel.source.get.toNat = i := by rw [hsent.source, hlocal, h.index i hi]
  have hne : i ≠ j := by
    rintro rfl
    apply hsent.remote
    rw [← hsent.source]
    exact localityId_ext (hj.trans hfrom.symm)
  have hreceiver := h.fixed hjlt receives
  simp only [TcpDriver.fixed, Prod.mk.injEq] at hreceiver
  obtain ⟨hlocal', hrun', -, hlimits'⟩ := hreceiver
  have hcompatible := h.compatible hi hjlt hne
  have hfits : parcel.Fits (configs i).hello.limits := hlimits ▸ hsent.fits
  have hcount : parcel.segments.length < 2 ^ 32 :=
    lt_of_le_of_lt hfits.segments hcompatible.mine.segments
  rw [Parcel.validate_iff, Parcel.fits_least_iff hcompatible.mine.valid hcompatible.theirs.valid
    hcompatible.least]
  generalize hstate : receives.foldl TcpDriver.apply (drivers j) = receiver at *
  have hread := @serviceRead_frame_iff
    { receiver.peers parcel.source.get.toNat parcel.channel with read := [] }
    (receiver.identity parcel.source.get.toNat) receiver.limits parcel rfl
    hfits.bound hcount
    (by rw [hsent.runId, hrun, hcompatible.runId, ← hrun']; rfl)
    (by simp [TcpDriver.identity])
    (localityId_ext (by rw [hj, ← h.index j hjlt, ← hlocal']; rfl))
  rw [hlimits'] at hread
  have hqueue : (sender.receivers parcel.destination.get.toNat parcel.channel).getLast? =
      some ⟨ticket, parcel, parcel.frame + lengthBytes⟩ := by
    rw [hafter]
    simp
  have hencode : encodeSubmission ⟨ticket, parcel, parcel.frame + lengthBytes⟩ sender.limits =
      .ok ⟨wireFrame parcel, 0, ticket, parcel.frame + lengthBytes⟩ := by
    apply encodeSubmission_of_fits _ hcount
    rw [hafter]
    exact hsent.fits
  constructor
  · rintro ⟨submission, frame, hlast, -, hframe, hall⟩
    rw [hqueue] at hlast
    cases hlast
    rw [hencode] at hframe
    cases hframe
    rw [hlimits'] at hall
    obtain ⟨htheirs, hroom⟩ := hread.mp hall
    exact ⟨⟨hfits, htheirs⟩, hroom⟩
  · rintro ⟨⟨-, htheirs⟩, hroom⟩
    refine ⟨_, _, hqueue, rfl, hencode, ?_⟩
    rw [hlimits']
    exact hread.mpr ⟨htheirs, hroom⟩

/-- Two members whose hellos agree in everything but the payload they allow: one byte for
    member 0, eight for member 1. -/
def sampleConfig (i : Nat) : TcpConfig where
  localId := ⟨UInt64.ofNat i⟩
  endpoints := [⟨[127, 0, 0, 1], 4000⟩, ⟨[127, 0, 0, 1], 4001⟩]
  hello :=
    { runId := ⟨1, u128_one⟩
      runtimeVersion := ⟨0, 1, 0⟩
      actionRegistryHash := Vector.replicate 32 7
      objectRegistryHash := Vector.replicate 32 9
      capabilities := 0
      limits := ⟨200, if i = 0 then 1 else 8, 4, 2, 400, 100⟩ }

/-- What the two read while they connect. -/
def sampleBootstrap : Bootstrap where
  bound := .ok ()
  dialled := fun peer channel =>
    writeBootstrap (sampleConfig peer).localId channel (sampleConfig peer).hello
  accepted := channels.map fun channel =>
    writeBootstrap (sampleConfig 1).localId channel (sampleConfig 1).hello

/-- The drivers `connect` returns to them. -/
def sampleDriver (i : Nat) : TcpDriver := TcpDriver.fresh (sampleConfig i) 0

set_option maxRecDepth 10000 in
theorem sample_connected :
    Connected 2 sampleConfig (fun _ => sampleBootstrap) sampleDriver where
  index
    | 0, _ => rfl
    | 1, _ => rfl
  members _ _ := rfl
  dialled _ _ _ _ _ := rfl
  connected
    | 0, _ => rfl
    | 1, _ => rfl

/-- A parcel from member 1 to member 0. -/
def sampleParcel (segment : List UInt8) : Parcel where
  runId := ⟨1, u128_one⟩
  messageId := ⟨1, u128_one⟩
  channel := .action
  kind := .data
  source := ⟨1⟩
  destination := ⟨0⟩
  traceId := none
  segments := [segment]

/-- One byte passes. -/
theorem accepts_one_byte :
    Accepts ((sampleDriver 1).trySend (sampleParcel [5])).1 (sampleDriver 0)
      (sampleParcel [5]) :=
  (accepts_iff_fits_negotiated sample_connected [] [] (by decide)
    (show (sampleDriver 1).trySend (sampleParcel [5]) = (_, .ok ⟨1⟩) from rfl) rfl).mpr
    ⟨rfl, by decide⟩

/-- Member 1 accepts two bytes for member 0, whose reader then fails the stream. -/
theorem accepted_send_refused :
    Connected 2 sampleConfig (fun _ => sampleBootstrap) sampleDriver ∧
      ((sampleDriver 1).trySend (sampleParcel [5, 6])).2 = .ok ⟨1⟩ ∧
      ¬Accepts ((sampleDriver 1).trySend (sampleParcel [5, 6])).1 (sampleDriver 0)
        (sampleParcel [5, 6]) := by
  refine ⟨sample_connected, rfl, ?_⟩
  rintro ⟨submission, frame, hlast, -, hframe, hall⟩
  have hqueued : submission = ⟨⟨1⟩, sampleParcel [5, 6], 105⟩ := (Option.some.inj hlast).symm
  subst hqueued
  have hbytes : frame = ⟨wireFrame (sampleParcel [5, 6]), 0, ⟨1⟩, 105⟩ :=
    (Except.ok.inj hframe).symm
  subst hbytes
  have hread := hall [wireFrame (sampleParcel [5, 6])] (by decide) (by simp) 1 (by decide)
  exact absurd hread (by decide +kernel)

end Hataori.Transport
