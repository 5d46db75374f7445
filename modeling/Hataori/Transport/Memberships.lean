import Hataori.Transport.Rendezvous

/-!
# What a rendezvous agrees on

Whatever the order in which the localities come, whatever strangers connect and wherever a party
stops, the parties that `TcpRendezvous::join` gave a membership have the same endpoints and each
an index of its own, at which its own endpoint stands.
-/

namespace Hataori.Transport

open Hataori.Runtime Lib.Bytes Lib.Machine Lib.Readers

variable {text : AddressText} {config : RendezvousConfig}
  {configs : Nat → Option RendezvousConfig} {meeting next final : Meeting}
  {happenings : List Happening}

/-- An address that was parsed has a text that parses to it, and so has this one. -/
structure AddressText.Exact (text : AddressText) (own : SocketAddr) : Prop where
  parsed : ∀ written endpoint, text.parse written = .ok endpoint →
    text.parse (text.display endpoint) = .ok endpoint
  own : text.parse (text.display own) = .ok own

/-- The configuration of a party. -/
def partyConfig (config : RendezvousConfig) (configs : Nat → Option RendezvousConfig) :
    Option Nat → Option RendezvousConfig
  | none => some config
  | some client => configs client

/-- The membership of the client that was accepted at this offset. -/
def assignedAt (endpoints : List SocketAddr) (offset : Nat) : TcpMembership :=
  ⟨⟨UInt64.ofNat (offset + 1)⟩, endpoints⟩

/-! ## The invariant -/

/-- What the accept loop has gathered. -/
structure Enrolled (text : AddressText) (config : RendezvousConfig) (endpoints : List SocketAddr)
    (clients : List Nat) : Prop where
  distinct : endpoints.Nodup
  once : clients.Nodup
  first : endpoints.head? = some config.localEndpoint
  length : endpoints.length = clients.length + 1
  limit : endpoints.length ≤ maxLocalities
  texts : ∀ endpoint ∈ endpoints, text.parse (text.display endpoint) = .ok endpoint

/-- The coordinator stands where it has gathered these. -/
def StandsAt (config : RendezvousConfig) (answered : Nat → List UInt8) (phases : Nat → ClientPhase)
    (endpoints : List SocketAddr) (clients : List Nat) : CoordinatorPhase → Prop
  | .accepting these those => these = endpoints ∧ those = clients ∧
      endpoints.length < config.expectedLocalities ∧ config.expectedLocalities ≤ maxLocalities ∧
      (∀ connection, answered connection = []) ∧
      ∀ client found, phases client ≠ .returned (.ok found)
  | .answering these those _ => these = endpoints ∧ those = clients ∧
      endpoints.length = config.expectedLocalities
  | .returned (.ok found) => found = ⟨⟨0⟩, endpoints⟩ ∧
      endpoints.length = config.expectedLocalities
  | .returned (.error _) => True

/-- The bytes of an answer are the front of the membership at the place of its connection. -/
def Told (text : AddressText) (config : RendezvousConfig) (answered : Nat → List UInt8)
    (endpoints : List SocketAddr) (clients : List Nat) : Prop :=
  ∀ connection, answered connection = [] ∨ ∃ offset frame,
    clients[offset]? = some connection ∧
    writeMembership text config.runId (assignedAt endpoints offset) = .ok frame ∧
    answered connection <+: frame

/-- A client that returned a membership returned the one at its place, for its own endpoint. -/
def Assigned (config : RendezvousConfig) (configs : Nat → Option RendezvousConfig)
    (phases : Nat → ClientPhase) (endpoints : List SocketAddr) (clients : List Nat) : Prop :=
  ∀ client found, phases client = .returned (.ok found) → ∃ offset mine,
    clients[offset]? = some client ∧ found = assignedAt endpoints offset ∧
    configs client = some mine ∧ mine.runId = config.runId ∧
    endpoints.length = mine.expectedLocalities ∧
    endpoints[(assignedAt endpoints offset).localId.get.toNat]? = some mine.localEndpoint

/-- What every step keeps. -/
structure Agreeing (text : AddressText) (config : RendezvousConfig)
    (configs : Nat → Option RendezvousConfig) (meeting : Meeting) (endpoints : List SocketAddr)
    (clients : List Nat) : Prop where
  gathered : Enrolled text config endpoints clients
  phase : StandsAt config meeting.answered meeting.clients endpoints clients meeting.coordinator
  told : Told text config meeting.answered endpoints clients
  assigned : Assigned config configs meeting.clients endpoints clients

/-- There are endpoints and clients the coordinator has gathered. -/
def Sound (text : AddressText) (config : RendezvousConfig)
    (configs : Nat → Option RendezvousConfig) (meeting : Meeting) : Prop :=
  ∃ endpoints clients, Agreeing text config configs meeting endpoints clients

/-- The clients may move on, unless one has a membership while the accept loop runs. -/
theorem StandsAt.clientsMove {answered : Nat → List UInt8} {phases others : Nat → ClientPhase}
    {endpoints : List SocketAddr} {clients : List Nat} {phase : CoordinatorPhase}
    (h : StandsAt config answered phases endpoints clients phase)
    (hnone : (∀ connection, answered connection = []) →
      (∀ client found, phases client ≠ .returned (.ok found)) →
        ∀ client found, others client ≠ .returned (.ok found)) :
    StandsAt config answered others endpoints clients phase := by
  cases phase with
  | accepting these those =>
    obtain ⟨hthese, hthose, hlength, hlimit, hsilent, hbefore⟩ := h
    exact ⟨hthese, hthose, hlength, hlimit, hsilent, hnone hsilent hbefore⟩
  | answering these those offset => exact h
  | returned result =>
    cases result with
    | error error => trivial
    | ok found => exact h

namespace Agreeing

variable {endpoints : List SocketAddr} {clients : List Nat}

/-- What only the clients' own states and streams change, is kept. -/
theorem setClient (h : Agreeing text config configs meeting endpoints clients) {client : Nat}
    {phase : ClientPhase} (hopen : ∀ found, phase ≠ .returned (.ok found))
    (hcoordinator : next.coordinator = meeting.coordinator)
    (hanswered : next.answered = meeting.answered)
    (hclients : next.clients = Function.update meeting.clients client phase) :
    Agreeing text config configs next endpoints clients := by
  have hback : ∀ other found, next.clients other = .returned (.ok found) →
      meeting.clients other = .returned (.ok found) := by
    intro other found hother
    rw [hclients] at hother
    by_cases hsame : other = client
    · rw [hsame, Function.update_self] at hother
      exact absurd hother (hopen found)
    · rwa [Function.update_of_ne hsame] at hother
  have hphase := h.phase.clientsMove fun _ hnone other found hother =>
    hnone other found (hback other found hother)
  refine ⟨h.gathered, ?_, hanswered ▸ h.told, fun other found hother =>
    h.assigned other found (hback other found hother)⟩
  rwa [hcoordinator, hanswered]

/-- A coordinator that stops with an error has told nobody anything else. -/
theorem stop (h : Agreeing text config configs meeting endpoints clients)
    (error : TransportError) :
    Agreeing text config configs { meeting with coordinator := .returned (.error error) }
      endpoints clients :=
  ⟨h.gathered, trivial, h.told, h.assigned⟩

end Agreeing

theorem readEndpoint_ok {length : Nat} {bytes rest : List UInt8} {endpoint : SocketAddr}
    (h : readEndpoint text length bytes = .ok (endpoint, rest)) :
    ∃ written, text.parse written = .ok endpoint := by
  unfold readEndpoint at h
  split at h
  · cases h
  obtain ⟨found, behind, -, h⟩ := bind_ok_run h
  unfold given at h
  cases htext : toText found with
  | none =>
    rw [htext] at h
    cases h
  | some written =>
    rw [htext] at h
    cases hparse : text.parse written with
    | error error =>
      simp only [hparse] at h
      cases h
    | ok parsed =>
      simp only [hparse] at h
      cases h
      exact ⟨written, hparse⟩

/-- A join that is admitted brings an endpoint that was parsed, and a new one. -/
theorem admitJoin_ok {endpoints : List SocketAddr} {bytes : List UInt8} {endpoint : SocketAddr}
    (h : admitJoin text config endpoints bytes = .ok endpoint) :
    endpoint ∉ endpoints ∧ ∃ written, text.parse written = .ok endpoint := by
  obtain ⟨⟨⟨runId, found⟩, rest⟩, hjoin, h⟩ := bind_ok h
  dsimp only at h
  split at h
  · cases h
  split at h
  · cases h
  next hnew =>
    cases h
    refine ⟨hnew, ?_⟩
    obtain ⟨header, behind, -, hjoin⟩ := bind_ok_run hjoin
    split at hjoin
    · cases hjoin
    obtain ⟨run, behind, -, hjoin⟩ := bind_ok_run hjoin
    obtain ⟨parsed, behind, hendpoint, hjoin⟩ := bind_ok_run hjoin
    cases hjoin
    exact readEndpoint_ok hendpoint

theorem Enrolled.push {endpoints : List SocketAddr} {clients : List Nat} {endpoint : SocketAddr}
    {connection : Nat} (h : Enrolled text config endpoints clients)
    (hroom : endpoints.length < maxLocalities) (hnew : endpoint ∉ endpoints)
    (hother : connection ∉ clients)
    (htext : text.parse (text.display endpoint) = .ok endpoint) :
    Enrolled text config (endpoints ++ [endpoint]) (clients ++ [connection]) where
  distinct := List.nodup_append.mpr ⟨h.distinct, List.nodup_singleton _, by
    intro a ha b hb hab
    rw [List.mem_singleton.mp hb] at hab
    exact hnew (hab ▸ ha)⟩
  once := List.nodup_append.mpr ⟨h.once, List.nodup_singleton _, by
    intro a ha b hb hab
    rw [List.mem_singleton.mp hb] at hab
    exact hother (hab ▸ ha)⟩
  first := by
    rw [List.head?_append, h.first]
    rfl
  length := by
    rw [List.length_append, List.length_append, h.length, List.length_singleton,
      List.length_singleton]
  limit := by
    rw [List.length_append, List.length_singleton]
    exact hroom
  texts := by
    intro other hmem
    rcases List.mem_append.mp hmem with hbefore | hlast
    · exact h.texts other hbefore
    · rwa [List.mem_singleton.mp hlast]

theorem standsAt_answers {answered : Nat → List UInt8} {phases : Nat → ClientPhase}
    {endpoints : List SocketAddr} {clients : List Nat} (offset : Nat)
    (hfull : endpoints.length = config.expectedLocalities) :
    StandsAt config answered phases endpoints clients (.answers endpoints clients offset) := by
  unfold CoordinatorPhase.answers
  split
  · exact ⟨rfl, rfl, hfull⟩
  · exact ⟨rfl, hfull⟩

/-- The accept loop goes on, or the answers start. -/
theorem standsAt_accepts {answered : Nat → List UInt8} {phases : Nat → ClientPhase}
    {endpoints : List SocketAddr} {clients : List Nat}
    (hsize : endpoints.length ≤ config.expectedLocalities)
    (hlimit : config.expectedLocalities ≤ maxLocalities)
    (hsilent : ∀ connection, answered connection = [])
    (hnone : ∀ client found, phases client ≠ .returned (.ok found)) :
    StandsAt config answered phases endpoints clients (.accepts config endpoints clients) := by
  unfold CoordinatorPhase.accepts
  split
  next hroom => exact ⟨rfl, rfl, hroom, hlimit, hsilent, hnone⟩
  next hfull => exact standsAt_answers 0 (le_antisymm hsize (not_lt.mp hfull))

theorem sound_start (htext : text.Exact config.localEndpoint) :
    Sound text config configs (.start config) := by
  have hgathered : Enrolled text config [config.localEndpoint] [] :=
    ⟨List.nodup_singleton _, List.nodup_nil, rfl, rfl, show 1 ≤ 1024 by decide,
      fun endpoint hmem => by rw [List.mem_singleton.mp hmem, htext.own]⟩
  refine ⟨[config.localEndpoint], [], hgathered, ?_, fun _ => Or.inl rfl,
    fun _ _ h => nomatch h⟩
  unfold Meeting.start
  cases hvalid : validateConfig config with
  | error error => trivial
  | ok done =>
    unfold validateConfig at hvalid
    split at hvalid
    · cases hvalid
    next hbounds =>
      push Not at hbounds
      exact standsAt_accepts (Nat.pos_of_ne_zero hbounds.1) hbounds.2 (fun _ => rfl)
        fun _ _ h => nomatch h

/-! ## Each step keeps it -/

theorem sound_acceptStep {connection : Nat} {fault : Option String}
    (htext : text.Exact config.localEndpoint) (h : Sound text config configs meeting)
    (hstep : meeting.acceptStep text config connection fault = some next) :
    Sound text config configs next := by
  obtain ⟨endpoints, clients, h⟩ := h
  unfold Meeting.acceptStep at hstep
  split at hstep
  next these those hstands =>
    have hphase := h.phase
    rw [hstands] at hphase
    obtain ⟨rfl, rfl, hroom, hlimit, hsilent, hnone⟩ := hphase
    split at hstep
    next hwaits =>
      cases fault with
      | some message =>
        cases hstep
        exact ⟨_, _, h.stop _⟩
      | none =>
        cases haccepted : admitJoin text config these (meeting.written connection) with
        | error error =>
          simp only [haccepted] at hstep
          cases hstep
          exact ⟨_, _, h.stop _⟩
        | ok endpoint =>
          simp only [haccepted] at hstep
          cases hstep
          obtain ⟨hnew, written, hparse⟩ := admitJoin_ok haccepted
          refine ⟨these ++ [endpoint], those ++ [connection],
            h.gathered.push (hroom.trans_le hlimit) hnew hwaits.2 (htext.parsed _ _ hparse),
            standsAt_accepts ?_ hlimit hsilent hnone, fun other => Or.inl (hsilent other),
            fun client found hfound => absurd hfound (hnone client found)⟩
          rw [List.length_append, List.length_singleton]
          exact hroom
    · cases hstep
  · cases hstep

/-- The bytes on one connection change to the front of the membership at its place. -/
theorem Told.update {answered : Nat → List UInt8} {endpoints : List SocketAddr}
    {clients : List Nat} {offset connection : Nat} {frame bytes : List UInt8}
    (h : Told text config answered endpoints clients) (hat : clients[offset]? = some connection)
    (hframe : writeMembership text config.runId (assignedAt endpoints offset) = .ok frame)
    (hfront : bytes <+: frame) :
    Told text config (Function.update answered connection bytes) endpoints clients := by
  intro other
  by_cases hsame : other = connection
  · rw [hsame, Function.update_self]
    exact Or.inr ⟨offset, frame, hat, hframe, hfront⟩
  · rw [Function.update_of_ne hsame]
    exact h other

theorem sound_answerStep {fault : Option (Nat × String)}
    (h : Sound text config configs meeting)
    (hstep : meeting.answerStep text config fault = some next) :
    Sound text config configs next := by
  obtain ⟨endpoints, clients, h⟩ := h
  unfold Meeting.answerStep at hstep
  split at hstep
  next these those offset hstands =>
    have hphase := h.phase
    rw [hstands] at hphase
    obtain ⟨rfl, rfl, hfull⟩ := hphase
    split at hstep
    · cases hstep
    · cases hstep
      exact ⟨_, _, h.stop _⟩
    next connection frame hat hframe =>
      cases fault with
      | some cut =>
        cases hstep
        exact ⟨_, _, h.gathered, trivial,
          h.told.update hat hframe (List.take_prefix cut.1 frame), h.assigned⟩
      | none =>
        cases hstep
        exact ⟨_, _, h.gathered, standsAt_answers (offset + 1) hfull,
          h.told.update hat hframe List.prefix_rfl, h.assigned⟩
  · cases hstep

/-- Nothing is no membership. -/
theorem acceptMembership_nil {mine : RendezvousConfig} {found : TcpMembership} :
    acceptMembership text mine [] ≠ .ok found := by
  change Except.error shortRead ≠ _
  exact nofun

/-- A client that reads its answer has a membership at the place of its connection. -/
theorem sound_receive {client : Nat} {mine : RendezvousConfig}
    (h : Sound text config configs meeting) (hmine : configs client = some mine) :
    Sound text config configs (meeting.setClient client
      (.returned (acceptMembership text mine (meeting.answered client)))) := by
  obtain ⟨endpoints, clients, h⟩ := h
  cases hread : acceptMembership text mine (meeting.answered client) with
  | error error => exact ⟨_, _, h.setClient (by simp) rfl rfl rfl⟩
  | ok found =>
    obtain hsilent | ⟨offset, frame, hat, hframe, hfront⟩ := h.told client
    · rw [hsilent] at hread
      exact absurd hread acceptMembership_nil
    obtain ⟨rfl, hrun, hbelow, hsize, hown⟩ :=
      acceptMembership_inv hframe hfront h.gathered.texts hread
    refine ⟨endpoints, clients, h.gathered, h.phase.clientsMove ?_, h.told, ?_⟩
    · intro hsilent
      rw [hsilent client] at hread
      exact absurd hread acceptMembership_nil
    · intro other found hfound
      change Function.update meeting.clients client _ other = _ at hfound
      by_cases hsame : other = client
      · rw [hsame, Function.update_self] at hfound
        cases hfound
        exact ⟨offset, mine, hsame ▸ hat, rfl, hsame ▸ hmine, hrun, hsize, hown⟩
      · rw [Function.update_of_ne hsame] at hfound
        exact h.assigned other found hfound

/-- Whatever happens next, what was gathered stays what everybody is told. -/
theorem sound_step (htext : text.Exact config.localEndpoint) (happening : Happening)
    (h : Sound text config configs meeting)
    (hstep : meeting.step text config configs happening = some next) :
    Sound text config configs next := by
  cases happening with
  | accept connection fault => exact sound_acceptStep htext h hstep
  | answer fault => exact sound_answerStep h hstep
  | stranger connection bytes =>
    obtain ⟨endpoints, clients, h⟩ := h
    unfold Meeting.step at hstep
    dsimp only at hstep
    split at hstep
    · cases hstep
      exact ⟨_, _, h.gathered, h.phase, h.told, h.assigned⟩
    · cases hstep
  | fail error =>
    obtain ⟨endpoints, clients, h⟩ := h
    unfold Meeting.step at hstep
    dsimp only at hstep
    split at hstep
    · cases hstep
      exact ⟨_, _, h.stop error⟩
    · cases hstep
  | dial client =>
    obtain ⟨endpoints, clients, h⟩ := h
    unfold Meeting.step at hstep
    dsimp only at hstep
    split at hstep
    · split at hstep
      · cases hstep
        exact ⟨_, _, h.setClient (by simp) rfl rfl rfl⟩
      · split at hstep
        · cases hstep
        · cases hstep
          exact ⟨_, _, h.setClient (by simp) rfl rfl rfl⟩
    · cases hstep
  | giveUp client error =>
    obtain ⟨endpoints, clients, h⟩ := h
    unfold Meeting.step at hstep
    dsimp only at hstep
    split at hstep
    · cases hstep
    · cases hstep
      exact ⟨_, _, h.setClient (by simp) rfl rfl rfl⟩
    · cases hstep
  | join client fault =>
    obtain ⟨endpoints, clients, h⟩ := h
    unfold Meeting.step at hstep
    dsimp only at hstep
    split at hstep
    · split at hstep <;> cases hstep <;>
        exact ⟨_, _, h.setClient (by simp) rfl rfl rfl⟩
    · cases hstep
  | receive client fault =>
    unfold Meeting.step at hstep
    dsimp only at hstep
    split at hstep
    next mine hmine _ =>
      cases fault with
      | some message =>
        cases hstep
        obtain ⟨endpoints, clients, h⟩ := h
        exact ⟨_, _, h.setClient (by simp) rfl rfl rfl⟩
      | none =>
        cases hstep
        exact sound_receive h hmine
    · cases hstep

theorem reachable_sound (htext : text.Exact config.localEndpoint)
    (hrun : exec (Meeting.step text config configs) (.start config) happenings = some final) :
    Sound text config configs final :=
  exec_invariant_all (Sound text config configs)
    (fun _ happening _ h hstep => sound_step htext happening h hstep) (sound_start htext) hrun

/-! ## What the parties agree on -/

/-- The place of a party: the coordinator comes first, then the clients as they were accepted. -/
def PlaceOf (clients : List Nat) : Option Nat → Nat → Prop
  | none, place => place = 0
  | some client, place => ∃ offset, clients[offset]? = some client ∧ place = offset + 1

/-- A party that has a membership has the one at its place, for its own endpoint. -/
theorem Agreeing.membership {endpoints : List SocketAddr} {clients : List Nat}
    {party : Option Nat} {found : TcpMembership}
    (h : Agreeing text config configs meeting endpoints clients)
    (hfound : meeting.membership party = some found) :
    found.endpoints = endpoints ∧ PlaceOf clients party found.localId.get.toNat ∧
      ∃ mine, partyConfig config configs party = some mine ∧ mine.runId = config.runId ∧
        endpoints.length = mine.expectedLocalities ∧
        endpoints[found.localId.get.toNat]? = some mine.localEndpoint := by
  unfold Meeting.membership at hfound
  split at hfound
  · split at hfound
    next result hstands =>
      cases hfound
      have hphase := h.phase
      rw [hstands] at hphase
      obtain ⟨rfl, hfull⟩ := hphase
      refine ⟨rfl, rfl, config, rfl, rfl, hfull, ?_⟩
      rw [← h.gathered.first, List.head?_eq_getElem?]
      rfl
    · cases hfound
  next client =>
    split at hfound
    next result hstands =>
      cases hfound
      obtain ⟨offset, mine, hat, rfl, hmine, hrun, hsize, hown⟩ := h.assigned client found hstands
      have hoffset : offset < clients.length := (List.getElem?_eq_some_iff.mp hat).1
      have hlimit : clients.length + 1 ≤ 1024 := h.gathered.length ▸ h.gathered.limit
      have hplace : (assignedAt endpoints offset).localId.get.toNat = offset + 1 := by
        change (UInt64.ofNat (offset + 1)).toNat = offset + 1
        rw [UInt64.toNat_ofNat']
        omega
      exact ⟨rfl, ⟨offset, hat, hplace⟩, mine, hmine, hrun, hsize, hown⟩
    · cases hfound

/-- Two parties at one place are one party. -/
theorem PlaceOf.unique {clients : List Nat} {party other : Option Nat} {place : Nat}
    (hparty : PlaceOf clients party place) (hother : PlaceOf clients other place) :
    party = other := by
  cases party with
  | none =>
    cases other with
    | none => rfl
    | some client =>
      obtain ⟨offset, -, hplace⟩ := hother
      cases hparty.symm.trans hplace
  | some client =>
    obtain ⟨offset, hat, rfl⟩ := hparty
    cases other with
    | none => cases hother
    | some another =>
      obtain ⟨offset', hat', hplace⟩ := hother
      cases hplace
      rw [hat] at hat'
      exact hat'

/-- In every run, whatever strangers connect and wherever a party stops: the parties that have a
    membership have the same endpoints in it, each once and the coordinator's first, and each an
    index of its own, at which its own endpoint stands. -/
theorem rendezvous_agrees (htext : text.Exact config.localEndpoint)
    (hrun : exec (Meeting.step text config configs) (.start config) happenings = some final)
    {party other : Option Nat} {found theirs : TcpMembership}
    (hfound : final.membership party = some found)
    (htheirs : final.membership other = some theirs) :
    found.endpoints = theirs.endpoints ∧ (party ≠ other → found.localId ≠ theirs.localId) ∧
      found.endpoints.Nodup ∧ found.endpoints.head? = some config.localEndpoint ∧
      ∃ mine, partyConfig config configs party = some mine ∧ mine.runId = config.runId ∧
        found.endpoints.length = mine.expectedLocalities ∧
        found.endpoints[found.localId.get.toNat]? = some mine.localEndpoint := by
  obtain ⟨endpoints, clients, h⟩ := reachable_sound htext hrun
  obtain ⟨rfl, hplace, hmine⟩ := h.membership hfound
  obtain ⟨hsame, hother, -⟩ := h.membership htheirs
  refine ⟨hsame.symm, ?_, h.gathered.distinct, h.gathered.first, hmine⟩
  intro hne heq
  rw [← heq] at hother
  exact hne (hplace.unique hother)

/-! ## Two localities meet -/

/-- Two addresses as `SocketAddr` writes and reads them. -/
def loopback (second : Bool) : SocketAddr := ⟨[127, 0, 0, 1], if second then 7002 else 7001⟩

/-- Their texts. -/
def loopbackText : AddressText where
  display address := if address = loopback true then "127.0.0.1:7002" else "127.0.0.1:7001"
  parse written :=
    if written = "127.0.0.1:7001" then .ok (loopback false)
    else if written = "127.0.0.1:7002" then .ok (loopback true)
    else .error "invalid socket address syntax"
  invalid _ := "invalid utf-8 sequence of 1 bytes from index 0"

def pairConfig (second : Bool) : RendezvousConfig where
  runId := ⟨1, u128_one⟩
  localEndpoint := loopback second
  expectedLocalities := 2
  timeout := 5000

/-- The one client is connection 7. -/
def pairClients (client : Nat) : Option RendezvousConfig :=
  if client = 7 then some (pairConfig true) else none

def pairHappenings : List Happening :=
  [.dial 7, .join 7 none, .accept 7 none, .answer none, .receive 7 none]

theorem loopbackText_exact : loopbackText.Exact (loopback false) where
  parsed written endpoint h := by
    unfold loopbackText at h
    dsimp only at h
    split at h
    · cases h
      decide
    split at h
    · cases h
      decide
    · cases h
  own := by decide

theorem pair_agrees :
    ∃ final found theirs, exec (Meeting.step loopbackText (pairConfig false) pairClients)
        (.start (pairConfig false)) pairHappenings = some final ∧
      final.membership none = some found ∧ final.membership (some 7) = some theirs ∧
      found.endpoints = theirs.endpoints ∧ found.localId ≠ theirs.localId := by
  have hends : (exec (Meeting.step loopbackText (pairConfig false) pairClients)
      (.start (pairConfig false)) pairHappenings).map (fun final =>
        (final.membership none, final.membership (some 7))) =
      some (some ⟨⟨0⟩, [loopback false, loopback true]⟩,
        some ⟨⟨1⟩, [loopback false, loopback true]⟩) := by
    decide +kernel
  obtain ⟨final, hrun, hends⟩ := Option.map_eq_some_iff.mp hends
  obtain ⟨hnone, hsome⟩ := Prod.mk.inj hends
  obtain ⟨hsame, hother, -⟩ := rendezvous_agrees loopbackText_exact hrun hnone hsome
  exact ⟨final, _, _, hrun, hnone, hsome, hsame, hother nofun⟩

end Hataori.Transport
