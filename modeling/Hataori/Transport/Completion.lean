import Hataori.Lib.Tallies
import Hataori.Transport.Memberships

/-!
# A rendezvous completes

Where nothing fails and the localities that come are the ones that are expected, every order in
which they dial, are accepted and are answered ends with a membership for each of them.
-/

namespace Hataori.Transport

open Hataori.Runtime Lib.Bytes Lib.Machine Lib.Maps Lib.Readers

variable {text : AddressText} {config : RendezvousConfig} {members : List Nat}
  {mine : Nat → RendezvousConfig} {meeting next final : Meeting} {happenings : List Happening}
  {clients : List Nat}

/-- The configurations of the members, and no others. -/
def configsOf (members : List Nat) (mine : Nat → RendezvousConfig) (client : Nat) :
    Option RendezvousConfig :=
  if client ∈ members then some (mine client) else none

/-- The localities of one run, as many as all expect, each with an endpoint of its own. -/
structure Team (text : AddressText) (config : RendezvousConfig) (members : List Nat)
    (mine : Nat → RendezvousConfig) : Prop where
  once : members.Nodup
  size : members.length + 1 = config.expectedLocalities
  limit : config.expectedLocalities ≤ maxLocalities
  started : config.timeout ≠ 0
  same : ∀ member ∈ members, (mine member).runId = config.runId ∧
    (mine member).expectedLocalities = config.expectedLocalities ∧ (mine member).timeout ≠ 0
  endpoints : ((config :: members.map mine).map RendezvousConfig.localEndpoint).Nodup
  spoken : ∀ own ∈ config :: members.map mine, Spoken text own.localEndpoint

/-- Nothing fails, nobody else connects, and a read waits for what it reads. -/
def Meeting.Smooth (meeting : Meeting) : Happening → Prop
  | .dial _ => True
  | .join _ fault => fault = none
  | .accept connection fault => fault = none ∧ meeting.written connection ≠ []
  | .answer fault => fault = none
  | .receive client fault => fault = none ∧ meeting.answered client ≠ []
  | .giveUp _ _ => False
  | .stranger _ _ => False
  | .fail _ => False

instance decidableSmooth (meeting : Meeting) : ∀ happening, Decidable (meeting.Smooth happening)
  | .dial _ => .isTrue trivial
  | .join _ fault => inferInstanceAs (Decidable (fault = none))
  | .accept connection fault =>
    inferInstanceAs (Decidable (fault = none ∧ meeting.written connection ≠ []))
  | .answer fault => inferInstanceAs (Decidable (fault = none))
  | .receive client fault =>
    inferInstanceAs (Decidable (fault = none ∧ meeting.answered client ≠ []))
  | .giveUp _ _ => .isFalse id
  | .stranger _ _ => .isFalse id
  | .fail _ => .isFalse id

/-! ## The invariant of a smooth run -/

/-- The endpoints that are gathered when these clients were accepted. -/
def endpointsOf (config : RendezvousConfig) (mine : Nat → RendezvousConfig) (clients : List Nat) :
    List SocketAddr :=
  config.localEndpoint :: clients.map fun client => (mine client).localEndpoint

/-- The membership at an offset, as it is sent. -/
def Sends (text : AddressText) (config : RendezvousConfig) (mine : Nat → RendezvousConfig)
    (clients : List Nat) (offset : Nat) (frame : List UInt8) : Prop :=
  writeMembership text config.runId (assignedAt (endpointsOf config mine clients) offset) =
    .ok frame

/-- How many clients have been answered. -/
def CoordinatorPhase.told : CoordinatorPhase → Nat
  | .accepting _ _ => 0
  | .answering _ _ offset => offset
  | .returned (.ok found) => found.endpoints.length - 1
  | .returned (.error _) => 0

/-- Where the coordinator of a smooth run stands. -/
def Gathers (config : RendezvousConfig) (members : List Nat) (mine : Nat → RendezvousConfig)
    (clients : List Nat) : CoordinatorPhase → Prop
  | .accepting these those => these = endpointsOf config mine clients ∧ those = clients ∧
      clients.length < members.length
  | .answering these those offset => these = endpointsOf config mine clients ∧ those = clients ∧
      clients.length = members.length ∧ offset < clients.length
  | .returned result => result = .ok ⟨⟨0⟩, endpointsOf config mine clients⟩ ∧
      clients.length = members.length

/-- Where a member of a smooth run stands. -/
def Attends (text : AddressText) (mine : RendezvousConfig) (meeting : Meeting)
    (clients : List Nat) (member : Nat) : ClientPhase → Prop
  | .idle => member ∉ meeting.opened ∧ member ∉ clients ∧ meeting.written member = []
  | .dialled => member ∈ meeting.opened ∧ member ∉ clients ∧ meeting.written member = []
  | .joined => member ∈ meeting.opened ∧
      writeJoin text mine.runId mine.localEndpoint = .ok (meeting.written member)
  | .returned result => member ∈ clients ∧ ∃ found, result = .ok found

/-- What every smooth step keeps. -/
structure Meets (text : AddressText) (config : RendezvousConfig) (members : List Nat)
    (mine : Nat → RendezvousConfig) (meeting : Meeting) (clients : List Nat) : Prop where
  once : clients.Nodup
  among : ∀ client ∈ clients, client ∈ members
  opened : ∀ connection ∈ meeting.opened, connection ∈ members
  gathers : Gathers config members mine clients meeting.coordinator
  attends : ∀ member ∈ members,
    Attends text (mine member) meeting clients member (meeting.clients member)
  answers : ∀ connection, meeting.answered connection = [] ∨ ∃ offset,
    clients[offset]? = some connection ∧
    Sends text config mine clients offset (meeting.answered connection)
  told : ∀ offset < meeting.coordinator.told, ∀ connection, clients[offset]? = some connection →
    meeting.answered connection ≠ []
  silent : meeting.coordinator.told = 0 → ∀ connection, meeting.answered connection = []

/-! ## The countdown -/

/-- The steps a client still takes. -/
def ClientPhase.remaining : ClientPhase → Nat
  | .idle => 3
  | .dialled => 2
  | .joined => 1
  | .returned _ => 0

/-- The steps the coordinator still takes for this many clients. -/
def CoordinatorPhase.remaining (count : Nat) : CoordinatorPhase → Nat
  | .accepting _ clients => 2 * count - clients.length
  | .answering _ _ offset => count - offset
  | .returned _ => 0

/-- The steps of a smooth run that are still to come. -/
def Meeting.remaining (members : List Nat) (meeting : Meeting) : Nat :=
  (members.map fun member => (meeting.clients member).remaining).sum +
    meeting.coordinator.remaining members.length

/-! ## The clients' steps -/

theorem Attends.congr {own : RendezvousConfig} {member : Nat} {phase : ClientPhase}
    (h : Attends text own meeting clients member phase)
    (hopened : member ∈ next.opened ↔ member ∈ meeting.opened)
    (hwritten : next.written member = meeting.written member) :
    Attends text own next clients member phase := by
  cases phase with
  | idle => exact ⟨fun hmem => h.1 (hopened.mp hmem), h.2.1, hwritten ▸ h.2.2⟩
  | dialled => exact ⟨hopened.mpr h.1, h.2.1, hwritten ▸ h.2.2⟩
  | joined => exact ⟨hopened.mpr h.1, hwritten ▸ h.2⟩
  | returned result => exact h

/-- A client takes a step of its own. -/
theorem Meets.moves (hteam : Team text config members mine)
    (h : Meets text config members mine meeting clients) {client : Nat} {phase : ClientPhase}
    (hclient : client ∈ members) (hcoordinator : next.coordinator = meeting.coordinator)
    (hanswered : next.answered = meeting.answered)
    (hclients : next.clients = Function.update meeting.clients client phase)
    (hopened : ∀ connection ∈ next.opened, connection ∈ members)
    (hothers : ∀ other, other ≠ client → (other ∈ next.opened ↔ other ∈ meeting.opened) ∧
      next.written other = meeting.written other)
    (hattends : Attends text (mine client) next clients client phase)
    (hfalls : phase.remaining + 1 = (meeting.clients client).remaining) :
    Meets text config members mine next clients ∧
      next.remaining members + 1 = meeting.remaining members := by
  refine ⟨⟨h.once, h.among, hopened, hcoordinator ▸ h.gathers, ?_, hanswered ▸ h.answers,
    hcoordinator ▸ hanswered ▸ h.told, hcoordinator ▸ hanswered ▸ h.silent⟩, ?_⟩
  · intro member hmember
    rw [hclients]
    by_cases hsame : member = client
    · subst hsame
      rwa [Function.update_self]
    · rw [Function.update_of_ne hsame]
      exact (h.attends member hmember).congr (hothers member hsame).1 (hothers member hsame).2
  · have hsum := sum_map_update hteam.once hclient
      (fun member => (meeting.clients member).remaining) phase.remaining
    have hphases : (fun member => (next.clients member).remaining) =
        Function.update (fun member => (meeting.clients member).remaining) client
          phase.remaining := by
      rw [hclients]
      exact Function.comp_update ClientPhase.remaining meeting.clients client phase
    unfold Meeting.remaining
    rw [hcoordinator, hphases]
    omega

theorem configsOf_some {client : Nat} {own : RendezvousConfig}
    (h : configsOf members mine client = some own) : client ∈ members ∧ own = mine client := by
  unfold configsOf at h
  split at h
  next hmem =>
    cases h
    exact ⟨hmem, rfl⟩
  · cases h

theorem Team.valid (hteam : Team text config members mine) {client : Nat}
    (hclient : client ∈ members) : validateConfig (mine client) = .ok () := by
  obtain ⟨-, hsize, htimeout⟩ := hteam.same client hclient
  have hexpected := hteam.size
  have hlimit := hteam.limit
  unfold validateConfig
  rw [if_neg (by omega), if_neg htimeout]

theorem Team.validCoordinator (hteam : Team text config members mine) :
    validateConfig config = .ok () := by
  have hsize := hteam.size
  have hlimit := hteam.limit
  unfold validateConfig
  rw [if_neg (by omega), if_neg hteam.started]

theorem Meets.dial (hteam : Team text config members mine)
    (h : Meets text config members mine meeting clients) {client : Nat}
    (hstep : meeting.step text config (configsOf members mine) (.dial client) = some next) :
    Meets text config members mine next clients ∧
      next.remaining members + 1 = meeting.remaining members := by
  unfold Meeting.step at hstep
  dsimp only at hstep
  split at hstep
  next own hown hidle =>
    obtain ⟨hclient, rfl⟩ := configsOf_some hown
    rw [hteam.valid hclient] at hstep
    dsimp only at hstep
    split at hstep
    · cases hstep
    cases hstep
    have hattends := h.attends client hclient
    rw [hidle] at hattends
    refine h.moves hteam hclient rfl rfl rfl ?_ ?_
      ⟨List.mem_cons_self, hattends.2.1, hattends.2.2⟩ (by rw [hidle]; rfl)
    · exact List.forall_mem_cons.mpr ⟨hclient, h.opened⟩
    · intro other hother
      exact ⟨List.mem_cons.trans (or_iff_right hother), rfl⟩
  · cases hstep

theorem Team.spokenMember (hteam : Team text config members mine) {client : Nat}
    (hclient : client ∈ members) : Spoken text (mine client).localEndpoint :=
  hteam.spoken (mine client) (List.mem_cons_of_mem _ (List.mem_map_of_mem hclient))

theorem Meets.join (hteam : Team text config members mine)
    (h : Meets text config members mine meeting clients) {client : Nat}
    (hstep : meeting.step text config (configsOf members mine) (.join client none) = some next) :
    Meets text config members mine next clients ∧
      next.remaining members + 1 = meeting.remaining members := by
  unfold Meeting.step at hstep
  dsimp only at hstep
  split at hstep
  next own hown hdialled =>
    obtain ⟨hclient, rfl⟩ := configsOf_some hown
    obtain ⟨frame, hframe, -, -⟩ :=
      readJoin_written (mine client).runId (hteam.spokenMember hclient)
    rw [hframe] at hstep
    cases hstep
    have hattends := h.attends client hclient
    rw [hdialled] at hattends
    refine h.moves hteam hclient rfl rfl rfl h.opened ?_ ⟨hattends.1, ?_⟩ (by rw [hdialled]; rfl)
    · intro other hother
      exact ⟨Iff.rfl, Function.update_of_ne hother _ _⟩
    · change _ = Except.ok (Function.update meeting.written client frame client)
      rw [hframe, Function.update_self]
  · cases hstep

/-! ## The coordinator's steps -/

theorem length_endpointsOf (config : RendezvousConfig) (mine : Nat → RendezvousConfig)
    (clients : List Nat) : (endpointsOf config mine clients).length = clients.length + 1 := by
  rw [endpointsOf, List.length_cons, List.length_map]

theorem told_answers {endpoints : List SocketAddr} {offset : Nat}
    (hlength : endpoints.length = clients.length + 1) (hoffset : offset ≤ clients.length) :
    (CoordinatorPhase.answers endpoints clients offset).told = offset := by
  unfold CoordinatorPhase.answers
  split
  · rfl
  · change endpoints.length - 1 = offset
    omega

theorem gathers_answers {offset : Nat} (hfull : clients.length = members.length) :
    Gathers config members mine clients (.answers (endpointsOf config mine clients) clients offset) := by
  unfold CoordinatorPhase.answers
  split
  next hmore => exact ⟨rfl, rfl, hfull, hmore⟩
  · exact ⟨rfl, hfull⟩

theorem remaining_answers {endpoints : List SocketAddr} {offset count : Nat}
    (hfull : clients.length = count) :
    (CoordinatorPhase.answers endpoints clients offset).remaining count = count - offset := by
  unfold CoordinatorPhase.answers
  split
  · rfl
  · change 0 = count - offset
    omega

/-- The accept loop after this many clients of a team. -/
theorem accepts_cases (hteam : Team text config members mine) (clients : List Nat)
    (hsome : clients.length ≤ members.length) :
    Gathers config members mine clients
        (.accepts config (endpointsOf config mine clients) clients) ∧
      (CoordinatorPhase.accepts config (endpointsOf config mine clients) clients).told = 0 ∧
      (CoordinatorPhase.accepts config (endpointsOf config mine clients) clients).remaining
        members.length = 2 * members.length - clients.length := by
  have hlength := length_endpointsOf config mine clients
  have hsize := hteam.size
  unfold CoordinatorPhase.accepts
  split
  · exact ⟨⟨rfl, rfl, by omega⟩, rfl, rfl⟩
  · have hfull : clients.length = members.length := by omega
    refine ⟨gathers_answers hfull, told_answers hlength (Nat.zero_le _), ?_⟩
    rw [remaining_answers hfull]
    omega

/-- The endpoints of some members are those of a team. -/
theorem Team.nodup_endpointsOf (hteam : Team text config members mine) (honce : clients.Nodup)
    (hamong : ∀ client ∈ clients, client ∈ members) :
    (endpointsOf config mine clients).Nodup := by
  obtain ⟨hown, hmapped⟩ := List.nodup_cons.mp hteam.endpoints
  rw [List.map_map] at hown hmapped
  refine List.nodup_cons.mpr ⟨fun hmem => hown ?_, ?_⟩
  · obtain ⟨client, hclient, hsame⟩ := List.mem_map.mp hmem
    exact List.mem_map.mpr ⟨client, hamong client hclient, hsame⟩
  · refine List.Nodup.map_on (fun first hfirst second hsecond hsame => ?_) honce
    exact List.inj_on_of_nodup_map hmapped (hamong first hfirst) (hamong second hsecond) hsame

theorem Team.spoken_endpointsOf (hteam : Team text config members mine)
    (hamong : ∀ client ∈ clients, client ∈ members) :
    ∀ endpoint ∈ endpointsOf config mine clients, Spoken text endpoint := by
  refine List.forall_mem_cons.mpr ⟨hteam.spoken config List.mem_cons_self, fun endpoint hmem => ?_⟩
  obtain ⟨client, hclient, rfl⟩ := List.mem_map.mp hmem
  exact hteam.spokenMember (hamong client hclient)

theorem admitJoin_member (hteam : Team text config members mine) {connection : Nat}
    {bytes : List UInt8} (honce : clients.Nodup) (hamong : ∀ client ∈ clients, client ∈ members)
    (hmember : connection ∈ members) (hnew : connection ∉ clients)
    (hwritten : writeJoin text (mine connection).runId (mine connection).localEndpoint =
      .ok bytes) :
    admitJoin text config (endpointsOf config mine clients) bytes =
      .ok (mine connection).localEndpoint := by
  obtain ⟨frame, hframe, -, hread⟩ :=
    readJoin_written (mine connection).runId (hteam.spokenMember hmember)
  rw [hframe] at hwritten
  cases hwritten
  have hdistinct : (endpointsOf config mine (connection :: clients)).Nodup :=
    hteam.nodup_endpointsOf (List.nodup_cons.mpr ⟨hnew, honce⟩)
      (List.forall_mem_cons.mpr ⟨hmember, hamong⟩)
  have hother : (mine connection).localEndpoint ∉ endpointsOf config mine clients := by
    have hperm : (endpointsOf config mine (connection :: clients)).Perm
        ((mine connection).localEndpoint :: endpointsOf config mine clients) := List.Perm.swap _ _ _
    exact (List.nodup_cons.mp (hperm.nodup_iff.mp hdistinct)).1
  unfold admitJoin
  rw [hread]
  dsimp only [bind, Except.bind]
  rw [if_neg (not_not.mpr (hteam.same connection hmember).1), if_neg hother]

/-- One more client is accepted, and its join has been written. -/
theorem Attends.grow {own : RendezvousConfig} {member connection : Nat} {phase : ClientPhase}
    (h : Attends text own meeting clients member phase) (stands : CoordinatorPhase)
    (hother : meeting.written member = [] → member ≠ connection) :
    Attends text own { meeting with coordinator := stands } (clients ++ [connection]) member
      phase := by
  have hnot : member ∉ clients → meeting.written member = [] → member ∉ clients ++ [connection] := by
    intro hbefore hnone hmem
    rcases List.mem_append.mp hmem with hmem | hmem
    · exact hbefore hmem
    · exact hother hnone (List.mem_singleton.mp hmem)
  cases phase with
  | idle => exact ⟨h.1, hnot h.2.1 h.2.2, h.2.2⟩
  | dialled => exact ⟨h.1, hnot h.2.1 h.2.2, h.2.2⟩
  | joined => exact h
  | returned result => exact ⟨List.mem_append_left _ h.1, h.2⟩

theorem Meets.accept (hteam : Team text config members mine)
    (h : Meets text config members mine meeting clients) {connection : Nat}
    (hwritten : meeting.written connection ≠ [])
    (hstep : meeting.acceptStep text config connection none = some next) :
    Meets text config members mine next (clients ++ [connection]) ∧
      next.remaining members + 1 = meeting.remaining members := by
  unfold Meeting.acceptStep at hstep
  split at hstep
  next these those hstands =>
    have hgathers := h.gathers
    rw [hstands] at hgathers
    obtain ⟨rfl, rfl, hroom⟩ := hgathers
    have hsilent : ∀ other, meeting.answered other = [] := h.silent (by rw [hstands]; rfl)
    split at hstep
    next hwaits =>
      have hmember := h.opened connection hwaits.1
      have hattends := h.attends connection hmember
      have hjoined : writeJoin text (mine connection).runId (mine connection).localEndpoint =
          .ok (meeting.written connection) := by
        cases hphase : meeting.clients connection with
        | idle =>
          rw [hphase] at hattends
          exact absurd hattends.2.2 hwritten
        | dialled =>
          rw [hphase] at hattends
          exact absurd hattends.2.2 hwritten
        | joined =>
          rw [hphase] at hattends
          exact hattends.2
        | returned result =>
          rw [hphase] at hattends
          exact absurd hattends.1 hwaits.2
      rw [admitJoin_member hteam h.once h.among hmember hwaits.2 hjoined] at hstep
      cases hstep
      have hsize : (those ++ [connection]).length = those.length + 1 := List.length_append
      have hmore : endpointsOf config mine those ++ [(mine connection).localEndpoint] =
          endpointsOf config mine (those ++ [connection]) := by
        simp [endpointsOf]
      obtain ⟨hgathers, htold, hremaining⟩ :=
        accepts_cases hteam (those ++ [connection]) (hsize ▸ hroom)
      rw [hmore]
      refine ⟨⟨?_, ?_, h.opened, hgathers, ?_, fun other => Or.inl (hsilent other), ?_,
        fun _ => hsilent⟩, ?_⟩
      · exact List.nodup_append.mpr ⟨h.once, List.nodup_singleton _, by
          intro a ha b hb hab
          rw [List.mem_singleton.mp hb] at hab
          exact hwaits.2 (hab ▸ ha)⟩
      · intro client hclient
        rcases List.mem_append.mp hclient with hbefore | hlast
        · exact h.among client hbefore
        · rwa [List.mem_singleton.mp hlast]
      · intro member hmember
        exact (h.attends member hmember).grow _ fun hnone hsame => hwritten (hsame ▸ hnone)
      · intro offset hoffset
        rw [htold] at hoffset
        exact absurd hoffset (Nat.not_lt_zero _)
      · unfold Meeting.remaining
        dsimp only
        rw [hremaining, hstands, hsize, CoordinatorPhase.remaining]
        omega
    · cases hstep
  · cases hstep

/-- What the client at an offset is sent, it accepts. -/
theorem Team.sends (hteam : Team text config members mine) (honce : clients.Nodup)
    (hamong : ∀ client ∈ clients, client ∈ members) (hfull : clients.length = members.length)
    {offset client : Nat} (hat : clients[offset]? = some client) :
    ∃ frame, Sends text config mine clients offset frame ∧ frame ≠ [] ∧
      acceptMembership text (mine client) frame =
        .ok (assignedAt (endpointsOf config mine clients) offset) := by
  have hclient : client ∈ members := hamong client (List.mem_of_getElem? hat)
  obtain ⟨hrun, hexpected, -⟩ := hteam.same client hclient
  have hlength := length_endpointsOf config mine clients
  have hsize := hteam.size
  have hlimit := hteam.limit
  have hoffset : offset < clients.length := (List.getElem?_eq_some_iff.mp hat).1
  have hplace : (assignedAt (endpointsOf config mine clients) offset).localId.get.toNat =
      offset + 1 := by
    change (UInt64.ofNat (offset + 1)).toNat = offset + 1
    unfold maxLocalities at hlimit
    rw [UInt64.toNat_ofNat']
    omega
  unfold Sends
  rw [← hrun]
  refine acceptMembership_written (hteam.spoken_endpointsOf hamong) ?_
    (hteam.nodup_endpointsOf honce hamong) ?_ ?_
  · change (endpointsOf config mine clients).length ≤ _
    omega
  · change (endpointsOf config mine clients).length = _
    omega
  · rw [hplace]
    change (endpointsOf config mine clients)[offset + 1]? = _
    rw [endpointsOf, List.getElem?_cons_succ, List.getElem?_map, hat]
    rfl

theorem Meets.answer (hteam : Team text config members mine)
    (h : Meets text config members mine meeting clients)
    (hstep : meeting.answerStep text config none = some next) :
    Meets text config members mine next clients ∧
      next.remaining members + 1 = meeting.remaining members := by
  unfold Meeting.answerStep at hstep
  split at hstep
  next these those offset hstands =>
    have hgathers := h.gathers
    rw [hstands] at hgathers
    obtain ⟨rfl, rfl, hfull, hmore⟩ := hgathers
    have hat : those[offset]? = some those[offset] := List.getElem?_eq_getElem hmore
    obtain ⟨frame, hframe, hsome, -⟩ := hteam.sends h.once h.among hfull hat
    have hwrite : writeMembership text config.runId
        ⟨⟨UInt64.ofNat (offset + 1)⟩, endpointsOf config mine those⟩ = .ok frame := hframe
    rw [hat, hwrite] at hstep
    cases hstep
    have htold : (CoordinatorPhase.answers (endpointsOf config mine those) those (offset + 1)).told =
        offset + 1 := told_answers (length_endpointsOf config mine those) hmore
    have hbefore : ∀ earlier < offset, ∀ connection, those[earlier]? = some connection →
        meeting.answered connection ≠ [] := by
      have htold := h.told
      rw [hstands] at htold
      exact htold
    refine ⟨⟨h.once, h.among, h.opened, gathers_answers hfull, ?_, ?_, ?_, ?_⟩, ?_⟩
    · intro member hmember
      exact (h.attends member hmember).congr Iff.rfl rfl
    · intro connection
      by_cases hsame : connection = those[offset]
      · subst hsame
        refine Or.inr ⟨offset, hat, ?_⟩
        change Sends _ _ _ _ _ (Function.update meeting.answered _ _ _)
        rwa [Function.update_self]
      · change Function.update meeting.answered _ _ connection = [] ∨ ∃ offset, _ ∧
          Sends _ _ _ _ _ (Function.update meeting.answered _ _ connection)
        rw [Function.update_of_ne hsame]
        exact h.answers connection
    · intro earlier hearlier connection hconnection
      change Function.update meeting.answered _ _ connection ≠ []
      by_cases hsame : connection = those[offset]
      · rwa [hsame, Function.update_self]
      · rw [Function.update_of_ne hsame]
        refine hbefore earlier ?_ connection hconnection
        rw [htold] at hearlier
        refine lt_of_le_of_ne (Nat.lt_succ_iff.mp hearlier) fun hlast => hsame ?_
        rw [hlast, hat] at hconnection
        exact (Option.some.inj hconnection).symm
    · intro hzero
      rw [htold] at hzero
      cases hzero
    · unfold Meeting.remaining
      dsimp only
      rw [remaining_answers hfull, hstands, CoordinatorPhase.remaining]
      omega
  · cases hstep

/-- An answer comes after everybody was accepted. -/
theorem Meets.full_of_answered (h : Meets text config members mine meeting clients)
    {connection : Nat} (hanswered : meeting.answered connection ≠ []) :
    clients.length = members.length := by
  have hgathers := h.gathers
  cases hstands : meeting.coordinator with
  | accepting these those => exact absurd (h.silent (by rw [hstands]; rfl) connection) hanswered
  | answering these those offset =>
    rw [hstands] at hgathers
    exact hgathers.2.2.1
  | returned result =>
    rw [hstands] at hgathers
    exact hgathers.2

theorem Meets.receive (hteam : Team text config members mine)
    (h : Meets text config members mine meeting clients) {client : Nat}
    (hanswered : meeting.answered client ≠ [])
    (hstep : meeting.step text config (configsOf members mine) (.receive client none) =
      some next) :
    Meets text config members mine next clients ∧
      next.remaining members + 1 = meeting.remaining members := by
  unfold Meeting.step at hstep
  dsimp only at hstep
  split at hstep
  next own hown hjoined =>
    obtain ⟨hclient, rfl⟩ := configsOf_some hown
    obtain hnone | ⟨offset, hat, hsent⟩ := h.answers client
    · exact absurd hnone hanswered
    obtain ⟨frame, hframe, -, haccepts⟩ :=
      hteam.sends h.once h.among (h.full_of_answered hanswered) hat
    have hsame : meeting.answered client = frame := Except.ok.inj (hsent.symm.trans hframe)
    rw [hsame, haccepts] at hstep
    cases hstep
    exact h.moves hteam hclient rfl rfl rfl h.opened (fun _ _ => ⟨Iff.rfl, rfl⟩)
      ⟨List.mem_of_getElem? hat, _, rfl⟩ (by rw [hjoined]; rfl)
  · cases hstep

/-! ## Every smooth run -/

/-- Every smooth step counts down and keeps the invariant. -/
theorem Meets.step (hteam : Team text config members mine)
    (h : Meets text config members mine meeting clients) {happening : Happening}
    (hsmooth : meeting.Smooth happening)
    (hstep : meeting.step text config (configsOf members mine) happening = some next) :
    (∃ clients, Meets text config members mine next clients) ∧
      next.remaining members + 1 = meeting.remaining members := by
  cases happening with
  | dial client => exact (h.dial hteam hstep).imp_left fun h => ⟨_, h⟩
  | join client fault =>
    cases (hsmooth : fault = none)
    exact (h.join hteam hstep).imp_left fun h => ⟨_, h⟩
  | accept connection fault =>
    obtain ⟨rfl, hwritten⟩ := hsmooth
    exact (h.accept hteam hwritten hstep).imp_left fun h => ⟨_, h⟩
  | answer fault =>
    cases (hsmooth : fault = none)
    exact (h.answer hteam hstep).imp_left fun h => ⟨_, h⟩
  | receive client fault =>
    obtain ⟨rfl, hanswered⟩ := hsmooth
    exact (h.receive hteam hanswered hstep).imp_left fun h => ⟨_, h⟩
  | giveUp client error => exact hsmooth.elim
  | stranger connection bytes => exact hsmooth.elim
  | fail error => exact hsmooth.elim

theorem coordinator_start (hteam : Team text config members mine) :
    (Meeting.start config).coordinator = .accepts config (endpointsOf config mine []) [] := by
  unfold Meeting.start
  rw [hteam.validCoordinator]
  rfl

theorem meets_start (hteam : Team text config members mine) :
    Meets text config members mine (.start config) [] := by
  have hstands := coordinator_start hteam
  obtain ⟨hgathers, htold, -⟩ := accepts_cases hteam [] (Nat.zero_le _)
  refine ⟨List.nodup_nil, nofun, nofun, hstands ▸ hgathers, ?_, fun _ => Or.inl rfl, ?_,
    fun _ _ => rfl⟩
  · intro member hmember
    exact ⟨List.not_mem_nil, List.not_mem_nil, rfl⟩
  · intro offset hoffset
    rw [hstands, htold] at hoffset
    exact absurd hoffset (Nat.not_lt_zero _)

/-- Until everybody has a membership something can happen, and nothing else has to. -/
theorem Meets.progress (hteam : Team text config members mine)
    (h : Meets text config members mine meeting clients) :
    (∃ happening next, meeting.Smooth happening ∧
      meeting.step text config (configsOf members mine) happening = some next) ∨
      ∀ party ∈ none :: members.map some, (meeting.membership party).isSome := by
  have hconfig : ∀ member ∈ members, configsOf members mine member = some (mine member) :=
    fun member hmember => if_pos hmember
  by_cases hidle : ∃ member ∈ members, meeting.clients member = .idle
  · obtain ⟨member, hmember, hphase⟩ := hidle
    have hattends := h.attends member hmember
    rw [hphase] at hattends
    refine Or.inl ⟨.dial member, ?_⟩
    simp only [Meeting.step, hconfig member hmember, hphase, hteam.valid hmember,
      if_neg hattends.1]
    exact ⟨_, trivial, rfl⟩
  by_cases hdialled : ∃ member ∈ members, meeting.clients member = .dialled
  · obtain ⟨member, hmember, hphase⟩ := hdialled
    obtain ⟨frame, hframe, -, -⟩ :=
      readJoin_written (mine member).runId (hteam.spokenMember hmember)
    refine Or.inl ⟨.join member none, ?_⟩
    simp only [Meeting.step, hconfig member hmember, hphase, hframe]
    exact ⟨_, rfl, rfl⟩
  -- Every member has sent its join.
  have hjoined : ∀ member ∈ members, (meeting.clients member = .joined ∧
      member ∈ meeting.opened ∧ meeting.written member ≠ []) ∨
      member ∈ clients ∧ ∃ found, meeting.clients member = .returned (.ok found) := by
    intro member hmember
    have hattends := h.attends member hmember
    cases hphase : meeting.clients member with
    | idle => exact absurd ⟨member, hmember, hphase⟩ hidle
    | dialled => exact absurd ⟨member, hmember, hphase⟩ hdialled
    | joined =>
      rw [hphase] at hattends
      obtain ⟨frame, hframe, hsome, -⟩ :=
        readJoin_written (mine member).runId (hteam.spokenMember hmember)
      have hsame : meeting.written member = frame :=
        Except.ok.inj (hattends.2.symm.trans hframe)
      exact Or.inl ⟨rfl, hattends.1, hsame ▸ hsome⟩
    | returned result =>
      rw [hphase] at hattends
      obtain ⟨hmem, found, rfl⟩ := hattends
      exact Or.inr ⟨hmem, found, rfl⟩
  have hgathers := h.gathers
  cases hstands : meeting.coordinator with
  | accepting these those =>
    rw [hstands] at hgathers
    obtain ⟨rfl, rfl, hroom⟩ := hgathers
    obtain ⟨member, hmember, hnew⟩ : ∃ member ∈ members, member ∉ those := by
      by_contra hall
      push Not at hall
      exact absurd (List.subperm_of_subset hteam.once hall).length_le (not_le.mpr hroom)
    obtain ⟨-, hopened, hwritten⟩ | ⟨hmem, -⟩ := hjoined member hmember
    · refine Or.inl ⟨.accept member none, ?_⟩
      simp only [Meeting.step, Meeting.acceptStep, hstands, if_pos (And.intro hopened hnew)]
      split
      · exact ⟨_, ⟨rfl, hwritten⟩, rfl⟩
      · exact ⟨_, ⟨rfl, hwritten⟩, rfl⟩
    · exact absurd hmem hnew
  | answering these those offset =>
    rw [hstands] at hgathers
    obtain ⟨rfl, rfl, hfull, hmore⟩ := hgathers
    have hat : those[offset]? = some those[offset] := List.getElem?_eq_getElem hmore
    obtain ⟨frame, hframe, -, -⟩ := hteam.sends h.once h.among hfull hat
    refine Or.inl ⟨.answer none, ?_⟩
    unfold Sends assignedAt at hframe
    simp only [Meeting.step, Meeting.answerStep, hstands, hat, hframe]
    exact ⟨_, rfl, rfl⟩
  | returned result =>
    rw [hstands] at hgathers
    obtain ⟨rfl, hfull⟩ := hgathers
    by_cases hwaits : ∃ member ∈ members, meeting.clients member = .joined
    · obtain ⟨member, hmember, hphase⟩ := hwaits
      have hmem : member ∈ clients :=
        ((List.subperm_of_subset h.once h.among).perm_of_length_le hfull.ge).mem_iff.mpr hmember
      obtain ⟨offset, hat⟩ := List.getElem?_of_mem hmem
      have htold : offset < meeting.coordinator.told := by
        rw [hstands]
        change offset < (endpointsOf config mine clients).length - 1
        rw [length_endpointsOf]
        exact (List.getElem?_eq_some_iff.mp hat).1
      refine Or.inl ⟨.receive member none, ?_⟩
      simp only [Meeting.step, hconfig member hmember, hphase]
      exact ⟨_, ⟨rfl, h.told offset htold member hat⟩, rfl⟩
    · refine Or.inr (List.forall_mem_cons.mpr ⟨?_, fun party hparty => ?_⟩)
      · simp only [Meeting.membership, hstands, Option.isSome_some]
      · obtain ⟨member, hmember, rfl⟩ := List.mem_map.mp hparty
        obtain ⟨hphase, -⟩ | ⟨-, found, hphase⟩ := hjoined member hmember
        · exact absurd ⟨member, hmember, hphase⟩ hwaits
        · simp only [Meeting.membership, hphase, Option.isSome_some]

theorem Meeting.remaining_eq_zero
    (h : ∀ party ∈ none :: members.map some, (meeting.membership party).isSome) :
    meeting.remaining members = 0 := by
  obtain ⟨hcoordinator, hmembers⟩ := List.forall_mem_cons.mp h
  have hclients : ∀ member ∈ members, (meeting.clients member).remaining = 0 := by
    intro member hmember
    have hsome := hmembers (some member) (List.mem_map_of_mem hmember)
    simp only [Meeting.membership] at hsome
    split at hsome
    next hphase => rw [hphase, ClientPhase.remaining]
    · cases hsome
  have hlast : meeting.coordinator.remaining members.length = 0 := by
    simp only [Meeting.membership] at hcoordinator
    split at hcoordinator
    next hphase => rw [hphase, CoordinatorPhase.remaining]
    · cases hcoordinator
  rw [Meeting.remaining, hlast, List.map_congr_left hclients]
  simp

theorem remaining_start (hteam : Team text config members mine) :
    (Meeting.start config).remaining members = 5 * members.length := by
  have hclients : ∀ member ∈ members,
      ((Meeting.start config).clients member).remaining = 3 := fun _ _ => rfl
  obtain ⟨-, -, hremaining⟩ := accepts_cases hteam [] (Nat.zero_le _)
  rw [Meeting.remaining, coordinator_start hteam, hremaining, List.map_congr_left hclients, List.map_const',
    List.sum_replicate_nat, List.length_nil]
  omega

/-- In every order of its steps, a rendezvous of a team takes five steps for each client, and then
    every party has its membership; before that it can always go on. -/
theorem smooth_run_completes (hteam : Team text config members mine)
    (hsmooth : Along (Meeting.step text config (configsOf members mine)) Meeting.Smooth
      (.start config) happenings)
    (hrun : exec (Meeting.step text config (configsOf members mine)) (.start config) happenings =
      some final) :
    happenings.length ≤ 5 * members.length ∧
      (happenings.length < 5 * members.length → ∃ happening next, final.Smooth happening ∧
        final.step text config (configsOf members mine) happening = some next) ∧
      (happenings.length = 5 * members.length →
        ∀ party ∈ none :: members.map some, (final.membership party).isSome) := by
  obtain ⟨⟨clients, hmeets⟩, hcount⟩ := exec_countdown
    (fun meeting => ∃ clients, Meets text config members mine meeting clients)
    (Meeting.remaining members) (fun _ _ _ ⟨_, h⟩ hcond hstep => h.step hteam hcond hstep)
    ⟨[], meets_start hteam⟩ hsmooth hrun
  rw [remaining_start hteam] at hcount
  refine ⟨by omega, fun hless => ?_, fun hall => ?_⟩
  · refine (hmeets.progress hteam).resolve_right fun hdone => ?_
    rw [Meeting.remaining_eq_zero hdone] at hcount
    omega
  · refine (hmeets.progress hteam).resolve_left fun ⟨happening, next, hnext, hstep⟩ => ?_
    have hfalls := (hmeets.step hteam hnext hstep).2
    omega

/-- The client of `pairClients` is a team. -/
theorem pair_team : Team loopbackText (pairConfig false) [7] fun _ => pairConfig true where
  once := List.nodup_singleton 7
  size := rfl
  limit := by decide
  started := by decide
  same member _ := ⟨rfl, rfl, by decide⟩
  endpoints := by decide
  spoken own hown := by
    have hcases : own = pairConfig false ∨ own = pairConfig true := by simpa using hown
    rcases hcases with rfl | rfl
    · exact ⟨by decide, by decide, by decide⟩
    · exact ⟨by decide, by decide, by decide⟩

theorem pair_completes :
    ∃ final, exec (Meeting.step loopbackText (pairConfig false) (configsOf [7] fun _ => pairConfig true))
        (.start (pairConfig false)) pairHappenings = some final ∧
      ∀ party ∈ [none, some 7], (final.membership party).isSome := by
  have hsome : (exec (Meeting.step loopbackText (pairConfig false)
      (configsOf [7] fun _ => pairConfig true)) (.start (pairConfig false)) pairHappenings).isSome := by
    decide +kernel
  have hsmooth : Along (Meeting.step loopbackText (pairConfig false)
      (configsOf [7] fun _ => pairConfig true)) Meeting.Smooth (.start (pairConfig false))
      pairHappenings := by
    decide +kernel
  obtain ⟨final, hrun⟩ := Option.isSome_iff_exists.mp hsome
  exact ⟨final, hrun, (smooth_run_completes pair_team hsmooth hrun).2.2 rfl⟩

end Hataori.Transport
