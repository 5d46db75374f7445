import Hataori.Lib.Simulation
import Hataori.Pmap.Framed
import Hataori.Pmap.Values

/-!
# The protocol of frames does what the protocol of messages does

The root over frames answers as the root over messages does, and so the whole world over frames
is simulated by the world over messages, action by action.
-/

namespace Hataori.Pmap

open Hataori.Scheduler Hataori.Scheduler.Coordinator Lib.Maps Lib.Machine Lib.Simulation
open Hataori.Placement (Codec Header encodePayload decodePayload)

variable {T U : Type}

/-! ## The root -/

/-- What `process_remote_header` ends with over frames, with the channels of `source` once the
    message is received, and what it ends with over messages. -/
inductive Answered (codecs : Codecs T U) (station : Station T U) :
    Except Halt (Root T U) × Station T U → Except Halt (Root T U × Option (Message T U)) →
      Prop where
  | silent (root : Root T U) : Answered codecs station (.ok root, station) (.ok (root, none))
  | replied {root : Root T U} {message : Message T U} {value : Header}
      {payload : Option (List UInt8)} (hframed : Framed codecs message value payload)
      (hdown : message.goesDown) :
      Answered codecs station (.ok root, { station with down := station.down.push value payload })
        (.ok (root, some message))
  | unsent (root : Root T U) (message : Message T U) :
      Answered codecs station (.error .abort, station) (.ok (root, some message))
  | halted (halt : Halt) : Answered codecs station (.error halt, station) (.error halt)

section Roots

variable {codecs : Codecs T U} {station : Station T U} {call : Call T} {root : Root T U}
  {source : Nat}

theorem answered_protocolError (error : LocalError) :
    Answered codecs station
      ((root.remoteProtocolError call source error).map Prod.fst, station)
      (root.remoteProtocolError call source error) := by
  unfold Root.remoteProtocolError
  split
  · exact .halted .abort
  · split
    · exact .halted _
    · exact .silent _

/-- The numbers of a batch that is handed out fit. -/
theorem fits_onRemoteReady {items : List T} {c next : Coordinator T U} {batch : Batch T}
    {rank : Int} (hsupply : Supply items c) (hbound : items.length < 2 ^ 64)
    (hready : c.onRemoteReady rank = .ok (.task batch, next)) :
    batch.id.get < 2 ^ 64 ∧ batch.items.length < 2 ^ 64 := by
  have hids := hsupply.ids
  unfold onRemoteReady at hready
  split at hready
  · cases hready
  · split at hready
    · cases hready
    · split at hready
      · cases hready
      · cases hready
      · rename_i found after hmade
        cases hready
        have htakes := makeBatch_some hmade
        have hpending := congrArg List.length htakes.split
        rw [List.length_append] at hpending
        rw [htakes.id]
        omega

/-- The root answers a `Ready` over frames as it does over messages. -/
theorem answered_ready (hfits : ∀ batch next,
      root.scheduler.onRemoteReady source = .ok (.task batch, next) →
      batch.id.get < 2 ^ 64 ∧ batch.items.length < 2 ^ 64) (fault : Option String) :
    Answered codecs station (root.processReady codecs source station)
      (root.processRemoteHeader call source fault .ready) := by
  unfold Root.processReady Root.processRemoteHeader
  cases hready : root.scheduler.onRemoteReady source with
  | error error => exact .halted _
  | ok pair =>
    obtain ⟨dispatch, scheduler⟩ := pair
    cases dispatch with
    | stop =>
      dsimp only [Root.lift]
      rw [Channel.sendEmpty_eq station.down rfl]
      exact .replied .stop trivial
    | task batch =>
      obtain ⟨hbatch, hcount⟩ := hfits batch scheduler hready
      dsimp only [Root.lift]
      cases hsent : station.down.sendFrame codecs.tasks .task .none batch.id.get batch.items.length
          (batch.items.map fun item => (item.originalIndex, item.value)) with
      | error error => exact .unsent _ _
      | ok down =>
        obtain ⟨bytes, hbytes, rfl⟩ := Channel.sendFrame_ok hsent
        exact .replied (.task hbytes hbatch hcount) (List.length_map _).symm

/-- The root takes a result over frames as it does over messages. -/
theorem answered_result {status : MessageStatus} {batchId itemCount : Nat}
    {payload : ResultPayload U} (value : Header) (hstatus : value.status = status.onWire)
    (hbatch : value.batchId = batchId) :
    Answered codecs station (root.processResult call source value (.ok payload), station)
      (root.processRemoteHeader call source none (.result status batchId itemCount payload)) := by
  unfold Root.processResult Root.processRemoteHeader
  subst hbatch
  rw [hstatus]
  cases status with
  | ok =>
    cases payload with
    | values values =>
      dsimp only [MessageStatus.onWire]
      cases root.scheduler.onRemoteSuccess source ⟨value.batchId⟩
          (values.map fun entry => ⟨entry.1, entry.2⟩) with
      | error error => exact .halted _
      | ok pair => exact .silent _
    | error failure => exact answered_protocolError _
  | error =>
    cases payload with
    | values values => exact answered_protocolError _
    | error failure =>
      dsimp only [MessageStatus.onWire]
      cases root.scheduler.onRemoteError source ⟨value.batchId⟩ with
      | error error => exact .halted _
      | ok pair => exact .silent _

/-- The root processes the header of a message over frames as it does the message. -/
theorem answered_header (station : Station T U) (call : Call T)
    (hcodec : Faithful codecs.results) (hfits : ∀ batch next,
      root.scheduler.onRemoteReady source = .ok (.task batch, next) →
      batch.id.get < 2 ^ 64 ∧ batch.items.length < 2 ^ 64)
    {message : Message T U} {value : Header} {payload : Option (List UInt8)}
    (hframed : Framed codecs message value payload) (hup : message.goesUp) (rest : Channel) :
    ∃ fault outcome, root.processHeader codecs call source
        { station with up := ⟨rest.headers, payload.toList ++ rest.payloads⟩ } value =
          some outcome ∧
      Answered codecs { station with up := rest } outcome
        (root.processRemoteHeader call source fault message) := by
  cases hframed with
  | ready => exact ⟨none, _, rfl, answered_ready hfits none⟩
  | task _ _ _ => cases hup
  | stop => cases hup
  | drain =>
    refine ⟨none, _, rfl, ?_⟩
    unfold Root.processDrain Root.processRemoteHeader
    cases root.scheduler.onRemoteDrain source with
    | error error => exact .halted _
    | ok scheduler => exact .silent _
  | @result status batchId itemCount payload bytes hbytes hbatch hcount =>
    unfold Root.processHeader
    dsimp only
    rw [receivePayload_eq hbytes rfl]
    rcases wireError_decode hcodec hbytes with hfound | ⟨text, hfound⟩
    · rw [hfound]
      exact ⟨none, _, rfl, answered_result _ rfl rfl⟩
    · rw [hfound]
      exact ⟨some text, _, rfl, answered_protocolError _⟩

end Roots

/-! ## The world -/

/-- The world over frames and the same world over messages. -/
structure Tracks (codecs : Codecs T U) (w : Wired T U) (s : System T U) : Prop where
  root : w.root = s.root
  stations : ∀ rank, Option.Rel (Mirrors codecs) (w.stations.lookup rank) (s.links.lookup rank)

/-- Where a step over frames leads, and the same step over messages: a rank that cannot send ends
    the world. -/
def Ends (codecs : Codecs T U) (next : Wired T U) (after : System T U) : Prop :=
  next.aborted = true ∨ Tracks codecs next after

/-- A step over frames and the same step over messages, of which the surroundings decide
    whether the payload decodes. -/
def Agreed (codecs : Codecs T U) (low : Option (Wired T U))
    (high : Option String → Option (System T U)) : Prop :=
  (∃ fault, Option.Rel (Ends codecs) low (high fault)) ∧ ∀ fault, (high fault).isSome → low.isSome

/-- The action of the protocol of messages. -/
def HubAction.told (fault : Option String) : HubAction U → RootAction U
  | .next => .next
  | .serve source => .serve source fault
  | .probeNone => .probeNone
  | .compute outcomes => .compute outcomes
  | .receive source => .receive source fault
  | .poll finished probed => .poll finished probed fault

/-- The action of the protocol of frames. -/
def RootAction.onWire : RootAction U → HubAction U
  | .next => .next
  | .serve source _ => .serve source
  | .probeNone => .probeNone
  | .compute outcomes => .compute outcomes
  | .receive source _ => .receive source
  | .poll finished probed _ => .poll finished probed

/-- The action of the protocol of frames. -/
def Action.onWire : Action U → WireAction U
  | .worker rank action => .station rank action.onWire
  | .root action => .hub action.onWire

theorem onWire_told (fault : Option String) (action : HubAction U) :
    (action.told fault).onWire = action := by
  cases action <;> rfl

theorem told_onWire (action : RootAction U) : ∃ fault, action.onWire.told fault = action := by
  cases action with
  | serve source fault => exact ⟨fault, rfl⟩
  | receive source fault => exact ⟨fault, rfl⟩
  | poll finished probed fault => exact ⟨fault, rfl⟩
  | _ => exact ⟨none, rfl⟩

section Worlds

variable {codecs : Codecs T U} {call : Call T} {w : Wired T U} {s : System T U}

theorem agreed_none : Agreed codecs none (fun _ => none) :=
  ⟨⟨none, .none⟩, fun _ h => h⟩

theorem Tracks.agreed {next : Wired T U} {after : System T U} (h : Tracks codecs next after) :
    Agreed codecs (some next) (fun _ => some after) :=
  ⟨⟨none, .some (Or.inr h)⟩, fun _ _ => rfl⟩

theorem Mirrors.isAborted {station : Station T U} {link : Link T U}
    (h : Mirrors codecs station link) : station.isAborted = link.isAborted := by
  have hphase := h.phase
  unfold Station.isAborted Link.isAborted
  cases hlink : link.phase <;> rw [hphase, hlink]

theorem Tracks.station (h : Tracks codecs w s) {rank : Nat} {station : Station T U}
    (hstation : w.stations.lookup rank = some station) :
    ∃ link, s.links.lookup rank = some link ∧ Mirrors codecs station link := by
  have hrel := h.stations rank
  rw [hstation] at hrel
  cases hlink : s.links.lookup rank with
  | none =>
    rw [hlink] at hrel
    cases hrel
  | some link =>
    rw [hlink] at hrel
    cases hrel with
    | some hmirrors => exact ⟨link, rfl, hmirrors⟩

theorem Tracks.link (h : Tracks codecs w s) {rank : Nat} {link : Link T U}
    (hlink : s.links.lookup rank = some link) :
    ∃ station, w.stations.lookup rank = some station ∧ Mirrors codecs station link := by
  have hrel := h.stations rank
  rw [hlink] at hrel
  cases hstation : w.stations.lookup rank with
  | none =>
    rw [hstation] at hrel
    cases hrel
  | some station =>
    rw [hstation] at hrel
    cases hrel with
    | some hmirrors => exact ⟨station, rfl, hmirrors⟩

theorem Tracks.aborted (h : Tracks codecs w s) : w.aborted = s.aborted := by
  unfold Wired.aborted System.aborted
  rw [h.root, Bool.eq_iff_iff, Bool.or_eq_true, Bool.or_eq_true, List.any_eq_true, List.any_eq_true]
  refine or_congr_right ⟨?_, ?_⟩
  · rintro ⟨station, hmem, habort⟩
    obtain ⟨rank, hstation⟩ := mem_values_iff.mp hmem
    obtain ⟨link, hlink, hmirrors⟩ := h.station hstation
    exact ⟨link, mem_values_of_lookup hlink, hmirrors.isAborted ▸ habort⟩
  · rintro ⟨link, hmem, habort⟩
    obtain ⟨rank, hlink⟩ := mem_values_iff.mp hmem
    obtain ⟨station, hstation, hmirrors⟩ := h.link hlink
    exact ⟨station, mem_values_of_lookup hstation, hmirrors.isAborted.symm ▸ habort⟩

theorem Tracks.setRoot (h : Tracks codecs w s) (root : Root T U) :
    Tracks codecs { w with root := root } { s with root := root } :=
  ⟨rfl, h.stations⟩

theorem Tracks.insert (h : Tracks codecs w s) (root : Root T U) (rank : Nat) {station : Station T U}
    {link : Link T U} (hmirrors : Mirrors codecs station link) :
    Tracks codecs ⟨root, w.stations.insert rank station⟩ ⟨root, s.links.insert rank link⟩ := by
  refine ⟨rfl, fun other => ?_⟩
  by_cases hother : other = rank
  · subst hother
    rw [AList.lookup_insert, AList.lookup_insert]
    exact .some hmirrors
  · rw [AList.lookup_insert_ne hother, AList.lookup_insert_ne hother]
    exact h.stations other

theorem aborted_of_station {rank : Nat} {station : Station T U} (root : Root T U)
    (habort : station.isAborted = true) :
    Wired.aborted ⟨root, w.stations.insert rank station⟩ = true := by
  unfold Wired.aborted
  rw [Bool.or_eq_true, List.any_eq_true]
  exact Or.inr ⟨station, mem_values_of_lookup (AList.lookup_insert _), habort⟩

/-- The link of `source` once its message is received. -/
theorem Mirrors.taken {station : Station T U} {link : Link T U} (h : Mirrors codecs station link)
    {message : Message T U} {rest : List (Message T U)} {channel : Channel}
    (hup : link.up = message :: rest) (hcarries : Carries codecs rest channel) :
    Mirrors codecs { station with up := channel } { link with up := rest } where
  phase := h.phase
  localKey := h.localKey
  localError := h.localError
  down := h.down
  up := hcarries
  goesDown := h.goesDown
  goesUp := fun other hmem => h.goesUp other (hup ▸ List.mem_cons_of_mem message hmem)
  fits := h.fits

/-- The link of `source` once the root has answered. -/
theorem Mirrors.answer {station : Station T U} {link : Link T U} (h : Mirrors codecs station link)
    {message : Message T U} {value : Header} {payload : Option (List UInt8)}
    (hframed : Framed codecs message value payload) (hdown : message.goesDown) :
    Mirrors codecs { station with down := station.down.push value payload }
      (link.answer (some message)) where
  phase := h.phase
  localKey := h.localKey
  localError := h.localError
  down := h.down.push hframed
  up := h.up
  goesDown := by
    intro other hmem
    rcases List.mem_append.mp hmem with hmem | hmem
    · exact h.goesDown other hmem
    · exact List.mem_singleton.mp hmem ▸ hdown
  goesUp := h.goesUp
  fits := h.fits

/-- The batches the root hands out have numbers that fit. -/
def Root.HandsOut (root : Root T U) : Prop :=
  ∀ source batch next, root.scheduler.onRemoteReady source = .ok (.task batch, next) →
    batch.id.get < 2 ^ 64 ∧ batch.items.length < 2 ^ 64

/-- The root receives a header and its payload as it receives the message. -/
theorem Tracks.receiveFrom (h : Tracks codecs w s) (hcodec : Faithful codecs.results)
    (hfits : s.root.HandsOut) (source : Nat) (after : RootPhase T U) :
    Agreed codecs (w.receiveFrom codecs call source after)
      (fun fault => s.receiveFrom call source fault after) := by
  unfold Wired.receiveFrom System.receiveFrom
  cases hstation : w.stations.lookup source with
  | none =>
    have hlink : s.links.lookup source = none := by
      have hrel := h.stations source
      rw [hstation] at hrel
      cases hlink : s.links.lookup source with
      | none => rfl
      | some link =>
        rw [hlink] at hrel
        cases hrel
    rw [hlink]
    exact agreed_none
  | some station =>
    obtain ⟨link, hlink, hmirrors⟩ := h.station hstation
    rw [hlink]
    have hcarries := hmirrors.up
    dsimp only
    cases hup : link.up with
    | nil =>
      rw [hup] at hcarries
      rw [hcarries.receiveHeader_nil]
      exact agreed_none
    | cons message rest =>
      rw [hup] at hcarries
      obtain ⟨value, payload, channel, hframed, hrest, hheader⟩ := hcarries.receiveHeader
      have hgoes := hmirrors.goesUp message (hup ▸ List.mem_cons_self)
      have htaken := hmirrors.taken hup hrest
      obtain ⟨fault, outcome, houtcome, hanswered⟩ := answered_header station call hcodec
        (hfits source) hframed hgoes channel
      rw [hheader, h.root]
      dsimp only
      rw [houtcome]
      refine ⟨⟨fault, ?_⟩, fun _ _ => rfl⟩
      dsimp only [Option.map_some]
      generalize s.root.processRemoteHeader call source fault message = answer at hanswered ⊢
      cases hanswered with
      | silent root => exact .some (Or.inr (h.insert _ source htaken))
      | replied hreply hdown =>
        exact .some (Or.inr (h.insert _ source (htaken.answer hreply hdown)))
      | unsent root reply => exact .some (Or.inl rfl)
      | halted halt =>
        refine .some (Or.inr ?_)
        dsimp only [Wired.processed]
        rw [h.root]
        exact h.insert _ source htaken

theorem Tracks.completeWith (h : Tracks codecs w s) (outcome : LocalBatchOutcome U)
    (after : Root T U → Root T U) :
    Tracks codecs (w.completeWith call outcome after) (s.completeWith call outcome after) := by
  unfold Wired.completeWith System.completeWith
  rw [h.root]
  cases s.root.completeLocal call outcome with
  | error halt => exact h.setRoot _
  | ok root => exact h.setRoot _

theorem Tracks.pollEvent (h : Tracks codecs w s) (hcodec : Faithful codecs.results)
    (hfits : s.root.HandsOut) (receiver : Option (Batch T))
    (pendingLocal : Option (LocalBatchOutcome U)) (preferLocal : Bool) (probed : Option Nat) :
    Agreed codecs (w.pollEvent codecs call receiver pendingLocal preferLocal probed)
      (fun fault => s.pollEvent call receiver pendingLocal preferLocal probed fault) := by
  unfold Wired.pollEvent System.pollEvent
  rw [h.root]
  generalize chooseRootEvent pendingLocal.isSome probed.isSome preferLocal = chosen
  obtain ⟨event, prefer⟩ := chosen
  cases event with
  | «local» =>
    cases pendingLocal with
    | none => exact (h.setRoot _).agreed
    | some outcome => exact (h.completeWith outcome _).agreed
  | remote =>
    cases probed with
    | none => exact (h.setRoot _).agreed
    | some source => exact h.receiveFrom hcodec hfits source _
  | neither => exact (h.setRoot _).agreed

theorem Tracks.pollRound (h : Tracks codecs w s) (hcodec : Faithful codecs.results)
    (hfits : s.root.HandsOut) (receiver : Option (Batch T))
    (pendingLocal : Option (LocalBatchOutcome U)) (preferLocal : Bool)
    (finished : Option (List (Except String U))) (probed : Option Nat) :
    Agreed codecs (w.pollRound codecs call receiver pendingLocal preferLocal finished probed)
      (fun fault => s.pollRound call receiver pendingLocal preferLocal finished probed fault) := by
  unfold Wired.pollRound System.pollRound
  cases pendingLocal with
  | some outcome => exact h.pollEvent hcodec hfits _ _ _ _
  | none =>
    cases receiver with
    | none => exact h.pollEvent hcodec hfits _ _ _ _
    | some batch =>
      cases finished with
      | none => exact h.pollEvent hcodec hfits _ _ _ _
      | some outcomes =>
        dsimp only
        by_cases hlength : outcomes.length = batch.items.length
        · simp only [if_pos hlength]
          exact h.pollEvent hcodec hfits _ _ _ _
        · simp only [if_neg hlength]
          exact agreed_none

/-- The root does over frames what it does over messages. -/
theorem Tracks.hubStep (h : Tracks codecs w s) (call : Call T)
    (hcodec : Faithful codecs.results) (hfits : s.root.HandsOut) (action : HubAction U) :
    Agreed codecs (w.hubStep codecs call action)
      (fun fault => s.rootStep call (action.told fault)) := by
  unfold Wired.hubStep System.rootStep
  rw [h.root]
  cases s.root.phase with
  | top =>
    cases action with
    | next => exact (h.setRoot _).agreed
    | _ => exact agreed_none
  | serving served =>
    cases action with
    | serve source => exact h.receiveFrom hcodec hfits source _
    | probeNone => exact (h.setRoot _).agreed
    | _ => exact agreed_none
  | computing batch =>
    cases action with
    | compute outcomes =>
      dsimp only [HubAction.told]
      by_cases hlength : outcomes.length = batch.items.length
      · simp only [if_pos hlength]
        exact (h.completeWith _ _).agreed
      · simp only [if_neg hlength]
        exact agreed_none
    | _ => exact agreed_none
  | blocked =>
    cases action with
    | receive source => exact h.receiveFrom hcodec hfits source _
    | _ => exact agreed_none
  | iterating receiver pendingLocal preferLocal =>
    cases action with
    | next => exact (h.setRoot _).agreed
    | _ => exact agreed_none
  | polling receiver pendingLocal preferLocal =>
    cases action with
    | poll finished probed => exact h.pollRound hcodec hfits _ _ _ _ _
    | _ => exact agreed_none
  | _ => cases action <;> exact agreed_none

/-- The worker of `rank` does over frames what it does over messages. -/
theorem Tracks.stationStep (h : Tracks codecs w s) (hcodec : Faithful codecs.tasks) {rank : Nat}
    {action : StationAction U} {next : Wired T U}
    (hstep : w.stationStep codecs call rank action = some next) :
    ∃ choice after, WorkerAction.onWire choice = action ∧
      s.workerStep call rank choice = some after ∧ Ends codecs next after := by
  unfold Wired.stationStep at hstep
  cases hstation : w.stations.lookup rank with
  | none =>
    rw [hstation] at hstep
    cases hstep
  | some station =>
    rw [hstation] at hstep
    obtain ⟨moved, hmoved, rfl⟩ := Option.map_eq_some_iff.mp hstep
    obtain ⟨link, hlink, hmirrors⟩ := h.station hstation
    obtain ⟨choice, after, hchoice, hafter, hend⟩ := hmirrors.follows hcodec hmoved
    refine ⟨choice, { s with links := s.links.insert rank after }, hchoice, ?_, ?_⟩
    · simp only [System.workerStep, hlink, hafter]
    · rcases hend with habort | hmirrored
      · exact Or.inl (aborted_of_station _ habort)
      · refine Or.inr ?_
        rw [h.root]
        exact h.insert _ rank hmirrored

end Worlds

/-! ## Whole runs -/

theorem Live.handsOut {call : Call T} {s : System T U} (h : Live call s) : s.root.HandsOut :=
  fun _ _ _ hready => fits_onRemoteReady h.supply call.itemsBound hready

/-- What a step over messages leads to is live or ends both worlds. -/
theorem Ends.live {codecs : Codecs T U} {call : Call T} {s after : System T U} {next : Wired T U}
    {choice : Action U} (h : Ends codecs next after) (hlive : Live call s)
    (hstep : s.step call choice = some after) :
    next.aborted = true ∨ Tracks codecs next after ∧ Live call after := by
  rcases h with habort | htracks
  · exact Or.inl habort
  · rcases Safe.step (Or.inr hlive) hstep with ⟨habort, -⟩ | hafter
    · exact Or.inl (htracks.aborted.trans habort)
    · exact Or.inr ⟨htracks, hafter⟩

/-- The protocol of frames does what the protocol of messages does. -/
theorem simulates_frames (call : Call T) (codecs : Codecs T U) (htasks : Faithful codecs.tasks)
    (hresults : Faithful codecs.results) :
    Simulates (Wired.step codecs call) (System.step call) Action.onWire
      (fun w s => Tracks codecs w s ∧ Live call s) (fun w => w.aborted = true) where
  stops := fun w action habort => if_pos habort
  follows := by
    intro w s action next hrel hstep
    obtain ⟨htracks, hlive⟩ := hrel
    have hrunning : s.aborted = false := hlive.not_aborted
    unfold Wired.step at hstep
    rw [htracks.aborted, hrunning, if_neg Bool.false_ne_true] at hstep
    cases action with
    | station rank action =>
      obtain ⟨choice, after, rfl, hafter, hend⟩ := htracks.stationStep htasks hstep
      have hwhole : s.step call (.worker rank choice) = some after := by
        unfold System.step
        rw [hrunning, if_neg Bool.false_ne_true]
        exact hafter
      exact ⟨.worker rank choice, after, rfl, hwhole, hend.live hlive hwhole⟩
    | hub action =>
      obtain ⟨⟨fault, hagreed⟩, -⟩ :=
        htracks.hubStep call hresults hlive.handsOut action
      rw [show w.hubStep codecs call action = some next from hstep] at hagreed
      dsimp only at hagreed
      cases hwhole : s.rootStep call (action.told fault) with
      | none =>
        rw [hwhole] at hagreed
        cases hagreed
      | some after =>
        rw [hwhole] at hagreed
        cases hagreed with
        | some hend =>
          have hstepped : s.step call (.root (action.told fault)) = some after := by
            unfold System.step
            rw [hrunning, if_neg Bool.false_ne_true]
            exact hwhole
          refine ⟨.root (action.told fault), after, ?_, hstepped, hend.live hlive hstepped⟩
          exact congrArg WireAction.hub (onWire_told fault action)
  offers := by
    intro w s choice after hrel hstep
    obtain ⟨htracks, hlive⟩ := hrel
    have hrunning : s.aborted = false := hlive.not_aborted
    unfold System.step at hstep
    rw [hrunning, if_neg Bool.false_ne_true] at hstep
    unfold Wired.step
    rw [htracks.aborted, hrunning, if_neg Bool.false_ne_true]
    cases choice with
    | worker rank choice =>
      dsimp only [System.workerStep] at hstep
      cases hlink : s.links.lookup rank with
      | none =>
        rw [hlink] at hstep
        cases hstep
      | some link =>
        rw [hlink] at hstep
        obtain ⟨station, hstation, hmirrors⟩ := htracks.link hlink
        cases hmoved : link.step call.prefetch rank call.worldSize choice with
        | none =>
          dsimp only at hstep
          rw [hmoved] at hstep
          cases hstep
        | some moved =>
          have hsome := hmirrors.offers htasks hmoved
          dsimp only [Action.onWire, Wired.stationStep]
          rw [hstation, Option.isSome_map]
          exact hsome
    | root choice =>
      obtain ⟨fault, hchoice⟩ := told_onWire choice
      refine (htracks.hubStep call hresults hlive.handsOut choice.onWire).2 fault ?_
      dsimp only
      rw [hchoice]
      exact Option.isSome_iff_exists.mpr ⟨after, hstep⟩

theorem mirrors_start (codecs : Codecs T U) : Mirrors codecs Station.start Link.start where
  phase := rfl
  localKey := rfl
  localError := rfl
  down := .nil
  up := .nil
  goesDown := fun _ hmem => by cases hmem
  goesUp := fun _ hmem => by cases hmem
  fits := trivial

theorem tracks_start (codecs : Codecs T U) (root : Root T U) (ranks : List Nat) :
    Tracks codecs
      ⟨root, ranks.foldr (fun rank stations => stations.insert rank Station.start) ∅⟩
      ⟨root, ranks.foldr (fun rank links => links.insert rank Link.start) ∅⟩ := by
  induction ranks with
  | nil => exact ⟨rfl, fun _ => .none⟩
  | cons rank rest ih => exact ih.insert root rank (mirrors_start codecs)

theorem start_tracks (call : Call T) (codecs : Codecs T U) :
    ∃ (w : Wired T U) (s : System T U), Wired.start call = .ok w ∧ System.start call = .ok s ∧
      Tracks codecs w s ∧ Live call s := by
  obtain ⟨s, hs, hlive⟩ := start_live (U := U) call
  have hstart := hs
  unfold System.start at hstart
  unfold Wired.start
  split at hstart
  · cases hstart
  · rename_i scheduler hscheduler
    cases hstart
    rw [hscheduler]
    exact ⟨_, _, rfl, hs, tracks_start codecs _ call.remotes, hlive⟩

/-- Every run over frames that no rank aborts is a run over messages with the same schedule: the
    root and the workers are where they are there, and the channels carry the frames of the
    messages that are on their way. The two can go on in the same ways, so no rank waits for bytes
    that do not come, and when the root exits nothing is left under either tag. -/
theorem frames_refine (call : Call T) (codecs : Codecs T U) (htasks : Faithful codecs.tasks)
    (hresults : Faithful codecs.results) :
    ∃ (start : Wired T U) (whole : System T U), Wired.start call = .ok start ∧
      System.start call = .ok whole ∧ ∀ actions w,
        exec (Wired.step codecs call) start actions = some w → w.aborted = true ∨
          ∃ choices s, choices.map Action.onWire = actions ∧
            exec (System.step call) whole choices = some s ∧ Tracks codecs w s ∧
            (∀ action, (w.step codecs call action).isSome ↔
              ∃ choice, choice.onWire = action ∧ (s.step call choice).isSome) ∧
            ∀ results, w.root.phase = .exited results → ∀ rank station,
              w.stations.lookup rank = some station →
              station.phase = .done ∧ station.down = .empty ∧ station.up = .empty := by
  obtain ⟨start, whole, hstart, hwhole, htracks, hlive⟩ := start_tracks call codecs
  have hsim := simulates_frames call codecs htasks hresults
  refine ⟨start, whole, hstart, hwhole, fun actions w hrun => ?_⟩
  refine (hsim.run ⟨htracks, hlive⟩ hrun).imp_right ?_
  rintro ⟨choices, s, hchoices, hs, hend, hendLive⟩
  refine ⟨choices, s, hchoices, hs, hend, hsim.enabled ⟨hend, hendLive⟩, ?_⟩
  intro results hexited rank station hstation
  obtain ⟨link, hlink, hmirrors⟩ := hend.station hstation
  have hok := hendLive.phase
  rw [hend.root] at hexited
  simp only [PhaseOk, hexited] at hok
  obtain ⟨hdone, hdown, hup⟩ := hendLive.toCore.drained_of_finished hok hlink
  have hdownEmpty : Carries codecs [] station.down := hdown ▸ hmirrors.down
  have hupEmpty : Carries codecs [] station.up := hup ▸ hmirrors.up
  exact ⟨hmirrors.phase.trans hdone, hdownEmpty.empty_of_nil, hupEmpty.empty_of_nil⟩

/-- A codec that is used on one value. -/
def codecOf {α : Type} [DecidableEq α] (value : α) (bytes : List UInt8) : Codec α where
  serialize := fun given => if given = value then .ok bytes else .error "other value"
  deserialize := fun given =>
    if given = bytes then .ok (value, bytes.length) else .error "other bytes"

theorem faithful_codecOf {α : Type} [DecidableEq α] (value : α) (bytes : List UInt8) :
    Faithful (codecOf value bytes) := by
  intro given encoded found hencoded hfound
  unfold encodePayload codecOf at hencoded
  unfold decodePayload codecOf at hfound
  dsimp only at hencoded hfound
  split at hencoded
  · cases hencoded
  · rename_i written hwritten
    split at hwritten
    · rename_i hgiven
      subst hgiven
      simp only [bind, Except.bind, pure, Except.pure, throw, throwThe, MonadExceptOf.throw]
        at hfound
      split at hfound
      · cases hfound
      · split at hfound
        · cases hfound
        · rename_i pair hpair
          split at hpair
          · cases hpair
            split at hfound <;> cases hfound
            rfl
          · cases hpair
    · cases hwritten

/-- The batch and the result of the sample call as `bincode` writes them. -/
def sampleCodecs : Codecs Nat Nat where
  tasks := codecOf [(0, 5)] [1, 0, 0, 0, 0, 0, 0, 0, 0, 0, 0, 0, 0, 0, 0, 0, 5, 0, 0, 0, 0, 0, 0, 0]
  results := codecOf (.values [(0, 6)])
    [0, 0, 0, 0, 1, 0, 0, 0, 0, 0, 0, 0, 0, 0, 0, 0, 0, 0, 0, 0, 6, 0, 0, 0, 0, 0, 0, 0]

/-- The sample run over frames exits with the result and leaves nothing in its channels. -/
theorem frames_refine_sample :
    ∃ start w : Wired Nat Nat, Wired.start sampleCall = .ok start ∧
      exec (Wired.step sampleCodecs sampleCall) start (sampleActions.map Action.onWire) = some w ∧
      w.root.phase = .exited [6] ∧ ∃ station, w.stations.lookup 1 = some station ∧
        station.phase = .done ∧ station.down = .empty ∧ station.up = .empty := by
  obtain ⟨start, whole, hstart, -, hrun⟩ := frames_refine sampleCall sampleCodecs
    (faithful_codecOf _ _) (faithful_codecOf _ _)
  have hsame : Wired.start sampleCall = .ok (_ : Wired Nat Nat) := rfl
  cases hstart.symm.trans hsame
  rcases hrun (sampleActions.map Action.onWire) _ rfl with habort | ⟨_, _, -, -, -, -, hexit⟩
  · cases habort
  · exact ⟨_, _, rfl, rfl, rfl, _, rfl, hexit [6] rfl 1 _ rfl⟩

end Hataori.Pmap
