import Hataori.Transport.Stream

/-!
# Framing does not depend on the cuts

Every reachable state of connected members with common limits keeps each direction of
each stream exact, as long as what a read finds fits the reader's buffer.
-/

namespace Hataori.Transport

open Hataori.Runtime Lib.Bytes Lib.Machine

/-- The connection on which member `j` reads what member `i` writes. -/
def crossing (configs : Nat → TcpConfig) (i j : Nat) : ConnectionIdentity :=
  ⟨(configs j).localId, ⟨UInt64.ofNat i⟩, (configs j).hello.runId⟩

namespace Net

/-- The invariant: no driver has failed, reservations are what the streams hold, and
    every direction of every stream is exact. -/
structure Sound (count : Nat) (configs : Nat → TcpConfig) (limits : ProtocolLimits) (net : Net) :
    Prop where
  fixed : ∀ i < count, (net.drivers i).fixed =
    ((configs i).localId, (configs i).hello.runId, count, limits)
  alive : ∀ i < count, (net.drivers i).failed = none
  reserved : ∀ i < count, (net.drivers i).Reserved
  exact : ∀ i < count, ∀ j < count, i ≠ j → ∀ channel,
    (net.link i j channel).Exact (Carried (crossing configs i j) limits)

variable {count : Nat} {configs : Nat → TcpConfig} {bootstraps : Nat → Bootstrap}
  {drivers : Nat → TcpDriver} {limits : ProtocolLimits} {net next : Net} {i j : Nat}
  {channel : Channel}

/-- One driver changed and stayed sound, and every direction is still exact. -/
theorem Sound.update (h : net.Sound count configs limits) {driver : TcpDriver}
    (hdrivers : next.drivers = Function.update net.drivers i driver)
    (hfixed : driver.fixed = (net.drivers i).fixed)
    (halive : driver.failed = (net.drivers i).failed) (hreserved : driver.Reserved)
    (hexact : ∀ a < count, ∀ b < count, a ≠ b → ∀ c,
      (next.link a b c).Exact (Carried (crossing configs a b) limits)) :
    next.Sound count configs limits := by
  refine ⟨?_, ?_, ?_, hexact⟩
  · intro k hk
    rw [hdrivers]
    by_cases hki : k = i
    · rw [hki, Function.update_self, hfixed, ← hki, h.fixed k hk]
    · rw [Function.update_of_ne hki, h.fixed k hk]
  · intro k hk
    rw [hdrivers]
    by_cases hki : k = i
    · rw [hki, Function.update_self, halive, ← hki, h.alive k hk]
    · rw [Function.update_of_ne hki, h.alive k hk]
  · intro k hk
    rw [hdrivers]
    by_cases hki : k = i
    · rw [hki, Function.update_self]
      exact hreserved
    · rw [Function.update_of_ne hki]
      exact h.reserved k hk

/-- A direction changed and stayed exact, and no other did. -/
theorem Sound.exact_of_link (h : net.Sound count configs limits)
    (hlinks : ∀ a b c, ¬(a = i ∧ b = j ∧ c = channel) → next.link a b c = net.link a b c)
    (hexact : (next.link i j channel).Exact (Carried (crossing configs i j) limits)) :
    ∀ a < count, ∀ b < count, a ≠ b → ∀ c,
      (next.link a b c).Exact (Carried (crossing configs a b) limits) := by
  intro a ha b hb hab c
  by_cases hsame : a = i ∧ b = j ∧ c = channel
  · obtain ⟨rfl, rfl, rfl⟩ := hsame
    exact hexact
  · rw [hlinks a b c hsame]
    exact h.exact a ha b hb hab c

/-- A step of the sending side of one direction keeps the invariant if that direction
    stays exact. -/
theorem Sound.sending (h : net.Sound count configs limits) {driver : TcpDriver}
    (hdrivers : next.drivers = Function.update net.drivers i driver)
    (hfixed : driver.fixed = (net.drivers i).fixed)
    (halive : driver.failed = (net.drivers i).failed) (hreserved : driver.Reserved)
    (hlink : OnlyLink net next i j channel)
    (hstream : TcpDriver.OnlyStream (net.drivers i) driver j channel)
    (hread : (driver.peers j channel).read = ((net.drivers i).peers j channel).read)
    (hexact : (next.link i j channel).Exact (Carried (crossing configs i j) limits)) :
    next.Sound count configs limits := by
  have hself : next.drivers i = driver := by rw [hdrivers, Function.update_self]
  have hothers : ∀ k, k ≠ i → next.drivers k = net.drivers k := by
    intro k hk
    rw [hdrivers, Function.update_of_ne hk]
  apply h.update hdrivers hfixed halive hreserved
  apply h.exact_of_link _ hexact
  intro a b c hne
  exact hlink.sending hothers (hself ▸ hstream) (by rw [hself, hread]) hne

/-- A step of the receiving side of one direction keeps the invariant if that direction
    stays exact. -/
theorem Sound.receiving (h : net.Sound count configs limits) {driver : TcpDriver}
    (hdrivers : next.drivers = Function.update net.drivers i driver)
    (hfixed : driver.fixed = (net.drivers i).fixed)
    (halive : driver.failed = (net.drivers i).failed) (hreserved : driver.Reserved)
    (hlink : OnlyLink net next j i channel)
    (hstream : TcpDriver.OnlyStream (net.drivers i) driver j channel)
    (hwrites : (driver.peers j channel).writes = ((net.drivers i).peers j channel).writes)
    (hinbox : driver.receivers j channel = (net.drivers i).receivers j channel)
    (hexact : (next.link j i channel).Exact (Carried (crossing configs j i) limits)) :
    next.Sound count configs limits := by
  have hself : next.drivers i = driver := by rw [hdrivers, Function.update_self]
  have hothers : ∀ k, k ≠ i → next.drivers k = net.drivers k := by
    intro k hk
    rw [hdrivers, Function.update_of_ne hk]
  apply h.update hdrivers hfixed halive hreserved
  apply h.exact_of_link _ hexact
  intro a b c hne
  exact hlink.receiving hothers (hself ▸ hstream) (by rw [hself, hwrites]) (by rw [hself, hinbox])
    hne

/-! ## Sends -/

theorem Sound.send (hconnected : Connected count configs bootstraps drivers)
    (hcommon : ∀ i < count, (configs i).hello.limits = limits) (h : net.Sound count configs limits)
    {parcel : Parcel} (hstep : net.step count (.send i parcel) = some next) :
    next.Sound count configs limits := by
  unfold step at hstep
  by_cases hi : i < count
  · simp only [if_pos hi] at hstep
    have hreserved := (h.reserved i hi).trySend parcel
    have hfixed := (net.drivers i).fixed_trySend parcel
    cases hsend : (net.drivers i).trySend parcel with
    | mk driver result =>
      rw [hsend] at hstep hreserved hfixed
      cases result with
      | error error =>
        obtain ⟨shared, hdriver, -, -, -⟩ := TcpDriver.trySend_error hsend
        cases hstep
        have hreceivers : driver.receivers = (net.drivers i).receivers := by rw [hdriver]
        have hpeers : driver.peers = (net.drivers i).peers := by rw [hdriver]
        refine h.update rfl hfixed (by rw [hdriver]) hreserved ?_
        intro a ha b hb hab c
        have hsame : ∀ k, ((Function.update net.drivers i driver) k).receivers =
              (net.drivers k).receivers ∧
            ((Function.update net.drivers i driver) k).peers = (net.drivers k).peers := by
          intro k
          by_cases hk : k = i
          · rw [hk, Function.update_self]
            exact ⟨hreceivers, hpeers⟩
          · rw [Function.update_of_ne hk]
            exact ⟨rfl, rfl⟩
        have hlink := h.exact a ha b hb hab c
        simpa only [link, (hsame a).1, (hsame a).2, (hsame b).2] using hlink
      | ok ticket =>
        obtain ⟨hsent, shared, -, hdriver⟩ := TcpDriver.trySend_ok hsend
        have hmine := h.fixed i hi
        simp only [TcpDriver.fixed, Prod.mk.injEq] at hmine
        obtain ⟨hlocal, hrun, hmembers, hlimits⟩ := hmine
        have hmember := hsent.member
        rw [hmembers] at hmember
        have hfrom : parcel.source.get.toNat = i := by
          rw [hsent.source, hlocal, hconnected.index i hi]
        have hne : i ≠ parcel.destination.get.toNat := by
          intro hself
          apply hsent.remote
          rw [← hsent.source]
          exact localityId_ext (hself.symm.trans hfrom.symm)
        have hcompatible := hconnected.compatible hi hmember hne
        have hfits : parcel.Fits limits := hlimits ▸ hsent.fits
        have hcarried : Carried (crossing configs i parcel.destination.get.toNat) limits parcel :=
          { fits := hfits
            count := lt_of_le_of_lt hfits.segments (hcommon i hi ▸ hcompatible.mine.segments)
            runId := by rw [hsent.runId, hrun]; exact hcompatible.runId
            source := localityId_ext (by
              rw [hfrom, crossing]
              exact (UInt64.toNat_ofNat_of_lt' (hfrom ▸ parcel.source.get.toNat_lt)).symm)
            destination := localityId_ext (hconnected.index _ hmember).symm }
        cases hstep
        refine h.sending rfl hfixed (by rw [hdriver]) hreserved
          ⟨fun _ _ _ _ => rfl, fun a b c hother => PerLink.set_of_ne hother, fun _ _ _ _ => rfl,
            fun _ _ _ _ => rfl⟩
          ⟨fun p c hother => by rw [hdriver]; exact PerChannel.set_of_ne hother,
            fun _ _ _ => by rw [hdriver]⟩ (by rw [hdriver]) ?_
        have hexact := (h.exact i hi _ hmember hne parcel.channel).send hcarried ticket
          (show parcel.frame + lengthBytes = (wireFrame parcel).length by
            rw [length_wireFrame, Nat.add_comm])
        simpa only [link, Function.update_self, Function.update_of_ne (Ne.symm hne),
          PerLink.set_same, hdriver, PerChannel.set_same] using hexact
  · simp only [if_neg hi] at hstep
    cases hstep

/-! ## Services -/

theorem Sound.take (h : net.Sound count configs limits) {budget : Nat}
    (hstep : net.step count (.take i j channel budget) = some next) :
    next.Sound count configs limits := by
  unfold step at hstep
  by_cases hserves : net.Serves count i j
  · simp only [if_pos hserves] at hstep
    obtain ⟨hi, hj, hne, -⟩ := hserves
    have hreserved := (h.reserved i hi).take j channel budget
    have hfixed := (net.drivers i).fixed_takeSubmission j channel budget
    have hlimits : (net.drivers i).limits = limits := by
      have hmine := h.fixed i hi
      simp only [TcpDriver.fixed, Prod.mk.injEq] at hmine
      exact hmine.2.2.2
    have hexact := h.exact i hi j hj hne channel
    rcases (net.drivers i).takeSubmission_cases j channel budget with
      hsame | ⟨submission, later, hqueue, hencoded⟩
    · rw [hsame, Function.update_eq_self] at hstep
      cases hstep
      exact h
    have hcarried : Carried (crossing configs i j) limits submission.parcel := by
      obtain ⟨done, busy, -, -, haccepted⟩ := hexact.sender
      refine hexact.carried (submission.ticket, submission.parcel) ?_
      rw [haccepted]
      simp only [link, hqueue, List.map_cons, List.mem_append, List.mem_cons, true_or, or_true]
    have hencode := @encodeSubmission_of_fits submission limits hcarried.fits hcarried.count
    rcases hencoded with ⟨frame, hframe, htaken⟩ | ⟨error, hfailed, -, -⟩
    · rw [hlimits, hencode] at hframe
      cases hframe
      rw [htaken] at hstep hreserved hfixed
      cases hstep
      refine h.sending rfl hfixed rfl hreserved
        ⟨fun _ _ _ _ => rfl, fun _ _ _ _ => rfl, fun _ _ _ _ => rfl, fun _ _ _ _ => rfl⟩
        ⟨fun p c hother => PerChannel.set_of_ne hother,
          fun p c hother => PerChannel.set_of_ne hother⟩ (by simp) ?_
      simpa only [link, Function.update_self, Function.update_of_ne (Ne.symm hne),
        PerChannel.set_same] using hexact.take hqueue
    · rw [hlimits, hencode] at hfailed
      cases hfailed
  · simp only [if_neg hserves] at hstep
    cases hstep

theorem Sound.write (h : net.Sound count configs limits) {written : Nat}
    (hstep : net.step count (.write i j channel written) = some next) :
    next.Sound count configs limits := by
  unfold step at hstep
  cases hwrites : ((net.drivers i).peers j channel).writes with
  | nil =>
    simp only [hwrites] at hstep
    cases hstep
  | cons frame later =>
    simp only [hwrites] at hstep
    by_cases hguard : net.Serves count i j ∧ 0 < written ∧
        frame.offset + written ≤ frame.bytes.length
    · rw [if_pos hguard] at hstep
      obtain ⟨⟨hi, hj, hne, -⟩, hpositive, hwithin⟩ := hguard
      have hreserved := (h.reserved i hi).write j channel (.wrote written)
      have hexact := h.exact i hi j hj hne channel
      unfold TcpDriver.writeStream serviceWrite at hstep hreserved
      simp only [hwrites, if_neg (show written ≠ 0 by omega)] at hstep hreserved
      by_cases hlast : frame.offset + written = frame.bytes.length
      · simp only [if_pos hlast, settle] at hstep hreserved
        cases hstep
        refine h.sending rfl rfl rfl hreserved
          ⟨fun a b c hother => PerLink.set_of_ne hother, fun _ _ _ _ => rfl,
            fun a b c hother => PerLink.set_of_ne hother, fun _ _ _ _ => rfl⟩
          ⟨fun _ _ _ => rfl, fun p c hother => PerChannel.set_of_ne hother⟩
          (by simp [TcpDriver.setStream]) ?_
        have hall : (frame.bytes.drop frame.offset).take written =
            frame.bytes.drop frame.offset := by
          apply List.take_of_length_le
          rw [List.length_drop]
          omega
        simpa only [link, Function.update_self, Function.update_of_ne (Ne.symm hne),
          PerChannel.set_same, PerLink.set_same, TcpDriver.setStream, hall, completedTickets,
          List.filterMap_cons, List.filterMap_nil] using hexact.writeLast hwrites
      · simp only [if_neg hlast, settle] at hstep hreserved
        cases hstep
        refine h.sending rfl rfl rfl hreserved
          ⟨fun a b c hother => PerLink.set_of_ne hother, fun _ _ _ _ => rfl,
            fun a b c hother => PerLink.set_of_ne hother, fun _ _ _ _ => rfl⟩
          ⟨fun _ _ _ => rfl, fun p c hother => PerChannel.set_of_ne hother⟩
          (by simp [TcpDriver.setStream]) ?_
        simpa only [link, Function.update_self, Function.update_of_ne (Ne.symm hne),
          PerChannel.set_same, PerLink.set_same, TcpDriver.setStream, completedTickets,
          List.filterMap_nil, List.append_nil] using
          hexact.writePartial hwrites (show frame.offset + written < frame.bytes.length by omega)
    · rw [if_neg hguard] at hstep
      cases hstep

/-- What a read that fits the buffer does to the direction it reads: it hands out some of
    the parcels still to come, at most `budget`, and fewer only if the next one is not
    complete. -/
theorem Sound.read_link (hlimits : limits.maxFrameBytes + lengthBytes < u64Bound)
    (h : net.Sound count configs limits) {budget : Nat} {chunks : List (List UInt8)}
    (hroom : net.Roomy limits (.read i j channel budget chunks))
    (hserves : net.Serves count i j) (hchunks : ∀ chunk ∈ chunks, chunk ≠ [])
    (hwire : chunks.flatten <+: net.wire j i channel) :
    ∃ found more left, (net.link j i channel).accepted.map Prod.snd =
        (net.link j i channel).delivered ++ (found ++ more) ∧
      (net.link j i channel).read ++ chunks.flatten = found.flatMap wireFrame ++ left ∧
      (net.drivers i).readStream j channel budget (chunks.map .data) =
        ((net.drivers i).setStream j channel { (net.drivers i).peers j channel with read := left },
          found.map .incoming, .ok (decide (chunks ≠ []))) ∧
      found.length ≤ budget ∧
      (found.length < budget → ∀ parcel ∈ more.head?, left.length < (wireFrame parcel).length) := by
  obtain ⟨hi, hj, hne, -⟩ := hserves
  obtain ⟨beyond, hbeyond⟩ := hwire
  have hexact := h.exact j hj i hi (Ne.symm hne) channel
  have hmine := h.fixed i hi
  simp only [TcpDriver.fixed, Prod.mk.injEq] at hmine
  have hidentity : (net.drivers i).identity j = crossing configs j i := by
    rw [TcpDriver.identity, crossing, hmine.1, hmine.2.1]
  obtain ⟨rest, hdelivered, hbytes⟩ := hexact.receiver
  have hcarried : ∀ parcel ∈ rest, Carried (crossing configs j i) limits parcel := by
    intro parcel hmem
    have hall : parcel ∈ (net.link j i channel).accepted.map Prod.snd := by
      rw [hdelivered]
      exact List.mem_append_right _ hmem
    obtain ⟨entry, hentry, rfl⟩ := List.mem_map.mp hall
    exact hexact.carried entry hentry
  have hstream : ((net.drivers i).peers j channel).read ++ chunks.flatten ++
      (beyond ++ (net.link j i channel).unsent) = rest.flatMap wireFrame := by
    rw [← hbytes]
    simp only [link, ← hbeyond, List.append_assoc]
  obtain ⟨found, more, left, hrest, hfound, hserve, -, hcount, hshort⟩ :=
    serviceRead_stream hlimits hcarried hchunks hroom budget hstream
  refine ⟨found, more, left, by rw [hdelivered, hrest], hfound, ?_, hcount, hshort⟩
  rw [← hidentity, ← hmine.2.2.2] at hserve
  rw [TcpDriver.readStream, hserve]

theorem Sound.read (hlimits : limits.maxFrameBytes + lengthBytes < u64Bound)
    (h : net.Sound count configs limits) {budget : Nat} {chunks : List (List UInt8)}
    (hroom : net.Roomy limits (.read i j channel budget chunks))
    (hstep : net.step count (.read i j channel budget chunks) = some next) :
    next.Sound count configs limits := by
  unfold step at hstep
  dsimp only at hstep
  by_cases hguard : net.Serves count i j ∧ (∀ chunk ∈ chunks, chunk ≠ []) ∧
      chunks.flatten <+: net.wire j i channel
  · rw [if_pos hguard] at hstep
    obtain ⟨hserves, hchunks, hwire⟩ := hguard
    obtain ⟨found, more, left, hmore, hfound, hserve, -, -⟩ :=
      h.read_link hlimits hroom hserves hchunks hwire
    obtain ⟨hi, hj, hne, -⟩ := hserves
    obtain ⟨beyond, hbeyond⟩ := hwire
    have hreserved := (h.reserved i hi).read j channel budget (chunks.map .data)
    rw [hserve] at hreserved
    simp only [hserve, settle] at hstep
    cases hstep
    refine h.receiving rfl rfl rfl hreserved
      ⟨fun a b c hother => PerLink.set_of_ne hother, fun _ _ _ _ => rfl, fun _ _ _ _ => rfl,
        fun a b c hother => PerLink.set_of_ne hother⟩
      ⟨fun _ _ _ => rfl, fun p c hother => PerChannel.set_of_ne hother⟩
      (by simp [TcpDriver.setStream]) rfl ?_
    have hdrop : (net.wire j i channel).drop chunks.flatten.length = beyond := by
      rw [← hbeyond, List.drop_left]
    have hafter := (h.exact j hj i hi (Ne.symm hne) channel).read
      (show (net.link j i channel).wire = chunks.flatten ++ beyond from hbeyond.symm) hfound
      ⟨more, hmore⟩
    simpa only [link, Function.update_self, Function.update_of_ne (Ne.symm hne),
      PerChannel.set_same, PerLink.set_same, TcpDriver.setStream, hdrop,
      incomingParcels_map] using hafter
  · rw [if_neg hguard] at hstep
    cases hstep

/-! ## Runs -/

theorem Sound.step (hconnected : Connected count configs bootstraps drivers)
    (hcommon : ∀ i < count, (configs i).hello.limits = limits)
    (hlimits : limits.maxFrameBytes + lengthBytes < u64Bound) (h : net.Sound count configs limits)
    {action : Action} (hroom : net.Roomy limits action)
    (hstep : net.step count action = some next) : next.Sound count configs limits := by
  cases action with
  | send member parcel => exact h.send hconnected hcommon hstep
  | take member peer channel budget => exact h.take hstep
  | write member peer channel written => exact h.write hstep
  | read member peer channel budget chunks => exact h.read hlimits hroom hstep

theorem sound_start (hconnected : Connected count configs bootstraps drivers)
    (hcommon : ∀ i < count, (configs i).hello.limits = limits) :
    (start drivers).Sound count configs limits := by
  have hfresh : ∀ i < count, ∃ capabilities,
      drivers i = TcpDriver.fresh (configs i) capabilities :=
    fun i hi => (connect_ok (hconnected.connected i hi)).1
  refine ⟨?_, ?_, ?_, ?_⟩
  · intro i hi
    rw [← hcommon i hi]
    exact hconnected.fixed hi []
  · intro i hi
    obtain ⟨capabilities, hdriver⟩ := hfresh i hi
    change (drivers i).failed = none
    rw [hdriver]
    rfl
  · intro i hi
    obtain ⟨capabilities, hdriver⟩ := hfresh i hi
    change (drivers i).Reserved
    rw [hdriver]
    exact ⟨fun _ => rfl, fun _ _ => rfl⟩
  · intro i hi j hj _ channel
    obtain ⟨capabilities, hi⟩ := hfresh i hi
    obtain ⟨capabilities', hj⟩ := hfresh j hj
    have hlink : (start drivers).link i j channel = ⟨[], [], [], [], [], [], []⟩ := by
      simp only [link, start, hi, hj, TcpDriver.fresh]
    rw [hlink]
    exact ⟨by simp, ⟨[], [], rfl, .nil, rfl⟩, by simp, ⟨[], rfl, rfl⟩⟩

/-- The invariant over whole runs. -/
theorem run_sound (hconnected : Connected count configs bootstraps drivers)
    (hcommon : ∀ i < count, (configs i).hello.limits = limits)
    (hlimits : limits.maxFrameBytes + lengthBytes < u64Bound) {actions : List Action}
    (hroom : Along (Net.step count) (Roomy limits) (start drivers) actions)
    (hrun : exec (Net.step count) (start drivers) actions = some net) :
    net.Sound count configs limits :=
  exec_invariant (fun net => net.Sound count configs limits)
    (fun _ _ _ h hcond hstep => h.step hconnected hcommon hlimits hcond hstep)
    (sound_start hconnected hcommon) hroom hrun

/-- Whatever one read step does, it hands out the next parcels in order, and leaves no
    complete frame in the buffer unless the budget ran out. -/
theorem Sound.read_step (hlimits : limits.maxFrameBytes + lengthBytes < u64Bound)
    (h : net.Sound count configs limits) {budget : Nat} {chunks : List (List UInt8)}
    (hroom : net.Roomy limits (.read i j channel budget chunks))
    (hstep : net.step count (.read i j channel budget chunks) = some next) :
    ∃ found rest, next.delivered j i channel = net.delivered j i channel ++ found ∧
      (next.accepted j i channel).map Prod.snd = next.delivered j i channel ++ rest ∧
      found.length ≤ budget ∧ (found.length < budget → ∀ parcel ∈ rest.head?,
        ((next.drivers i).peers j channel).read.length < (wireFrame parcel).length) := by
  unfold Net.step at hstep
  dsimp only at hstep
  by_cases hguard : net.Serves count i j ∧ (∀ chunk ∈ chunks, chunk ≠ []) ∧
      chunks.flatten <+: net.wire j i channel
  · rw [if_pos hguard] at hstep
    obtain ⟨hserves, hchunks, hwire⟩ := hguard
    obtain ⟨found, more, left, hmore, -, hserve, hcount, hshort⟩ :=
      h.read_link hlimits hroom hserves hchunks hwire
    simp only [hserve, settle] at hstep
    cases hstep
    refine ⟨found, more, by simp only [PerLink.set_same, incomingParcels_map], ?_, hcount, ?_⟩
    · simp only [PerLink.set_same, incomingParcels_map, List.append_assoc]
      exact hmore
    · simpa only [Function.update_self, TcpDriver.setStream, PerChannel.set_same] using hshort
  · rw [if_neg hguard] at hstep
    cases hstep

/-- In every run of connected members with common limits in which each read finds no more
    than its buffer has room for: no driver fails and what each has reserved is what its
    unfinished frames hold; in each direction of each stream the accepted parcels are
    completed in order, each when its last byte is written, and handed out in order, each
    once; they are all handed out when no byte is left, and a read withholds a complete
    frame only when its budget is used up. -/
theorem framing_independent_of_cuts (hconnected : Connected count configs bootstraps drivers)
    (hcommon : ∀ i < count, (configs i).hello.limits = limits)
    (hlimits : limits.maxFrameBytes + lengthBytes < u64Bound) {actions : List Action}
    (hroom : Along (Net.step count) (Roomy limits) (start drivers) actions)
    (hrun : exec (Net.step count) (start drivers) actions = some net) :
    (∀ i < count, (net.drivers i).failed = none ∧ (net.drivers i).Reserved) ∧
      ∀ i < count, ∀ j < count, i ≠ j → ∀ channel,
        (net.link i j channel).Exact (Carried (crossing configs i j) limits) ∧
        ((net.link i j channel).read = [] → (net.link i j channel).wire = [] →
          (net.link i j channel).unsent = [] →
          net.delivered i j channel = (net.accepted i j channel).map Prod.snd) ∧
        ∀ budget chunks next, net.Roomy limits (.read j i channel budget chunks) →
          net.step count (.read j i channel budget chunks) = some next →
          ∃ found rest, next.delivered i j channel = net.delivered i j channel ++ found ∧
            (next.accepted i j channel).map Prod.snd = next.delivered i j channel ++ rest ∧
            found.length ≤ budget ∧ (found.length < budget → ∀ parcel ∈ rest.head?,
              ((next.drivers j).peers i channel).read.length < (wireFrame parcel).length) := by
  have hsound := run_sound hconnected hcommon hlimits hroom hrun
  refine ⟨fun i hi => ⟨hsound.alive i hi, hsound.reserved i hi⟩, ?_⟩
  intro i hi j hj hne channel
  have hexact := hsound.exact i hi j hj hne channel
  refine ⟨hexact, hexact.drained, ?_⟩
  intro budget chunks next hfits hstep
  exact hsound.read_step hlimits hfits hstep

/-! ### Two frames at once -/

/-- Two members with common limits, under which one frame of 95 bytes fits the buffer of
    108 and two do not. -/
def pairConfig (i : Nat) : TcpConfig :=
  { sampleConfig i with
    hello := { (sampleConfig i).hello with limits := ⟨100, 1, 1, 2, 400, 100⟩ } }

def pairBootstrap : Bootstrap where
  bound := .ok ()
  dialled := fun peer channel =>
    writeBootstrap (pairConfig peer).localId channel (pairConfig peer).hello
  accepted := channels.map fun channel =>
    writeBootstrap (pairConfig 1).localId channel (pairConfig 1).hello

def pairDriver (i : Nat) : TcpDriver := TcpDriver.fresh (pairConfig i) 0

set_option maxRecDepth 10000 in
theorem pair_connected : Connected 2 pairConfig (fun _ => pairBootstrap) pairDriver where
  index
    | 0, _ => rfl
    | 1, _ => rfl
  members _ _ := rfl
  dialled _ _ _ _ _ := rfl
  connected
    | 0, _ => rfl
    | 1, _ => rfl

/-- A parcel without segments, and another. -/
def pairParcel (message : BitVec 128) (h : message ≠ 0) : Parcel :=
  { sampleParcel [] with messageId := ⟨message, h⟩, segments := [] }

def pairParcels : List Parcel := [pairParcel 1 u128_one, pairParcel 2 u128_two]

/-- Member 1 sends both parcels and writes both frames. -/
def pairSends : List Action :=
  [.send 1 (pairParcel 1 u128_one), .send 1 (pairParcel 2 u128_two),
    .take 1 0 .action 4, .write 1 0 .action 95, .take 1 0 .action 4, .write 1 0 .action 90,
    .write 1 0 .action 5]

/-- Member 0 reads the bytes in two calls, the cut inside the second frame. -/
def pairReads : List Action :=
  [.read 0 1 .action 4 [(pairParcels.flatMap wireFrame).take 40,
      ((pairParcels.flatMap wireFrame).drop 40).take 58],
    .read 0 1 .action 4 [(pairParcels.flatMap wireFrame).drop 98]]

theorem pair_runs : (exec (Net.step 2) (start pairDriver) (pairSends ++ pairReads)).isSome := by
  decide +kernel

/-- Cut that way, both parcels arrive. -/
theorem framing_independent_of_cuts_pair :
    ((exec (Net.step 2) (start pairDriver) (pairSends ++ pairReads)).get pair_runs).delivered
      1 0 .action = pairParcels :=
  ((framing_independent_of_cuts pair_connected (fun _ _ => rfl) (by decide)
    (by decide +kernel) (Option.some_get pair_runs).symm).2 1 (by decide) 0 (by decide) (by decide)
    .action).2.1 (by decide +kernel) (by decide +kernel) (by decide +kernel) |>.trans
      (by decide +kernel)

/-- Arriving together before one call, they fail the reader. -/
theorem frames_at_once_fail :
    ((exec (Net.step 2) (start pairDriver)
        (pairSends ++ [.read 0 1 .action 4 [pairParcels.flatMap wireFrame]])).map fun net =>
      ((net.accepted 1 0 .action).map Prod.snd, net.delivered 1 0 .action,
        (net.drivers 0).failed)) =
      some (pairParcels, [], some (.byteLimit 190 108)) := by
  decide +kernel

end Net

end Hataori.Transport
