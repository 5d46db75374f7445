import Hataori.Placement.Phases

/-!
# How the placement collectives end

The transfers of the three operations bring every rank what it is to return, and the phases
after the preflight end with the verdict of the first phase in which a rank failed.
-/

namespace Hataori.Placement

open Lib.Ranks Lib.Confluence Hataori.Pmap

variable {n : Nat} {T α ε γ : Type}

/-! ## The phases after the preflight -/

/-- The error of the first phase after the preflight that has one. -/
def phaseError (callers : Fin n → Caller T) : Option PlacementError :=
  (verdict (encodeFailures callers)).or (verdict (decodeFailures callers))

/-- What a call returns: the error of the ranks, or what there is without one. -/
def settled (error : Option PlacementError) (result : α) : Except PlacementError α :=
  match error with
  | some error => .error error
  | none => .ok result

/-- However the ranks go on, their transfers leave each with its failure, and with what its
    result is made of where none has one. -/
def Transfers (transfer : Fin n → Process n (Option Failure × γ))
    (failures : Fin n → Option Failure) (finish : Fin n → γ → Option α) (result : Fin n → α) :
    Prop :=
  ∀ (β : Type) (before : World n β) (next : Fin n → Option Failure × γ → Process n β),
    (∀ source destination tag, before.channels source destination tag = []) →
    (∀ rank, before.procs rank = (transfer rank).bind (next rank)) →
    ∃ (after : World n β) (kept : Fin n → γ), Leads before after ∧ after.channels = before.channels ∧
      (∀ rank, after.procs rank = next rank (failures rank, kept rank)) ∧
      ((∀ rank, failures rank = none) → ∀ rank, finish rank (kept rank) = some (result rank))

/-- All ranks end with the verdict of the first phase that has one. -/
theorem leads_transferred [NeZero n] {β : Type} {config : World n β} {alone : Fin n → Option α}
    {prepare : Fin n → Option (Option Failure × ε)} (encoded : Fin n → ε)
    {transfer : Fin n → ε → Process n (Option Failure × γ)} {finish : Fin n → γ → Option α}
    {result : Fin n → α} {encodes decodes : Fin n → Option Failure}
    {next : Fin n → Except PlacementError α → Process n β}
    (halone : n = 1 → ∀ rank, alone rank = some (result rank) ∧ encodes rank = none ∧
      decodes rank = none)
    (hprepare : n ≠ 1 → ∀ rank, prepare rank = some (encodes rank, encoded rank))
    (htransfer : n ≠ 1 → (∀ rank, encodes rank = none) →
      Transfers (fun rank => transfer rank (encoded rank)) decodes finish result)
    (hempty : ∀ source destination tag, config.channels source destination tag = [])
    (h : ∀ rank, config.procs rank =
      (transferred rank (alone rank) (prepare rank) (transfer rank) (finish rank)).bind
        (next rank)) :
    ∃ after, Leads config after ∧ after.channels = config.channels ∧ ∀ rank,
      after.procs rank =
        next rank (settled ((verdict encodes).or (verdict decodes)) (result rank)) := by
  by_cases hone : n = 1
  · refine ⟨config, .refl config, rfl, fun rank => ?_⟩
    have hencodes := verdict_eq_none.mpr fun rank => (halone hone rank).2.1
    have hdecodes := verdict_eq_none.mpr fun rank => (halone hone rank).2.2
    rw [h rank, hencodes, hdecodes]
    unfold transferred
    rw [if_pos hone, (halone hone rank).1]
    rfl
  · have hconverges : ∀ rank, config.procs rank = (converge rank (encodes rank)).bind fun
        | some error => next rank (.error error)
        | none => ((transfer rank (encoded rank)).bind fun found =>
          (converge rank found.1).bind fun
            | some error => .done (.error error)
            | none => orAbort (finish rank found.2)).bind (next rank) := by
      intro rank
      rw [h rank]
      unfold transferred
      rw [if_neg hone, hprepare hone rank]
      dsimp only
      rw [Proc.bind_eq, Proc.bind_assoc]
      congr 1
      funext found
      cases found <;> rfl
    obtain ⟨mid, hmid, hmidChannels, hmidProcs⟩ := leads_converge hconverges
    cases hencodes : verdict encodes with
    | some error =>
      refine ⟨mid, hmid, hmidChannels, fun rank => ?_⟩
      rw [hmidProcs rank, hencodes]
      rfl
    | none =>
      obtain ⟨moved, kept, hmoved, hmovedChannels, hmovedProcs, hfinish⟩ :=
        htransfer hone (verdict_eq_none.mp hencodes) β mid
          (fun rank found => ((converge rank found.1).bind fun
            | some error => .done (.error error)
            | none => orAbort (finish rank found.2)).bind (next rank))
          (fun source destination tag => by rw [hmidChannels, hempty])
          (fun rank => by rw [hmidProcs rank, hencodes, Proc.bind_assoc])
      obtain ⟨after, hafter, hafterChannels, hafterProcs⟩ :=
        leads_converge fun rank => (hmovedProcs rank).trans (Proc.bind_assoc _ _ _)
      refine ⟨after, (hmid.trans hmoved).trans hafter,
        hafterChannels.trans (hmovedChannels.trans hmidChannels), fun rank => ?_⟩
      rw [hafterProcs rank]
      cases hdecodes : verdict decodes with
      | some error => rfl
      | none =>
        dsimp only
        rw [hfinish (verdict_eq_none.mp hdecodes) rank]
        rfl

/-! ## What a rank has for the others -/

theorem exists_other (hmany : n ≠ 1) (rank : Fin n) : ∃ other, other ≠ rank := by
  have : Nontrivial (Fin n) := Fin.nontrivial_iff_two_le.mpr (by have := rank.isLt; omega)
  exact exists_ne rank

theorem outgoing_self (caller : Caller T) (rank : Fin n) : caller.outgoing rank rank = none := by
  unfold Caller.outgoing
  cases caller.call <;> simp

/-- A rank alone in the world has no failure. -/
theorem failures_alone (callers : Fin n → Caller T) (hone : n = 1) (rank : Fin n) :
    encodeFailures callers rank = none ∧ decodeFailures callers rank = none := by
  subst hone
  constructor
  · refine List.findSome?_eq_none_iff.mpr fun destination _ => ?_
    rw [Subsingleton.elim destination rank, outgoing_self]
    rfl
  · refine List.findSome?_eq_none_iff.mpr fun source _ => ?_
    rw [decodeFailure, Subsingleton.elim source rank, outgoing_self]
    rfl

section Operations

variable {callers : Fin n → Caller T} {root : Fin n}

theorem encodeFailures_of_outgoing {rank : Fin n}
    (h : ∀ destination, (callers rank).outgoing rank destination = none) :
    encodeFailures callers rank = none :=
  List.findSome?_eq_none_iff.mpr fun destination _ => by rw [h destination]; rfl

/-- The only failure a rank can have in the decoding phase. -/
theorem decodeFailures_only {rank : Fin n} (source : Fin n)
    (h : ∀ other, other ≠ source → (callers other).outgoing other rank = none) :
    decodeFailures callers rank = decodeFailure callers rank source :=
  findSome?_only source fun other hother => by rw [decodeFailure, h other hother]; rfl

/-! ### From the root -/

/-- The root has a value for every other rank, and no other rank has one. -/
def FromRoot (callers : Fin n → Caller T) (root : Fin n) (sent : Fin n → T) : Prop :=
  ∀ source rank, (callers source).outgoing source rank =
    if source = root ∧ rank ≠ root then some (sent rank) else none

section FromRoot

variable {sent : Fin n → T} {payload : Fin n → List UInt8}

theorem decodeFailures_root (h : FromRoot callers root sent) :
    decodeFailures callers root = none := by
  rw [decodeFailures_only root, decodeFailure, outgoing_self]
  · rfl
  · exact fun other hother => by rw [h, if_neg fun hboth => hother hboth.1]

theorem decodeFailures_other (h : FromRoot callers root sent) {rank : Fin n} (hrank : rank ≠ root)
    (hencode : encode (callers root).codec (sent rank) = .ok (payload rank)) :
    decodeFailures callers rank =
      failed (wireFailure (decodePayload (callers rank).codec (payload rank))) := by
  rw [decodeFailures_only root, decodeFailure, h, if_pos ⟨rfl, hrank⟩]
  · simp only [Option.bind_some, hencode]
  · exact fun other hother => by rw [h, if_neg fun hboth => hother hboth.1]

/-- What a rank keeps of the frame it received. -/
theorem receiveValue_eq (codec : Codec T) (operation : Operation) (root : Fin n) :
    receiveValue codec operation root.val = (receiveFrame root).bind fun frame =>
      .done (failed (decodeReceived codec frame.1 frame.2 operation),
        (decodeReceived codec frame.1 frame.2 operation).toOption) := by
  unfold receiveValue
  rw [processAtRank_val, Proc.bind_eq, Proc.done_bind, Proc.bind_eq]
  congr 1
  funext frame
  obtain ⟨header, payload⟩ := frame
  dsimp only
  cases decodeReceived codec header payload operation <;> rfl

/-- The transfers of `broadcast` and of `scatter`. -/
theorem transfers_fromRoot {operation : Operation} {own : Fin n → Option T}
    (payloads : Fin n → Fin n → Option (List UInt8)) (h : FromRoot callers root sent)
    (hround : RoundTrip callers)
    (hencode : ∀ rank, rank ≠ root →
      encode (callers root).codec (sent rank) = .ok (payload rank))
    (hpayloads : ∀ rank, rank ≠ root → payloads root rank = some (payload rank))
    (hown : own root = some (sent root)) :
    Transfers
      (fun rank => if (rank.val : Int) = root.val then do
          sendFrames operation root.val (payloads rank) (List.finRange n)
          return (none, none)
        else receiveValue (callers rank).codec operation root.val)
      (decodeFailures callers)
      (fun rank received => if (rank.val : Int) = root.val then own rank else received)
      sent := by
  intro β before next hempty hprocs
  dsimp only at hprocs
  have hlengths : ∀ rank, rank ≠ root → (payload rank).length ≤ maxWireBytes :=
    fun rank hrank => (encode_ok (hencode rank hrank)).2
  have hsend : before.procs root =
      (sendFrames operation root.val (payloads root) (List.finRange n)).bind fun _ =>
        next root (none, none) := by
    rw [hprocs root, if_pos rfl, Proc.bind_eq, Proc.bind_assoc]
    rfl
  have hreceive : ∀ rank, rank ≠ root → before.procs rank =
      (receiveFrame root).bind fun frame => next rank
        (failed (decodeReceived (callers rank).codec frame.1 frame.2 operation),
          (decodeReceived (callers rank).codec frame.1 frame.2 operation).toOption) := by
    intro rank hrank
    rw [hprocs rank, if_neg (by simpa [Fin.ext_iff] using hrank), receiveValue_eq,
      Proc.bind_assoc]
    rfl
  obtain ⟨after, hafter, hchannels, hroot, hreached, -⟩ := leads_sendFrames
    (List.nodup_finRange n) (fun rank _ hrank => ⟨hpayloads rank hrank, hlengths rank hrank⟩)
    hsend (fun rank _ hrank => hreceive rank hrank) fun rank tag => hempty root rank tag
  refine ⟨after, fun rank => if rank = root then none
    else (wireFailure (decodePayload (callers rank).codec (payload rank))).toOption,
    hafter, hchannels, fun rank => ?_, fun hdecodes rank => ?_⟩
  · by_cases hrank : rank = root
    · subst hrank
      rw [hroot, decodeFailures_root h]
      dsimp only
      rw [if_pos rfl]
    · rw [hreached rank (List.mem_finRange rank) hrank,
        decodeFailures_other h hrank (hencode rank hrank)]
      dsimp only
      rw [if_neg hrank, decodeReceived_frame _ (hlengths rank hrank)]
  · dsimp only
    by_cases hrank : rank = root
    · subst hrank
      rw [if_pos rfl, hown]
    · rw [if_neg (by simpa [Fin.ext_iff] using hrank), if_neg hrank]
      have hfailed := hdecodes rank
      rw [decodeFailures_other h hrank (hencode rank hrank)] at hfailed
      obtain ⟨found, hfound⟩ := failed_eq_none hfailed
      rw [hfound, decode_ok hround (hencode rank hrank) hfound]
      rfl

end FromRoot

/-! ### Broadcast -/

/-- Every rank broadcasts from the same root, which has the value. -/
structure Broadcasts (callers : Fin n → Caller T) (root : Fin n) (values : Fin n → Option T)
    (value : T) : Prop where
  calls : ∀ rank, (callers rank).call = .broadcast root.val (values rank)
  atRoot : values root = some value

section Broadcast

variable {values : Fin n → Option T} {value : T}

theorem outgoing_broadcast (h : Broadcasts callers root values value) (rank destination : Fin n) :
    (callers rank).outgoing rank destination =
      if rank = root ∧ destination ≠ root then some value else none := by
  unfold Caller.outgoing
  rw [h.calls rank]
  simp only [Int.natCast_inj, Fin.val_inj]
  by_cases hrank : rank = root
  · subst hrank
    rw [h.atRoot]
  · rw [if_neg fun hboth => hrank hboth.1, if_neg fun hboth => hrank hboth.1]

theorem encodeFailures_broadcast_root (h : Broadcasts callers root values value) (hmany : n ≠ 1) :
    encodeFailures callers root = failed (encode (callers root).codec value) := by
  obtain ⟨other, hother⟩ := exists_other hmany root
  refine findSome?_same ⟨other, ?_⟩ fun destination => ?_
  · rw [outgoing_broadcast h, if_pos ⟨rfl, hother⟩]
    rfl
  · rw [outgoing_broadcast h]
    by_cases hdestination : destination = root
    · exact .inl (by rw [if_neg fun hboth => hboth.2 hdestination]; rfl)
    · exact .inr (by rw [if_pos ⟨rfl, hdestination⟩]; rfl)

theorem encodeBroadcast_fst (h : Broadcasts callers root values value) (hmany : n ≠ 1)
    (rank : Fin n) :
    (encodeBroadcast (callers rank).codec rank root.val (values rank)).1 =
      encodeFailures callers rank := by
  unfold encodeBroadcast
  simp only [Int.natCast_inj, Fin.val_inj]
  by_cases hrank : rank = root
  · subst hrank
    rw [if_pos rfl, encodeFailures_broadcast_root h hmany, h.atRoot]
    dsimp only
    cases encode (callers rank).codec value <;> rfl
  · rw [if_neg hrank, encodeFailures_of_outgoing fun destination => ?_]
    rw [outgoing_broadcast h, if_neg fun hboth => hrank hboth.1]

theorem encodeBroadcast_snd (h : Broadcasts callers root values value) {bytes : List UInt8}
    (hencode : encode (callers root).codec value = .ok bytes) :
    (encodeBroadcast (callers root).codec root root.val (values root)).2 = some bytes := by
  unfold encodeBroadcast
  rw [if_pos rfl, h.atRoot]
  dsimp only
  rw [hencode]

/-- `broadcast` after its preflight gives every rank the value of the root. -/
theorem leads_broadcast [NeZero n] {β : Type} {config : World n β}
    {next : Fin n → Except PlacementError T → Process n β}
    (h : Broadcasts callers root values value) (hround : RoundTrip callers)
    (hempty : ∀ source destination tag, config.channels source destination tag = [])
    (hprocs : ∀ rank, config.procs rank =
      (broadcastPhases rank (callers rank).codec root.val (values rank)).bind (next rank)) :
    ∃ after, Leads config after ∧ after.channels = config.channels ∧ ∀ rank,
      after.procs rank = next rank (settled (phaseError callers) value) := by
  refine leads_transferred
    (fun rank => (encodeBroadcast (callers rank).codec rank root.val (values rank)).2)
    (fun hone rank => ?_)
    (fun hmany rank => congrArg some (Prod.ext (encodeBroadcast_fst h hmany rank) rfl))
    (fun hmany hencodes => ?_) hempty hprocs
  · subst hone
    rw [Subsingleton.elim rank root]
    exact ⟨h.atRoot, failures_alone callers rfl root⟩
  · have hroot := hencodes root
    rw [encodeFailures_broadcast_root h hmany] at hroot
    obtain ⟨bytes, hbytes⟩ := failed_eq_none hroot
    exact transfers_fromRoot
      (fun rank _ => (encodeBroadcast (callers rank).codec rank root.val (values rank)).2)
      (outgoing_broadcast h) hround (fun _ _ => hbytes)
      (fun _ _ => encodeBroadcast_snd h hbytes) h.atRoot

end Broadcast

/-! ### Scatter -/

/-- Every rank scatters from the same root, which has a shard for each. -/
structure Scatters (callers : Fin n → Caller T) (root : Fin n)
    (values : Fin n → Option (List T)) (shards : List T) : Prop where
  calls : ∀ rank, (callers rank).call = .scatter root.val (values rank)
  atRoot : values root = some shards
  whole : shards.length = n

section Scatter

variable {values : Fin n → Option (List T)} {shards : List T}

/-- The shard of a rank. -/
def Scatters.shard (h : Scatters callers root values shards) (rank : Fin n) : T :=
  shards.get ⟨rank.val, by rw [h.whole]; exact rank.isLt⟩

theorem Scatters.getElem?_shard (h : Scatters callers root values shards) (rank : Fin n) :
    shards[rank.val]? = some (h.shard rank) := by
  rw [Scatters.shard, List.get_eq_getElem, List.getElem?_eq_getElem]

theorem outgoing_scatter (h : Scatters callers root values shards) :
    FromRoot callers root h.shard := by
  intro source rank
  unfold Caller.outgoing
  rw [h.calls source]
  simp only [Int.natCast_inj, Fin.val_inj]
  by_cases hsource : source = root
  · subst hsource
    rw [h.atRoot, Option.bind_some, h.getElem?_shard]
  · rw [if_neg fun hboth => hsource hboth.1, if_neg fun hboth => hsource hboth.1]

/-- What the root makes of the shard of a rank. -/
theorem encodeShard_eq (h : Scatters callers root values shards) (codec : Codec T) :
    encodeShard codec shards =
      record fun destination : Fin n => encode codec (h.shard destination) := by
  funext state destination
  unfold encodeShard record
  rw [h.getElem?_shard]
  dsimp only
  cases encode codec (h.shard destination) <;> rfl

theorem preencodeScatter_eq (h : Scatters callers root values shards) (codec : Codec T) :
    preencodeScatter codec shards (root.val : Int) =
      ((List.finRange n).filter fun destination => decide (destination ≠ root)).foldl
        (record fun destination => encode codec (h.shard destination)) (none, fun _ => none) := by
  unfold preencodeScatter
  rw [encodeShard_eq h]
  simp only [ne_eq, Int.natCast_inj, Fin.val_inj]

theorem encodeFailures_scatter_root (h : Scatters callers root values shards) :
    encodeFailures callers root =
      (preencodeScatter (callers root).codec shards (root.val : Int) :
        Option Failure × (Fin n → Option (List UInt8))).1 := by
  rw [preencodeScatter_eq h, foldl_record_fst, Option.none_or, findSome?_filter, encodeFailures]
  congr 1
  funext destination
  rw [outgoing_scatter h]
  by_cases hdestination : destination = root
  · simp [hdestination]
  · simp [hdestination]

/-- Where the root does not fail, it has a frame for each of the others. -/
theorem preencodeScatter_snd (h : Scatters callers root values shards) {rank : Fin n}
    {bytes : List UInt8} (hrank : rank ≠ root)
    (hencode : encode (callers root).codec (h.shard rank) = .ok bytes) :
    (preencodeScatter (callers root).codec shards (root.val : Int) :
      Option Failure × (Fin n → Option (List UInt8))).2 rank = some bytes := by
  rw [preencodeScatter_eq h]
  refine foldl_record_snd _ _ (.inr ⟨?_, hencode⟩)
  simp [hrank]

theorem encode_shard (h : Scatters callers root values shards)
    (hencodes : encodeFailures callers root = none) {rank : Fin n} (hrank : rank ≠ root) :
    ∃ bytes, encode (callers root).codec (h.shard rank) = .ok bytes := by
  have hfailed := List.findSome?_eq_none_iff.mp hencodes rank (List.mem_finRange rank)
  rw [outgoing_scatter h, if_pos ⟨rfl, hrank⟩, Option.bind_some] at hfailed
  exact failed_eq_none hfailed

/-- `scatter` after its preflight gives every rank its shard. -/
theorem leads_scatter [NeZero n] {β : Type} {config : World n β}
    {next : Fin n → Except PlacementError T → Process n β}
    (h : Scatters callers root values shards) (hround : RoundTrip callers)
    (hempty : ∀ source destination tag, config.channels source destination tag = [])
    (hprocs : ∀ rank, config.procs rank =
      (scatterPhases rank (callers rank).codec root.val (values rank)).bind (next rank)) :
    ∃ after, Leads config after ∧ after.channels = config.channels ∧ ∀ rank,
      after.procs rank = next rank (settled (phaseError callers) (h.shard rank)) := by
  have hown : ((values root).bind fun shards => shards[root.val]?) = some (h.shard root) := by
    rw [h.atRoot, Option.bind_some, h.getElem?_shard]
  let encoded : Fin n → Fin n → Option (List UInt8) := fun rank => if rank = root then
    (preencodeScatter (callers root).codec shards (root.val : Int) :
      Option Failure × (Fin n → Option (List UInt8))).2 else fun _ => none
  refine leads_transferred encoded (fun hone rank => ?_) (fun hmany rank => ?_)
    (fun hmany hencodes => ?_) hempty hprocs
  · subst hone
    rw [Subsingleton.elim rank root]
    refine ⟨?_, failures_alone callers rfl root⟩
    rw [← hown, Subsingleton.elim root 0]
    rfl
  · by_cases hrank : rank = root
    · subst hrank
      rw [if_pos rfl, h.atRoot, encodeFailures_scatter_root h]
      simp only [encoded, if_pos, Option.map_some]
    · rw [if_neg (by simpa [Fin.ext_iff] using hrank), encodeFailures_of_outgoing fun other => ?_]
      · simp only [encoded, if_neg hrank]
      · rw [outgoing_scatter h, if_neg fun hboth => hrank hboth.1]
  · choose! payload hpayload using fun rank (hrank : rank ≠ root) =>
      encode_shard h (hencodes root) hrank
    refine transfers_fromRoot encoded (outgoing_scatter h) hround hpayload (fun rank hrank => ?_)
      hown
    simp only [encoded, if_pos]
    exact preencodeScatter_snd h hrank (hpayload rank hrank)

end Scatter

/-! ### Gather -/

/-- Every rank gathers at the same root. -/
def Gathers (callers : Fin n → Caller T) (root : Fin n) (values : Fin n → T) : Prop :=
  ∀ rank, (callers rank).call = .gather root.val (values rank)

section Gather

variable {values : Fin n → T} {payload : Fin n → List UInt8}

theorem outgoing_gather (h : Gathers callers root values) (source rank : Fin n) :
    (callers source).outgoing source rank =
      if rank = root ∧ source ≠ root then some (values source) else none := by
  unfold Caller.outgoing
  rw [h source]
  simp only [Int.natCast_inj, Fin.val_inj]
  by_cases hrank : rank = root
  · subst hrank
    rfl
  · rw [if_neg fun hboth => hrank hboth.1, if_neg fun hboth => hrank hboth.1]

theorem encodeFailures_gather_other (h : Gathers callers root values) {rank : Fin n}
    (hrank : rank ≠ root) :
    encodeFailures callers rank = failed (encode (callers rank).codec (values rank)) := by
  rw [encodeFailures, findSome?_only root fun other hother => ?_, outgoing_gather h,
    if_pos ⟨rfl, hrank⟩]
  · rfl
  · rw [outgoing_gather h, if_neg fun hboth => hother hboth.1]
    rfl

theorem encodeGather_fst (h : Gathers callers root values) (rank : Fin n) :
    (encodeGather (callers rank).codec rank root.val (values rank)).1 =
      encodeFailures callers rank := by
  unfold encodeGather
  by_cases hrank : rank = root
  · subst hrank
    rw [if_pos rfl, encodeFailures_of_outgoing fun other => ?_]
    rw [outgoing_gather h, if_neg fun hboth => hboth.2 rfl]
  · rw [if_neg (by simpa [Fin.ext_iff] using hrank), encodeFailures_gather_other h hrank]
    cases encode (callers rank).codec (values rank) <;> rfl

theorem encodeGather_snd {rank : Fin n} (hrank : rank ≠ root)
    (hencode : encode (callers rank).codec (values rank) = .ok (payload rank)) :
    (encodeGather (callers rank).codec rank root.val (values rank)).2 = some (payload rank) := by
  unfold encodeGather
  rw [if_neg (by simpa [Fin.ext_iff] using hrank), hencode]

theorem decodeFailures_gather_other (h : Gathers callers root values) {rank : Fin n}
    (hrank : rank ≠ root) : decodeFailures callers rank = none := by
  refine List.findSome?_eq_none_iff.mpr fun source _ => ?_
  rw [decodeFailure, outgoing_gather h, if_neg fun hboth => hrank hboth.1]
  rfl

theorem decodeFailures_gather_root (h : Gathers callers root values)
    (hencode : ∀ rank, rank ≠ root →
      encode (callers rank).codec (values rank) = .ok (payload rank))
    (kept : Fin n → Option T) :
    decodeFailures callers root =
      (collect (callers root).codec root payload (List.finRange n) (none, kept)).1 := by
  rw [collect, foldl_record_fst, Option.none_or, findSome?_filter, decodeFailures]
  congr 1
  funext source
  rw [decodeFailure, outgoing_gather h]
  by_cases hsource : source = root
  · simp [hsource]
  · simp [hsource, hencode source hsource]

/-- Where the root does not fail, it has the value of every rank. -/
theorem collect_values (h : Gathers callers root values) (hround : RoundTrip callers)
    (hencode : ∀ rank, rank ≠ root →
      encode (callers rank).codec (values rank) = .ok (payload rank))
    (hdecodes : decodeFailures callers root = none) (rank : Fin n) :
    (collect (callers root).codec root payload (List.finRange n)
      (none, Function.update (fun _ => none) root (some (values root)))).2 rank =
        some (values rank) := by
  refine foldl_record_snd _ _ ?_
  by_cases hrank : rank = root
  · subst hrank
    exact .inl ⟨by simp, by simp⟩
  · refine .inr ⟨by simp [hrank], ?_⟩
    have hfailed := List.findSome?_eq_none_iff.mp hdecodes rank (List.mem_finRange rank)
    rw [decodeFailure, outgoing_gather h, if_pos ⟨rfl, hrank⟩, Option.bind_some,
      hencode rank hrank] at hfailed
    obtain ⟨found, hfound⟩ := failed_eq_none hfailed
    rw [hfound, decode_ok hround (hencode rank hrank) hfound]

/-- What a rank gets out of `gather`. -/
def gathered (root : Fin n) (values : Fin n → T) (rank : Fin n) : Option (List T) :=
  if rank = root then some ((List.finRange n).map values) else none

/-- The transfers of `gather`. -/
theorem transfers_gather (h : Gathers callers root values) (hround : RoundTrip callers)
    (hencode : ∀ rank, rank ≠ root →
      encode (callers rank).codec (values rank) = .ok (payload rank)) :
    Transfers
      (fun rank => if (rank.val : Int) = root.val then
          receiveFrames (callers rank).codec root.val (List.finRange n)
            (none, Function.update (fun _ => none) rank (some (values rank)))
        else do
          let destination ← processAtRank (root.val : Int)
          match (encodeGather (callers rank).codec rank root.val (values rank)).2 with
          | none => .abort
          | some payload => do
            sendFrame destination .gather payload
            return (none, fun _ => none))
      (decodeFailures callers)
      (fun rank found =>
        if (rank.val : Int) = root.val then ((List.finRange n).mapM found).map some else some none)
      (gathered root values) := by
  intro β before next hempty hprocs
  dsimp only at hprocs
  let nothing : Fin n → Option T := fun _ => none
  have hlengths : ∀ rank, rank ≠ root → (payload rank).length ≤ maxWireBytes :=
    fun rank hrank => (encode_ok (hencode rank hrank)).2
  have hreceive : before.procs root = (receiveFrames (callers root).codec root.val
      (List.finRange n) (none, Function.update nothing root (some (values root)))).bind
        (next root) := by
    rw [hprocs root, if_pos rfl]
  have hsend : ∀ rank, rank ≠ root → before.procs rank =
      (sendFrame root .gather (payload rank)).bind fun _ => next rank (none, nothing) := by
    intro rank hrank
    rw [hprocs rank, if_neg (by simpa [Fin.ext_iff] using hrank), processAtRank_val,
      encodeGather_snd hrank (hencode rank hrank), Proc.bind_eq, Proc.done_bind]
    dsimp only
    rw [Proc.bind_eq, Proc.bind_assoc]
    rfl
  obtain ⟨after, hafter, hchannels, hroot, hsent, -⟩ := leads_receiveFrames
    (List.nodup_finRange n) (fun rank _ hrank => hlengths rank hrank) hreceive
    (fun rank _ hrank => hsend rank hrank) fun rank tag => hempty rank root tag
  refine ⟨after, fun rank => if rank = root then
      (collect (callers root).codec root payload (List.finRange n)
        (none, Function.update nothing root (some (values root)))).2 else nothing,
    hafter, hchannels, fun rank => ?_, fun hdecodes rank => ?_⟩
  · dsimp only
    by_cases hrank : rank = root
    · subst hrank
      rw [hroot, if_pos rfl, decodeFailures_gather_root h hencode]
    · rw [hsent rank (List.mem_finRange rank) hrank, if_neg hrank,
        decodeFailures_gather_other h hrank]
  · dsimp only
    by_cases hrank : rank = root
    · subst hrank
      have hfound := funext (collect_values h hround hencode (hdecodes rank))
      rw [if_pos rfl, if_pos rfl, gathered, if_pos rfl, hfound]
      exact congrArg (Option.map some) List.mapM_pure
    · rw [if_neg (by simpa [Fin.ext_iff] using hrank), gathered, if_neg hrank]

/-- `gather` after its preflight gives the root all values, in the order of the ranks. -/
theorem leads_gather [NeZero n] {β : Type} {config : World n β}
    {next : Fin n → Except PlacementError (Option (List T)) → Process n β}
    (h : Gathers callers root values) (hround : RoundTrip callers)
    (hempty : ∀ source destination tag, config.channels source destination tag = [])
    (hprocs : ∀ rank, config.procs rank =
      (gatherPhases rank (callers rank).codec root.val (values rank)).bind (next rank)) :
    ∃ after, Leads config after ∧ after.channels = config.channels ∧ ∀ rank,
      after.procs rank = next rank (settled (phaseError callers) (gathered root values rank)) := by
  refine leads_transferred
    (fun rank => (encodeGather (callers rank).codec rank root.val (values rank)).2)
    (fun hone rank => ?_)
    (fun _ rank => congrArg some (Prod.ext (encodeGather_fst h rank) rfl))
    (fun _ hencodes => ?_) hempty hprocs
  · subst hone
    rw [gathered, if_pos (Subsingleton.elim rank root), Subsingleton.elim rank 0]
    exact ⟨rfl, failures_alone callers rfl 0⟩
  · choose! payload hpayload using fun rank (hrank : rank ≠ root) =>
      failed_eq_none ((encodeFailures_gather_other h hrank).symm.trans (hencodes rank))
    exact transfers_gather h hround hpayload

end Gather

end Operations

end Hataori.Placement
