import Hataori.Lib.Machine
import Hataori.Transport.Mpi

/-!
# Chunk streams

What `accept_chunk` makes of a stream of chunks. The slot of a stream holds the first chunks of
one transfer, in order and without a gap, whatever bytes arrive; the chunks that `next_chunk`
cuts a parcel into bring the parcel back with the last of them. `acceptChunkChecked` is
`accept_chunk` once more with every index, sum and difference checked: on a slot that can be
reached, no check fails.
-/

namespace Hataori.Transport

open Hataori.Runtime Lib.Bytes Lib.Machine

/-! ## Chunks -/

namespace Chunk

/-- The transfer a chunk belongs to. -/
def transfer (chunk : List UInt8) : Nat := field chunk 5 8

/-- The bytes of the whole transfer. -/
def total (chunk : List UInt8) : Nat := field chunk 13 8

/-- The position of the chunk in its transfer. -/
def index (chunk : List UInt8) : Nat := field chunk 21 4

/-- The number of chunks of the transfer. -/
def count (chunk : List UInt8) : Nat := field chunk 25 4

/-- The bytes after the header. -/
def payload (chunk : List UInt8) : List UInt8 := chunk.drop chunkHeaderBytes

/-- The bytes a chunk has to carry. -/
def expectedPayload (chunk : List UInt8) : Nat :=
  if index chunk + 1 = count chunk then total chunk - index chunk * chunkPayloadBytes
  else chunkPayloadBytes

/-- What `accept_chunk` checks of a chunk alone. -/
structure Fits (limits : ProtocolLimits) (chunk : List UInt8) : Prop where
  header : chunkHeaderBytes ≤ chunk.length
  transfer : Chunk.transfer chunk ≠ 0
  count : Chunk.count chunk = chunkCountOf (Chunk.total chunk)
  wide : chunkCountOf (Chunk.total chunk) < 2 ^ 32
  index : Chunk.index chunk < Chunk.count chunk
  total : Chunk.total chunk ≤ limits.maxFrameBytes
  payload : (Chunk.payload chunk).length = Chunk.expectedPayload chunk

end Chunk

/-- The first chunks of one transfer, in order. -/
structure Consecutive (own : List (List UInt8)) (transfer total : Nat) : Prop where
  header : ∀ chunk ∈ own, Chunk.transfer chunk = transfer ∧ Chunk.total chunk = total ∧
    Chunk.count chunk = chunkCountOf total
  index : own.map Chunk.index = List.range own.length

/-- The reassembly of the first chunks of a transfer. -/
structure Reassembly.Holds (limits : ProtocolLimits) (own : List (List UInt8))
    (state : Reassembly) : Prop where
  chunks : Consecutive own state.transfer state.total
  next : state.nextChunk = own.length
  bytes : state.bytes = own.flatMap Chunk.payload
  size : state.bytes.length = own.length * chunkPayloadBytes
  count : state.chunkCount = chunkCountOf state.total
  wide : chunkCountOf state.total < 2 ^ 32
  more : own.length < state.chunkCount
  total : state.total ≤ limits.maxFrameBytes
  transfer : state.transfer ≠ 0

/-- All chunks of one transfer. -/
structure Whole (limits : ProtocolLimits) (own : List (List UInt8)) (transfer total : Nat) :
    Prop where
  chunks : Consecutive own transfer total
  count : own.length = chunkCountOf total
  size : (own.flatMap Chunk.payload).length = total
  total : total ≤ limits.maxFrameBytes

/-- The slot of a stream is empty, or it holds chunks that came without a break. -/
def SlotHolds (limits : ProtocolLimits) (own : List (List UInt8)) : Option Reassembly → Prop
  | none => own = []
  | some state => own ≠ [] ∧ state.Holds limits own

/-- The parcel in the payloads of a transfer. -/
def decoded (limits : ProtocolLimits) (own : List (List UInt8)) :
    Except TransportError (Option Parcel) :=
  match decodeParcel (own.flatMap Chunk.payload) limits with
  | .error error => .error (.protocol error)
  | .ok parcel => .ok (some parcel)

/-- The reassembly that a first chunk opens. -/
def Reassembly.open (chunk : List UInt8) : Reassembly :=
  ⟨Chunk.transfer chunk, Chunk.total chunk, 0, Chunk.count chunk, []⟩

variable {limits : ProtocolLimits} {own : List (List UInt8)} {chunk : List UInt8}
  {state : Reassembly} {slot : Option Reassembly}

theorem Consecutive.snoc {transfer total : Nat} (h : Consecutive own transfer total)
    (htransfer : Chunk.transfer chunk = transfer) (htotal : Chunk.total chunk = total)
    (hcount : Chunk.count chunk = chunkCountOf total) (hindex : Chunk.index chunk = own.length) :
    Consecutive (own ++ [chunk]) transfer total where
  header := by
    intro other hmem
    rcases List.mem_append.mp hmem with hold | hnew
    · exact h.header other hold
    · rw [List.mem_singleton.mp hnew]
      exact ⟨htransfer, htotal, hcount⟩
  index := by
    rw [List.map_append, h.index, List.length_append, List.length_singleton, List.range_succ]
    simp [hindex]

/-- The buffer is shorter than the transfer. -/
theorem Reassembly.Holds.short (h : state.Holds limits own) :
    state.bytes.length < state.total := by
  have hmore := h.more
  have hcount := h.count
  rw [h.size]
  simp only [chunkCountOf, chunkPayloadBytes] at *
  omega

theorem Reassembly.holds_open (h : Chunk.Fits limits chunk) :
    (Reassembly.open chunk).Holds limits [] where
  chunks := ⟨by simp, rfl⟩
  next := rfl
  bytes := rfl
  size := by simp [Reassembly.open]
  count := h.count
  wide := h.wide
  more := (Nat.zero_le _).trans_lt h.index
  total := h.total
  transfer := h.transfer

/-- A chunk that continues a transfer either leaves it incomplete or completes it. -/
theorem extendReassembly_cases (hstate : state.Holds limits own) (hchunk : Chunk.Fits limits chunk) :
    ((state.transfer ≠ Chunk.transfer chunk ∨ state.total ≠ Chunk.total chunk ∨
      state.chunkCount ≠ Chunk.count chunk ∨ state.nextChunk ≠ Chunk.index chunk) ∧
      ∃ error, extendReassembly state (Chunk.transfer chunk) (Chunk.total chunk) (Chunk.index chunk)
      (Chunk.count chunk) (Chunk.payload chunk) limits = (some state, .error error)) ∨
    (∃ next, extendReassembly state (Chunk.transfer chunk) (Chunk.total chunk) (Chunk.index chunk)
      (Chunk.count chunk) (Chunk.payload chunk) limits = (some next, .ok none) ∧
        next.Holds limits (own ++ [chunk])) ∨
    (∃ transfer total, Whole limits (own ++ [chunk]) transfer total ∧
      extendReassembly state (Chunk.transfer chunk) (Chunk.total chunk) (Chunk.index chunk)
        (Chunk.count chunk) (Chunk.payload chunk) limits =
          (none, decoded limits (own ++ [chunk]))) := by
  unfold extendReassembly
  split
  · next hother => exact .inl ⟨hother, _, rfl⟩
  next hsame =>
  simp only [not_or, not_not] at hsame
  obtain ⟨htransfer, htotal, hcount, hindex⟩ := hsame
  have hown : Chunk.index chunk = own.length := hindex.symm.trans hstate.next
  have hchunks := hstate.chunks.snoc htransfer.symm htotal.symm
    (by rw [← hcount, hstate.count]) hown
  have hpayload := hchunk.payload
  have hbytes : state.bytes ++ Chunk.payload chunk = (own ++ [chunk]).flatMap Chunk.payload := by
    simp [hstate.bytes]
  have hlength : (state.bytes ++ Chunk.payload chunk).length =
      own.length * chunkPayloadBytes + Chunk.expectedPayload chunk := by
    rw [List.length_append, hstate.size, hpayload]
  have hmore := hstate.more
  have hstateCount := hstate.count
  dsimp only
  by_cases hlast : own.length + 1 = state.chunkCount
  · -- The last chunk fills the buffer up to the announced total.
    have hexpected : Chunk.expectedPayload chunk =
        state.total - own.length * chunkPayloadBytes := by
      rw [Chunk.expectedPayload, hown, ← hcount, if_pos hlast, htotal]
    have hsize : (state.bytes ++ Chunk.payload chunk).length = state.total := by
      rw [hlength, hexpected]
      simp only [chunkCountOf, chunkPayloadBytes] at *
      omega
    rw [if_neg (by omega), if_pos (by rw [hstate.next]; exact hlast), if_neg (by rw [hsize]; simp)]
    refine .inr (.inr ⟨state.transfer, state.total, ⟨hchunks, ?_, ?_, hstate.total⟩, ?_⟩)
    · rw [List.length_append, List.length_singleton, hlast, hstateCount]
    · rw [← hbytes, hsize]
    · rw [decoded, ← hbytes]
      cases decodeParcel (state.bytes ++ Chunk.payload chunk) limits <;> rfl
  · have hexpected : Chunk.expectedPayload chunk = chunkPayloadBytes := by
      rw [Chunk.expectedPayload, hown, ← hcount, if_neg hlast]
    have hsize : (state.bytes ++ Chunk.payload chunk).length =
        (own ++ [chunk]).length * chunkPayloadBytes := by
      rw [hlength, hexpected, List.length_append, List.length_singleton, Nat.add_one_mul]
    have hroom : ¬state.total < (state.bytes ++ Chunk.payload chunk).length := by
      rw [hlength, hexpected]
      simp only [chunkCountOf, chunkPayloadBytes] at *
      omega
    rw [if_neg hroom, if_neg (by rw [hstate.next]; exact hlast)]
    refine .inr (.inl ⟨_, rfl, hchunks, ?_, hbytes, hsize, hstateCount, hstate.wide, ?_,
      hstate.total, hstate.transfer⟩)
    · simp [hstate.next]
    · rw [List.length_append, List.length_singleton]
      dsimp only
      omega

/-- The tests of `accept_chunk`, in terms of the fields of the chunk. -/
theorem acceptChunk_eq (slot : Option Reassembly) (chunk : List UInt8) (limits : ProtocolLimits) :
    acceptChunk slot chunk limits =
      if chunk.length < chunkHeaderBytes then
        (slot, .error (.peer "MPI chunk header is truncated"))
      else if slice chunk 0 4 ≠ chunkMagic ∨ field chunk 4 1 ≠ chunkVersion then
        (slot, .error (.peer "MPI chunk magic/version mismatch"))
      else if 2 ^ 32 ≤ chunkCountOf (Chunk.total chunk) then
        (slot, .error (.byteLimit (chunkCountOf (Chunk.total chunk)) (2 ^ 32 - 1)))
      else if Chunk.transfer chunk = 0 ∨ Chunk.count chunk = 0 ∨
          Chunk.count chunk ≠ chunkCountOf (Chunk.total chunk) ∨
          Chunk.count chunk ≤ Chunk.index chunk ∨ limits.maxFrameBytes < Chunk.total chunk then
        (slot, .error (.peer "MPI chunk metadata is invalid"))
      else if (Chunk.payload chunk).length ≠ Chunk.expectedPayload chunk then
        (slot, .error (.byteLimit (Chunk.payload chunk).length (Chunk.expectedPayload chunk)))
      else if slot = none ∧ Chunk.index chunk ≠ 0 then
        (none, .error (.peer "MPI chunk sequence does not start at zero"))
      else
        extendReassembly (slot.getD (Reassembly.open chunk)) (Chunk.transfer chunk)
          (Chunk.total chunk) (Chunk.index chunk) (Chunk.count chunk) (Chunk.payload chunk)
          limits := by
  cases slot with
  | some state =>
    rw [if_neg (fun hnone : some state = none ∧ _ => by cases hnone.1)]
    rfl
  | none =>
    have hfirst : ((none : Option Reassembly) = none ∧ Chunk.index chunk ≠ 0) ↔
        Chunk.index chunk ≠ 0 := by simp
    rw [if_congr hfirst rfl rfl]
    rfl

/-- A chunk is refused by itself, or it fits and the reassembly decides. -/
theorem acceptChunk_checks (slot : Option Reassembly) (chunk : List UInt8)
    (limits : ProtocolLimits) :
    (∃ error, acceptChunk slot chunk limits = (slot, .error error)) ∨
    Chunk.Fits limits chunk ∧ (slot = none → Chunk.index chunk = 0) ∧
      acceptChunk slot chunk limits =
        extendReassembly (slot.getD (Reassembly.open chunk)) (Chunk.transfer chunk)
          (Chunk.total chunk) (Chunk.index chunk) (Chunk.count chunk) (Chunk.payload chunk)
          limits := by
  rw [acceptChunk_eq]
  split
  · exact .inl ⟨_, rfl⟩
  next hheader =>
  split
  · exact .inl ⟨_, rfl⟩
  split
  · exact .inl ⟨_, rfl⟩
  next hwide =>
  split
  · exact .inl ⟨_, rfl⟩
  next hmetadata =>
  split
  · exact .inl ⟨_, rfl⟩
  next hpayload =>
  split
  · next hfirst => exact .inl ⟨_, by rw [hfirst.1]⟩
  next hfirst =>
  simp only [not_or, not_lt, not_le] at hmetadata hwide hheader
  obtain ⟨htransfer, -, hcount, hindex, htotal⟩ := hmetadata
  refine .inr ⟨⟨hheader, htransfer, not_not.mp hcount, hwide, hindex, htotal,
    not_not.mp hpayload⟩, fun hnone => ?_, rfl⟩
  by_contra hindex
  exact hfirst ⟨hnone, hindex⟩

/-- A chunk that fits reaches the reassembly. -/
theorem acceptChunk_fits (h : Chunk.Fits limits chunk) (hmagic : slice chunk 0 4 = chunkMagic)
    (hversion : field chunk 4 1 = chunkVersion) (hfirst : slot = none → Chunk.index chunk = 0) :
    acceptChunk slot chunk limits =
      extendReassembly (slot.getD (Reassembly.open chunk)) (Chunk.transfer chunk)
        (Chunk.total chunk) (Chunk.index chunk) (Chunk.count chunk) (Chunk.payload chunk)
        limits := by
  have hindex := h.index
  rw [acceptChunk_eq, if_neg (not_lt.mpr h.header), if_neg (by simp [hmagic, hversion]),
    if_neg (not_le.mpr h.wide), if_neg, if_neg (not_not.mpr h.payload),
    if_neg (fun hboth => hboth.2 (hfirst hboth.1))]
  rintro (htransfer | hcount | hcount | hcount | htotal)
  · exact h.transfer htransfer
  · omega
  · exact hcount h.count
  · omega
  · exact absurd htotal (not_lt.mpr h.total)

/-- What `accept_chunk` does to a slot that holds the chunks so far. -/
theorem acceptChunk_cases (h : SlotHolds limits own slot) (chunk : List UInt8) :
    (∃ error, acceptChunk slot chunk limits = (slot, .error error)) ∨
    (∃ next, acceptChunk slot chunk limits = (some next, .ok none) ∧
      next.Holds limits (own ++ [chunk])) ∨
    (∃ transfer total, Whole limits (own ++ [chunk]) transfer total ∧
      acceptChunk slot chunk limits = (none, decoded limits (own ++ [chunk]))) := by
  rcases acceptChunk_checks slot chunk limits with herror | ⟨hfits, hfirst, heq⟩
  · exact .inl herror
  rw [heq]
  cases slot with
  | some state =>
    rcases extendReassembly_cases h.2 hfits with ⟨-, error, herror⟩ | hmore | hwhole
    · exact .inl ⟨error, herror⟩
    · exact .inr (.inl hmore)
    · exact .inr (.inr hwhole)
  | none =>
    cases h
    rcases extendReassembly_cases (Reassembly.holds_open hfits) hfits with
      ⟨hother, -⟩ | hmore | hwhole
    · -- A first chunk continues the reassembly it opens.
      simp [Reassembly.open, hfirst rfl] at hother
    · exact .inr (.inl hmore)
    · exact .inr (.inr hwhole)

/-! ## Arbitrary streams -/

/-- One chunk of a stream, which ends at the first error. -/
def takeChunk (limits : ProtocolLimits) (slot : Option Reassembly) (chunk : List UInt8) :
    Option (Option Reassembly) :=
  match acceptChunk slot chunk limits with
  | (next, .ok _) => some next
  | (_, .error _) => none

/-- The parcels a chunk brings. -/
def takenParcels (limits : ProtocolLimits) (slot : Option Reassembly) (chunk : List UInt8) :
    List (Option Parcel) :=
  match acceptChunk slot chunk limits with
  | (_, .ok found) => [found]
  | (_, .error _) => []

/-- The step lemma: the chunk continues the transfer in the slot, or it ends one. -/
theorem SlotHolds.step {next : Option Reassembly} (h : SlotHolds limits own slot)
    (hstep : takeChunk limits slot chunk = some next) :
    SlotHolds limits (own ++ [chunk]) next ∨ SlotHolds limits [] next := by
  unfold takeChunk at hstep
  rcases acceptChunk_cases h chunk with ⟨error, herror⟩ | ⟨state, hmore, hholds⟩ |
    ⟨transfer, total, hwhole, hdone⟩
  · rw [herror] at hstep
    cases hstep
  · rw [hmore] at hstep
    cases hstep
    exact .inl ⟨by simp, hholds⟩
  · rw [hdone] at hstep
    right
    cases hdecoded : decoded limits (own ++ [chunk]) with
    | error error =>
      rw [hdecoded] at hstep
      cases hstep
    | ok found =>
      rw [hdecoded] at hstep
      cases hstep
      exact rfl

/-- The run lemma: the slot holds the last chunks of the stream. -/
theorem run_slotHolds {chunks : List (List UInt8)}
    (hrun : exec (takeChunk limits) none chunks = some slot) :
    ∃ earlier own, chunks = earlier ++ own ∧ SlotHolds limits own slot := by
  induction chunks using List.reverseRecOn generalizing slot with
  | nil =>
    cases hrun
    exact ⟨[], [], rfl, rfl⟩
  | append_singleton front chunk ih =>
    rw [exec_append] at hrun
    obtain ⟨before, hbefore, hlast⟩ := Option.bind_eq_some_iff.mp hrun
    obtain ⟨next, hstep, hnext⟩ := exec_cons_some.mp hlast
    cases hnext
    obtain ⟨earlier, own, rfl, hholds⟩ := ih hbefore
    rcases hholds.step hstep with hmore | hempty
    · exact ⟨earlier, own ++ [chunk], by rw [List.append_assoc], hmore⟩
    · exact ⟨earlier ++ own ++ [chunk], [], by simp, hempty⟩

/-! ## The checks of the arithmetic -/

/-- `chunk[start..start + width]` as a number; `none` is a panic. -/
def fieldChecked (chunk : List UInt8) (start width : Nat) : Option Nat :=
  if start + width ≤ chunk.length then some (field chunk start width) else none

/-- The expected payload, with the sum in `u32` and the product and the difference in `usize`. -/
def expectedPayloadChecked (total index count : Nat) : Option Nat :=
  if 2 ^ 32 ≤ index + 1 then none
  else if index + 1 = count then
    if u64Bound ≤ index * chunkPayloadBytes ∨ total < index * chunkPayloadBytes then none
    else some (total - index * chunkPayloadBytes)
  else some chunkPayloadBytes

/-- The end of `accept_chunk`, with `next_chunk += 1` in `u32`. -/
def extendReassemblyChecked (state : Reassembly) (transfer total index count : Nat)
    (payload : List UInt8) (limits : ProtocolLimits) :
    Option (Option Reassembly × Except TransportError (Option Parcel)) :=
  if state.transfer ≠ transfer ∨ state.total ≠ total ∨ state.chunkCount ≠ count ∨
      state.nextChunk ≠ index then
    some (some state, .error (.peer "MPI chunk sequence mismatch"))
  else
    let state := { state with bytes := state.bytes ++ payload }
    if state.total < state.bytes.length then
      some (some state, .error (.byteLimit state.bytes.length state.total))
    else if 2 ^ 32 ≤ state.nextChunk + 1 then none
    else
      let state := { state with nextChunk := state.nextChunk + 1 }
      if state.nextChunk = state.chunkCount then
        if state.bytes.length ≠ state.total then
          some (none, .error (.peer "MPI reassembly length mismatch"))
        else
          match decodeParcel state.bytes limits with
          | .error error => some (none, .error (.protocol error))
          | .ok parcel => some (none, .ok (some parcel))
      else some (some state, .ok none)

/-- `accept_chunk` with every index, sum, product and difference checked. -/
def acceptChunkChecked (slot : Option Reassembly) (chunk : List UInt8) (limits : ProtocolLimits) :
    Option (Option Reassembly × Except TransportError (Option Parcel)) :=
  if chunk.length < chunkHeaderBytes then
    some (slot, .error (.peer "MPI chunk header is truncated"))
  else if chunk.length < 5 then none
  else if slice chunk 0 4 ≠ chunkMagic ∨ field chunk 4 1 ≠ chunkVersion then
    some (slot, .error (.peer "MPI chunk magic/version mismatch"))
  else do
    let transfer ← fieldChecked chunk 5 8
    let total ← fieldChecked chunk 13 8
    let index ← fieldChecked chunk 21 4
    let count ← fieldChecked chunk 25 4
    if 2 ^ 32 ≤ chunkCountOf total then
      some (slot, .error (.byteLimit (chunkCountOf total) (2 ^ 32 - 1)))
    else if transfer = 0 ∨ count = 0 ∨ count ≠ chunkCountOf total ∨ count ≤ index ∨
        limits.maxFrameBytes < total then
      some (slot, .error (.peer "MPI chunk metadata is invalid"))
    else
      let expected ← expectedPayloadChecked total index count
      let payload := chunk.drop chunkHeaderBytes
      if payload.length ≠ expected then
        some (slot, .error (.byteLimit payload.length expected))
      else
        match slot with
        | some state => extendReassemblyChecked state transfer total index count payload limits
        | none =>
          if index ≠ 0 then
            some (none, .error (.peer "MPI chunk sequence does not start at zero"))
          else
            extendReassemblyChecked ⟨transfer, total, 0, count, []⟩ transfer total index count
              payload limits

theorem fieldChecked_eq {start width : Nat} (h : start + width ≤ chunk.length) :
    fieldChecked chunk start width = some (field chunk start width) := by
  rw [fieldChecked, if_pos h]

/-- The position of a chunk is in bounds, so nothing overflows. -/
theorem expectedPayloadChecked_eq (hwide : chunkCountOf (Chunk.total chunk) < 2 ^ 32)
    (hcount : Chunk.count chunk = chunkCountOf (Chunk.total chunk))
    (hindex : Chunk.index chunk < Chunk.count chunk) :
    expectedPayloadChecked (Chunk.total chunk) (Chunk.index chunk) (Chunk.count chunk) =
      some (Chunk.expectedPayload chunk) := by
  have hproduct : ¬(u64Bound ≤ Chunk.index chunk * chunkPayloadBytes ∨
      Chunk.total chunk < Chunk.index chunk * chunkPayloadBytes) := by
    simp only [chunkCountOf, chunkPayloadBytes, u64Bound] at *
    omega
  rw [expectedPayloadChecked, if_neg (by omega), if_neg hproduct, Chunk.expectedPayload]
  split <;> rfl

theorem extendReassemblyChecked_eq (h : state.nextChunk + 1 < 2 ^ 32)
    (transfer total index count : Nat) (payload : List UInt8) (limits : ProtocolLimits) :
    extendReassemblyChecked state transfer total index count payload limits =
      some (extendReassembly state transfer total index count payload limits) := by
  unfold extendReassemblyChecked extendReassembly
  split
  · rfl
  dsimp only
  split
  · rfl
  rw [if_neg (by omega)]
  split
  · split
    · rfl
    · cases decodeParcel (state.bytes ++ payload) limits <;> rfl
  · rfl

/-- On a slot that holds chunks of a transfer, no check of `accept_chunk` fails. -/
theorem acceptChunkChecked_eq (h : SlotHolds limits own slot) (chunk : List UInt8) :
    acceptChunkChecked slot chunk limits = some (acceptChunk slot chunk limits) := by
  rw [acceptChunk_eq]
  unfold acceptChunkChecked
  by_cases hheader : chunk.length < chunkHeaderBytes
  · rw [if_pos hheader, if_pos hheader]
  have hlength : 29 ≤ chunk.length := not_lt.mp hheader
  have htransfer : fieldChecked chunk 5 8 = some (Chunk.transfer chunk) :=
    fieldChecked_eq (by omega)
  have htotal : fieldChecked chunk 13 8 = some (Chunk.total chunk) := fieldChecked_eq (by omega)
  have hindex : fieldChecked chunk 21 4 = some (Chunk.index chunk) := fieldChecked_eq (by omega)
  have hcount : fieldChecked chunk 25 4 = some (Chunk.count chunk) := fieldChecked_eq (by omega)
  have hdrop : chunk.drop chunkHeaderBytes = Chunk.payload chunk := rfl
  rw [if_neg hheader, if_neg hheader, if_neg (by omega), htransfer, htotal, hindex, hcount, hdrop]
  simp only [Option.bind_eq_bind, Option.bind_some]
  by_cases hmagic : slice chunk 0 4 ≠ chunkMagic ∨ field chunk 4 1 ≠ chunkVersion
  · rw [if_pos hmagic, if_pos hmagic]
  rw [if_neg hmagic, if_neg hmagic]
  by_cases hwide : 2 ^ 32 ≤ chunkCountOf (Chunk.total chunk)
  · rw [if_pos hwide, if_pos hwide]
  rw [if_neg hwide, if_neg hwide]
  by_cases hmetadata : Chunk.transfer chunk = 0 ∨ Chunk.count chunk = 0 ∨
      Chunk.count chunk ≠ chunkCountOf (Chunk.total chunk) ∨
      Chunk.count chunk ≤ Chunk.index chunk ∨ limits.maxFrameBytes < Chunk.total chunk
  · rw [if_pos hmetadata, if_pos hmetadata]
  rw [if_neg hmetadata, if_neg hmetadata]
  simp only [not_or, not_lt, not_le, ne_eq, not_not] at hmetadata hwide
  obtain ⟨-, -, hannounced, hbelow, -⟩ := hmetadata
  rw [expectedPayloadChecked_eq hwide hannounced hbelow, Option.bind_some]
  by_cases hpayload : (Chunk.payload chunk).length ≠ Chunk.expectedPayload chunk
  · rw [if_pos hpayload, if_pos hpayload]
  rw [if_neg hpayload, if_neg hpayload]
  cases slot with
  | some state =>
    rw [if_neg (fun hnone : some state = none ∧ _ => by cases hnone.1)]
    have hnext := h.2.next
    have hmore := h.2.more
    have hstate := h.2.count
    have hbound := h.2.wide
    exact extendReassemblyChecked_eq (by omega) _ _ _ _ _ _
  | none =>
    dsimp only
    by_cases hfirst : Chunk.index chunk ≠ 0
    · rw [if_pos hfirst, if_pos ⟨rfl, hfirst⟩]
    · rw [if_neg hfirst, if_neg (fun hboth => hfirst hboth.2)]
      exact extendReassemblyChecked_eq (Nat.lt_of_sub_eq_succ rfl) _ _ _ _ _ _

/-! ## Parcels sent in order -/

namespace Outbound

/-- All chunks of a parcel, as `send_chunk` asks for them until the parcel is complete; `none` is
    an error, or more chunks than `fuel`. -/
def drain : Nat → Outbound → Option (List (List UInt8))
  | 0, _ => none
  | fuel + 1, outbound =>
    outbound.nextChunk.toOption.bind fun (chunk, next) =>
      if next.complete then some [chunk] else (drain fuel next).map (chunk :: ·)

/-- The parcel on its way after `index` of its chunks. -/
def after (outbound : Outbound) (index : Nat) : Outbound :=
  { outbound with
    offset := min (index * chunkPayloadBytes) outbound.bytes.length
    chunkIndex := index }

/-- The bytes of the parcel in its chunk number `index`. -/
def part (outbound : Outbound) (index : Nat) : List UInt8 :=
  slice outbound.bytes (index * chunkPayloadBytes)
    (min ((index + 1) * chunkPayloadBytes) outbound.bytes.length - index * chunkPayloadBytes)

/-- The chunk number `index` of the parcel. -/
def chunkAt (outbound : Outbound) (index : Nat) : List UInt8 :=
  chunkMagic ++ toLe 1 chunkVersion ++ toLe 8 outbound.ticket.get ++
    toLe 8 outbound.bytes.length ++ toLe 4 index ++ toLe 4 outbound.chunkCount ++
    outbound.part index

/-- What the receiver holds after `index` chunks. -/
def collected (outbound : Outbound) (index : Nat) : Reassembly :=
  ⟨outbound.ticket.get, outbound.bytes.length, index, outbound.chunkCount,
    outbound.bytes.take (index * chunkPayloadBytes)⟩

/-- The parcel is on its way from its first byte on. -/
structure Carries (outbound : Outbound) (limits : ProtocolLimits) (parcel : Parcel) : Prop where
  start : outbound = outbound.after 0
  bytes : outbound.bytes = parcelBytes parcel
  fits : parcel.Fits limits
  segments : parcel.segments.length < 2 ^ 32
  count : outbound.chunkCount = chunkCountOf outbound.bytes.length
  wide : outbound.chunkCount < 2 ^ 32
  ticket : outbound.ticket.get ≠ 0
  narrow : outbound.ticket.get < u64Bound

variable {outbound : Outbound} {parcel : Parcel} {index : Nat}

theorem Carries.length (h : outbound.Carries limits parcel) :
    outbound.bytes.length = parcel.frame := by
  rw [h.bytes, length_parcelBytes]

theorem Carries.positive (h : outbound.Carries limits parcel) : 0 < outbound.chunkCount := by
  have hframe : parcelFixedBytes ≤ parcel.frame := by
    unfold Parcel.frame
    omega
  rw [h.count, h.length]
  simp only [chunkCountOf, chunkPayloadBytes, parcelFixedBytes] at *
  omega

theorem nextChunk_after (h : outbound.Carries limits parcel) (hindex : index < outbound.chunkCount) :
    (outbound.after index).nextChunk = .ok (outbound.chunkAt index, outbound.after (index + 1)) := by
  have hcount := h.count
  have hwide := h.wide
  have hstart : min (index * chunkPayloadBytes) outbound.bytes.length =
      index * chunkPayloadBytes := by
    simp only [chunkCountOf, chunkPayloadBytes] at *
    omega
  have hlast : min (index * chunkPayloadBytes + chunkPayloadBytes) outbound.bytes.length =
      min ((index + 1) * chunkPayloadBytes) outbound.bytes.length := by
    rw [Nat.add_one_mul]
  have hroom : ¬u64Bound ≤ index * chunkPayloadBytes + chunkPayloadBytes := by
    simp only [chunkPayloadBytes, u64Bound]
    omega
  unfold nextChunk after
  simp only [hstart, if_neg hroom, hlast]
  rfl

theorem complete_after (h : outbound.Carries limits parcel)
    (hindex : index < outbound.chunkCount) :
    (outbound.after (index + 1)).complete = decide (index + 1 = outbound.chunkCount) := by
  have hcount := h.count
  rw [Bool.eq_iff_iff, complete, beq_iff_eq, decide_eq_true_iff]
  simp only [after, chunkCountOf, chunkPayloadBytes] at *
  omega

/-- One round of the loop. -/
theorem drain_succ (h : outbound.Carries limits parcel) (hindex : index < outbound.chunkCount)
    (fuel : Nat) :
    drain (fuel + 1) (outbound.after index) =
      if index + 1 = outbound.chunkCount then some [outbound.chunkAt index]
      else (drain fuel (outbound.after (index + 1))).map (outbound.chunkAt index :: ·) := by
  simp only [drain, nextChunk_after h hindex, Except.toOption, Option.bind_some,
    complete_after h hindex, decide_eq_true_iff]

/-- The loop lemma: the chunks come in order, and the last one completes the parcel. -/
theorem drain_after (h : outbound.Carries limits parcel) {fuel : Nat}
    (hfuel : index + (fuel + 1) = outbound.chunkCount) :
    drain (fuel + 1) (outbound.after index) =
      some ((List.range' index (fuel + 1)).map outbound.chunkAt) := by
  induction fuel generalizing index with
  | zero =>
    rw [drain_succ h (by omega), if_pos hfuel]
    rfl
  | succ fuel ih =>
    rw [drain_succ h (by omega), if_neg (by omega), ih (by omega)]
    rfl

theorem Carries.drain_eq (h : outbound.Carries limits parcel) :
    outbound.drain outbound.chunkCount =
      some ((List.range' 0 outbound.chunkCount).map outbound.chunkAt) := by
  obtain ⟨fuel, hfuel⟩ := Nat.exists_eq_add_one.mpr h.positive
  have hrun := drain_after h (show 0 + (fuel + 1) = outbound.chunkCount by omega)
  rwa [← h.start, ← hfuel] at hrun

/-- The fields of a chunk, in the order they were written. -/
theorem fields_chunkAt (outbound : Outbound) (index : Nat) :
    (outbound.chunkAt index).length = chunkHeaderBytes + (outbound.part index).length ∧
      slice (outbound.chunkAt index) 0 4 = chunkMagic ∧
      slice (outbound.chunkAt index) 4 1 = toLe 1 chunkVersion ∧
      slice (outbound.chunkAt index) 5 8 = toLe 8 outbound.ticket.get ∧
      slice (outbound.chunkAt index) 13 8 = toLe 8 outbound.bytes.length ∧
      slice (outbound.chunkAt index) 21 4 = toLe 4 index ∧
      slice (outbound.chunkAt index) 25 4 = toLe 4 outbound.chunkCount ∧
      (outbound.chunkAt index).drop chunkHeaderBytes = outbound.part index := by
  have hmagic : chunkMagic.length = 4 := rfl
  have hpart : (outbound.chunkAt index).drop chunkHeaderBytes = outbound.part index :=
    List.drop_left' (by simp [hmagic, chunkHeaderBytes])
  refine ⟨?_, ?_, ?_, ?_, ?_, ?_, ?_, hpart⟩ <;> simp only [chunkAt, List.append_assoc]
  · simp only [List.length_append, length_toLe, hmagic, chunkHeaderBytes]
    omega
  · exact slice_front hmagic
  · rw [slice_skip hmagic (by decide), slice_front (length_toLe _ _)]
  · rw [slice_skip hmagic (by decide), slice_skip (length_toLe _ _) (by decide),
      slice_front (length_toLe _ _)]
  · rw [slice_skip hmagic (by decide), slice_skip (length_toLe _ _) (by decide),
      slice_skip (length_toLe _ _) (by decide), slice_front (length_toLe _ _)]
  · rw [slice_skip hmagic (by decide), slice_skip (length_toLe _ _) (by decide),
      slice_skip (length_toLe _ _) (by decide), slice_skip (length_toLe _ _) (by decide),
      slice_front (length_toLe _ _)]
  · rw [slice_skip hmagic (by decide), slice_skip (length_toLe _ _) (by decide),
      slice_skip (length_toLe _ _) (by decide), slice_skip (length_toLe _ _) (by decide),
      slice_skip (length_toLe _ _) (by decide), slice_front (length_toLe _ _)]

theorem length_part (h : outbound.Carries limits parcel) (hindex : index < outbound.chunkCount) :
    (outbound.part index).length =
      if index + 1 = outbound.chunkCount then
        outbound.bytes.length - index * chunkPayloadBytes
      else chunkPayloadBytes := by
  have hcount := h.count
  rw [part, length_slice]
  · split <;> simp only [chunkCountOf, chunkPayloadBytes] at * <;> omega
  · simp only [chunkCountOf, chunkPayloadBytes] at *
    omega

/-- One more part of the parcel behind the collected ones. -/
theorem collected_part (h : outbound.Carries limits parcel) (hindex : index < outbound.chunkCount) :
    (outbound.collected index).bytes ++ outbound.part index =
      outbound.bytes.take ((index + 1) * chunkPayloadBytes) := by
  have hcount := h.count
  have hle : index * chunkPayloadBytes ≤ outbound.bytes.length := by
    simp only [chunkCountOf, chunkPayloadBytes] at *
    omega
  have hmin : min ((index + 1) * chunkPayloadBytes) outbound.bytes.length -
      index * chunkPayloadBytes = min chunkPayloadBytes
        (outbound.bytes.drop (index * chunkPayloadBytes)).length := by
    rw [List.length_drop, Nat.add_one_mul]
    omega
  rw [collected, part, slice, hmin, List.take_eq_take_min.symm, Nat.add_one_mul, ← List.take_add]

theorem fits_chunkAt (h : outbound.Carries limits parcel) (hindex : index < outbound.chunkCount) :
    Chunk.Fits limits (outbound.chunkAt index) ∧
      Chunk.transfer (outbound.chunkAt index) = outbound.ticket.get ∧
      Chunk.total (outbound.chunkAt index) = outbound.bytes.length ∧
      Chunk.index (outbound.chunkAt index) = index ∧
      Chunk.count (outbound.chunkAt index) = outbound.chunkCount ∧
      Chunk.payload (outbound.chunkAt index) = outbound.part index := by
  obtain ⟨hlength, -, -, htransfer, htotal, hposition, hcount, hpayload⟩ :=
    fields_chunkAt outbound index
  have hwide := h.wide
  have hbound := h.fits.bound
  have htransfer : Chunk.transfer (outbound.chunkAt index) = outbound.ticket.get := by
    rw [Chunk.transfer, field, htransfer, ofLe_toLe h.narrow]
  have htotal : Chunk.total (outbound.chunkAt index) = outbound.bytes.length := by
    rw [Chunk.total, field, htotal, ofLe_toLe (by rw [h.length]; exact hbound)]
  have hposition : Chunk.index (outbound.chunkAt index) = index := by
    rw [Chunk.index, field, hposition, ofLe_toLe (by omega)]
  have hcount : Chunk.count (outbound.chunkAt index) = outbound.chunkCount := by
    rw [Chunk.count, field, hcount, ofLe_toLe (by omega)]
  refine ⟨⟨by omega, ?_, ?_, ?_, ?_, ?_, ?_⟩, htransfer, htotal, hposition, hcount, hpayload⟩
  · rw [htransfer]
    exact h.ticket
  · rw [hcount, htotal, h.count]
  · rw [htotal, ← h.count]
    exact hwide
  · rw [hposition, hcount]
    exact hindex
  · rw [htotal, h.length]
    exact h.fits.frame
  · rw [Chunk.payload, hpayload, length_part h hindex, Chunk.expectedPayload, hposition, hcount,
      htotal]

/-- The next part extends what was collected, and the last one completes the parcel. -/
theorem extendReassembly_collected (h : outbound.Carries limits parcel)
    (hindex : index < outbound.chunkCount) :
    extendReassembly (outbound.collected index) outbound.ticket.get outbound.bytes.length index
        outbound.chunkCount (outbound.part index) limits =
      if index + 1 = outbound.chunkCount then (none, .ok (some parcel))
      else (some (outbound.collected (index + 1)), .ok none) := by
  have hbytes := collected_part h hindex
  have hannounced := h.count
  unfold extendReassembly
  rw [if_neg (by simp [collected])]
  dsimp only
  rw [hbytes]
  have hshort : ¬(outbound.collected index).total <
      (outbound.bytes.take ((index + 1) * chunkPayloadBytes)).length := by
    rw [List.length_take]
    exact not_lt.mpr (Nat.min_le_right _ _)
  rw [if_neg hshort]
  by_cases hlast : index + 1 = outbound.chunkCount
  · have hall : outbound.bytes.take ((index + 1) * chunkPayloadBytes) = outbound.bytes := by
      apply List.take_of_length_le
      simp only [chunkCountOf, chunkPayloadBytes] at *
      omega
    have hdecode : decodeParcel outbound.bytes limits = .ok parcel := by
      rw [h.bytes]
      exact (decodeParcel_iff h.fits.bound h.segments).mpr ⟨rfl, h.fits⟩
    have hnext : (outbound.collected index).nextChunk + 1 =
        (outbound.collected index).chunkCount := hlast
    rw [if_pos hnext, if_pos hlast, hall, hdecode]
    exact if_neg (not_not.mpr rfl)
  · have hnext : ¬(outbound.collected index).nextChunk + 1 =
        (outbound.collected index).chunkCount := hlast
    rw [if_neg hnext, if_neg hlast]
    rfl

/-- The receiver takes the chunk, and has the parcel with the last one. -/
theorem acceptChunk_chunkAt (h : outbound.Carries limits parcel)
    (hindex : index < outbound.chunkCount) {slot : Option Reassembly}
    (hslot : slot = if index = 0 then none else some (outbound.collected index)) :
    acceptChunk slot (outbound.chunkAt index) limits =
      if index + 1 = outbound.chunkCount then (none, .ok (some parcel))
      else (some (outbound.collected (index + 1)), .ok none) := by
  obtain ⟨-, hmagic, hversion, -⟩ := fields_chunkAt outbound index
  obtain ⟨hfits, htransfer, htotal, hposition, hcount, hpayload⟩ := fits_chunkAt h hindex
  have hversion : field (outbound.chunkAt index) 4 1 = chunkVersion := by
    rw [field, hversion, ofLe_toLe (by decide)]
  have hfirst : slot = none → Chunk.index (outbound.chunkAt index) = 0 := by
    intro hnone
    rw [hposition]
    by_contra hnext
    rw [if_neg hnext, hnone] at hslot
    cases hslot
  have hstate : slot.getD (Reassembly.open (outbound.chunkAt index)) =
      outbound.collected index := by
    by_cases hzero : index = 0
    · subst hzero
      rw [hslot, if_pos rfl, Option.getD_none, Reassembly.open, htransfer, htotal, hcount]
      simp [collected]
    · rw [hslot, if_neg hzero, Option.getD_some]
  rw [acceptChunk_fits hfits hmagic hversion hfirst, hstate, htransfer, htotal, hposition, hcount,
    hpayload]
  exact extendReassembly_collected h hindex

/-- The run lemma for one parcel: the slot is empty again after its last chunk. -/
theorem Carries.run_chunks (h : outbound.Carries limits parcel) {more : Nat} {slot : Option Reassembly}
    (hmore : index + (more + 1) = outbound.chunkCount)
    (hslot : slot = if index = 0 then none else some (outbound.collected index)) :
    exec (takeChunk limits) slot ((List.range' index (more + 1)).map outbound.chunkAt) = some none ∧
      journal (takeChunk limits) (takenParcels limits) slot
        ((List.range' index (more + 1)).map outbound.chunkAt) =
          List.replicate more none ++ [some parcel] := by
  have haccept := acceptChunk_chunkAt h (show index < outbound.chunkCount by omega) hslot
  induction more generalizing index slot with
  | zero =>
    rw [if_pos hmore] at haccept
    have hstep : takeChunk limits slot (outbound.chunkAt index) = some none := by
      rw [takeChunk, haccept]
    constructor
    · exact exec_cons_some.mpr ⟨none, hstep, rfl⟩
    · rw [List.range'_one, List.map_singleton, journal_cons _ _ hstep, takenParcels, haccept]
      rfl
  | succ more ih =>
    rw [if_neg (by omega)] at haccept
    have hstep : takeChunk limits slot (outbound.chunkAt index) =
        some (some (outbound.collected (index + 1))) := by
      rw [takeChunk, haccept]
    have hnext : some (outbound.collected (index + 1)) =
        if index + 1 = 0 then none else some (outbound.collected (index + 1)) :=
      (if_neg (Nat.succ_ne_zero index)).symm
    obtain ⟨hrun, hnotes⟩ := ih (by omega) hnext
      (acceptChunk_chunkAt h (by omega) hnext)
    rw [List.range'_succ, List.map_cons]
    constructor
    · exact exec_cons_some.mpr ⟨_, hstep, hrun⟩
    · rw [journal_cons _ _ hstep, hnotes, takenParcels, haccept]
      rfl

end Outbound

/-- The chunks a submission leaves as; a submission that cannot be encoded leaves as none. -/
def wireChunks (limits : ProtocolLimits) (submission : Submission) : Option (List (List UInt8)) :=
  match Outbound.new submission limits with
  | .error _ => some []
  | .ok outbound => outbound.drain outbound.chunkCount

/-- What the receiver makes of the chunks of a submission: the parcel comes with the last one. -/
def deliveries (limits : ProtocolLimits) (submission : Submission) : List (Option Parcel) :=
  match Outbound.new submission limits with
  | .error _ => []
  | .ok outbound => List.replicate (outbound.chunkCount - 1) none ++ [some submission.parcel]

/-- The handle reserved the ticket of the submission; its counter is a `u64`. -/
def Reserved (submission : Submission) : Prop :=
  ∃ (shared after : SubmissionState) (peer : Nat), shared.nextTicket < u64Bound ∧
    shared.reserve peer submission.parcel.channel submission.reservedBytes =
      .ok (submission.ticket, after)

theorem Reserved.ticket {submission : Submission} (h : Reserved submission) :
    submission.ticket.get ≠ 0 ∧ submission.ticket.get < u64Bound := by
  obtain ⟨shared, after, peer, hbound, hreserve⟩ := h
  unfold SubmissionState.reserve at hreserve
  split at hreserve
  · cases hreserve
  split at hreserve
  · cases hreserve
  split at hreserve
  · cases hreserve
  split at hreserve
  · cases hreserve
  next hticket =>
  have hsame := congrArg SendTicket.get (Prod.mk.inj (Except.ok.inj hreserve)).1
  rw [← hsame]
  exact ⟨fun hzero => hticket (.inl hzero), hbound⟩

/-- `Outbound::new` takes the parcels that are valid and not too long for the counters. -/
theorem new_ok_iff {submission : Submission} {outbound : Outbound} :
    Outbound.new submission limits = .ok outbound ↔
      submission.parcel.Fits limits ∧ submission.parcel.segments.length < 2 ^ 32 ∧
        chunkCountOf submission.parcel.frame < 2 ^ 32 ∧
        outbound = ⟨submission.ticket, parcelBytes submission.parcel, 0, 0,
          chunkCountOf submission.parcel.frame, submission.reservedBytes⟩ := by
  unfold Outbound.new
  constructor
  · intro h
    split at h
    · cases h
    next bytes hencode =>
    obtain ⟨rfl, hfits, hsegments⟩ := encodeParcel_ok hencode
    rw [length_parcelBytes] at h
    split at h
    · cases h
    next hwide =>
    cases h
    exact ⟨hfits, hsegments, not_le.mp hwide, rfl⟩
  · rintro ⟨hfits, hsegments, hwide, rfl⟩
    rw [encodeParcel_of_fits hfits hsegments]
    dsimp only
    rw [length_parcelBytes, if_neg (not_le.mpr hwide)]

theorem Reserved.carries {submission : Submission} {outbound : Outbound}
    (h : Reserved submission) (hnew : Outbound.new submission limits = .ok outbound) :
    outbound.Carries limits submission.parcel := by
  obtain ⟨hfits, hsegments, hwide, rfl⟩ := new_ok_iff.mp hnew
  exact
    { start := by simp [Outbound.after]
      bytes := rfl
      fits := hfits
      segments := hsegments
      count := by rw [length_parcelBytes]
      wide := hwide
      ticket := h.ticket.1
      narrow := h.ticket.2 }

/-- One submission: its chunks start and end with an empty slot. -/
theorem run_submission (limits : ProtocolLimits) {submission : Submission} (h : Reserved submission) :
    ∃ chunks, wireChunks limits submission = some chunks ∧
      exec (takeChunk limits) none chunks = some none ∧
      journal (takeChunk limits) (takenParcels limits) none chunks = deliveries limits submission := by
  unfold wireChunks deliveries
  cases hnew : Outbound.new submission limits with
  | error error => exact ⟨[], rfl, rfl, rfl⟩
  | ok outbound =>
    have hcarries := h.carries hnew
    obtain ⟨more, hmore⟩ := Nat.exists_eq_add_one.mpr hcarries.positive
    have hcount : 0 + (more + 1) = outbound.chunkCount := by omega
    have hslot : none = if 0 = 0 then none else some (outbound.collected 0) := rfl
    obtain ⟨hrun, hnotes⟩ := hcarries.run_chunks hcount hslot
    refine ⟨_, hcarries.drain_eq, ?_, ?_⟩
    · rw [hmore]
      exact hrun
    · dsimp only
      rw [hmore, hnotes, Nat.add_sub_cancel]

/-- The run lemma for a channel: one submission after another. -/
theorem run_submissions {submissions : List Submission}
    (h : ∀ submission ∈ submissions, Reserved submission) :
    ∃ chunks, submissions.mapM (wireChunks limits) = some chunks ∧
      exec (takeChunk limits) none chunks.flatten = some none ∧
      journal (takeChunk limits) (takenParcels limits) none chunks.flatten =
        submissions.flatMap (deliveries limits) := by
  induction submissions with
  | nil => exact ⟨[], rfl, rfl, rfl⟩
  | cons submission rest ih =>
    obtain ⟨first, hfirst, hrun, hnotes⟩ :=
      run_submission limits (h submission List.mem_cons_self)
    obtain ⟨others, hothers, hrest, hlater⟩ :=
      ih fun later hlater => h later (List.mem_cons_of_mem _ hlater)
    refine ⟨first :: others, ?_, ?_, ?_⟩
    · rw [List.mapM_cons, hfirst, hothers]
      rfl
    · rw [List.flatten_cons, exec_append, hrun]
      exact hrest
    · rw [List.flatten_cons, journal_append _ _ hrun, hnotes, hlater, List.flatMap_cons]

/-! ## Streams of chunks -/

/-- After a refused chunk the slot is what it was, or it is empty. -/
theorem acceptChunk_error {next : Option Reassembly} {error : TransportError}
    (h : SlotHolds limits own slot) (hrefused : acceptChunk slot chunk limits = (next, .error error)) :
    next = slot ∨ next = none := by
  rcases acceptChunk_cases h chunk with ⟨_, herror⟩ | ⟨_, hmore, -⟩ | ⟨_, _, -, hdone⟩
  · rw [herror] at hrefused
    cases hrefused
    exact .inl rfl
  · rw [hmore] at hrefused
    cases hrefused
  · rw [hdone] at hrefused
    exact .inr (Prod.mk.inj hrefused).1.symm

/-- A parcel is decoded from all chunks of one transfer. -/
theorem acceptChunk_parcel {next : Option Reassembly} {parcel : Parcel}
    (h : SlotHolds limits own slot)
    (hparcel : acceptChunk slot chunk limits = (next, .ok (some parcel))) :
    next = none ∧ (∃ transfer total, Whole limits (own ++ [chunk]) transfer total) ∧
      decodeParcel ((own ++ [chunk]).flatMap Chunk.payload) limits = .ok parcel := by
  rcases acceptChunk_cases h chunk with ⟨_, herror⟩ | ⟨_, hmore, -⟩ |
    ⟨transfer, total, hwhole, hdone⟩
  · rw [herror] at hparcel
    cases hparcel
  · rw [hmore] at hparcel
    cases hparcel
  · rw [hdone] at hparcel
    obtain ⟨hnone, hdecoded⟩ := Prod.mk.inj hparcel
    refine ⟨hnone.symm, ⟨transfer, total, hwhole⟩, ?_⟩
    unfold decoded at hdecoded
    split at hdecoded
    · cases hdecoded
    next found hfound =>
    cases hdecoded
    exact hfound

/-- Streams of chunks.

    Parcels that are sent one after another come back in order, each with the last of its chunks,
    and the slot is empty after each of them: every front part of the list is a list itself.

    Of any stream, up to its first error, the slot holds the last chunks, which are the first ones
    of a single transfer. On the next chunk no arithmetic under- or overflows and no index is out
    of bounds; a refused chunk leaves no more behind, and a parcel is `decode_parcel` of the
    payloads of all chunks of one transfer. -/
theorem chunk_streams (limits : ProtocolLimits) :
    (∀ submissions : List Submission, (∀ submission ∈ submissions, Reserved submission) →
      ∃ chunks, submissions.mapM (wireChunks limits) = some chunks ∧
        exec (takeChunk limits) none chunks.flatten = some none ∧
        journal (takeChunk limits) (takenParcels limits) none chunks.flatten =
          submissions.flatMap (deliveries limits)) ∧
    (∀ submission, submission.parcel.Fits limits → submission.parcel.segments.length < 2 ^ 32 →
      chunkCountOf submission.parcel.frame < 2 ^ 32 →
      deliveries limits submission =
        List.replicate (chunkCountOf submission.parcel.frame - 1) none ++
          [some submission.parcel]) ∧
    ∀ chunks slot, exec (takeChunk limits) none chunks = some slot →
      ∃ earlier own, chunks = earlier ++ own ∧
        (slot = none → own = []) ∧
        (∀ state, slot = some state →
          Consecutive own state.transfer state.total ∧
          own.length = state.nextChunk ∧ state.bytes = own.flatMap Chunk.payload ∧
          state.bytes.length = state.nextChunk * chunkPayloadBytes ∧
          state.bytes.length < state.total ∧ state.total ≤ limits.maxFrameBytes) ∧
        ∀ chunk,
          acceptChunkChecked slot chunk limits = some (acceptChunk slot chunk limits) ∧
          (∀ next error, acceptChunk slot chunk limits = (next, .error error) →
            next = slot ∨ next = none) ∧
          ∀ next parcel, acceptChunk slot chunk limits = (next, .ok (some parcel)) →
            next = none ∧ (∃ transfer total, Whole limits (own ++ [chunk]) transfer total) ∧
              decodeParcel ((own ++ [chunk]).flatMap Chunk.payload) limits = .ok parcel := by
  refine ⟨fun submissions h => run_submissions h, ?_, ?_⟩
  · intro submission hfits hsegments hwide
    rw [deliveries, new_ok_iff.mpr ⟨hfits, hsegments, hwide, rfl⟩]
  · intro chunks slot hrun
    obtain ⟨earlier, own, hchunks, hslot⟩ := run_slotHolds hrun
    refine ⟨earlier, own, hchunks, ?_, ?_, fun chunk =>
      ⟨acceptChunkChecked_eq hslot chunk, fun _ _ => acceptChunk_error hslot,
        fun _ _ => acceptChunk_parcel hslot⟩⟩
    · rintro rfl
      exact hslot
    · rintro state rfl
      have hstate := hslot.2
      refine ⟨hstate.chunks, hstate.next.symm, hstate.bytes, ?_, hstate.short, hstate.total⟩
      rw [hstate.size, hstate.next]

/-- Frames of up to three chunks. -/
def wideLimits : ProtocolLimits := ⟨12288, 8192, 4, 4, 30000, 100⟩

/-- A submission of a parcel with one segment. -/
def sampleSubmission (ticket size : Nat) : Submission where
  ticket := ⟨ticket⟩
  parcel :=
    { runId := ⟨1, u128_one⟩
      messageId := ⟨1, u128_one⟩
      channel := .action
      kind := .data
      source := ⟨1⟩
      destination := ⟨0⟩
      traceId := none
      segments := [List.replicate size 5] }
  reservedBytes := size + 95

theorem sampleSubmission_frame (ticket size : Nat) :
    (sampleSubmission ticket size).parcel.frame = size + 95 := by
  simp [sampleSubmission, Parcel.frame, Parcel.payload, parcelFixedBytes]
  omega

theorem sampleSubmission_fits {ticket size : Nat} (h : size ≤ 8192) :
    (sampleSubmission ticket size).parcel.Fits wideLimits := by
  have hframe := sampleSubmission_frame ticket size
  refine ⟨rfl, (by decide : 1 ≤ 4), ?_, ?_, ?_⟩
  · simpa [sampleSubmission, Parcel.payload, wideLimits] using h
  · rw [hframe]
    exact (Nat.add_le_add_right h 95).trans (by decide)
  · rw [hframe]
    exact (Nat.add_le_add_right h 95).trans_lt (by decide)

/-- A parcel of two chunks and one of a single chunk arrive one after the other. -/
theorem chunk_streams_long :
    ∃ chunks, [sampleSubmission 1 5000, sampleSubmission 2 1].mapM (wireChunks wideLimits) =
        some chunks ∧
      exec (takeChunk wideLimits) none chunks.flatten = some none ∧
      journal (takeChunk wideLimits) (takenParcels wideLimits) none chunks.flatten =
        [none, some (sampleSubmission 1 5000).parcel, some (sampleSubmission 2 1).parcel] := by
  obtain ⟨hstreams, hwhole, -⟩ := chunk_streams wideLimits
  have hreserved : ∀ submission ∈ [sampleSubmission 1 5000, sampleSubmission 2 1],
      Reserved submission := by
    intro submission hmem
    rcases List.mem_pair.mp hmem with rfl | rfl
    · exact ⟨.new wideLimits, _, 0, by decide, rfl⟩
    · exact ⟨{ SubmissionState.new wideLimits with nextTicket := 2 }, _, 0, by decide, rfl⟩
  obtain ⟨chunks, hsent, htaken, hparcels⟩ := hstreams _ hreserved
  refine ⟨chunks, hsent, htaken, hparcels.trans ?_⟩
  have hlong := hwhole (sampleSubmission 1 5000) (sampleSubmission_fits (by decide)) (by decide)
  have hshort := hwhole (sampleSubmission 2 1) (sampleSubmission_fits (by decide)) (by decide)
  rw [sampleSubmission_frame] at hlong hshort
  rw [List.flatMap_cons, List.flatMap_cons, List.flatMap_nil, hlong (by decide),
    hshort (by decide)]
  rfl

end Hataori.Transport
