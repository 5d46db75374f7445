import Hataori.Lib.Confluence
import Mathlib.Logic.Function.Basic

/-!
# Ranks that talk through collectives and channels

A process is what one rank still has to do. Ranks meet in collectives, which all of them
enter with the same kind and leave with the same datum, and exchange messages over FIFO
channels, one for each sender, receiver and tag. Every schedule of such a system ends in
the same state, so that it is enough to follow one.
-/

namespace Lib.Ranks

open Lib.Confluence

variable {ρ κ τ μ : Type} {δ : κ → Type} {β γ : Type}

/-- A process of a rank: `δ kind` is the data of a collective, `μ` that of a message. -/
inductive Proc (ρ κ τ μ : Type) (δ : κ → Type) (β : Type) where
  | done (result : β)
  | abort
  | collective (kind : κ) (value : δ kind) (next : δ kind → Proc ρ κ τ μ δ β)
  | send (destination : ρ) (tag : τ) (message : μ) (next : Proc ρ κ τ μ δ β)
  | receive (source : ρ) (tag : τ) (next : μ → Proc ρ κ τ μ δ β)

namespace Proc

/-- The process that goes on with the result of another. -/
def bind : Proc ρ κ τ μ δ β → (β → Proc ρ κ τ μ δ γ) → Proc ρ κ τ μ δ γ
  | .done result, next => next result
  | .abort, _ => .abort
  | .collective kind value rest, next => .collective kind value fun found => (rest found).bind next
  | .send destination tag message rest, next => .send destination tag message (rest.bind next)
  | .receive source tag rest, next => .receive source tag fun found => (rest found).bind next

instance : Monad (Proc ρ κ τ μ δ) where
  pure := .done
  bind := bind

@[simp] theorem pure_eq (result : β) : (pure result : Proc ρ κ τ μ δ β) = .done result := rfl

@[simp] theorem bind_eq (p : Proc ρ κ τ μ δ β) (next : β → Proc ρ κ τ μ δ γ) :
    p >>= next = p.bind next := rfl

@[simp] theorem done_bind (result : β) (next : β → Proc ρ κ τ μ δ γ) :
    (Proc.done result : Proc ρ κ τ μ δ β).bind next = next result := rfl

@[simp] theorem collective_bind (kind : κ) (value : δ kind)
    (rest : δ kind → Proc ρ κ τ μ δ β) (next : β → Proc ρ κ τ μ δ γ) :
    (Proc.collective kind value rest).bind next =
      .collective kind value fun found => (rest found).bind next := rfl

@[simp] theorem send_bind (destination : ρ) (tag : τ) (message : μ) (rest : Proc ρ κ τ μ δ β)
    (next : β → Proc ρ κ τ μ δ γ) :
    (Proc.send destination tag message rest).bind next =
      .send destination tag message (rest.bind next) := rfl

@[simp] theorem receive_bind (source : ρ) (tag : τ) (rest : μ → Proc ρ κ τ μ δ β)
    (next : β → Proc ρ κ τ μ δ γ) :
    (Proc.receive source tag rest).bind next =
      .receive source tag fun found => (rest found).bind next := rfl

theorem bind_assoc {ε : Type} (p : Proc ρ κ τ μ δ β) (first : β → Proc ρ κ τ μ δ γ)
    (second : γ → Proc ρ κ τ μ δ ε) :
    (p.bind first).bind second = p.bind fun result => (first result).bind second := by
  induction p with
  | done => rfl
  | abort => rfl
  | collective kind value rest ih =>
    simp only [collective_bind]
    congr 1
    funext found
    exact ih found
  | send destination tag message rest ih => simp only [send_bind, ih]
  | receive source tag rest ih =>
    simp only [receive_bind]
    congr 1
    funext found
    exact ih found

/-- However the process ends, `post` holds of its result, and of whether its last step was a
    collective; `fresh` says that it has just left one. -/
def Ends (post : Bool → β → Prop) : Bool → Proc ρ κ τ μ δ β → Prop
  | fresh, .done result => post fresh result
  | _, .abort => True
  | _, .collective _ _ next => ∀ found, Ends post true (next found)
  | _, .send _ _ _ next => Ends post false next
  | _, .receive _ _ next => ∀ found, Ends post false (next found)

theorem ends_true (p : Proc ρ κ τ μ δ β) (fresh : Bool) : p.Ends (fun _ _ => True) fresh := by
  induction p generalizing fresh with
  | done => trivial
  | abort => trivial
  | collective _ _ _ ih => exact fun found => ih found true
  | send _ _ _ _ ih => exact ih false
  | receive _ _ _ ih => exact fun found => ih found false

theorem Ends.mono {post other : Bool → β → Prop} {p : Proc ρ κ τ μ δ β} {fresh : Bool}
    (h : p.Ends post fresh) (himp : ∀ fresh result, post fresh result → other fresh result) :
    p.Ends other fresh := by
  induction p generalizing fresh with
  | done => exact himp _ _ h
  | abort => trivial
  | collective _ _ _ ih => exact fun found => ih found (h found)
  | send _ _ _ _ ih => exact ih h
  | receive _ _ _ ih => exact fun found => ih found (h found)

theorem Ends.bind {post : Bool → γ → Prop} {p : Proc ρ κ τ μ δ β}
    {next : β → Proc ρ κ τ μ δ γ} {fresh : Bool}
    (h : p.Ends (fun fresh result => (next result).Ends post fresh) fresh) :
    (p.bind next).Ends post fresh := by
  induction p generalizing fresh with
  | done => exact h
  | abort => trivial
  | collective kind value rest ih => exact fun found => ih found (h found)
  | send destination tag message rest ih => exact ih h
  | receive source tag rest ih => exact fun found => ih found (h found)

/-- The process ends, if it ends, right after a collective. -/
def Sealed (fresh : Bool) (p : Proc ρ κ τ μ δ β) : Prop := p.Ends (fun fresh _ => fresh = true) fresh

end Proc

/-! ## A system of ranks -/

/-- What every rank still has to do, and what is on its way: by sender, receiver and tag. -/
structure Config (ρ κ τ μ : Type) (δ : κ → Type) (β : Type) where
  procs : ρ → Proc ρ κ τ μ δ β
  channels : ρ → ρ → τ → List μ

/-- A rank takes its next step alone, or all ranks take theirs together. -/
inductive Action (ρ : Type) where
  | alone (rank : ρ)
  | together

section Steps

variable [DecidableEq ρ] [DecidableEq τ]

/-- The channels with one of them replaced. -/
def setChannel (channels : ρ → ρ → τ → List μ) (source destination : ρ) (tag : τ)
    (messages : List μ) : ρ → ρ → τ → List μ :=
  fun s d t => if s = source ∧ d = destination ∧ t = tag then messages else channels s d t

/-- The steps of a system; `combine` is what a collective makes of the ranks' data. -/
inductive Step (combine : (kind : κ) → (ρ → δ kind) → δ kind) :
    Config ρ κ τ μ δ β → Action ρ → Config ρ κ τ μ δ β → Prop
  | send {config : Config ρ κ τ μ δ β} {rank destination : ρ} {tag : τ} {message : μ}
      {next : Proc ρ κ τ μ δ β} (hproc : config.procs rank = .send destination tag message next) :
      Step combine config (.alone rank)
        ⟨Function.update config.procs rank next,
          setChannel config.channels rank destination tag
            (config.channels rank destination tag ++ [message])⟩
  | receive {config : Config ρ κ τ μ δ β} {rank source : ρ} {tag : τ} {message : μ}
      {rest : List μ} {next : μ → Proc ρ κ τ μ δ β}
      (hproc : config.procs rank = .receive source tag next)
      (hchannel : config.channels source rank tag = message :: rest) :
      Step combine config (.alone rank)
        ⟨Function.update config.procs rank (next message),
          setChannel config.channels source rank tag rest⟩
  | collective {config : Config ρ κ τ μ δ β} {kind : κ} {values : ρ → δ kind}
      {nexts : ρ → δ kind → Proc ρ κ τ μ δ β}
      (hprocs : ∀ rank, config.procs rank = .collective kind (values rank) (nexts rank)) :
      Step combine config .together
        ⟨fun rank => nexts rank (combine kind values), config.channels⟩

theorem setChannel_self (channels : ρ → ρ → τ → List μ) (source destination : ρ) (tag : τ)
    (messages : List μ) :
    setChannel channels source destination tag messages source destination tag = messages := by
  simp [setChannel]

theorem setChannel_other {channels : ρ → ρ → τ → List μ} {source destination s d : ρ} {tag t : τ}
    (messages : List μ) (h : ¬(s = source ∧ d = destination ∧ t = tag)) :
    setChannel channels source destination tag messages s d t = channels s d t := by
  simp only [setChannel, if_neg h]

theorem setChannel_twice (channels : ρ → ρ → τ → List μ) (source destination : ρ) (tag : τ)
    (first second : List μ) :
    setChannel (setChannel channels source destination tag first) source destination tag second =
      setChannel channels source destination tag second := by
  funext s d t
  by_cases h : s = source ∧ d = destination ∧ t = tag
  · simp only [setChannel, if_pos h]
  · simp only [setChannel, if_neg h]

theorem setChannel_eq (channels : ρ → ρ → τ → List μ) (source destination : ρ) (tag : τ) :
    setChannel channels source destination tag (channels source destination tag) = channels := by
  funext s d t
  by_cases h : s = source ∧ d = destination ∧ t = tag
  · obtain ⟨rfl, rfl, rfl⟩ := h
    exact setChannel_self _ _ _ _ _
  · exact setChannel_other _ h

theorem setChannel_comm {channels : ρ → ρ → τ → List μ} {source destination s d : ρ} {tag t : τ}
    (messages others : List μ) (h : ¬(s = source ∧ d = destination ∧ t = tag)) :
    setChannel (setChannel channels source destination tag messages) s d t others =
      setChannel (setChannel channels s d t others) source destination tag messages := by
  funext from_ into label
  by_cases hfirst : from_ = source ∧ into = destination ∧ label = tag
  · have hsecond : ¬(from_ = s ∧ into = d ∧ label = t) := by
      rintro ⟨rfl, rfl, rfl⟩
      exact h hfirst
    simp only [setChannel, if_pos hfirst, if_neg hsecond]
  · by_cases hsecond : from_ = s ∧ into = d ∧ label = t
    · simp only [setChannel, if_neg hfirst, if_pos hsecond]
    · simp only [setChannel, if_neg hfirst, if_neg hsecond]

/-! ### Steps commute -/

variable {combine : (kind : κ) → (ρ → δ kind) → δ kind} {config : Config ρ κ τ μ δ β}

theorem Step.send_of {final : Config ρ κ τ μ δ β} {rank destination : ρ} {tag : τ} {message : μ}
    {next : Proc ρ κ τ μ δ β} (hproc : config.procs rank = .send destination tag message next)
    (hprocs : final.procs = Function.update config.procs rank next)
    (hchannels : final.channels = setChannel config.channels rank destination tag
      (config.channels rank destination tag ++ [message])) :
    Step combine config (.alone rank) final := by
  obtain ⟨procs, channels⟩ := final
  cases hprocs
  cases hchannels
  exact .send hproc

theorem Step.receive_of {final : Config ρ κ τ μ δ β} {rank source : ρ} {tag : τ} {message : μ}
    {rest : List μ} {next : μ → Proc ρ κ τ μ δ β}
    (hproc : config.procs rank = .receive source tag next)
    (hchannel : config.channels source rank tag = message :: rest)
    (hprocs : final.procs = Function.update config.procs rank (next message))
    (hchannels : final.channels = setChannel config.channels source rank tag rest) :
    Step combine config (.alone rank) final := by
  obtain ⟨procs, channels⟩ := final
  cases hprocs
  cases hchannels
  exact .receive hproc hchannel

theorem step_deterministic {action : Action ρ} {first second : Config ρ κ τ μ δ β}
    (hfirst : Step combine config action first) (hsecond : Step combine config action second) :
    first = second := by
  cases hfirst with
  | send hproc =>
    cases hsecond with
    | send hother =>
      rw [hproc] at hother
      cases hother
      rfl
    | receive hother _ =>
      rw [hproc] at hother
      cases hother
  | receive hproc hchannel =>
    cases hsecond with
    | send hother =>
      rw [hproc] at hother
      cases hother
    | receive hother hsame =>
      rw [hproc] at hother
      cases hother
      rw [hchannel] at hsame
      cases hsame
      rfl
  | @collective kind values nexts hprocs =>
    cases hsecond with
    | @collective kind' values' nexts' hothers =>
      by_cases hrank : Nonempty ρ
      · obtain ⟨rank⟩ := hrank
        have hkind : kind = kind' := by
          have hsame := (hprocs rank).symm.trans (hothers rank)
          injection hsame
        subst hkind
        have hvalues : values = values' := by
          funext rank
          have hsame := (hprocs rank).symm.trans (hothers rank)
          injection hsame
        have hnexts : nexts = nexts' := by
          funext rank
          have hsame := (hprocs rank).symm.trans (hothers rank)
          injection hsame
        rw [hvalues, hnexts]
      · congr 1
        funext rank
        exact absurd ⟨rank⟩ hrank

/-- The two orders of a send and a receive at different ranks. -/
theorem send_receive_commute {sender receiver destination source : ρ} {tag label : τ}
    {message found : μ} {rest : List μ} {next : Proc ρ κ τ μ δ β} {then_ : μ → Proc ρ κ τ μ δ β}
    (hne : sender ≠ receiver) (hsend : config.procs sender = .send destination tag message next)
    (hreceive : config.procs receiver = .receive source label then_)
    (hchannel : config.channels source receiver label = found :: rest) :
    ∃ final, Step combine ⟨Function.update config.procs sender next,
        setChannel config.channels sender destination tag
          (config.channels sender destination tag ++ [message])⟩ (.alone receiver) final ∧
      Step combine ⟨Function.update config.procs receiver (then_ found),
        setChannel config.channels source receiver label rest⟩ (.alone sender) final := by
  have hstill : (Function.update config.procs sender next) receiver =
      .receive source label then_ := by
    rw [Function.update_of_ne hne.symm, hreceive]
  have hsending : (Function.update config.procs receiver (then_ found)) sender =
      .send destination tag message next := by
    rw [Function.update_of_ne hne, hsend]
  by_cases hsame : source = sender ∧ receiver = destination ∧ label = tag
  · -- The message goes to the back of the channel the other rank takes the front of.
    obtain ⟨rfl, rfl, rfl⟩ := hsame
    refine ⟨_, .receive hstill (?_ : _ = found :: (rest ++ [message])), .send_of hsending ?_ ?_⟩
    · simp only [setChannel_self, hchannel, List.cons_append]
    · exact Function.update_comm hne _ _ _
    · simp only [setChannel_twice, setChannel_self]
  · have hother : ¬(sender = source ∧ destination = receiver ∧ tag = label) :=
      fun h => hsame ⟨h.1.symm, h.2.1.symm, h.2.2.symm⟩
    refine ⟨_, .receive hstill (?_ : _ = found :: rest), .send_of hsending ?_ ?_⟩
    · exact (setChannel_other _ hsame).trans hchannel
    · exact Function.update_comm hne _ _ _
    · simp only [setChannel_other _ hother]
      exact setChannel_comm _ _ hsame

/-- The two orders of sends by different ranks. -/
theorem send_send_commute {sender other destination target : ρ} {tag label : τ}
    {message found : μ} {next then_ : Proc ρ κ τ μ δ β} (hne : sender ≠ other)
    (hsend : config.procs sender = .send destination tag message next)
    (hother : config.procs other = .send target label found then_) :
    ∃ final, Step combine ⟨Function.update config.procs sender next,
        setChannel config.channels sender destination tag
          (config.channels sender destination tag ++ [message])⟩ (.alone other) final ∧
      Step combine ⟨Function.update config.procs other then_,
        setChannel config.channels other target label
          (config.channels other target label ++ [found])⟩ (.alone sender) final := by
  have hstill : (Function.update config.procs sender next) other =
      .send target label found then_ := by
    rw [Function.update_of_ne hne.symm, hother]
  have hsending : (Function.update config.procs other then_) sender =
      .send destination tag message next := by
    rw [Function.update_of_ne hne, hsend]
  refine ⟨_, .send hstill, .send_of hsending ?_ ?_⟩
  · exact Function.update_comm hne _ _ _
  · simp only [setChannel_other _ fun h => hne h.1, setChannel_other _ fun h => hne h.1.symm]
    exact setChannel_comm _ _ fun h => hne h.1.symm

/-- The two orders of receives by different ranks. -/
theorem receive_receive_commute {receiver other source origin : ρ} {tag label : τ}
    {message found : μ} {rest remaining : List μ} {next then_ : μ → Proc ρ κ τ μ δ β}
    (hne : receiver ≠ other) (hreceive : config.procs receiver = .receive source tag next)
    (hchannel : config.channels source receiver tag = message :: rest)
    (hother : config.procs other = .receive origin label then_)
    (hsecond : config.channels origin other label = found :: remaining) :
    ∃ final, Step combine ⟨Function.update config.procs receiver (next message),
        setChannel config.channels source receiver tag rest⟩ (.alone other) final ∧
      Step combine ⟨Function.update config.procs other (then_ found),
        setChannel config.channels origin other label remaining⟩ (.alone receiver) final := by
  have hstill : (Function.update config.procs receiver (next message)) other =
      .receive origin label then_ := by
    rw [Function.update_of_ne hne.symm, hother]
  have hreceiving : (Function.update config.procs other (then_ found)) receiver =
      .receive source tag next := by
    rw [Function.update_of_ne hne, hreceive]
  refine ⟨_, .receive hstill ((setChannel_other _ fun h => hne h.2.1.symm).trans hsecond),
    .receive_of hreceiving ((setChannel_other _ fun h => hne h.2.1).trans hchannel) ?_ ?_⟩
  · exact Function.update_comm hne _ _ _
  · exact setChannel_comm _ _ fun h => hne h.2.1.symm

theorem step_commutes {first second : Action ρ} {left right : Config ρ κ τ μ δ β}
    (hne : first ≠ second) (hleft : Step combine config first left)
    (hright : Step combine config second right) :
    ∃ final, Step combine left second final ∧ Step combine right first final := by
  cases hleft with
  | @send sender _ _ _ _ hsend =>
    cases hright with
    | send hother => exact send_send_commute (fun h => hne (by rw [h])) hsend hother
    | receive hreceive hchannel =>
      exact send_receive_commute (fun h => hne (by rw [h])) hsend hreceive hchannel
    | collective hprocs =>
      rw [hprocs sender] at hsend
      cases hsend
  | @receive receiver _ _ _ _ _ hreceive hchannel =>
    cases hright with
    | send hsend =>
      exact (send_receive_commute (fun h => hne (by rw [h])) hsend hreceive hchannel).imp
        fun _ h => ⟨h.2, h.1⟩
    | receive hother hsecond =>
      exact receive_receive_commute (fun h => hne (by rw [h])) hreceive hchannel hother hsecond
    | collective hprocs =>
      rw [hprocs receiver] at hreceive
      cases hreceive
  | collective hprocs =>
    cases hright with
    | @send sender _ _ _ _ hsend =>
      rw [hprocs sender] at hsend
      cases hsend
    | @receive receiver _ _ _ _ _ hreceive _ =>
      rw [hprocs receiver] at hreceive
      cases hreceive
    | collective => exact absurd rfl hne

theorem diamond (combine : (kind : κ) → (ρ → δ kind) → δ kind) :
    Diamond fun config : Config ρ κ τ μ δ β => Step combine config :=
  ⟨step_deterministic, step_commutes⟩

/-! ### The end of a run -/

/-- A process that takes no more steps. -/
def Proc.Halted (p : Proc ρ κ τ μ δ β) : Prop := p = .abort ∨ ∃ result, p = .done result

/-- A rank that has halted stays so, and no collective takes place without it. -/
theorem Step.halted {action : Action ρ} {next : Config ρ κ τ μ δ β} {rank : ρ}
    (hstep : Step combine config action next) (h : (config.procs rank).Halted) :
    next.procs rank = config.procs rank ∧ action ≠ .together := by
  have hkeep : ∀ {other : ρ} {p : Proc ρ κ τ μ δ β}, ¬(config.procs other).Halted →
      Function.update config.procs other p rank = config.procs rank := fun {other} _ hother => by
    refine Function.update_of_ne (fun hsame => hother ?_) _ _
    exact hsame ▸ h
  cases hstep with
  | send hproc =>
    refine ⟨hkeep ?_, by simp⟩
    rw [hproc]
    rintro (hhalted | ⟨result, hhalted⟩) <;> cases hhalted
  | receive hproc _ =>
    refine ⟨hkeep ?_, by simp⟩
    rw [hproc]
    rintro (hhalted | ⟨result, hhalted⟩) <;> cases hhalted
  | collective hprocs =>
    rw [hprocs rank] at h
    rcases h with hhalted | ⟨result, hhalted⟩ <;> cases hhalted

/-- Nothing happens any more when every rank has halted. -/
theorem terminal_of_halted [Nonempty ρ] (h : ∀ rank, (config.procs rank).Halted) :
    Terminal (Step combine) config := by
  intro action next hstep
  cases hstep with
  | @send rank _ _ _ _ hproc => rcases h rank with hhalted | ⟨_, hhalted⟩ <;> simp_all
  | @receive rank _ _ _ _ _ hproc _ => rcases h rank with hhalted | ⟨_, hhalted⟩ <;> simp_all
  | collective hprocs =>
    obtain ⟨rank⟩ := ‹Nonempty ρ›
    rcases h rank with hhalted | ⟨_, hhalted⟩ <;> simp_all

theorem run_halted {run : List (Action ρ)} {next : Config ρ κ τ μ δ β} {rank : ρ}
    (hrun : Run (Step combine) config run next) (h : (config.procs rank).Halted) :
    next.procs rank = config.procs rank := by
  induction hrun with
  | nil => rfl
  | cons hstep _ ih =>
    have hsame := (hstep.halted h).1
    rw [ih (hsame ▸ h), hsame]

/-- A step of one rank leaves the others alone, and not right after a collective. -/
theorem Step.alone {next : Config ρ κ τ μ δ β} {rank : ρ}
    (hstep : Step combine config (.alone rank) next) :
    (∀ other, other ≠ rank → next.procs other = config.procs other) ∧
      ∀ fresh, (config.procs rank).Sealed fresh → (next.procs rank).Sealed false := by
  cases hstep with
  | send hproc =>
    refine ⟨fun other hne => Function.update_of_ne hne _ _, fun fresh hfresh => ?_⟩
    rw [hproc] at hfresh
    simp only [Function.update_self]
    exact hfresh
  | receive hproc _ =>
    refine ⟨fun other hne => Function.update_of_ne hne _ _, fun fresh hfresh => ?_⟩
    rw [hproc] at hfresh
    simp only [Function.update_self]
    exact hfresh _

theorem Step.sealed {action : Action ρ} {next : Config ρ κ τ μ δ β}
    (hstep : Step combine config action next)
    (h : ∀ rank, ∃ fresh, (config.procs rank).Sealed fresh) :
    ∀ rank, ∃ fresh, (next.procs rank).Sealed fresh := by
  intro rank
  obtain ⟨fresh, hfresh⟩ := h rank
  cases action with
  | alone mover =>
    obtain ⟨hothers, hmover⟩ := hstep.alone
    by_cases hsame : rank = mover
    · subst hsame
      exact ⟨false, hmover fresh hfresh⟩
    · exact ⟨fresh, hothers rank hsame ▸ hfresh⟩
  | together =>
    cases hstep with
    | collective hprocs =>
      rw [hprocs rank] at hfresh
      exact ⟨true, hfresh _⟩

/-- A rank whose last step is a collective does not end by steps of single ranks. -/
theorem run_open {run : List (Action ρ)} {final : Config ρ κ τ μ δ β} {rank halted : ρ}
    (hrun : Run (Step combine) config run final) (hhalted : (config.procs halted).Halted)
    (hopen : ∀ result, config.procs rank ≠ .done result)
    (hsealed : ∃ fresh, (config.procs rank).Sealed fresh) :
    ∀ result, final.procs rank ≠ .done result := by
  induction hrun with
  | nil => exact hopen
  | @cons config next final action rest hstep _ ih =>
    obtain ⟨hsame, halone⟩ := hstep.halted hhalted
    obtain ⟨fresh, hfresh⟩ := hsealed
    cases action with
    | together => exact absurd rfl halone
    | alone mover =>
      obtain ⟨hothers, hmover⟩ := hstep.alone
      by_cases hmoves : rank = mover
      · subst hmoves
        have hafter := hmover fresh hfresh
        refine ih (hsame ▸ hhalted) (fun result hdone => ?_) ⟨false, hafter⟩
        rw [hdone] at hafter
        cases hafter
      · have hkept := hothers rank hmoves
        exact ih (hsame ▸ hhalted) (hkept ▸ hopen) ⟨fresh, hkept ▸ hfresh⟩

/-- One schedule decides: if it ends with every rank done, no rank aborts under any
    schedule, none ends before all of them have, and every schedule ends there within a
    fixed number of steps. -/
theorem ends_together [Nonempty ρ] {start final : Config ρ κ τ μ δ β} {results : ρ → β}
    (hreaches : Reaches (Step combine) start final)
    (hdone : ∀ rank, final.procs rank = .done (results rank))
    (hsealed : ∀ rank, ∃ fresh, (start.procs rank).Sealed fresh) :
    ∃ bound, ∀ run reached, Run (Step combine) start run reached → run.length ≤ bound ∧
      (∀ rank, reached.procs rank ≠ .abort) ∧
      ((∃ rank result, reached.procs rank = .done result) → reached = final) ∧
      (Terminal (Step combine) reached → reached = final) := by
  have hlast : Terminal (Step combine) final :=
    terminal_of_halted fun rank => .inr ⟨results rank, hdone rank⟩
  obtain ⟨whole, hwhole⟩ := hreaches
  refine ⟨whole.length, fun run reached hrun => ?_⟩
  obtain ⟨rest, hrest, hlength⟩ := (diamond combine).completes hlast hwhole hrun
  have hends : Terminal (Step combine) reached → reached = final := by
    intro hterminal
    cases hrest with
    | nil => rfl
    | cons hstep _ => exact absurd hstep (hterminal _ _)
  refine ⟨by omega, fun rank habort => ?_, ?_, hends⟩
  · have hsame := run_halted hrest (.inl habort)
    rw [hdone rank, habort] at hsame
    cases hsame
  · rintro ⟨halted, result, hhalted⟩
    have hstill : ∀ rank, ∃ fresh, (reached.procs rank).Sealed fresh :=
      hrun.invariant (fun _ _ _ h hstep => Step.sealed hstep h) hsealed
    have hall : ∀ rank, ∃ result, reached.procs rank = .done result := by
      intro rank
      by_contra hopen
      exact run_open hrest (.inr ⟨result, hhalted⟩) (fun found hfound => hopen ⟨found, hfound⟩)
        (hstill rank) (results rank) (hdone rank)
    exact hends (terminal_of_halted fun rank => .inr (hall rank))

/-! ### Following one schedule -/

theorem reaches_collective {kind : κ} {values : ρ → δ kind} {nexts : ρ → δ kind → Proc ρ κ τ μ δ β}
    (hprocs : ∀ rank, config.procs rank = .collective kind (values rank) (nexts rank)) :
    ∃ final, Reaches (Step combine) config final ∧ final.channels = config.channels ∧
      ∀ rank, final.procs rank = nexts rank (combine kind values) :=
  ⟨_, .single (.collective hprocs), rfl, fun _ => rfl⟩

/-- A message is sent over an empty channel and received at once. -/
theorem reaches_transfer {sender receiver : ρ} {tag : τ} {message : μ} {next : Proc ρ κ τ μ δ β}
    {then_ : μ → Proc ρ κ τ μ δ β} (hne : sender ≠ receiver)
    (hsend : config.procs sender = .send receiver tag message next)
    (hreceive : config.procs receiver = .receive sender tag then_)
    (hempty : config.channels sender receiver tag = []) :
    ∃ final, Reaches (Step combine) config final ∧ final.channels = config.channels ∧
      final.procs sender = next ∧ final.procs receiver = then_ message ∧
      ∀ other, other ≠ sender → other ≠ receiver → final.procs other = config.procs other := by
  have hstill : (Function.update config.procs sender next) receiver =
      .receive sender tag then_ := by
    rw [Function.update_of_ne hne.symm, hreceive]
  have hqueued : setChannel config.channels sender receiver tag
      (config.channels sender receiver tag ++ [message]) sender receiver tag = [message] := by
    rw [setChannel_self, hempty]
    rfl
  refine ⟨_, (Reaches.single (.send hsend)).trans (.single (.receive hstill hqueued)), ?_, ?_, ?_,
    fun other hsender hreceiver => ?_⟩
  · dsimp only
    rw [setChannel_twice, ← hempty, setChannel_eq]
  · simp only [Function.update_of_ne hne, Function.update_self]
  · simp only [Function.update_self]
  · simp only [Function.update_of_ne hreceiver, Function.update_of_ne hsender]

end Steps

end Lib.Ranks
