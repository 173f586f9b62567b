import Mathlib.Data.List.AList
import Mathlib.Logic.Function.Basic
import MyTinyHttpd.Lib.Machine
import MyTinyHttpd.Net.EPollPoller

/-!
# `net/epoll_poller.cc`: all channels of a loop and the epoll set

The channels of a loop are the elements of a type `κ`; `fd` gives their descriptors. An
`EPollPoller` has `channels_`, the `status_` of every channel, and the epoll set of the kernel,
where a descriptor has the channel and the mask that `epoll_ctl` was given. A call of `epoll_ctl`
that the kernel refuses goes to `ctlErrors`; a failed assertion sets `failed`.

* `table_consistent`: over any calls the three stay in step (`Consistent`), and nothing fails.

`Net/EPollPoller.lean` has the same for one channel; `Net/EPollWatch.lean` connects the two.
-/

namespace MyTinyHttpd

open Verif

/-! ## `net/channel.h` -/

theorem Channel.isNoneEvent_iff (ch : Channel) : ch.isNoneEvent = true ↔ ch.events = 0 := by
  simp [Channel.isNoneEvent, Channel.kNoneEvent]

/-- The calls on a channel that reach the poller. -/
inductive ChannelOp where
  | enableReading
  | disableReading
  | enableWriting
  | disableWriting
  | disableAll
  | remove
  deriving DecidableEq

namespace ChannelOp

/-- What the call does to `events_`. -/
def apply : ChannelOp → Channel → Channel
  | .enableReading, ch => ch.enableReading
  | .disableReading, ch => ch.disableReading
  | .enableWriting, ch => ch.enableWriting
  | .disableWriting, ch => ch.disableWriting
  | .disableAll, ch => ch.disableAll
  | .remove, ch => ch

def disables : ChannelOp → Bool
  | .disableReading | .disableWriting | .disableAll => true
  | .enableReading | .enableWriting | .remove => false

end ChannelOp

/-- Channels with distinct descriptors. -/
theorem fd_ne {κ : Type} {fd : κ → Nat} (hfd : Function.Injective fd) {c d : κ} (h : d ≠ c) :
    (fd d : Int) ≠ fd c :=
  fun he => h (hfd (Int.ofNat_inj.mp he))

/-! ## The poller -/

/-- The operations of `epoll_ctl`. -/
inductive CtlOp where
  | add
  | mod
  | del
  deriving DecidableEq

structure EPollPoller (κ : Type) where
  channel : κ → Channel := fun _ => {}
  status : κ → ChannelStatus := fun _ => .kNew
  channels : AList (fun _ : Int => κ) := ∅
  /-- The epoll set: `data.ptr` and `events` of the descriptors in it. -/
  epoll : Int → Option (κ × BitVec 32) := fun _ => none
  ctlErrors : List (CtlOp × Int) := []
  failed : Bool := false

namespace EPollPoller

variable {κ : Type} (fd : κ → Nat)

section

variable [DecidableEq κ]

def setStatus (s : EPollPoller κ) (c : κ) (status : ChannelStatus) : EPollPoller κ :=
  { s with status := Function.update s.status c status }

/-- `epoll_ctl`: a descriptor is added when it is not in the set, and modified or deleted when it
is. -/
def epollCtl (s : EPollPoller κ) (op : CtlOp) (n : Int) (event : κ × BitVec 32) : EPollPoller κ :=
  match op, s.epoll n with
  | .add, none | .mod, some _ => { s with epoll := Function.update s.epoll n (some event) }
  | .del, some _ => { s with epoll := Function.update s.epoll n none }
  | .add, some _ | .mod, none | .del, none => { s with ctlErrors := s.ctlErrors ++ [(op, n)] }

/-- `Update(operation, channel)`. -/
def update (s : EPollPoller κ) (operation : CtlOp) (c : κ) : EPollPoller κ :=
  s.epollCtl operation (fd c) (c, (s.channel c).events)

def updateChannel (s : EPollPoller κ) (c : κ) : EPollPoller κ :=
  match s.status c with
  | .kNew =>
    if (fd c : Int) ∈ s.channels then { s with failed := true }
    else
      let s := { s with channels := s.channels.insert (fd c : Int) c }
      (s.setStatus c .kAdded).update fd .add c
  | .kDeleted =>
    if s.channels.lookup (fd c : Int) = some c then (s.setStatus c .kAdded).update fd .add c
    else { s with failed := true }
  | .kAdded =>
    if s.channels.lookup (fd c : Int) = some c then
      if (s.channel c).isNoneEvent then (s.update fd .del c).setStatus c .kDeleted
      else s.update fd .mod c
    else { s with failed := true }

def removeChannel (s : EPollPoller κ) (c : κ) : EPollPoller κ :=
  if s.channels.lookup (fd c : Int) = some c ∧ (s.channel c).isNoneEvent = true ∧
      (s.status c = .kAdded ∨ s.status c = .kDeleted) then
    let t := { s with channels := s.channels.erase (fd c : Int) }
    let t := if s.status c = .kAdded then t.update fd .del c else t
    t.setStatus c .kNew
  else { s with failed := true }

/-- A call on a channel: `Remove()`, or a change of `events_` and `Update()`. -/
def step (s : EPollPoller κ) : κ × ChannelOp → EPollPoller κ
  | (c, .remove) =>
    if (s.channel c).isNoneEvent then s.removeChannel fd c else { s with failed := true }
  | (c, op) =>
    { s with channel := Function.update s.channel c (op.apply (s.channel c)) }.updateChannel fd c

/-- `Remove()` is called on channels that are registered and have no events. -/
def Permitted (s : EPollPoller κ) : κ × ChannelOp → Prop
  | (c, .remove) => s.status c ≠ .kNew ∧ (s.channel c).isNoneEvent = true
  | _ => True

end

/-! ## The table and the kernel -/

/-- The epoll set has the channels with status `kAdded`, with their masks; `channels_` has the
channels with status `kAdded` or `kDeleted`. No call of `epoll_ctl` and no assertion has failed. -/
structure Consistent (s : EPollPoller κ) : Prop where
  epoll : ∀ n c events, s.epoll n = some (c, events) ↔
    n = fd c ∧ s.status c = .kAdded ∧ events = (s.channel c).events
  channels : ∀ n c, s.channels.lookup n = some c ↔ n = fd c ∧ s.status c ≠ .kNew
  ctlErrors : s.ctlErrors = []
  failed : s.failed = false

variable {fd} {s : EPollPoller κ} {c : κ}

theorem Consistent.epoll_eq (hfd : Function.Injective fd) (h : s.Consistent fd) (c : κ) :
    s.epoll (fd c) = if s.status c = .kAdded then some (c, (s.channel c).events) else none := by
  split
  · next hadded => exact (h.epoll _ _ _).mpr ⟨rfl, hadded, rfl⟩
  · next hadded =>
    refine Option.eq_none_iff_forall_ne_some.mpr fun e he => ?_
    obtain ⟨hn, hstatus, -⟩ := (h.epoll _ e.1 e.2).mp he
    rw [← hfd (Int.ofNat_inj.mp hn)] at hstatus
    exact hadded hstatus

theorem Consistent.lookup_eq (hfd : Function.Injective fd) (h : s.Consistent fd) (c : κ) :
    s.channels.lookup (fd c : Int) = if s.status c = .kNew then none else some c := by
  split
  · next hnew =>
    refine Option.eq_none_iff_forall_ne_some.mpr fun d hd => ?_
    obtain ⟨hn, hstatus⟩ := (h.channels _ d).mp hd
    rw [← hfd (Int.ofNat_inj.mp hn)] at hstatus
    exact hstatus hnew
  · next hnew => exact (h.channels _ _).mpr ⟨rfl, hnew⟩

/-- A change of one channel that the table and the kernel follow. -/
theorem Consistent.change (hfd : Function.Injective fd) (h : s.Consistent fd)
    {s' : EPollPoller κ} (hother : ∀ d, d ≠ c → s'.channel d = s.channel d ∧
      s'.status d = s.status d)
    (hepoll : s'.epoll = Function.update s.epoll (fd c)
      (if s'.status c = .kAdded then some (c, (s'.channel c).events) else none))
    (hchannels : ∀ n, s'.channels.lookup n = if n = fd c then
      (if s'.status c = .kNew then none else some c) else s.channels.lookup n)
    (herrors : s'.ctlErrors = s.ctlErrors) (hfailed : s'.failed = s.failed) :
    s'.Consistent fd := by
  refine ⟨fun n d events => ?_, fun n d => ?_, herrors.trans h.ctlErrors, hfailed.trans h.failed⟩
  · rw [hepoll]
    by_cases hn : n = fd c
    · subst hn
      rw [Function.update_self]
      by_cases hd : d = c
      · subst hd
        by_cases hadded : s'.status d = .kAdded <;> simp [hadded, eq_comm]
      · simp only [(fd_ne hfd hd).symm, false_and, iff_false]
        split <;> simp [Ne.symm hd]
    · rw [Function.update_of_ne hn, h.epoll]
      refine and_congr_right fun hnd => ?_
      obtain ⟨hchannel, hstatus⟩ := hother d fun hd => hn (by rw [hnd, hd])
      rw [hchannel, hstatus]
  · rw [hchannels]
    by_cases hn : n = fd c
    · subst hn
      rw [if_pos rfl]
      by_cases hd : d = c
      · subst hd
        by_cases hnew : s'.status d = .kNew <;> simp [hnew]
      · simp only [(fd_ne hfd hd).symm, false_and, iff_false]
        split <;> simp [Ne.symm hd]
    · rw [if_neg hn, h.channels]
      refine and_congr_right fun hnd => ?_
      rw [(hother d fun hd => hn (by rw [hnd, hd])).2]

/-! ## Every call keeps them in step -/

theorem update_add (h : s.epoll (fd c) = none) : s.update fd .add c =
    { s with epoll := Function.update s.epoll (fd c) (some (c, (s.channel c).events)) } := by
  simp only [update, epollCtl, h]

theorem update_mod (h : s.epoll (fd c) ≠ none) : s.update fd .mod c =
    { s with epoll := Function.update s.epoll (fd c) (some (c, (s.channel c).events)) } := by
  obtain ⟨e, he⟩ := Option.ne_none_iff_exists'.mp h
  simp only [update, epollCtl, he]

theorem update_del (h : s.epoll (fd c) ≠ none) : s.update fd .del c =
    { s with epoll := Function.update s.epoll (fd c) none } := by
  obtain ⟨e, he⟩ := Option.ne_none_iff_exists'.mp h
  simp only [update, epollCtl, he]

variable [DecidableEq κ]

/-- `EPOLL_CTL_ADD`, when the channel is in the map: it was there before, or it has just been
inserted. `ch` is the channel with the new mask. -/
theorem Consistent.add (hfd : Function.Injective fd) (h : s.Consistent fd) (c : κ) (ch : Channel)
    {channels : AList fun _ : Int => κ} (hepoll : s.epoll (fd c) = none)
    (hchannels : ∀ n, channels.lookup n = if n = fd c then some c else s.channels.lookup n) :
    (({ s with channel := Function.update s.channel c ch, channels }.setStatus c .kAdded).update
      fd .add c).Consistent fd := by
  rw [update_add]
  · exact h.change hfd (fun d hd => ⟨Function.update_of_ne hd .., Function.update_of_ne hd ..⟩)
      (by simp [setStatus]) (by simpa [setStatus] using hchannels) rfl rfl
  · exact hepoll

/-- `EnableReading` and its like. -/
theorem Consistent.updateChannel (hfd : Function.Injective fd) (h : s.Consistent fd) (c : κ)
    (ch : Channel) :
    ({ s with channel := Function.update s.channel c ch }.updateChannel fd c).Consistent fd := by
  have hepoll := h.epoll_eq hfd c
  have hlookup := h.lookup_eq hfd c
  have hkeep : s.channels.lookup (fd c : Int) = some c → ∀ n, s.channels.lookup n =
      if n = fd c then some c else s.channels.lookup n := by
    intro hc n
    split
    · next hn => rw [hn, hc]
    · rfl
  unfold EPollPoller.updateChannel
  cases hstatus : s.status c with
  | kNew =>
    rw [hstatus] at hepoll hlookup
    simp only [reduceCtorEq, if_false, if_true] at hepoll hlookup
    simp only [AList.lookup_eq_none.mp hlookup, if_false]
    refine h.add hfd c ch hepoll fun n => ?_
    split
    · next hn => rw [hn, AList.lookup_insert]
    · next hn => exact AList.lookup_insert_ne hn
  | kDeleted =>
    rw [hstatus] at hepoll hlookup
    simp only [reduceCtorEq, if_false] at hepoll hlookup
    simp only [hlookup, if_true]
    exact h.add hfd c ch hepoll (hkeep hlookup)
  | kAdded =>
    rw [hstatus] at hepoll hlookup
    simp only [reduceCtorEq, if_false, if_true] at hepoll hlookup
    have hsome : s.epoll (fd c) ≠ none := by rw [hepoll]; exact Option.some_ne_none _
    simp only [hlookup, if_true]
    split
    · rw [update_del]
      · exact h.change hfd
          (fun d hd => ⟨Function.update_of_ne hd .., Function.update_of_ne hd ..⟩)
          (by simp [setStatus]) (by simpa [setStatus] using hkeep hlookup) rfl rfl
      · exact hsome
    · rw [update_mod]
      · exact h.change hfd (fun d hd => ⟨Function.update_of_ne hd .., rfl⟩)
          (by simp [hstatus]) (by simpa [hstatus] using hkeep hlookup) rfl rfl
      · exact hsome

theorem Consistent.removeChannel (hfd : Function.Injective fd) (h : s.Consistent fd)
    (hstatus : s.status c ≠ .kNew) (hnone : (s.channel c).isNoneEvent = true) :
    (s.removeChannel fd c).Consistent fd := by
  have hepoll := h.epoll_eq hfd c
  have hlookup := h.lookup_eq hfd c
  have hcases : s.status c = .kAdded ∨ s.status c = .kDeleted := by
    cases hs : s.status c <;> simp_all
  rw [if_neg hstatus] at hlookup
  have hchannels : ∀ n, (s.channels.erase (fd c : Int)).lookup n =
      if n = fd c then none else s.channels.lookup n := by
    intro n
    split
    · next hn => rw [hn, AList.lookup_erase]
    · next hn => exact AList.lookup_erase_ne hn
  simp only [EPollPoller.removeChannel, hlookup, hnone, hcases, and_self, if_true]
  split
  · next hadded =>
    have hsome : s.epoll (fd c) ≠ none := by rw [hepoll, if_pos hadded]; exact Option.some_ne_none _
    rw [update_del]
    · exact h.change hfd (fun d hd => ⟨rfl, Function.update_of_ne hd ..⟩) (by simp [setStatus])
        (by simpa [setStatus] using hchannels) rfl rfl
    · exact hsome
  · next hadded =>
    rw [if_neg hadded] at hepoll
    refine h.change hfd (fun d hd => ⟨rfl, Function.update_of_ne hd ..⟩) ?_
      (by simpa [setStatus] using hchannels) rfl rfl
    simpa [setStatus] using hepoll

theorem Consistent.step (hfd : Function.Injective fd) (h : s.Consistent fd) {i : κ × ChannelOp}
    (hi : s.Permitted i) : (s.step fd i).Consistent fd := by
  obtain ⟨c, op⟩ := i
  cases op with
  | remove =>
    simp only [EPollPoller.step, hi.2, if_true]
    exact h.removeChannel hfd hi.1 hi.2
  | _ => exact h.updateChannel hfd c _

/-! ## Whole runs -/

/-- In every reachable state the epoll set, `channels_` and the status of the channels agree, and
no call of `epoll_ctl` and no assertion has failed. -/
theorem table_consistent (hfd : Function.Injective fd) (calls : List (κ × ChannelOp))
    (h : Legal (step fd) Permitted {} calls) : (calls.foldl (step fd) {}).Consistent fd := by
  refine legal_invariant (I := Consistent fd) (fun s i hs hi => hs.step hfd hi) ?_ h
  exact ⟨by simp, by simp, rfl, rfl⟩

instance (s : EPollPoller κ) (i : κ × ChannelOp) : Decidable (s.Permitted i) :=
  match i with
  | (c, .remove) =>
    inferInstanceAs (Decidable (s.status c ≠ .kNew ∧ (s.channel c).isNoneEvent = true))
  | (_, .enableReading) | (_, .disableReading) | (_, .enableWriting) | (_, .disableWriting)
  | (_, .disableAll) => isTrue trivial

/-- Two channels that are enabled, disabled more than once, removed and enabled again. -/
def onAndOff : List (Nat × ChannelOp) :=
  [(0, .enableReading), (1, .disableAll), (0, .enableWriting), (1, .disableAll),
    (1, .enableReading), (0, .disableReading), (0, .disableAll), (1, .disableAll), (1, .remove),
    (0, .remove), (1, .enableWriting), (0, .enableReading)]

theorem onAndOff_consistent :
    Legal (step (· + 3)) Permitted {} onAndOff ∧
      (onAndOff.foldl (step (· + 3)) {}).Consistent (· + 3) := by
  have h : Legal (step (· + 3)) Permitted {} onAndOff := by decide +kernel
  exact ⟨h, table_consistent (add_left_injective 3) onAndOff h⟩

end EPollPoller

end MyTinyHttpd
