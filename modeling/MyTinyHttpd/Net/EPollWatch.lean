import MyTinyHttpd.Net.EPollTable

/-!
# Which channels epoll watches

`UpdateChannel` deletes the descriptor of a channel without events from the epoll set when its
status is `kAdded`. With another status it adds the descriptor, with an empty mask, and the kernel
reports errors and hang-ups for it.

* `registration_step`: the table of all channels goes on for each of them as the registration in
  `Net/EPollPoller.lean`.
* `watched_iff`: the epoll set follows the masks exactly when no call disables a channel that has no
  events.
-/

namespace MyTinyHttpd

open Verif

namespace ChannelOp

theorem apply_zero {op : ChannelOp} (h : op.disables = true) {ch : Channel} (hch : ch.events = 0) :
    (op.apply ch).events = 0 := by
  cases op with
  | disableReading => simp [apply, Channel.disableReading, hch]
  | disableWriting => simp [apply, Channel.disableWriting, hch]
  | disableAll => rfl
  | enableReading | enableWriting | remove => cases h

theorem apply_ne_zero {op : ChannelOp} (h : op.disables = false) (hop : op ≠ .remove)
    (ch : Channel) : (op.apply ch).events ≠ 0 := by
  cases op with
  | enableReading => simp [apply, Channel.enableReading, Channel.kReadEvent]
  | enableWriting => simp [apply, Channel.enableWriting, Channel.kWriteEvent]
  | disableReading | disableWriting | disableAll => cases h
  | remove => exact absurd rfl hop

end ChannelOp

namespace EPollPoller

variable {κ : Type} {fd : κ → Nat} {s : EPollPoller κ} {c : κ}

/-! ## The epoll set and the masks -/

/-- The descriptors in the epoll set are those of the channels with events. -/
def WatchesEvents (fd : κ → Nat) (s : EPollPoller κ) : Prop :=
  ∀ c, (s.epoll (fd c)).isSome = true ↔ (s.channel c).events ≠ 0

/-- The call disables a channel that has no events. -/
def DisablesNone (s : EPollPoller κ) (i : κ × ChannelOp) : Prop :=
  i.2.disables = true ∧ (s.channel i.1).events = 0

theorem watchesEvents_iff (hfd : Function.Injective fd) (h : s.Consistent fd) :
    s.WatchesEvents fd ↔ ∀ c, s.status c = .kAdded ↔ (s.channel c).events ≠ 0 := by
  refine forall_congr' fun c => ?_
  rw [h.epoll_eq hfd c]
  split <;> simp_all

/-! ## One channel of the table -/

/-- What the table and the kernel know of one channel. -/
def registration (fd : κ → Nat) (s : EPollPoller κ) (c : κ) : Registration :=
  { status := s.status c, interest := (s.epoll (fd c)).map Prod.snd }

theorem Consistent.registration_eq (hfd : Function.Injective fd) (h : s.Consistent fd) (c : κ) :
    s.registration fd c =
      ⟨s.status c, if s.status c = .kAdded then some (s.channel c).events else none⟩ := by
  rw [registration, h.epoll_eq hfd c]
  split <;> rfl

@[simp] theorem update_status (op : CtlOp) : (s.update fd op c).status = s.status := by
  unfold update epollCtl
  split <;> rfl

@[simp] theorem update_channel (op : CtlOp) : (s.update fd op c).channel = s.channel := by
  unfold update epollCtl
  split <;> rfl

variable [DecidableEq κ]

theorem updateChannel_channel : (s.updateChannel fd c).channel = s.channel := by
  unfold updateChannel
  split
  · split <;> simp [setStatus]
  · split <;> simp [setStatus]
  · split
    · split <;> simp [setStatus]
    · rfl

theorem removeChannel_channel : (s.removeChannel fd c).channel = s.channel := by
  unfold removeChannel
  split
  · simp only [setStatus]
    split <;> simp
  · rfl

theorem step_channel (op : ChannelOp) :
    (s.step fd (c, op)).channel = Function.update s.channel c (op.apply (s.channel c)) := by
  cases op with
  | remove =>
    rw [ChannelOp.apply, Function.update_eq_self]
    simp only [step]
    split
    · exact removeChannel_channel
    · rfl
  | _ => exact updateChannel_channel

/-- The status after a change of the mask. -/
theorem step_status (hfd : Function.Injective fd) (h : s.Consistent fd) {op : ChannelOp}
    (hop : op ≠ .remove) : (s.step fd (c, op)).status = Function.update s.status c
      (if s.status c = .kAdded ∧ (op.apply (s.channel c)).isNoneEvent = true then .kDeleted
        else .kAdded) := by
  have hlookup := h.lookup_eq hfd c
  have hstep : s.step fd (c, op) = { s with
      channel := Function.update s.channel c (op.apply (s.channel c)) }.updateChannel fd c := by
    cases op <;> first | rfl | exact absurd rfl hop
  rw [hstep, updateChannel]
  cases hstatus : s.status c with
  | kNew =>
    rw [if_pos hstatus] at hlookup
    simp [AList.lookup_eq_none.mp hlookup, setStatus]
  | kDeleted =>
    rw [if_neg (by simp [hstatus])] at hlookup
    simp [hlookup, setStatus]
  | kAdded =>
    rw [if_neg (by simp [hstatus])] at hlookup
    simp only [hlookup, if_true, Function.update_self, true_and]
    split
    · simp [setStatus]
    · simp [← hstatus]

theorem remove_status (hfd : Function.Injective fd) (h : s.Consistent fd)
    (hi : s.Permitted (c, .remove)) :
    (s.step fd (c, .remove)).status = Function.update s.status c .kNew := by
  have hcases : s.status c = .kAdded ∨ s.status c = .kDeleted := by
    cases hs : s.status c with
    | kNew => exact absurd hs hi.1
    | kAdded => exact .inl rfl
    | kDeleted => exact .inr rfl
  have hlookup := h.lookup_eq hfd c
  rw [if_neg hi.1] at hlookup
  simp only [step, removeChannel, hi.2, if_true, hlookup, true_and, hcases, setStatus]
  split <;> simp

/-- For each channel the table goes on as the registration of that channel. -/
theorem registration_step (hfd : Function.Injective fd) (h : s.Consistent fd)
    {op : ChannelOp} (hi : s.Permitted (c, op)) (d : κ) :
    (s.step fd (c, op)).registration fd d =
      if d = c then
        if op = .remove then (s.registration fd c).removeChannel
        else (s.registration fd c).updateChannel (op.apply (s.channel c))
      else s.registration fd d := by
  rw [(h.step hfd hi).registration_eq hfd, step_channel, h.registration_eq hfd,
    h.registration_eq hfd]
  by_cases hop : op = .remove
  · subst hop
    rw [remove_status hfd h hi]
    by_cases hd : d = c
    · subst hd
      simp [Registration.removeChannel]
    · simp [hd]
  · rw [step_status hfd h hop]
    by_cases hd : d = c
    · subst hd
      cases hstatus : s.status d <;> cases hnone : (op.apply (s.channel d)).isNoneEvent <;>
        simp [Registration.updateChannel, hop, hnone]
    · simp [hd]

/-! ## Calls that keep the epoll set in step -/

theorem watchesEvents_step (hfd : Function.Injective fd) (h : s.Consistent fd)
    (hwatches : s.WatchesEvents fd) {i : κ × ChannelOp} (hi : s.Permitted i)
    (hbad : ¬ s.DisablesNone i) : (s.step fd i).WatchesEvents fd := by
  obtain ⟨c, op⟩ := i
  rw [watchesEvents_iff hfd h] at hwatches
  rw [watchesEvents_iff hfd (h.step hfd hi)]
  intro d
  rw [step_channel]
  by_cases hop : op = .remove
  · subst hop
    rw [remove_status hfd h hi]
    by_cases hd : d = c
    · subst hd
      simpa [ChannelOp.apply, Channel.isNoneEvent_iff] using hi.2
    · simpa [hd] using hwatches d
  · rw [step_status hfd h hop]
    by_cases hd : d = c
    · subst hd
      have hadded : (op.apply (s.channel d)).events = 0 → s.status d = .kAdded := by
        intro hnone
        refine (hwatches d).mpr fun hzero => hbad ⟨?_, hzero⟩
        cases hdis : op.disables with
        | true => rfl
        | false => exact absurd hnone (ChannelOp.apply_ne_zero hdis hop _)
      by_cases hnone : (op.apply (s.channel d)).events = 0
      · simp [Channel.isNoneEvent_iff, hnone, hadded hnone]
      · have hsome : (op.apply (s.channel d)).isNoneEvent = false := by
          rw [Bool.eq_false_iff, ne_eq, Channel.isNoneEvent_iff]
          exact hnone
        simpa [hsome] using hnone
    · simpa [hd] using hwatches d

/-- The descriptor is added with an empty mask. -/
theorem disablesNone_step (hfd : Function.Injective fd) (h : s.Consistent fd)
    (hwatches : s.WatchesEvents fd) {i : κ × ChannelOp} (hi : s.Permitted i)
    (hbad : s.DisablesNone i) : ¬ (s.step fd i).WatchesEvents fd := by
  obtain ⟨c, op⟩ := i
  obtain ⟨hdis, hzero⟩ := hbad
  have hop : op ≠ .remove := by
    rintro rfl
    cases hdis
  rw [watchesEvents_iff hfd h] at hwatches
  rw [watchesEvents_iff hfd (h.step hfd hi)]
  intro hafter
  have hnot : s.status c ≠ .kAdded := fun hadded => (hwatches c).mp hadded hzero
  have hevents := (hafter c).mp (by rw [step_status hfd h hop]; simp [hnot])
  rw [step_channel, Function.update_self] at hevents
  exact hevents (ChannelOp.apply_zero hdis hzero)

/-- After each call the epoll set has exactly the descriptors of the channels with events, if and
only if no call disables a channel that has no events. -/
theorem watched_iff (hfd : Function.Injective fd) (calls : List (κ × ChannelOp))
    (h : Legal (step fd) Permitted {} calls) :
    (∀ pre post, calls = pre ++ post → (pre.foldl (step fd) {}).WatchesEvents fd) ↔
      ∀ pre i post, calls = pre ++ i :: post → ¬ (pre.foldl (step fd) {}).DisablesNone i := by
  have hstart : ({} : EPollPoller κ).Consistent fd ∧ ({} : EPollPoller κ).WatchesEvents fd :=
    ⟨⟨by simp, by simp, rfl, rfl⟩, fun c => by simp⟩
  exact safe_iff (I := fun s => s.Consistent fd ∧ s.WatchesEvents fd)
    (G := fun s => s.WatchesEvents fd) (fun s hs => hs.2)
    (fun s i hs hi hgood => ⟨hs.1.step hfd hi, watchesEvents_step hfd hs.1 hs.2 hi hgood⟩)
    (fun s i hs hi hbad => disablesNone_step hfd hs.1 hs.2 hi hbad) hstart h

/-- `StopRead` of a connection, and `HandleClose` after it. -/
def stopThenClose : List (Nat × ChannelOp) :=
  [(0, .enableReading), (0, .disableReading), (0, .disableAll)]

theorem stopThenClose_not_watched :
    Legal (step (· + 3)) Permitted {} stopThenClose ∧
      ¬ ∀ pre post, stopThenClose = pre ++ post →
        (pre.foldl (step (· + 3)) {}).WatchesEvents (· + 3) := by
  refine ⟨by decide +kernel, fun h => ?_⟩
  have hwatches := h stopThenClose [] rfl 0
  exact absurd hwatches (by decide +kernel)

/-- Two channels whose events are disabled once each time. -/
def disabledOnce : List (Nat × ChannelOp) :=
  [(0, .enableReading), (1, .enableReading), (0, .enableWriting), (0, .disableReading),
    (0, .disableWriting), (1, .disableAll), (0, .remove), (1, .enableWriting), (0, .enableReading)]

instance (s : EPollPoller κ) (i : κ × ChannelOp) : Decidable (s.DisablesNone i) :=
  inferInstanceAs (Decidable (i.2.disables = true ∧ (s.channel i.1).events = 0))

theorem disabledOnce_watched :
    Legal (step (· + 3)) Permitted {} disabledOnce ∧
      ∀ pre post, disabledOnce = pre ++ post →
        (pre.foldl (step (· + 3)) {}).WatchesEvents (· + 3) := by
  have h : Legal (step (· + 3)) Permitted {} disabledOnce := by decide +kernel
  have hgood : Legal (step (· + 3)) (fun s i => ¬ DisablesNone s i) {} disabledOnce := by
    decide +kernel
  exact ⟨h, (watched_iff (add_left_injective 3) disabledOnce h).mpr (legal_iff.mp hgood)⟩

end EPollPoller

end MyTinyHttpd
