import MyTinyHttpd.Net.EPollWatch
import MyTinyHttpd.Net.PollTable

/-!
# `net/default_poller.cc`: one poller in place of the other

The same calls on the same channels are given to an `EPollPoller` and to a `PollPoller`. `Agree` is
the simulation between the two: same masks, and a channel is new for epoll exactly when it is not
registered with the other one.

* `interchangeable_iff`: when the first one runs without a failed assertion, the second one does,
  with the same interests at the end, exactly when no channel is used after its `Remove()`, and no
  channel is removed after a single update. `RemoveChannel` of `PollPoller` does not make the
  channel new again, and its first `UpdateChannel` does not make `poll` ignore a channel without
  events.
-/

namespace MyTinyHttpd

open Verif

/-! ## Masks -/

namespace ChannelOp

/-- The mask of a channel fits in the `short` of a `pollfd`. -/
theorem apply_lt (op : ChannelOp) {ch : Channel} (h : ch.events.toNat < 2 ^ 15) :
    (op.apply ch).events.toNat < 2 ^ 15 := by
  cases op with
  | enableReading =>
    simp only [apply, Channel.enableReading, BitVec.toNat_or]
    exact Nat.or_lt_two_pow h (by decide)
  | enableWriting =>
    simp only [apply, Channel.enableWriting, BitVec.toNat_or]
    exact Nat.or_lt_two_pow h (by decide)
  | disableReading =>
    simp only [apply, Channel.disableReading, BitVec.toNat_and]
    exact (Nat.and_le_left).trans_lt h
  | disableWriting =>
    simp only [apply, Channel.disableWriting, BitVec.toNat_and]
    exact (Nat.and_le_left).trans_lt h
  | disableAll => exact show (0 : Nat) < 2 ^ 15 by decide
  | remove => exact h

end ChannelOp

theorem Channel.short_events {ch : Channel} (h : ch.events.toNat < 2 ^ 15) :
    (ch.events.setWidth 16).signExtend 32 = ch.events := by
  have hmod : ch.events.toNat % 2 ^ 16 = ch.events.toNat := Nat.mod_eq_of_lt (by omega)
  have hmsb : (ch.events.setWidth 16).msb = false := by
    rw [BitVec.msb_eq_false_iff_two_mul_lt, BitVec.toNat_setWidth, hmod]
    omega
  rw [BitVec.signExtend_eq_setWidth_of_msb_false hmsb]
  refine BitVec.eq_of_toNat_eq ?_
  rw [BitVec.toNat_setWidth, BitVec.toNat_setWidth, hmod]
  exact Nat.mod_eq_of_lt (by omega)

variable {κ : Type} {fd : κ → Nat} {e : EPollPoller κ} {p : PollPoller κ} {use : κ → ChannelUse}
  {c : κ}

/-! ## Failed assertions -/

namespace EPollPoller

@[simp] theorem update_failed (op : CtlOp) : (e.update fd op c).failed = e.failed := by
  unfold update epollCtl
  split <;> rfl

variable [DecidableEq κ]

theorem updateChannel_failed (h : (e.updateChannel fd c).failed = false) : e.failed = false := by
  unfold updateChannel at h
  split at h
  · split at h
    · cases h
    · simpa [setStatus] using h
  · split at h
    · simpa [setStatus] using h
    · cases h
  · split at h
    · split at h <;> simpa [setStatus] using h
    · cases h

theorem removeChannel_failed (h : (e.removeChannel fd c).failed = false) : e.failed = false := by
  unfold removeChannel at h
  split at h
  · simp only [setStatus] at h
    split at h
    · simpa using h
    · exact h
  · cases h

theorem step_failed (e : EPollPoller κ) (i : κ × ChannelOp) (h : (e.step fd i).failed = false) :
    e.failed = false := by
  obtain ⟨c, op⟩ := i
  cases op with
  | remove =>
    simp only [step] at h
    split at h
    · exact removeChannel_failed h
    · cases h
  | _ =>
    have hbefore := updateChannel_failed h
    exact hbefore

/-- A run without a failed assertion is one in which the channels are removed as they should be. -/
theorem legal_of_not_failed (hfd : Function.Injective fd) {calls : List (κ × ChannelOp)}
    (h : (calls.foldl (step fd) {}).failed = false) : Legal (step fd) Permitted {} calls := by
  have hlegal : Legal (step fd) (fun _ _ => True) {} calls :=
    legal_iff.mpr fun _ _ _ _ => trivial
  refine legal_iff.mpr fun pre i post he => not_not.mp ?_
  refine (safe_end_iff (I := Consistent fd) (G := fun e => e.failed = false)
    (fun e he => he.failed) (fun e i => step_failed e i)
    (fun e i he _ hi => he.step hfd (not_not.mp hi)) (fun e i he _ hi => ?_)
    ⟨by simp, by simp, rfl, rfl⟩ hlegal).mp h pre i post he
  obtain ⟨c, op⟩ := i
  cases op with
  | remove =>
    simp only [step, removeChannel]
    by_cases hnone : (e.channel c).isNoneEvent = true
    · have hnew : e.status c = .kNew := not_not.mp fun hnew => hi ⟨hnew, hnone⟩
      simp [hnone, hnew]
    · simp [hnone]
  | _ => exact absurd trivial hi

end EPollPoller

namespace PollPoller

/-- What no function of the poller does: change a mask, take back a failed assertion or make a
channel new. -/
structure Frame (p p' : PollPoller κ) : Prop where
  channel : p'.channel = p.channel
  failed : p'.failed = false → p.failed = false
  status : ∀ c, 0 ≤ p.status c → 0 ≤ p'.status c

theorem Frame.fail (p : PollPoller κ) : Frame p { p with failed := true } :=
  ⟨rfl, fun h => absurd h (by simp), fun _ h => h⟩

variable [DecidableEq κ]

theorem setStatus_nonneg {d : κ} (i : Nat) (h : 0 ≤ p.status d) :
    0 ≤ (p.setStatus c i).status d := by
  by_cases hd : d = c
  · subst hd
    simp [setStatus]
  · simpa [setStatus, hd] using h

theorem updateChannel_frame : Frame p (p.updateChannel fd c) := by
  unfold updateChannel
  split
  · split
    · exact .fail p
    · exact ⟨rfl, id, fun _ h => setStatus_nonneg _ h⟩
  · split
    · split
      · exact .fail p
      · split
        · exact ⟨rfl, id, fun _ h => h⟩
        · exact .fail p
    · exact .fail p

theorem takeOut_frame (i : Nat) : Frame p (p.takeOut i) := by
  unfold takeOut
  split
  · exact ⟨rfl, id, fun _ h => h⟩
  · split
    · exact .fail p
    · simp only
      split
      · exact ⟨rfl, fun h => absurd h (by simp), fun _ h => h⟩
      · exact ⟨rfl, id, fun _ h => setStatus_nonneg _ h⟩

theorem removeChannel_frame : Frame p (p.removeChannel fd c) := by
  unfold removeChannel
  split
  · split
    · exact .fail p
    · split
      · -- `takeOut` starts with the channel erased from the map.
        have h := takeOut_frame (p := { p with channels := p.channels.erase (fd c : Int) })
          (p.status c).toNat
        exact ⟨h.channel, h.failed, h.status⟩
      · exact .fail p
  · exact .fail p

/-- A call changes one mask. -/
theorem step_frame (op : ChannelOp) :
    Frame { p with channel := Function.update p.channel c (op.apply (p.channel c)) }
      (p.step fd (c, op)) := by
  cases op with
  | remove =>
    rw [ChannelOp.apply, Function.update_eq_self]
    simp only [step]
    split
    · exact removeChannel_frame
    · exact .fail p
  | _ => exact updateChannel_frame

/-- A channel without events is not ignored after a single update. -/
theorem remove_after_one (h : TableInv fd use p) (hc : (use c).updates = 1) :
    (p.step fd (c, .remove)).failed = true := by
  obtain ⟨i, pfd, hi, -, hentry, hof⟩ := h.entry_eq (c := c) (by omega)
  have hpfd : pfd.fd ≠ ignored fd c := by
    rw [hof.fd, if_neg (by omega), ignored]
    omega
  simp only [step, removeChannel, hentry, hpfd, false_and, if_false]
  split
  · split <;> rfl
  · rfl

/-- The index of a channel that has been removed is none of the table. -/
theorem update_after_remove (hfd : Function.Injective fd) (h : TableInv fd use p)
    (hr : (use c).removed = true) (hstatus : 0 ≤ p.status c) {op : ChannelOp} (hop : op ≠ .remove) :
    (p.step fd (c, op)).failed = true := by
  have hlookup := h.lookup_none hfd ((h.channel c).removed hr)
  have hnew : p.status c ≠ -1 := by omega
  cases op with
  | remove => exact absurd rfl hop
  | _ => simp [step, updateChannel, hnew, hlookup]

end PollPoller

/-! ## The simulation -/

/-- The two pollers after the same calls; `use` is what the calls say. -/
structure Agree (fd : κ → Nat) (use : κ → ChannelUse) (e : EPollPoller κ) (p : PollPoller κ) :
    Prop where
  epoll : e.Consistent fd
  poll : PollPoller.TableInv fd use p
  channel : e.channel = p.channel
  registered : ∀ c, e.status c ≠ .kNew ↔ 0 < (use c).updates
  added : ∀ c, (e.channel c).events ≠ 0 → e.status c = .kAdded
  short : ∀ c, (e.channel c).events.toNat < 2 ^ 15
  removed : ∀ c, (use c).removed = true → 0 ≤ p.status c

/-- The descriptors with a non-zero interest are the same, with the same masks. -/
def SameInterests (e : EPollPoller κ) (p : PollPoller κ) : Prop :=
  ∀ (n : Nat) events, events ≠ 0 →
    ((∃ c, e.epoll n = some (c, events)) ↔
      ∃ pfd ∈ p.pollfds, pfd.fd = n ∧ pfd.events.signExtend 32 = events)

theorem Agree.sameInterests (h : Agree fd use e p) : SameInterests e p := by
  intro n events hne
  constructor
  · rintro ⟨c, hc⟩
    obtain ⟨hn, hadded, rfl⟩ := (h.epoll.epoll n c events).mp hc
    have hreg := (h.registered c).mp (by rw [hadded]; simp)
    obtain ⟨i, pfd, hi, hpfd, hof⟩ := (h.poll.channel c).entry hreg
    refine ⟨pfd, List.mem_of_getElem? hpfd, ?_, ?_⟩
    · rw [hof.fd, if_neg, hn]
      rintro ⟨-, hnone⟩
      rw [← h.channel, Channel.isNoneEvent_iff] at hnone
      exact hne hnone
    · rw [hof.events, ← h.channel, Channel.short_events (h.short c)]
  · rintro ⟨pfd, hmem, hn, rfl⟩
    obtain ⟨i, hi⟩ := List.getElem?_of_mem hmem
    obtain ⟨c, hc, -, hof⟩ := h.poll.owner_entry hi
    rw [hof.events, ← h.channel, Channel.short_events (h.short c)] at hne ⊢
    refine ⟨c, (h.epoll.epoll n c _).mpr ⟨?_, h.added c hne, rfl⟩⟩
    rw [← hn]
    exact hof.watched (by omega)

/-- The call goes to a channel that has been removed, or removes one after a single update. -/
def Diverges (use : κ → ChannelUse) (i : κ × ChannelOp) : Prop :=
  (use i.1).removed = true ∨ i.2 = .remove ∧ (use i.1).updates < 2

theorem Agree.allowed (h : Agree fd use e p) {i : κ × ChannelOp} (hi : e.Permitted i)
    (hgood : ¬ Diverges use i) : PollPoller.Allowed fd (use, p) i := by
  obtain ⟨c, op⟩ := i
  rw [Diverges, not_or] at hgood
  have hremoved : (use c).removed = false := by simpa using hgood.1
  cases op with
  | remove =>
    have htwo : 2 ≤ (use c).updates := by
      have := hgood.2
      simp only [true_and] at this
      omega
    have hnone : (p.channel c).isNoneEvent = true := by
      rw [← h.channel]
      exact hi.2
    obtain ⟨i, pfd, -, -, hentry, hof⟩ := h.poll.entry_eq (c := c) (by omega)
    refine ⟨hremoved, (h.poll.channel c).registered.mpr (by omega), hnone, ?_⟩
    rw [hentry, Option.map_some, hof.fd, if_pos ⟨htwo, hnone⟩]
  | _ => exact hremoved

variable [DecidableEq κ]

theorem ChannelUse.step_update {op : ChannelOp} (hop : op ≠ .remove) :
    ChannelUse.step use (c, op) =
      Function.update use c { use c with updates := (use c).updates + 1 } := by
  cases op <;> first | rfl | exact absurd rfl hop

/-- A channel has an index as long as it is registered, and keeps one. -/
theorem Agree.step_removed (h : Agree fd use e p) {op : ChannelOp} (hi : e.Permitted (c, op))
    {d : κ} (hd : (ChannelUse.step use (c, op) d).removed = true) :
    0 ≤ (p.step fd (c, op)).status d := by
  refine (PollPoller.step_frame op).status d (show 0 ≤ p.status d from ?_)
  by_cases hdc : d = c ∧ op = .remove
  · obtain ⟨rfl, rfl⟩ := hdc
    obtain ⟨i, -, hindex, -⟩ := (h.poll.channel d).entry ((h.registered d).mp hi.1)
    omega
  · refine h.removed d ?_
    by_cases hop : op = .remove
    · subst hop
      have hc : d ≠ c := fun hc => hdc ⟨hc, rfl⟩
      simpa [ChannelUse.step, hc] using hd
    · rw [ChannelUse.step_update hop] at hd
      by_cases hc : d = c
      · subst hc
        simpa using hd
      · simpa [hc] using hd

theorem Agree.step (hfd : Function.Injective fd) (h : Agree fd use e p) {i : κ × ChannelOp}
    (hi : e.Permitted i) (hgood : ¬ Diverges use i) :
    Agree fd (ChannelUse.step use i) (e.step fd i) (p.step fd i) := by
  have hpoll := h.poll.step hfd (h.allowed hi hgood)
  have hepoll := h.epoll.step hfd hi
  obtain ⟨c, op⟩ := i
  have hchannel : (e.step fd (c, op)).channel = (p.step fd (c, op)).channel := by
    rw [EPollPoller.step_channel, (PollPoller.step_frame op).channel, h.channel]
  refine ⟨hepoll, hpoll, hchannel, fun d => ?_, fun d => ?_, fun d => ?_,
    fun d hd => h.step_removed hi hd⟩
  · by_cases hop : op = .remove
    · subst hop
      rw [EPollPoller.remove_status hfd h.epoll hi]
      by_cases hd : d = c
      · subst hd
        simp [ChannelUse.step]
      · simpa [ChannelUse.step, hd] using h.registered d
    · rw [EPollPoller.step_status hfd h.epoll hop, ChannelUse.step_update hop]
      by_cases hd : d = c
      · subst hd
        simp only [Function.update_self, Nat.zero_lt_succ, iff_true]
        split <;> simp
      · simpa [hd] using h.registered d
  · rw [EPollPoller.step_channel]
    by_cases hop : op = .remove
    · subst hop
      rw [EPollPoller.remove_status hfd h.epoll hi]
      by_cases hd : d = c
      · subst hd
        have hnone := (Channel.isNoneEvent_iff _).mp hi.2
        simp [ChannelOp.apply, hnone]
      · simpa [hd] using h.added d
    · rw [EPollPoller.step_status hfd h.epoll hop]
      by_cases hd : d = c
      · subst hd
        intro hne
        rw [Function.update_self, if_neg]
        rintro ⟨-, hnone⟩
        rw [Channel.isNoneEvent_iff] at hnone
        simp [hnone] at hne
      · simpa [hd] using h.added d
  · rw [EPollPoller.step_channel]
    by_cases hd : d = c
    · subst hd
      rw [Function.update_self]
      exact op.apply_lt (h.short d)
    · rw [Function.update_of_ne hd]
      exact h.short d

/-- The assertions that `PollPoller` has and `EPollPoller` has not. -/
theorem Agree.diverges (hfd : Function.Injective fd) (h : Agree fd use e p) {i : κ × ChannelOp}
    (hi : e.Permitted i) (hbad : Diverges use i) : (p.step fd i).failed = true := by
  obtain ⟨c, op⟩ := i
  by_cases hop : op = .remove
  · subst hop
    have hpos := (h.registered c).mp hi.1
    refine PollPoller.remove_after_one h.poll (Nat.le_antisymm ?_ hpos)
    rcases hbad with hr | ⟨-, hlt⟩
    · have hzero := (h.poll.channel c).removed hr
      omega
    · exact Nat.le_of_lt_succ hlt
  · have hr := hbad.resolve_right fun hremove => hop hremove.1
    exact PollPoller.update_after_remove hfd h.poll hr (h.removed c hr) hop

/-! ## Whole runs -/

/-- For calls that `EPollPoller` takes without a failed assertion: `PollPoller` takes them without
one too, and has the same interests at the end, if and only if no call goes to a channel after its
`Remove()` and a channel is removed only after two updates. -/
theorem interchangeable_iff (hfd : Function.Injective fd) (calls : List (κ × ChannelOp))
    (h : (calls.foldl (EPollPoller.step fd) {}).failed = false) :
    ((calls.foldl (PollPoller.step fd) {}).failed = false ∧
        SameInterests (calls.foldl (EPollPoller.step fd) {})
          (calls.foldl (PollPoller.step fd) {})) ↔
      ∀ pre c op post, calls = pre ++ (c, op) :: post →
        (ChannelUse.after pre c).removed = false ∧
          (op = .remove → 2 ≤ (ChannelUse.after pre c).updates) := by
  let step := pair ChannelUse.step (pair (EPollPoller.step fd) (PollPoller.step fd))
  let start : (κ → ChannelUse) × EPollPoller κ × PollPoller κ := (fun _ => {}, {}, {})
  have hfold : ∀ is : List (κ × ChannelOp), is.foldl step start = (ChannelUse.after is,
      is.foldl (EPollPoller.step fd) {}, is.foldl (PollPoller.step fd) {}) := by
    intro is
    simp only [step, start, foldl_pair, ChannelUse.after]
  have hlegal : Legal step (fun q i => q.2.1.Permitted i) start calls := by
    refine legal_iff.mpr fun pre i post he => ?_
    rw [hfold]
    exact legal_iff.mp (EPollPoller.legal_of_not_failed hfd h) pre i post he
  have hstart : Agree fd start.1 start.2.1 start.2.2 := by
    refine ⟨⟨by simp [start], by simp [start], rfl, rfl⟩,
      ⟨rfl, by simp [start], by simp [start], rfl, fun c => ?_⟩, rfl, ?_, ?_, ?_, ?_⟩
    · exact ⟨by simp [start], by simp [start], by simp [start], by simp [start]⟩
    all_goals simp [start]
  have hgood : ∀ q i, Agree fd q.1 q.2.1 q.2.2 → q.2.1.Permitted i → ¬ Diverges q.1 i →
      Agree fd (step q i).1 (step q i).2.1 (step q i).2.2 :=
    fun q i hq hi hd => hq.step hfd hi hd
  have hcond : (∀ pre i post, calls = pre ++ i :: post →
        ¬ Diverges (pre.foldl step start).1 i) ↔
      ∀ pre c op post, calls = pre ++ (c, op) :: post →
        (ChannelUse.after pre c).removed = false ∧
          (op = .remove → 2 ≤ (ChannelUse.after pre c).updates) := by
    simp only [hfold, Prod.forall, Diverges, not_or, not_and, Nat.not_lt, Bool.not_eq_true]
  have hfailed := safe_end_iff (I := fun q => Agree fd q.1 q.2.1 q.2.2)
    (G := fun q => q.2.2.failed = false) (fun q hq => hq.poll.failed)
    (fun q i => (PollPoller.step_frame (p := q.2.2) (c := i.1) i.2).failed) hgood
    (fun q i hq hi hd => by simp [step, pair, hq.diverges hfd hi hd]) hstart hlegal
  rw [hcond, hfold] at hfailed
  rw [← hfailed]
  refine and_iff_left_of_imp fun hnot => ?_
  -- Without a divergence the simulation holds at the end.
  have hnone := hcond.mpr (hfailed.mp hnot)
  have hend := legal_invariant (I := fun q => Agree fd q.1 q.2.1 q.2.2)
    (fun q i hq hi => hgood q i hq hi.1 hi.2) hstart (legal_and hlegal (legal_iff.mpr hnone))
  rw [hfold] at hend
  exact hend.sameInterests

/-- `~Acceptor()` without a call of `Listen()`. -/
def acceptorDtor : List (Nat × ChannelOp) := [(0, .disableAll), (0, .remove)]

theorem acceptorDtor_diverges :
    (acceptorDtor.foldl (EPollPoller.step (· + 3)) {}).failed = false ∧
      ¬ ((acceptorDtor.foldl (PollPoller.step (· + 3)) {}).failed = false ∧
        SameInterests (acceptorDtor.foldl (EPollPoller.step (· + 3)) {})
          (acceptorDtor.foldl (PollPoller.step (· + 3)) {})) := by
  refine ⟨by decide +kernel, fun h => ?_⟩
  exact absurd h.1 (by decide +kernel)

/-- Two connections, one of which is closed. -/
def closedOnce : List (Nat × ChannelOp) :=
  [(0, .enableReading), (1, .enableReading), (1, .enableWriting), (0, .disableAll), (0, .remove),
    (1, .disableWriting)]

theorem closedOnce_interchangeable :
    (closedOnce.foldl (EPollPoller.step (· + 3)) {}).failed = false ∧
      (closedOnce.foldl (PollPoller.step (· + 3)) {}).failed = false ∧
        SameInterests (closedOnce.foldl (EPollPoller.step (· + 3)) {})
          (closedOnce.foldl (PollPoller.step (· + 3)) {}) := by
  have h : (closedOnce.foldl (EPollPoller.step (· + 3)) {}).failed = false := by decide +kernel
  have hgood : Legal ChannelUse.step (fun use i => (use i.1).removed = false ∧
      (i.2 = .remove → 2 ≤ (use i.1).updates)) (fun _ => {}) closedOnce := by decide +kernel
  refine ⟨h, (interchangeable_iff (add_left_injective 3) closedOnce h).mpr ?_⟩
  exact fun pre c op post he => legal_iff.mp hgood pre (c, op) post he

end MyTinyHttpd
