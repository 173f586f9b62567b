import MyTinyHttpd.Base.CountDownLatch

/-!
# `base/thread.cc`: `Thread::Start`

`Start` creates a thread and waits on `latch_` until the new thread has written its id through
`tid_` and counted the latch down. The new thread works on the members of the `Thread` until then;
afterwards it only uses what `ThreadData` has copied, so that the `Thread` may be destroyed while
`func_` runs.

The thread that calls `Start` is 0 and the new one is 1. Between them are the steps of the latch
(`Base/CountDownLatch.lean`), in any order.

* `start_safe`: the assertions of `Start` and of `~MutexLock` hold, and when `Start` has returned,
  the new thread has left the latch.
* `start_returns`: the two threads never wait for each other.

`SetDefaultName`, the name of the thread and what `func_` does are left out, and `Join` is
`pthread_join`. Thread ids are positive, as `gettid` gives them.
-/

namespace MyTinyHttpd

open Verif

/-- Where the thread that calls `Start` is. -/
inductive StartPhase where
  | before
  /-- At `pthread_create`. -/
  | create
  /-- At `latch_.Wait()`. -/
  | wait
  | waiting
  | returned
  /-- `LOG_SYSFATAL` has ended the process. -/
  | fatal
  deriving DecidableEq

/-- Where the new thread is in `ThreadData::RunInThread`. -/
inductive RunPhase where
  | unborn
  /-- At `*tid_ = CurrentThread::tid()`. -/
  | begin
  /-- At `latch_->CountDown()`. -/
  | countDown
  | counting
  /-- In `func_`. -/
  | func
  deriving DecidableEq

/-- The members of `Thread`, and the two threads. -/
structure ThreadStart where
  started : Bool := false
  tid : Int := 0
  latch : Locked LatchMembers LatchCall Int := CountDownLatch.make 1 2
  start : StartPhase := .before
  run : RunPhase := .unborn
  /-- An assertion has failed. -/
  failed : Bool := false

inductive StartStep where
  | start
  | create (ok : Bool)
  | wait
  | assertTid
  | setTid (tid : Int)
  | countDown
  | func
  /-- A thread goes on in the latch. -/
  | latch (t : Nat) (u : Option Nat)
  | rouse (t : Nat)
  deriving DecidableEq

namespace ThreadStart

open CountDownLatch

def step (s : ThreadStart) : StartStep → ThreadStart
  | .start => { s with failed := s.failed || s.started, started := true, start := .create }
  | .create true => { s with start := .wait, run := .begin }
  | .create false => { s with started := false, start := .fatal }
  | .wait => { s with start := .waiting, latch := s.latch.step cls (.call 0 .wait) }
  | .assertTid => { s with start := .returned, failed := s.failed || !(0 < s.tid) }
  | .setTid tid => { s with tid := tid, run := .countDown }
  | .countDown => { s with run := .counting, latch := s.latch.step cls (.call 1 .countDown) }
  | .func => { s with run := .func }
  | .latch t u => { s with latch := s.latch.step cls (.next t u) }
  | .rouse t => { s with latch := s.latch.step cls (.rouse t) }

/-- The steps that the two threads can take. -/
def Admissible (s : ThreadStart) : StartStep → Prop
  | .start => s.start = .before
  | .create _ => s.start = .create
  | .wait => s.start = .wait
  | .assertTid => s.start = .waiting ∧ s.latch.threads[0]? = some .out
  | .setTid tid => s.run = .begin ∧ 0 < tid
  | .countDown => s.run = .countDown
  | .func => s.run = .counting ∧ s.latch.threads[1]? = some .out
  | .latch t u => s.latch.Admissible cls (.next t u)
  | .rouse t => s.latch.Admissible cls (.rouse t)

instance (s : ThreadStart) (i : StartStep) : Decidable (s.Admissible i) :=
  match i with
  | .start => inferInstanceAs (Decidable (s.start = .before))
  | .create _ => inferInstanceAs (Decidable (s.start = .create))
  | .wait => inferInstanceAs (Decidable (s.start = .wait))
  | .assertTid =>
    inferInstanceAs (Decidable (s.start = .waiting ∧ s.latch.threads[0]? = some .out))
  | .setTid tid => inferInstanceAs (Decidable (s.run = .begin ∧ 0 < tid))
  | .countDown => inferInstanceAs (Decidable (s.run = .countDown))
  | .func => inferInstanceAs (Decidable (s.run = .counting ∧ s.latch.threads[1]? = some .out))
  | .latch t u => inferInstanceAs (Decidable (s.latch.Admissible cls (.next t u)))
  | .rouse t => inferInstanceAs (Decidable (s.latch.Admissible cls (.rouse t)))

/-! ## The calls of the latch -/

/-- `Start` calls `Wait` once, and the new thread calls `CountDown` once. -/
def latchCalls (s : ThreadStart) : Nat → LatchCall → Nat
  | 0, .wait => if s.start = .waiting ∨ s.start = .returned then 1 else 0
  | 1, .countDown => if s.run = .counting ∨ s.run = .func then 1 else 0
  | _, _ => 0

structure Sound (s : ThreadStart) : Prop where
  latch : Leads (Locked.step cls) (Locked.Admissible cls) (make 1 2) s.latch
  calls : ∀ t op, s.latch.calls t op = s.latchCalls t op
  threads : s.latch.threads.length = 2
  started : s.started = true ↔ s.start ≠ .before ∧ s.start ≠ .fatal
  unborn : s.start = .before ∨ s.start = .create ∨ s.start = .fatal ↔ s.run = .unborn
  tid : s.run = .countDown ∨ s.run = .counting ∨ s.run = .func → 0 < s.tid
  waited : s.start = .returned → ∃ r, (0, .wait, r) ∈ s.latch.returned
  counted : s.run = .func → ∃ r, (1, .countDown, r) ∈ s.latch.returned
  passed : s.failed = false

variable {s : ThreadStart}

theorem latchCalls_le_one (s : ThreadStart) (t : Nat) (op : LatchCall) : s.latchCalls t op ≤ 1 := by
  unfold latchCalls
  split
  · split <;> omega
  · split <;> omega
  · omega

theorem latchCalls_zero {op : LatchCall} (h : op ≠ .wait) : s.latchCalls 0 op = 0 := by
  cases op with
  | wait => exact absurd rfl h
  | countDown | count => rfl

theorem latchCalls_one {op : LatchCall} (h : op ≠ .countDown) : s.latchCalls 1 op = 0 := by
  cases op with
  | countDown => exact absurd rfl h
  | wait | count => rfl

theorem countP_pos_of_mem {t : Nat} {op : LatchCall} {r : Int}
    (h : (t, op, r) ∈ s.latch.returned) :
    1 ≤ s.latch.returned.countP fun entry => entry.1 == t && entry.2.1 == op :=
  List.countP_pos_iff.mpr ⟨_, h, by simp⟩

/-- Who has returned from its one call is outside. -/
theorem Sound.out_of_returned (h : s.Sound) {t : Nat} {op : LatchCall} {r : Int} (ht : t < 2)
    (hother : ∀ op', op' ≠ op → s.latchCalls t op' = 0) (hmem : (t, op, r) ∈ s.latch.returned) :
    s.latch.threads[t]? = some .out := by
  refine Locked.out_of_calls (h.threads ▸ ht) fun op' => ?_
  rw [h.calls]
  by_cases hop : op' = op
  · subst hop
    exact Nat.le_trans (latchCalls_le_one s t op') (countP_pos_of_mem hmem)
  · rw [hother op' hop]
    exact Nat.zero_le _

/-- A thread that is outside has returned from its calls. -/
theorem Sound.returned_of_out (h : s.Sound) {t : Nat} {op : LatchCall}
    (hcall : s.latchCalls t op = 1) (hout : s.latch.threads[t]? = some .out) :
    ∃ r, (t, op, r) ∈ s.latch.returned := by
  have hpos := h.calls t op
  rw [hcall] at hpos
  simp only [Locked.calls, hout, Option.bind_some, Locked.callOf, Option.toList_none,
    List.count_nil, Nat.add_zero] at hpos
  obtain ⟨⟨t', op', r⟩, hmem, hp⟩ := List.countP_pos_iff.mp (hpos ▸ Nat.one_pos)
  simp only [Bool.and_eq_true, beq_iff_eq] at hp
  obtain ⟨rfl, rfl⟩ := hp
  exact ⟨r, hmem⟩

/-- `Wait` returns after the new thread has left `CountDown`. -/
theorem Sound.countDown_returned (h : s.Sound) {r : Int}
    (hmem : (0, .wait, r) ∈ s.latch.returned) : ∃ r, (1, .countDown, r) ∈ s.latch.returned := by
  obtain ⟨is, hlegal, hlatch⟩ := h.latch
  obtain ⟨b, hreplays, -⟩ := Locked.returned_replays hlegal
  rw [hlatch] at hreplays
  obtain ⟨pre, post, hsplit⟩ := List.append_of_mem hmem
  have hpos : 0 < countDowns pre := by
    have hle : (1 : Int) ≤ countDowns pre := replays_wait hreplays hsplit
    omega
  obtain ⟨⟨t, op, r'⟩, hpre, hop⟩ := List.countP_pos_iff.mp hpos
  obtain rfl : op = .countDown := by simpa using hop
  have hreturned : (t, .countDown, r') ∈ s.latch.returned := by
    rw [hsplit]
    exact List.mem_append_left _ hpre
  have hcalls : 1 ≤ s.latchCalls t .countDown := by
    rw [← h.calls]
    exact Nat.le_trans (countP_pos_of_mem hreturned) (Nat.le_add_right _ _)
  obtain rfl : t = 1 := by
    unfold latchCalls at hcalls
    split at hcalls <;> first | rfl | contradiction
  exact ⟨r', hreturned⟩

theorem Sound.run_of_returned (h : s.Sound) {r : Int}
    (hmem : (1, .countDown, r) ∈ s.latch.returned) : s.run = .counting ∨ s.run = .func := by
  have hcalls : 1 ≤ s.latchCalls 1 .countDown := by
    rw [← h.calls]
    exact Nat.le_trans (countP_pos_of_mem hmem) (Nat.le_add_right _ _)
  by_contra hnot
  simp [latchCalls, hnot] at hcalls

/-! ## Every step keeps it -/

/-- A thread goes on in the latch. -/
theorem Sound.go (h : s.Sound) {i : LockStep LatchCall} (hi : s.latch.Admissible cls i)
    (hcall : ∀ t op, i ≠ .call t op) : Sound { s with latch := s.latch.step cls i } where
  latch := h.latch.next hi
  calls t op := by
    rw [Locked.calls_step hi, if_neg (hcall t op)]
    exact h.calls t op
  threads := (Locked.length_step _ _).trans h.threads
  started := h.started
  unborn := h.unborn
  tid := h.tid
  waited hstart := (h.waited hstart).imp fun _ => Locked.returned_step _ _
  counted hrun := (h.counted hrun).imp fun _ => Locked.returned_step _ _
  passed := h.passed

/-- Who has not called is outside. -/
theorem Sound.out_of_not_called (h : s.Sound) {t : Nat} (ht : t < 2)
    (hnot : ∀ op, s.latchCalls t op = 0) : s.latch.threads[t]? = some .out := by
  refine Locked.out_of_calls (h.threads ▸ ht) fun op => ?_
  rw [h.calls, hnot]
  exact Nat.zero_le _

theorem Sound.wait (h : s.Sound) (hstart : s.start = .wait) : (s.step .wait).Sound := by
  have hout : s.latch.Admissible cls (.call 0 .wait) := by
    refine h.out_of_not_called (by omega) fun op => ?_
    cases op <;> simp [latchCalls, hstart]
  exact {
    latch := h.latch.next hout
    calls := fun t op => by
      simp only [step]
      rw [Locked.calls_step hout, h.calls]
      unfold latchCalls
      split <;> grind
    threads := (Locked.length_step _ _).trans h.threads
    started := by simpa [step, hstart] using h.started
    unborn := by
      have hrun : s.run ≠ .unborn := fun hnone => by simpa [hstart] using h.unborn.mpr hnone
      simp [step, hrun]
    tid := h.tid
    waited := fun hreturned => by cases hreturned
    counted := fun hrun => (h.counted hrun).imp fun _ => Locked.returned_step _ _
    passed := h.passed }

theorem Sound.countDown (h : s.Sound) (hrun : s.run = .countDown) :
    (s.step .countDown).Sound := by
  have hout : s.latch.Admissible cls (.call 1 .countDown) := by
    refine h.out_of_not_called (by omega) fun op => ?_
    cases op <;> simp [latchCalls, hrun]
  exact {
    latch := h.latch.next hout
    calls := fun t op => by
      simp only [step]
      rw [Locked.calls_step hout, h.calls]
      unfold latchCalls
      split <;> grind
    threads := (Locked.length_step _ _).trans h.threads
    started := h.started
    unborn := by
      have hnone := h.unborn
      simp only [hrun, reduceCtorEq, iff_false] at hnone
      simp [step, hnone]
    tid := fun _ => h.tid (.inl hrun)
    waited := fun hstart => (h.waited hstart).imp fun _ => Locked.returned_step _ _
    counted := fun hfunc => by cases hfunc
    passed := h.passed }

/-- `Start` goes on outside of the latch. -/
theorem Sound.start_moves (h : s.Sound) {start : StartPhase} {started failed : Bool}
    (hcalls : (start = .waiting ∨ start = .returned) ↔
      (s.start = .waiting ∨ s.start = .returned))
    (hstarted : started = true ↔ start ≠ .fatal) (hbefore : start ≠ .before)
    (hunborn : start = .create ∨ start = .fatal ↔ s.run = .unborn)
    (hwaited : start = .returned → ∃ r, (0, .wait, r) ∈ s.latch.returned)
    (hpassed : failed = false) : Sound { s with start, started, failed } where
  latch := h.latch
  calls t op := by
    rw [h.calls]
    unfold latchCalls
    simp only [hcalls]
  threads := h.threads
  started := by simpa [hbefore] using hstarted
  unborn := by simpa [hbefore] using hunborn
  tid := h.tid
  waited := hwaited
  counted := h.counted
  passed := hpassed

theorem Sound.start (h : s.Sound) (hstart : s.start = .before) : (s.step .start).Sound := by
  have hnot : s.started = false := by simpa [hstart] using h.started
  refine h.start_moves (by simp [hstart]) (by simp) (by simp) ?_ (by simp) ?_
  · simpa [hstart] using h.unborn
  · simp [h.passed, hnot]

/-- **The assertion.** `Wait` has returned, so the new thread has written its id. -/
theorem Sound.assertTid (h : s.Sound) (hstart : s.start = .waiting)
    (hout : s.latch.threads[0]? = some .out) : (s.step .assertTid).Sound := by
  obtain ⟨r, hwait⟩ : ∃ r, (0, .wait, r) ∈ s.latch.returned :=
    h.returned_of_out (by simp [latchCalls, hstart]) hout
  obtain ⟨r', hcount⟩ := h.countDown_returned hwait
  have htid : 0 < s.tid := h.tid (.inr (h.run_of_returned hcount))
  have hrun : s.run ≠ .unborn := fun hnone => by simpa [hstart] using h.unborn.mpr hnone
  refine h.start_moves (by simp [hstart]) ?_ (by simp) (by simp [hrun]) ?_ ?_
  · simpa [hstart] using h.started
  · exact fun _ => ⟨r, hwait⟩
  · simp [h.passed, htid]

/-- The new thread goes on outside of the latch. -/
theorem Sound.run_moves (h : s.Sound) {run : RunPhase} {tid : Int}
    (hcalls : (run = .counting ∨ run = .func) ↔ (s.run = .counting ∨ s.run = .func))
    (hsome : run ≠ .unborn) (hrun : s.run ≠ .unborn) (htid : 0 < tid)
    (hcounted : run = .func → ∃ r, (1, .countDown, r) ∈ s.latch.returned) :
    Sound { s with run, tid } where
  latch := h.latch
  calls t op := by
    rw [h.calls]
    unfold latchCalls
    simp only [hcalls]
  threads := h.threads
  started := h.started
  unborn := by simpa only [hsome, hrun] using h.unborn
  tid _ := htid
  waited := h.waited
  counted := hcounted
  passed := h.passed

theorem Sound.create (h : s.Sound) (hstart : s.start = .create) (ok : Bool) :
    (s.step (.create ok)).Sound := by
  have hrun : s.run = .unborn := h.unborn.mp (.inr (.inl hstart))
  cases ok with
  | false =>
    exact h.start_moves (by simp [hstart]) (by simp) (by simp) (by simp [hrun]) (by simp) h.passed
  | true =>
    exact {
      latch := h.latch
      calls := fun t op => by
        refine (h.calls t op).trans ?_
        unfold latchCalls
        simp [step, hstart, hrun]
      threads := h.threads
      started := by simpa [step, hstart] using h.started
      unborn := by simp [step]
      tid := fun hbegin => by simp [step] at hbegin
      waited := fun hreturned => by cases hreturned
      counted := fun hfunc => by cases hfunc
      passed := h.passed }

theorem Sound.step (h : s.Sound) {i : StartStep} (hi : s.Admissible i) : (s.step i).Sound := by
  cases i with
  | start => exact h.start hi
  | create ok => exact h.create hi ok
  | wait => exact h.wait hi
  | assertTid => exact h.assertTid hi.1 hi.2
  | setTid tid =>
    obtain ⟨hrun, htid⟩ := hi
    exact h.run_moves (by simp [hrun]) (by simp) (by simp [hrun]) htid (by simp)
  | countDown => exact h.countDown hi
  | func =>
    obtain ⟨hrun, hout⟩ := hi
    refine h.run_moves (by simp [hrun]) (by simp) (by simp [hrun]) (h.tid (by simp [hrun])) ?_
    exact fun _ => h.returned_of_out (by simp [latchCalls, hrun]) hout
  | latch t u => exact h.go hi (by simp)
  | rouse t => exact h.go hi (by simp)

theorem sound_init : Sound {} where
  latch := Leads.refl _
  calls t op := by
    refine (Locked.calls_fresh 1 2 t op).trans ?_
    unfold latchCalls
    split <;> simp
  threads := rfl
  started := by simp
  unborn := by simp
  tid h := by simp at h
  waited h := by cases h
  counted h := by cases h
  passed := rfl

theorem sound_run {is : List StartStep} (h : Legal step Admissible {} is) :
    (is.foldl step {}).Sound :=
  legal_invariant (fun _ _ hs hi => hs.step hi) sound_init h

theorem Sound.threads_eq (h : s.Sound) (h0 : s.latch.threads[0]? = some .out)
    (h1 : s.latch.threads[1]? = some .out) : s.latch.threads = [.out, .out] := by
  have hlen := h.threads
  rcases hthreads : s.latch.threads with _ | ⟨x, _ | ⟨y, _ | ⟨z, rest⟩⟩⟩ <;> simp_all

/-- No thread has the mutex when both are outside. -/
theorem Sound.latch_free (h : s.Sound) (h0 : s.latch.threads[0]? = some .out)
    (h1 : s.latch.threads[1]? = some .out) :
    s.latch.mutex = none ∧ s.latch.holder = none := by
  obtain ⟨is, hlegal, hlatch⟩ := h.latch
  obtain ⟨js, -, href⟩ := Locked.refines_run (I := fun _ => True) (fun _ _ _ _ => trivial) trivial
    hlegal
  rw [hlatch] at href
  have hall : ∀ (t : Nat) place, s.latch.threads[t]? = some place → place = LockPlace.out := by
    intro t place ht
    have hmem := List.mem_of_getElem? ht
    simpa [h.threads_eq h0 h1] using hmem
  constructor
  · refine Option.eq_none_iff_forall_not_mem.mpr fun t ht => ?_
    obtain ⟨place, hplace, howns⟩ := (href.mutex t).mp ht
    cases hall t place hplace
    cases howns
  · refine Option.eq_none_iff_forall_not_mem.mpr fun t ht => ?_
    obtain ⟨place, hplace, hholds⟩ := (href.holder t).mp ht
    cases hall t place hplace
    cases hholds

/-- **`Start` hands over.** For every order of the steps of the two threads no assertion of `Start`
fails. When it has returned, `tid_` is set, and both threads are out of the latch, whose mutex
nobody holds: the new thread does not touch the `Thread` any more, and it can be destroyed. -/
theorem start_safe (is : List StartStep) (h : Legal step Admissible {} is) :
    let s := is.foldl step {}
    s.failed = false ∧
      (s.start = .returned →
        s.started = true ∧ 0 < s.tid ∧ (s.run = .counting ∨ s.run = .func) ∧
          s.latch.threads = [.out, .out] ∧ s.latch.mutex = none ∧ s.latch.holder = none) := by
  intro s
  have hs : s.Sound := sound_run h
  refine ⟨hs.passed, fun hreturned => ?_⟩
  obtain ⟨r, hwait⟩ := hs.waited hreturned
  obtain ⟨r', hcount⟩ := hs.countDown_returned hwait
  have hrun := hs.run_of_returned hcount
  have h0 := hs.out_of_returned (by omega) (fun _ => latchCalls_zero) hwait
  have h1 := hs.out_of_returned (by omega) (fun _ => latchCalls_one) hcount
  refine ⟨hs.started.mpr (by simp [hreturned]), hs.tid (.inr hrun), hrun, ?_, hs.latch_free h0 h1⟩
  exact hs.threads_eq h0 h1

/-- The thread `t` goes on `m` times in the latch. -/
def latches (t m : Nat) : List StartStep := List.replicate m (.latch t none)

/-- The new thread is created, finds the latch free, and is waited for. -/
def handOver : List StartStep :=
  [[.start, .create true, .wait], latches 0 5, [.setTid 7, .countDown], latches 1 7, latches 0 5,
    [.assertTid, .func]].flatten

theorem handOver_legal : Legal step Admissible {} handOver := by
  decide +kernel

theorem handOver_safe :
    let s := handOver.foldl step {}
    s.failed = false ∧ s.start = .returned ∧ s.latch.threads = [.out, .out] := by
  obtain ⟨hpassed, hreturned⟩ := start_safe handOver handOver_legal
  have hstart : (handOver.foldl step {}).start = .returned := by decide +kernel
  exact ⟨hpassed, hstart, (hreturned hstart).2.2.2.1⟩

/-! ## The threads do not wait for each other -/

/-- No thread can go on. -/
def Stuck (s : ThreadStart) : Prop :=
  ∀ i, (∀ t, i ≠ .rouse t) → ¬ s.Admissible i

/-- Then a thread in the latch sleeps in `Wait`, because nobody has counted down. -/
theorem Sound.place_of_stuck (h : s.Sound) (hstuck : s.Stuck) {t : Nat} (ht : t < 2) :
    s.latch.threads[t]? = some .out ∨
      s.latchCalls t .wait = 1 ∧ countDowns s.latch.returned = 0 := by
  obtain ⟨is, hlegal, hlatch⟩ := h.latch
  have hlatchStuck : (is.foldl (Locked.step cls) (make 1 2)).Stuck cls := by
    rw [hlatch]
    exact fun t u => hstuck (.latch t u) (by simp)
  obtain ⟨hfree, hidle, hasleep⟩ := Locked.asleep_of_stuck wakes hlegal hlatchStuck
  have hmembers := members_eq hlegal hfree
  rw [hlatch] at hidle hasleep hmembers
  obtain ⟨place, hplace⟩ : ∃ place, s.latch.threads[t]? = some place :=
    ⟨_, List.getElem?_eq_getElem (h.threads ▸ ht)⟩
  have hmem := List.mem_of_getElem? hplace
  rcases Locked.idle_cases (hidle place hmem) with rfl | ⟨op, rfl⟩
  · exact .inl hplace
  · have hready := hasleep op hmem
    cases op with
    | countDown | count => cases hready
    | wait =>
      have hcalls : 1 ≤ s.latchCalls t .wait := by
        rw [← h.calls]
        simp [Locked.calls, hplace, Locked.callOf]
      have hpos := wait_refused_iff.mp hready
      have hone : (1 : Int32).toInt = 1 := rfl
      refine .inr ⟨Nat.le_antisymm (latchCalls_le_one s t .wait) hcalls, ?_⟩
      omega

/-- The new thread gets to `func_`. -/
theorem Sound.func_of_stuck (h : s.Sound) (hstuck : s.Stuck) (hrun : s.run ≠ .unborn) :
    s.run = .func := by
  cases hphase : s.run with
  | unborn => exact absurd hphase hrun
  | begin => exact absurd ⟨hphase, Int.one_pos⟩ (hstuck (.setTid 1) (by simp))
  | countDown => exact absurd hphase (hstuck .countDown (by simp))
  | func => rfl
  | counting =>
    rcases h.place_of_stuck hstuck (t := 1) (by omega) with hout | ⟨hwait, -⟩
    · exact absurd ⟨hphase, hout⟩ (hstuck .func (by simp))
    · cases hwait

/-- **`Start` returns.** When neither thread can go on, `Start` has returned and the new thread has
got to `func_`, or the thread could not be created. -/
theorem start_returns (is : List StartStep) (h : Legal step Admissible {} is)
    (hstuck : (is.foldl step {}).Stuck) :
    let s := is.foldl step {}
    s.start = .returned ∧ s.run = .func ∨ s.start = .fatal ∧ s.run = .unborn := by
  intro s
  have hs : s.Sound := sound_run h
  cases hstart : s.start with
  | before => exact absurd hstart (hstuck .start (by simp))
  | create => exact absurd hstart (hstuck (.create true) (by simp))
  | wait => exact absurd hstart (hstuck .wait (by simp))
  | fatal => exact .inr ⟨rfl, hs.unborn.mp (by simp [hstart])⟩
  | returned =>
    refine .inl ⟨rfl, hs.func_of_stuck hstuck fun hunborn => ?_⟩
    simpa [hstart] using hs.unborn.mpr hunborn
  | waiting =>
    have hfunc : s.run = .func := by
      refine hs.func_of_stuck hstuck fun hunborn => ?_
      simpa [hstart] using hs.unborn.mpr hunborn
    rcases hs.place_of_stuck hstuck (t := 0) (by omega) with hout | ⟨-, hnone⟩
    · exact absurd ⟨hstart, hout⟩ (hstuck .assertTid (by simp))
    · obtain ⟨r, hcount⟩ := hs.counted hfunc
      exact absurd hnone (Nat.ne_of_gt (List.countP_pos_iff.mpr ⟨_, hcount, rfl⟩))

theorem handOver_returns :
    let s := handOver.foldl step {}
    s.start = .returned ∧ s.run = .func ∨ s.start = .fatal ∧ s.run = .unborn := by
  have hstart : (handOver.foldl step {}).start = .returned := by decide +kernel
  have hrun : (handOver.foldl step {}).run = .func := by decide +kernel
  refine start_returns handOver handOver_legal fun i hi => ?_
  cases i with
  | start | create | wait | assertTid => simp [Admissible, hstart]
  | setTid | countDown | func => simp [Admissible, hrun]
  | latch t u => exact Locked.stuck_of_idle (by decide +kernel) t u
  | rouse t => exact absurd rfl (hi t)

end ThreadStart

end MyTinyHttpd
