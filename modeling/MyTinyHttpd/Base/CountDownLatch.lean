import MyTinyHttpd.Base.CriticalSection

/-!
# `base/count_down_latch.h`

A latch that any number of threads count down and wait for. The one that makes the count 0 notifies
all; counting down further is allowed.

* `latch_exact`: a `Wait` that has returned came after `count` calls of `CountDown`.
* `latch_stuck`: after `count` calls of `CountDown` nobody is left asleep.

A `CountDown` that takes `count_` out of the range of `int` sets `overflowed`.
-/

namespace MyTinyHttpd

open Verif

inductive LatchCall where
  | wait
  | countDown
  | count
  deriving DecidableEq

/-- The least `int`. -/
def INT_MIN : Int := -2147483648

@[ext]
structure LatchMembers where
  count : Int
  /-- `--count_` has overflowed. -/
  overflowed : Bool := false
  deriving DecidableEq

namespace CountDownLatch

def cond : LatchCall → Option Unit
  | .wait => some ()
  | .countDown | .count => none

def ready : LatchCall → LatchMembers → Bool
  | .wait, s => !(0 < s.count)
  | .countDown, _ | .count, _ => true

/-- The local variable is the result of `count()`. -/
def body : LatchCall → List (Statement LatchMembers Unit Int)
  | .wait => []
  | .countDown =>
    [fun r s => (r, ⟨s.count - 1, s.overflowed || decide (s.count - 1 < INT_MIN)⟩, none),
      -- `condition_.NotifyAll()`
      fun r s => (r, s, if s.count = 0 then some (.all ()) else none)]
  | .count => [fun _ s => (s.count, s, none)]

def cls : GuardedClass LatchMembers Unit LatchCall Int where
  cond := cond
  ready := ready
  start _ := 0
  body := body

/-- `CountDownLatch(count)`, before any of `n` threads has used it. -/
abbrev make (count : Int32) (n : Nat) : Locked LatchMembers LatchCall Int :=
  .fresh { count := count.toInt } n

/-! ## What the calls do -/

variable {count : Int32} {a b : LatchMembers}

theorem execBody_countDown (a : LatchMembers) :
    cls.execBody .countDown a =
      (0, ⟨a.count - 1, a.overflowed || decide (a.count - 1 < INT_MIN)⟩,
        if a.count - 1 = 0 then [.all ()] else []) := by
  simp only [GuardedClass.execBody, GuardedClass.exec, cls, body]
  split <;> rfl

theorem wait_ready_iff : cls.ready .wait a = true ↔ a.count ≤ 0 := by
  simp [cls, ready]

theorem wait_refused_iff : cls.ready .wait a = false ↔ 0 < a.count := by
  simp [cls, ready]

/-- How often `CountDown` has been called. -/
def countDowns (log : List (Nat × LatchCall × Int)) : Nat :=
  log.countP fun entry => entry.2.1 == .countDown

/-- One call after the other. -/
theorem replays_count {log : List (Nat × LatchCall × Int)}
    (h : Monitor.Replays cls.ops { count := count.toInt } log b) :
    b.count = count.toInt - countDowns log ∧ (b.overflowed = true ↔ b.count < INT_MIN) := by
  induction h with
  | nil =>
    have hge : INT_MIN ≤ count.toInt := count.le_toInt
    simpa [countDowns] using hge
  | @snoc log b h t op hready ih =>
    simp only [countDowns, List.countP_append, List.countP_singleton] at ih ⊢
    rw [GuardedClass.ops_act]
    cases op with
    | countDown =>
      obtain ⟨hcount, hflag⟩ := ih
      simp only [execBody_countDown, beq_self_eq_true, if_true, Bool.or_eq_true, hflag,
        decide_eq_true_eq]
      omega
    | wait | count =>
      simp only [GuardedClass.execBody, GuardedClass.exec, cls, body, reduceCtorEq,
        beq_iff_eq, if_false, Nat.add_zero]
      exact ih

theorem replays_wait {log pre post : List (Nat × LatchCall × Int)} {t : Nat} {r : Int}
    (h : Monitor.Replays cls.ops { count := count.toInt } log b)
    (hlog : log = pre ++ (t, .wait, r) :: post) : count.toInt ≤ countDowns pre := by
  induction h generalizing pre post with
  | nil => simp at hlog
  | @snoc log b h t' op hready ih =>
    rcases List.eq_nil_or_concat post with rfl | ⟨post, entry, rfl⟩
    · obtain ⟨rfl, hentry⟩ := List.append_inj' hlog rfl
      obtain ⟨-, rfl, -⟩ := by simpa using hentry
      have hle : b.count ≤ 0 := wait_ready_iff.mp hready
      have hcount := (replays_count h).1
      omega
    · rw [List.concat_eq_append, ← List.cons_append, ← List.append_assoc] at hlog
      exact ih (List.append_inj' hlog rfl).1

theorem members_eq {n : Nat} {is : List (LockStep LatchCall)}
    (h : Legal (Locked.step cls) (Locked.Admissible cls) (make count n) is)
    (hfree : (is.foldl (Locked.step cls) (make count n)).mutex = none) :
    let s := is.foldl (Locked.step cls) (make count n)
    s.members.count = count.toInt - countDowns s.returned ∧
      (s.members.overflowed = true ↔ s.members.count < INT_MIN) := by
  intro s
  obtain ⟨b, hreplays, hmembers⟩ := Locked.returned_replays h
  rw [show s.members = b from (hmembers hfree).symm]
  exact replays_count hreplays

/-- **The latch holds back.** For any number of threads and any order of their steps: before a
`Wait` has returned, `CountDown` has returned at least `count` times. When the mutex is free, the
member is what the calls have left of `count`, and it has overflowed exactly when that is no
`int`. -/
theorem latch_exact (count : Int32) (n : Nat) (is : List (LockStep LatchCall))
    (h : Legal (Locked.step cls) (Locked.Admissible cls) (make count n) is) :
    let s := is.foldl (Locked.step cls) (make count n)
    (∀ pre t r post, s.returned = pre ++ (t, .wait, r) :: post → count.toInt ≤ countDowns pre) ∧
      (s.mutex = none → s.members.count = count.toInt - countDowns s.returned ∧
        (s.members.overflowed = true ↔ s.members.count < INT_MIN)) := by
  intro s
  obtain ⟨b, hreplays, -⟩ := Locked.returned_replays h
  exact ⟨fun pre t r post hlog => replays_wait hreplays hlog, members_eq h⟩

open LockStep in
/-- One waits for two others, and is woken up by the second one. -/
def twoDowns : List (LockStep LatchCall) :=
  [[.call 0 .wait], goes 0 5, [.call 1 .countDown], goes 1 7, [.call 2 .countDown], goes 2 7,
    goes 0 5].flatten

theorem twoDowns_legal :
    Legal (Locked.step cls) (Locked.Admissible cls) (make 2 3) twoDowns := by
  decide +kernel

theorem twoDowns_exact :
    let s := twoDowns.foldl (Locked.step cls) (make 2 3)
    s.returned = [(1, .countDown, 0), (2, .countDown, 0), (0, .wait, 0)] ∧
      2 ≤ countDowns [(1, .countDown, 0), (2, .countDown, 0)] ∧ s.members = { count := 0 } := by
  have hreturned : (twoDowns.foldl (Locked.step cls) (make 2 3)).returned =
      [(1, .countDown, 0), (2, .countDown, 0), (0, .wait, 0)] := by decide +kernel
  obtain ⟨hwait, hmembers⟩ := latch_exact 2 3 twoDowns twoDowns_legal
  refine ⟨hreturned, ?_, ?_⟩
  · exact Int.ofNat_le.mp (hwait _ 0 0 [] hreturned)
  · obtain ⟨hcount, hflag⟩ := hmembers (by decide +kernel)
    rw [hreturned] at hcount
    have hzero : (twoDowns.foldl (Locked.step cls) (make 2 3)).members.count = 0 := hcount
    rw [hzero, iff_false_right (by decide), Bool.not_eq_true] at hflag
    exact LatchMembers.ext hzero hflag

/-! ## The latch lets go -/

/-- At 0 all may go. -/
theorem wakes : Monitor.Wakes cls.ops (fun _ _ => 0) fun _ s => s.count ≤ 0 where
  stay op a hready := by
    cases op with
    | wait => exact ⟨(), rfl, rfl, Int.not_le.mpr (wait_refused_iff.mp hready)⟩
    | countDown | count => cases hready
  go op a c hready hclosed := by
    rw [GuardedClass.ops_act, GuardedClass.ops_signals]
    cases op with
    | wait => exact absurd (wait_ready_iff.mp hready) hclosed
    | count => exact .inr ⟨hclosed, Nat.le_refl _⟩
    | countDown =>
      rw [execBody_countDown]
      by_cases hzero : a.count - 1 = 0
      · exact .inl (by simp [hzero])
      · refine .inr ⟨?_, Nat.zero_le _⟩
        simp only
        omega
  blocked op a c hcond _ hclosed := by
    cases op with
    | wait => exact wait_refused_iff.mpr (Int.not_le.mp hclosed)
    | countDown | count => cases hcond

/-- **The latch lets go.** When no thread can go on, every thread is outside, or asleep in `Wait`
because `CountDown` has been called less than `count` times. -/
theorem latch_stuck (count : Int32) (n : Nat) (is : List (LockStep LatchCall))
    (h : Legal (Locked.step cls) (Locked.Admissible cls) (make count n) is)
    (hstuck : (is.foldl (Locked.step cls) (make count n)).Stuck cls) :
    let s := is.foldl (Locked.step cls) (make count n)
    ∀ place ∈ s.threads, place = .out ∨
      place = .asleep .wait ∧ countDowns s.returned < count.toInt := by
  intro s place hmem
  obtain ⟨hfree, hidle, hasleep⟩ := Locked.asleep_of_stuck wakes h hstuck
  rcases Locked.idle_cases (hidle place hmem) with rfl | ⟨op, rfl⟩
  · exact .inl rfl
  · have hready := hasleep op hmem
    cases op with
    | countDown | count => cases hready
    | wait =>
      have hcount : s.members.count = count.toInt - countDowns s.returned :=
        (members_eq h hfree).1
      have hpos : 0 < s.members.count := wait_refused_iff.mp hready
      exact .inr ⟨rfl, by omega⟩

theorem twoDowns_stuck :
    let s := twoDowns.foldl (Locked.step cls) (make 2 3)
    ∀ place ∈ s.threads, place = .out ∨
      place = .asleep .wait ∧ (countDowns s.returned : Int) < 2 :=
  latch_stuck 2 3 twoDowns twoDowns_legal (Locked.stuck_of_idle (by decide +kernel))

end CountDownLatch

end MyTinyHttpd
