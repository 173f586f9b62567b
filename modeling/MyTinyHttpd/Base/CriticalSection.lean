import MyTinyHttpd.Base.Mutex

/-!
# Critical sections are atomic

The threads of `Base/Mutex.lean` take their steps one by one. The mutex makes every call look like
one step of a monitor: the thread tests and goes on, or it sleeps.

* **Marks.** The mutex and `holder_` each name the one thread that is at certain places.
* **Refinement** (`Refines`). A call takes effect when its loop ends. While its body runs, the
  members are what the statements up to here have made of the members that the loop has ended on
  (`InsideAt`), and the notifications that are left are owed.
* `refines_run`: every run is a run of the monitor. `returned_replays`: the calls that have returned
  are a sequential run. `members_run`: what the statements keep holds of the members at any time.
* `isLocked_run`: `AssertLocked()` does not fail under the lock.
* `asleep_of_stuck`: when no thread can go on, all of them are outside, or asleep and cannot go on.
-/

namespace MyTinyHttpd

open Verif

namespace Locked

variable {σ κ ο ρ : Type}

/-! ## The thread that has the mutex -/

/-- `x` is the one thread at a place with `p`. -/
def Marks (p : LockPlace ο ρ → Bool) (x : Option Nat) (threads : List (LockPlace ο ρ)) : Prop :=
  ∀ t, x = some t ↔ ∃ place, threads[t]? = some place ∧ p place = true

section

variable {p : LockPlace ο ρ → Bool} {x y : Option Nat} {threads : List (LockPlace ο ρ)} {t u : Nat}
  {old new place : LockPlace ο ρ}

theorem Marks.eq_some (h : Marks p x threads) (ht : threads[t]? = some place)
    (hp : p place = true) : x = some t :=
  (h t).mpr ⟨place, ht, hp⟩

theorem Marks.not (h : Marks p x threads) (ht : threads[t]? = some place)
    (hp : p place = false) : x ≠ some t := by
  intro hx
  obtain ⟨place', ht', hp'⟩ := (h t).mp hx
  rw [ht] at ht'
  cases ht'
  rw [hp] at hp'
  cases hp'

/-- One thread moves. -/
theorem Marks.set (h : Marks p x threads) (ht : threads[t]? = some old)
    (hfree : p new = true → p old = false → x = none)
    (hy : y = if p new then some t else if p old then none else x) :
    Marks p y (threads.set t new) := by
  obtain ⟨hlt, -⟩ := List.getElem?_eq_some_iff.mp ht
  intro u
  by_cases hu : u = t
  · subst hu
    rw [List.getElem?_set_self hlt]
    cases hnew : p new with
    | true => simp [hy, hnew]
    | false =>
      refine iff_of_false (fun hyu => ?_) (by simp [hnew])
      cases hold : p old with
      | true => simp [hy, hnew, hold] at hyu
      | false =>
        simp only [hnew, hold, Bool.false_eq_true, if_false] at hy
        exact h.not ht hold (hy ▸ hyu)
  · rw [List.getElem?_set_ne (Ne.symm hu), ← h u]
    -- Nobody but `t` had the mark or gets it.
    have hother : x = none ∨ x = some t → (y = some u ↔ x = some u) := by
      rintro (rfl | rfl)
      · rw [hy]
        split
        · simp [Ne.symm hu]
        · simp
      · rw [hy]
        split
        · rfl
        · split <;> simp [Ne.symm hu]
    cases hold : p old with
    | true => exact hother (.inr (h.eq_some ht hold))
    | false =>
      cases hnew : p new with
      | true => exact hother (.inl (hfree hnew hold))
      | false => simp [hy, hnew, hold]

/-- One thread moves between places that are alike. -/
theorem Marks.set_of_eq (h : Marks p x threads) (ht : threads[t]? = some old)
    (hp : p new = p old) : Marks p x (threads.set t new) := by
  refine h.set ht (fun hnew hold => ?_) ?_
  · rw [← hp, hnew] at hold
    cases hold
  · rw [hp]
    cases hold : p old with
    | true => exact h.eq_some ht hold
    | false => rfl

theorem Marks.map (h : Marks p x threads) {f : LockPlace ο ρ → LockPlace ο ρ}
    (hf : ∀ place, p (f place) = p place) : Marks p x (threads.map f) := by
  intro t
  rw [h t]
  simp [hf]

end

/-! ## Waking up -/

section

variable [DecidableEq κ] (cls : GuardedClass σ κ ο ρ)

/-- The place of a thread, as the monitor sees it. A call has taken effect when its body starts. -/
def seat : LockPlace ο ρ → Seat ο
  | .out | .body _ _ _ | .unlocking _ _ => .out
  | .locking op | .locked op | .test op | .wait op | .unassigned op | .woken op => .awake op
  | .asleep op => .parked op

@[simp] theorem seat_wake (place : LockPlace ο ρ) : seat place.wake = (seat place).wake := by
  cases place <;> rfl

theorem parkedOn_seat (c : κ) (place : LockPlace ο ρ) :
    Monitor.parkedOn cls.ops c (seat place) = cls.asleepOn c place := by
  cases place <;> rfl

/-- A notification is the same for the monitor. -/
theorem map_seat_notify (threads : List (LockPlace ο ρ)) (u : Option Nat) (signal : Signal κ) :
    (cls.notify threads u (some signal)).map seat =
      Monitor.notified cls.ops (threads.map seat) u signal := by
  cases signal with
  | one c =>
    cases u with
    | none => rfl
    | some u =>
      simp only [GuardedClass.notify, Monitor.notified, Monitor.wakeAt, Option.bind_some,
        List.getElem?_map]
      cases hu : threads[u]? with
      | none => rfl
      | some place => simp
  | all c =>
    simp only [GuardedClass.notify, Monitor.notified, List.map_map]
    refine List.map_congr_left fun place _ => ?_
    simp only [Function.comp, parkedOn_seat]
    split <;> simp

theorem receives_seat {threads : List (LockPlace ο ρ)} {u : Option Nat} {signal : Signal κ} :
    Monitor.Receives cls.ops (threads.map seat) u signal ↔
      Receives cls threads u (some signal) := by
  cases signal with
  | one c =>
    cases u with
    | none => simp [Monitor.Receives, Receives, parkedOn_seat]
    | some u => simp [Monitor.Receives, Receives, parkedOn_seat]
  | all c => rfl

/-- A notification only turns sleepers into threads that want the mutex. -/
theorem Marks.notify {p : LockPlace ο ρ → Bool} (hp : ∀ place, p place.wake = p place)
    {x : Option Nat} {threads : List (LockPlace ο ρ)} (h : Marks p x threads) (u : Option Nat)
    (signal : Option (Signal κ)) : Marks p x (cls.notify threads u signal) := by
  match signal, u with
  | none, _ => exact h
  | some (.one _), none => exact h
  | some (.one _), some u =>
    simp only [GuardedClass.notify, Option.bind_some]
    cases hu : threads[u]? with
    | none => exact h
    | some place => exact h.set_of_eq hu (hp place)
  | some (.all c), _ =>
    refine h.map fun place => ?_
    split
    · exact hp place
    · rfl

theorem owns_wake (place : LockPlace ο ρ) : place.wake.owns = place.owns := by
  cases place <;> rfl

theorem holds_wake (place : LockPlace ο ρ) : place.wake.holds = place.holds := by
  cases place <;> rfl

theorem wake_of_owns {place : LockPlace ο ρ} (h : place.owns = true) : place.wake = place := by
  cases place <;> first | rfl | cases h

/-- A thread that has the mutex does not sleep. -/
theorem getElem?_notify {threads : List (LockPlace ο ρ)} {t : Nat} {place : LockPlace ο ρ}
    (ht : threads[t]? = some place) (howns : place.owns = true) (u : Option Nat)
    (signal : Option (Signal κ)) : (cls.notify threads u signal)[t]? = some place := by
  match signal, u with
  | none, _ => exact ht
  | some (.one _), none => exact ht
  | some (.one _), some u =>
    simp only [GuardedClass.notify, Option.bind_some]
    cases hu : threads[u]? with
    | none => exact ht
    | some place' =>
      obtain ⟨hlt, -⟩ := List.getElem?_eq_some_iff.mp ht
      by_cases hut : u = t
      · subst hut
        rw [ht] at hu
        cases hu
        exact (List.getElem?_set_self hlt).trans (congrArg some (wake_of_owns howns))
      · exact (List.getElem?_set_ne hut).trans ht
  | some (.all c), _ =>
    simp only [GuardedClass.notify, List.getElem?_map, ht, Option.map_some]
    split
    · rw [wake_of_owns howns]
    · rfl

end

/-! ## Statements one by one -/

section

variable (cls : GuardedClass σ κ ο ρ)

theorem exec_append (xs ys : List (Statement σ κ ρ)) (locals : ρ) (members : σ) :
    GuardedClass.exec (xs ++ ys) locals members =
      let r := GuardedClass.exec xs locals members
      let r' := GuardedClass.exec ys r.1 r.2.1
      (r'.1, r'.2.1, r.2.2 ++ r'.2.2) := by
  induction xs generalizing locals members with
  | nil => rfl
  | cons statement xs ih => simp [GuardedClass.exec, ih]

variable {cls} {op : ο} {next : Nat} {statement : Statement σ κ ρ} {a members : σ} {locals : ρ}
  {sent owed : List (Signal κ)}

/-- One more statement of the body. -/
theorem exec_take_succ (hs : (cls.body op)[next]? = some statement)
    (h : GuardedClass.exec ((cls.body op).take next) (cls.start op) a = (locals, members, sent)) :
    GuardedClass.exec ((cls.body op).take (next + 1)) (cls.start op) a =
      ((statement locals members).1, (statement locals members).2.1,
        sent ++ (statement locals members).2.2.toList) := by
  rw [List.take_add_one, hs, Option.toList_some, exec_append, h]
  simp [GuardedClass.exec]

/-- What the statement notifies is the first that is owed. -/
theorem owed_of_statement (hs : (cls.body op)[next]? = some statement)
    (h : GuardedClass.exec ((cls.body op).take next) (cls.start op) a = (locals, members, sent))
    (howed : (cls.execBody op a).2.2 = sent ++ owed) :
    ∃ rest, owed = (statement locals members).2.2.toList ++ rest := by
  obtain ⟨hlt, rfl⟩ := List.getElem?_eq_some_iff.mp hs
  have hbody : cls.body op =
      (cls.body op).take next ++ (cls.body op)[next] :: (cls.body op).drop (next + 1) := by
    rw [← List.drop_eq_getElem_cons hlt, List.take_append_drop]
  rw [GuardedClass.execBody, hbody, exec_append, h] at howed
  simp only [GuardedClass.exec, List.append_cancel_left_eq] at howed
  exact ⟨_, howed.symm⟩

/-- The end of the body. -/
theorem exec_all (hs : (cls.body op)[next]? = none)
    (h : GuardedClass.exec ((cls.body op).take next) (cls.start op) a = (locals, members, sent)) :
    cls.execBody op a = (locals, members, sent) := by
  rwa [List.take_of_length_le (List.getElem?_eq_none_iff.mp hs)] at h

end

/-! ## Refinement -/

section

variable (cls : GuardedClass σ κ ο ρ) (I : σ → Prop)

/-- No call is in its body. `I` is an invariant of the members between the calls. -/
def Quiet (s : Locked σ ο ρ) (m : Monitor σ κ ο ρ) : Prop :=
  I s.members ∧ m.shared = s.members ∧ m.owed = [] ∧ m.done = s.returned

/-- The thread `t` has the mutex. -/
def InsideAt (s : Locked σ ο ρ) (m : Monitor σ κ ο ρ) (t : Nat) : LockPlace ο ρ → Prop
  | .body op next locals =>
    ∃ a sent, I a ∧ cls.ready op a = true ∧
      GuardedClass.exec ((cls.body op).take next) (cls.start op) a = (locals, s.members, sent) ∧
      m.shared = (cls.execBody op a).2.1 ∧ (cls.execBody op a).2.2 = sent ++ m.owed ∧
      m.done = s.returned ++ [(t, op, (cls.execBody op a).1)]
  | .unlocking op locals =>
    I s.members ∧ m.shared = s.members ∧ m.owed = [] ∧ m.done = s.returned ++ [(t, op, locals)]
  -- The test of the loop has failed.
  | .wait op | .unassigned op => s.Quiet I m ∧ cls.ready op s.members = false
  | .out | .locking _ | .locked _ | .test _ | .asleep _ | .woken _ => s.Quiet I m

/-- The state of the monitor for a state of the threads. -/
structure Refines (s : Locked σ ο ρ) (m : Monitor σ κ ο ρ) : Prop where
  mutex : Marks LockPlace.owns s.mutex s.threads
  holder : Marks LockPlace.holds s.holder s.threads
  seats : m.threads = s.threads.map seat
  free : s.mutex = none → s.Quiet I m
  inside : ∀ t place, s.threads[t]? = some place → place.owns = true → s.InsideAt cls I m t place

variable {cls I} {s : Locked σ ο ρ} {m : Monitor σ κ ο ρ} {t : Nat} {old new : LockPlace ο ρ}

/-- It is enough to look at the thread that has the mutex. -/
theorem refines_of_owner (hmutex : Marks LockPlace.owns s.mutex s.threads)
    (hholder : Marks LockPlace.holds s.holder s.threads) (hseats : m.threads = s.threads.map seat)
    (ht : s.threads[t]? = some new) (howns : new.owns = true)
    (hin : s.InsideAt cls I m t new) : s.Refines cls I m := by
  have hsome := hmutex.eq_some ht howns
  refine ⟨hmutex, hholder, hseats, fun hnone => ?_, fun u place hu hplace => ?_⟩
  · rw [hsome] at hnone
    cases hnone
  · obtain rfl : t = u := Option.some.inj (hsome.symm.trans (hmutex.eq_some hu hplace))
    rw [ht] at hu
    cases hu
    exact hin

theorem refines_of_free (hmutex : Marks LockPlace.owns none s.threads) (hnone : s.mutex = none)
    (hholder : Marks LockPlace.holds s.holder s.threads) (hseats : m.threads = s.threads.map seat)
    (hquiet : s.Quiet I m) : s.Refines cls I m := by
  refine ⟨hnone ▸ hmutex, hholder, hseats, fun _ => hquiet, fun u place hu hplace => ?_⟩
  cases hmutex.eq_some hu hplace

theorem refines_fresh {members : σ} (hI : I members) (n : Nat) :
    (fresh members n : Locked σ ο ρ).Refines cls I (Monitor.fresh members n) := by
  have hmarks : ∀ p : LockPlace ο ρ → Bool, p .out = false →
      Marks p none (List.replicate n .out) := by
    intro p hp t
    simp only [reduceCtorEq, false_iff, not_exists, not_and]
    intro place ht
    rw [List.eq_of_mem_replicate (List.mem_of_getElem? ht), hp]
    simp
  refine refines_of_free (hmarks _ rfl) rfl (hmarks _ rfl) ?_ ⟨hI, rfl, rfl, rfl⟩
  simp [fresh, Monitor.fresh, seat]

/-- A thread moves without the mutex. -/
theorem Refines.moveOutside (h : s.Refines cls I m) (ht : s.threads[t]? = some old)
    (hold : old.owns = false) (hnew : new.owns = false) (hholds : new.holds = old.holds) :
    Refines cls I (s.setPlace t new) { m with threads := m.threads.set t (seat new) } := by
  have hmutex : Marks LockPlace.owns s.mutex (s.threads.set t new) :=
    h.mutex.set_of_eq ht (hnew.trans hold.symm)
  have hholder : Marks LockPlace.holds s.holder (s.threads.set t new) :=
    h.holder.set_of_eq ht hholds
  have hseats : m.threads.set t (seat new) = (s.threads.set t new).map seat := by
    rw [h.seats, List.map_set]
  refine ⟨hmutex, hholder, hseats, h.free, fun u place hu hplace => ?_⟩
  have hut : u ≠ t := by
    rintro rfl
    rw [setPlace, List.getElem?_set_self (List.getElem?_eq_some_iff.mp ht).1] at hu
    cases hu
    rw [hnew] at hplace
    cases hplace
  rw [setPlace, List.getElem?_set_ne (Ne.symm hut)] at hu
  have hin := h.inside u place hu hplace
  cases place <;> exact hin

theorem Refines.seat_eq (h : s.Refines cls I m) {place : LockPlace ο ρ}
    (ht : s.threads[t]? = some place) : m.threads[t]? = some (seat place) := by
  rw [h.seats, List.getElem?_map, ht, Option.map_some]

/-- Nothing changes for the monitor when a thread moves between places that it does not tell
apart. -/
theorem Refines.seats_set (h : s.Refines cls I m) (ht : s.threads[t]? = some old)
    (hseat : seat new = seat old) : m.threads = m.threads.set t (seat new) := by
  obtain ⟨hlt, heq⟩ := List.getElem?_eq_some_iff.mp (h.seat_eq ht)
  rw [hseat, ← heq, List.set_getElem_self]

theorem owns_of_holds {place : LockPlace ο ρ} (h : place.holds = true) : place.owns = true := by
  cases place <;> first | rfl | cases h

/-- Only the thread that has the mutex can be in `holder_`. -/
theorem Refines.holder_eq (h : s.Refines cls I m) (ht : s.threads[t]? = some old)
    (hold : old.owns = true) : s.holder = if old.holds then some t else none := by
  cases hholds : old.holds with
  | true => exact h.holder.eq_some ht hholds
  | false =>
    cases hholder : s.holder with
    | none => rfl
    | some u =>
      obtain ⟨place, hu, hplace⟩ := (h.holder u).mp hholder
      have hsome := h.mutex.eq_some hu (owns_of_holds hplace)
      obtain rfl : t = u := Option.some.inj ((h.mutex.eq_some ht hold).symm.trans hsome)
      exact absurd hholder (h.holder.not ht hholds)

/-- The thread that has the mutex moves, and `holder_` goes with it. -/
theorem Refines.holder_set (h : s.Refines cls I m) (ht : s.threads[t]? = some old)
    (hold : old.owns = true) (new : LockPlace ο ρ) :
    Marks LockPlace.holds (if new.holds then some t else none) (s.threads.set t new) := by
  have hholder := h.holder_eq ht hold
  refine h.holder.set ht (fun _ hnot => ?_) ?_
  · simpa [hnot] using hholder
  · rw [hholder]
    cases old.holds <;> simp

/-- The thread that has the mutex moves, and keeps it. -/
theorem Refines.moveInside (h : s.Refines cls I m) (ht : s.threads[t]? = some old)
    (hold : old.owns = true) (new : LockPlace ο ρ) (hnew : new.owns = true) {holder : Option Nat}
    (hholder : holder = if new.holds then some t else none) {m' : Monitor σ κ ο ρ}
    (hseats : m'.threads = m.threads.set t (seat new))
    (hin : InsideAt cls I s m' t new) :
    Refines cls I ({ s with holder }.setPlace t new) m' := by
  have hlt := (List.getElem?_eq_some_iff.mp ht).1
  refine refines_of_owner (h.mutex.set_of_eq ht (hnew.trans hold.symm)) ?_ ?_
    (List.getElem?_set_self hlt) hnew ?_
  · rw [hholder]
    exact h.holder_set ht hold new
  · rw [hseats, h.seats, setPlace, List.map_set]
  · cases new <;> exact hin

/-- The thread that has the mutex gives it back. -/
theorem Refines.release (h : s.Refines cls I m) (ht : s.threads[t]? = some old)
    (hold : old.owns = true) (hholds : old.holds = false) (hnew : new.owns = false)
    {returned : List (Nat × ο × ρ)} {m' : Monitor σ κ ο ρ}
    (hseats : m'.threads = m.threads.set t (seat new))
    (hquiet : Quiet I { s with returned } m') :
    Refines cls I ({ s with mutex := none, returned }.setPlace t new) m' := by
  have hnewHolds : new.holds = false := by
    cases hn : new.holds with
    | true => rw [owns_of_holds hn] at hnew; cases hnew
    | false => rfl
  refine refines_of_free (h.mutex.set ht (fun hn => ?_) ?_) rfl ?_ ?_ hquiet
  · rw [hnew] at hn
    cases hn
  · simp [hnew, hold]
  · exact h.holder.set_of_eq ht (hnewHolds.trans hholds.symm)
  · rw [hseats, h.seats, setPlace, List.map_set]

end

/-! ## Every step is a step of the monitor -/

section

variable [DecidableEq κ] {cls : GuardedClass σ κ ο ρ} {I : σ → Prop} {s : Locked σ ο ρ}
  {m : Monitor σ κ ο ρ} {t : Nat} {op : ο}

/-- Some steps of the monitor lead to a state for `s'`. -/
def Follows (cls : GuardedClass σ κ ο ρ) (I : σ → Prop) (m : Monitor σ κ ο ρ)
    (s' : Locked σ ο ρ) : Prop :=
  ∃ js, Legal (Monitor.step cls.ops) (Monitor.Admissible cls.ops) m js ∧
    s'.Refines cls I (js.foldl (Monitor.step cls.ops) m)

theorem Follows.stutter {s' : Locked σ ο ρ} (h : s'.Refines cls I m) : Follows cls I m s' :=
  ⟨[], trivial, h⟩

theorem Follows.one {s' : Locked σ ο ρ} {j : MonitorStep ο}
    (hj : Monitor.Admissible cls.ops m j) (h : s'.Refines cls I (m.step cls.ops j)) :
    Follows cls I m s' :=
  ⟨[j], ⟨hj, trivial⟩, h⟩

theorem Refines.call (h : s.Refines cls I m) (ht : s.threads[t]? = some .out) (op : ο) :
    Follows cls I m (s.setPlace t (.locking op)) :=
  .one (j := .call t op) (h.seat_eq ht) (h.moveOutside ht rfl rfl rfl)

theorem Refines.rouse (h : s.Refines cls I m) (ht : s.threads[t]? = some (.asleep op)) :
    Follows cls I m (s.setPlace t (.woken op)) := by
  refine .one (j := .rouse t) ⟨op, h.seat_eq ht⟩ ?_
  have hwake : Monitor.wakeAt m.threads t = m.threads.set t (.awake op) := by
    simp only [Monitor.wakeAt, h.seat_eq ht]
    rfl
  rw [Monitor.step, hwake]
  exact h.moveOutside ht rfl rfl rfl

/-- `pthread_mutex_lock`, also at the end of a wait. -/
theorem Refines.acquire (h : s.Refines cls I m) {old : LockPlace ο ρ}
    (ht : s.threads[t]? = some old) (hseat : seat old = .awake op) (hholds : old.holds = false)
    (hfree : s.mutex = none) :
    Follows cls I m ({ s with mutex := some t }.setPlace t (.locked op)) := by
  have hlt := (List.getElem?_eq_some_iff.mp ht).1
  refine .stutter (refines_of_owner (h.mutex.set ht (fun _ _ => hfree) rfl)
    (h.holder.set_of_eq ht hholds.symm) ?_ (List.getElem?_set_self hlt) rfl (h.free hfree))
  rw [setPlace, List.map_set, ← h.seats]
  exact h.seats_set ht hseat.symm

/-- The test of the loop: the call takes effect, or it is refused. -/
theorem Refines.test (h : s.Refines cls I m) (ht : s.threads[t]? = some (.test op)) :
    Follows cls I m
      (s.setPlace t (if cls.ready op s.members then .body op 0 (cls.start op) else .wait op)) := by
  have hquiet : s.Quiet I m := h.inside t _ ht rfl
  obtain ⟨hinv, hshared, howed, hdone⟩ := hquiet
  have hholder := h.holder_eq ht rfl
  split
  · next hready =>
    refine .one (j := .run t) ⟨howed, op, h.seat_eq ht⟩ ?_
    have hrun : m.step cls.ops (.run t) =
        { shared := (cls.execBody op s.members).2.1
          threads := m.threads.set t .out
          owed := (cls.execBody op s.members).2.2
          done := m.done ++ [(t, op, (cls.execBody op s.members).1)] } := by
      have hready' : cls.ops.ready op m.shared = true := by rw [hshared]; exact hready
      simp only [Monitor.step, Monitor.run, h.seat_eq ht, seat, hready', if_true]
      rw [hshared]
      rfl
    rw [hrun]
    refine h.moveInside ht rfl (.body op 0 (cls.start op)) rfl hholder rfl
      ⟨s.members, [], hinv, hready, rfl, rfl, rfl, ?_⟩
    rw [hdone]
  · next hready =>
    refine .stutter (h.moveInside ht rfl (.wait op) rfl hholder (h.seats_set ht rfl) ?_)
    exact ⟨⟨hinv, hshared, howed, hdone⟩, by simpa using hready⟩

/-- `pthread_cond_wait` goes to sleep. -/
theorem Refines.sleep (h : s.Refines cls I m) (ht : s.threads[t]? = some (.unassigned op)) :
    Follows cls I m ({ s with mutex := none }.setPlace t (.asleep op)) := by
  obtain ⟨⟨hinv, hshared, howed, hdone⟩, hrefused⟩ := h.inside t _ ht rfl
  refine .one (j := .run t) ⟨howed, op, h.seat_eq ht⟩ ?_
  have hrun : m.step cls.ops (.run t) = { m with threads := m.threads.set t (.parked op) } := by
    have hready : cls.ops.ready op m.shared = false := by rw [hshared]; exact hrefused
    simp [Monitor.step, Monitor.run, h.seat_eq ht, seat, hready]
  rw [hrun]
  exact h.release ht rfl rfl rfl rfl ⟨hinv, hshared, howed, hdone⟩

/-- One statement of a body. -/
theorem Refines.statement (h : s.Refines cls I m) {next : Nat} {locals : ρ}
    (ht : s.threads[t]? = some (.body op next locals)) {statement : Statement σ κ ρ}
    (hs : (cls.body op)[next]? = some statement) {u : Option Nat}
    (hu : Receives cls s.threads u (statement locals s.members).2.2) :
    Follows cls I m
      { s with
        members := (statement locals s.members).2.1
        threads := cls.notify (s.threads.set t (.body op (next + 1) (statement locals s.members).1))
          u (statement locals s.members).2.2 } := by
  obtain ⟨a, sent, hinv, hready, hexec, hshared, howed, hdone⟩ := h.inside t _ ht rfl
  have hexec' := exec_take_succ hs hexec
  obtain ⟨rest, hrest⟩ := owed_of_statement hs hexec howed
  generalize hr : statement locals s.members = r at hu hexec' hrest
  obtain ⟨locals', members', signal⟩ := r
  simp only at hu hexec' hrest ⊢
  have hlt := (List.getElem?_eq_some_iff.mp ht).1
  have hset : (s.threads.set t (.body op (next + 1) locals'))[t]? =
      some (.body op (next + 1) locals') := List.getElem?_set_self hlt
  -- The state of the monitor after the notification.
  have hrefines : ∀ m' : Monitor σ κ ο ρ,
      m'.threads = (cls.notify (s.threads.set t (.body op (next + 1) locals')) u signal).map seat →
      m'.shared = m.shared → m'.owed = rest → m'.done = m.done →
      Refines cls I
        { s with
          members := members'
          threads := cls.notify (s.threads.set t (.body op (next + 1) locals')) u signal } m' := by
    intro m' hseats hshared' howed' hdone'
    refine refines_of_owner ?_ ?_ hseats (getElem?_notify cls hset rfl u signal) rfl ?_
    · refine Marks.notify cls owns_wake (h.mutex.set_of_eq ht ?_) u signal
      rfl
    · refine Marks.notify cls holds_wake (h.holder.set_of_eq ht ?_) u signal
      rfl
    · refine ⟨a, sent ++ signal.toList, hinv, hready, hexec', hshared'.trans hshared, ?_,
        hdone'.trans hdone⟩
      rw [howed, hrest, howed', List.append_assoc]
  have hseats : m.threads = (s.threads.set t (.body op (next + 1) locals')).map seat := by
    rw [List.map_set, ← h.seats]
    exact h.seats_set ht rfl
  cases signal with
  | none => exact .stutter (hrefines m hseats rfl hrest rfl)
  | some signal =>
    have howed' : m.owed = signal :: rest := hrest
    have hreceives : Monitor.Receives cls.ops m.threads u signal := by
      rw [h.seats]
      exact (receives_seat cls).mpr hu
    refine .one (j := .deliver u) ⟨signal, rest, howed', hreceives⟩ ?_
    have hdeliver : m.step cls.ops (.deliver u) =
        { m with owed := rest, threads := Monitor.notified cls.ops m.threads u signal } := by
      simp only [Monitor.step, Monitor.deliver, howed']
    rw [hdeliver]
    refine hrefines _ ?_ rfl rfl rfl
    rw [map_seat_notify, ← hseats]

/-- `UnassignHolder` at the end of the scope. -/
theorem Refines.leave (h : s.Refines cls I m) {next : Nat} {locals : ρ}
    (hI : ∀ op a, I a → cls.ready op a = true → I (cls.execBody op a).2.1)
    (ht : s.threads[t]? = some (.body op next locals)) (hs : (cls.body op)[next]? = none) :
    Follows cls I m ({ s with holder := none }.setPlace t (.unlocking op locals)) := by
  obtain ⟨a, sent, hinv, hready, hexec, hshared, howed, hdone⟩ := h.inside t _ ht rfl
  have hall := exec_all hs hexec
  have hkept := hI op a hinv hready
  rw [hall] at hshared howed hdone hkept
  refine .stutter (h.moveInside ht rfl (.unlocking op locals) rfl rfl (h.seats_set ht rfl) ?_)
  exact ⟨hkept, hshared, by simpa using howed, hdone⟩

theorem Refines.next (h : s.Refines cls I m)
    (hI : ∀ op a, I a → cls.ready op a = true → I (cls.execBody op a).2.1) {u : Option Nat}
    {place : LockPlace ο ρ} (ht : s.threads[t]? = some place) (hgo : s.CanGo cls u place) :
    Follows cls I m (s.next cls t u) := by
  unfold Locked.next
  simp only [ht]
  cases place with
  | out | asleep => exact hgo.elim
  | locking op | woken op => exact h.acquire ht rfl rfl hgo
  | locked op =>
    have hquiet : s.Quiet I m := h.inside t _ ht rfl
    exact .stutter (h.moveInside ht rfl (.test op) rfl rfl (h.seats_set ht rfl) hquiet)
  | test op => exact h.test ht
  | wait op =>
    have hrefused : s.Quiet I m ∧ cls.ready op s.members = false := h.inside t _ ht rfl
    exact .stutter (h.moveInside ht rfl (.unassigned op) rfl rfl (h.seats_set ht rfl) hrefused)
  | unassigned op => exact h.sleep ht
  | body op next locals =>
    simp only [nextInBody]
    cases hs : (cls.body op)[next]? with
    | none => exact h.leave hI ht hs
    | some statement =>
      rw [CanGo, hs] at hgo
      exact h.statement ht hs hgo
  | unlocking op locals =>
    obtain ⟨hinv, hshared, howed, hdone⟩ := h.inside t _ ht rfl
    exact .stutter (h.release ht rfl rfl rfl (h.seats_set ht rfl) ⟨hinv, hshared, howed, hdone⟩)

/-- **Every step is a step of the monitor**, or none. -/
theorem Refines.step (h : s.Refines cls I m)
    (hI : ∀ op a, I a → cls.ready op a = true → I (cls.execBody op a).2.1) {i : LockStep ο}
    (hi : s.Admissible cls i) : Follows cls I m (s.step cls i) := by
  cases i with
  | call t op => exact h.call hi op
  | next t u =>
    obtain ⟨place, ht, hgo⟩ := hi
    exact h.next hI ht hgo
  | rouse t =>
    obtain ⟨op, ht⟩ := hi
    simp only [Locked.step, ht]
    exact h.rouse ht

/-- **Every run is a run of the monitor.** -/
theorem refines_run (hI : ∀ op a, I a → cls.ready op a = true → I (cls.execBody op a).2.1)
    {members : σ} (hmembers : I members) {n : Nat} {is : List (LockStep ο)}
    (h : Legal (step cls) (Admissible cls) (fresh members n) is) :
    Follows cls I (Monitor.fresh members n) (is.foldl (step cls) (fresh members n)) :=
  legal_simulates (R := Refines cls I) (fun _ _ _ hR hi => hR.step hI hi)
    (refines_fresh hmembers n) h

/-- The calls that have returned are a sequential run. It has led to the members, if no call is
between its test and its end. -/
theorem returned_replays {members : σ} {n : Nat} {is : List (LockStep ο)}
    (h : Legal (step cls) (Admissible cls) (fresh members n) is) :
    let s := is.foldl (step cls) (fresh members n)
    ∃ b, Monitor.Replays cls.ops members s.returned b ∧ (s.mutex = none → b = s.members) := by
  intro s
  obtain ⟨js, hjs, href⟩ := refines_run (I := fun _ => True) (fun _ _ _ _ => trivial) trivial h
  have hreplays := Monitor.replays_run hjs
  cases hmutex : s.mutex with
  | none =>
    obtain ⟨-, hshared, -, hdone⟩ := href.free hmutex
    rw [hdone, hshared] at hreplays
    exact ⟨_, hreplays, fun _ => rfl⟩
  | some t =>
    obtain ⟨place, ht, howns⟩ := (href.mutex t).mp hmutex
    have hin := href.inside t place ht howns
    have hnone : some t = none → ∀ b, b = s.members := fun h => by cases h
    cases place with
    | body op next locals =>
      obtain ⟨a, sent, -, -, -, -, -, hdone⟩ := hin
      rw [hdone] at hreplays
      exact hreplays.init.imp fun b hb => ⟨hb, fun h => hnone h b⟩
    | unlocking op locals =>
      obtain ⟨-, -, -, hdone⟩ := hin
      rw [hdone] at hreplays
      exact hreplays.init.imp fun b hb => ⟨hb, fun h => hnone h b⟩
    | wait | unassigned =>
      obtain ⟨⟨-, -, -, hdone⟩, -⟩ := hin
      rw [hdone] at hreplays
      exact ⟨_, hreplays, fun h => hnone h _⟩
    | out | locking | locked | test | asleep | woken =>
      obtain ⟨-, -, -, hdone⟩ := hin
      rw [hdone] at hreplays
      exact ⟨_, hreplays, fun h => hnone h _⟩

/-- What every statement of a call keeps holds of the members at any time, if it holds when the loop
ends. -/
theorem members_run (hbody : ∀ op a next, I a → cls.ready op a = true →
      I (GuardedClass.exec ((cls.body op).take next) (cls.start op) a).2.1)
    {members : σ} (hmembers : I members) {n : Nat} {is : List (LockStep ο)}
    (h : Legal (step cls) (Admissible cls) (fresh members n) is) :
    I (is.foldl (step cls) (fresh members n)).members := by
  have hI : ∀ op a, I a → cls.ready op a = true → I (cls.execBody op a).2.1 := by
    intro op a ha hready
    have hall := hbody op a (cls.body op).length ha hready
    rwa [List.take_length] at hall
  obtain ⟨js, -, href⟩ := refines_run hI hmembers h
  cases hmutex : (is.foldl (step cls) (fresh members n)).mutex with
  | none => exact (href.free hmutex).1
  | some t =>
    obtain ⟨place, ht, howns⟩ := (href.mutex t).mp hmutex
    have hin := href.inside t place ht howns
    cases place with
    | body op next locals =>
      obtain ⟨a, sent, hinv, hready, hexec, -⟩ := hin
      have hb := hbody op a next hinv hready
      rwa [hexec] at hb
    | unlocking op locals => exact hin.1
    | wait | unassigned => exact hin.1.1
    | out | locking | locked | test | asleep | woken => exact hin.1

/-- In its body, a thread has executed statements from the members on that its loop has ended on. -/
theorem body_run {members : σ} {n : Nat} {is : List (LockStep ο)}
    (h : Legal (step cls) (Admissible cls) (fresh members n) is) {t next : Nat} {op : ο}
    {locals : ρ}
    (ht : (is.foldl (step cls) (fresh members n)).threads[t]? = some (.body op next locals)) :
    ∃ a, cls.ready op a = true ∧
      locals = (GuardedClass.exec ((cls.body op).take next) (cls.start op) a).1 ∧
      (is.foldl (step cls) (fresh members n)).members =
        (GuardedClass.exec ((cls.body op).take next) (cls.start op) a).2.1 := by
  obtain ⟨js, -, href⟩ := refines_run (I := fun _ => True) (fun _ _ _ _ => trivial) trivial h
  obtain ⟨a, sent, -, hready, hexec, -⟩ := href.inside t _ ht rfl
  exact ⟨a, hready, by rw [hexec], by rw [hexec]⟩

/-- `AssertLocked()` between `AssignHolder` and `UnassignHolder`: the thread, and no other, has the
mutex. -/
theorem isLocked_run {members : σ} {n : Nat} {is : List (LockStep ο)}
    (h : Legal (step cls) (Admissible cls) (fresh members n) is) {t : Nat} {place : LockPlace ο ρ}
    (ht : (is.foldl (step cls) (fresh members n)).threads[t]? = some place)
    (hholds : place.holds = true) :
    (is.foldl (step cls) (fresh members n)).isLockedByThisThread t = true ∧
      (is.foldl (step cls) (fresh members n)).mutex = some t := by
  obtain ⟨js, -, href⟩ := refines_run (I := fun _ => True) (fun _ _ _ _ => trivial) trivial h
  refine ⟨beq_iff_eq.mpr (href.holder.eq_some ht hholds), ?_⟩
  exact href.mutex.eq_some ht (owns_of_holds hholds)

section Calls

/-! ## Every call is in one place -/

/-- The call that the thread is in. -/
def callOf : LockPlace ο ρ → Option ο
  | .out => none
  | .locking op | .locked op | .test op | .wait op | .unassigned op | .asleep op | .woken op
  | .body op _ _ | .unlocking op _ => some op

theorem callOf_wake (place : LockPlace ο ρ) : callOf place.wake = callOf place := by
  cases place <;> rfl

/-- A thread moves, and does not seem to. -/
theorem map_set_same {β : Type} {f : LockPlace ο ρ → β} {threads : List (LockPlace ο ρ)}
    {place : LockPlace ο ρ} (ht : threads[t]? = some place) {new : LockPlace ο ρ}
    (hf : f new = f place) : (threads.set t new).map f = threads.map f := by
  obtain ⟨hlt, rfl⟩ := List.getElem?_eq_some_iff.mp ht
  rw [List.map_set, hf, ← List.getElem_map f (h := by simpa using hlt), List.set_getElem_self]

/-- A notification only wakes up. -/
theorem map_notify {β : Type} {f : LockPlace ο ρ → β} (hf : ∀ place, f place.wake = f place)
    (threads : List (LockPlace ο ρ)) (u : Option Nat) (signal : Option (Signal κ)) :
    (cls.notify threads u signal).map f = threads.map f := by
  match signal, u with
  | none, _ => rfl
  | some (.one _), none => rfl
  | some (.one _), some u =>
    simp only [GuardedClass.notify, Option.bind_some]
    cases hu : threads[u]? with
    | none => rfl
    | some place => exact map_set_same hu (hf place)
  | some (.all c), _ =>
    simp only [GuardedClass.notify, List.map_map]
    refine List.map_congr_left fun place _ => ?_
    simp only [Function.comp_apply]
    split
    · exact hf place
    · rfl

theorem callOf_notify (threads : List (LockPlace ο ρ)) (u : Option Nat)
    (signal : Option (Signal κ)) (t : Nat) :
    (cls.notify threads u signal)[t]?.bind callOf = threads[t]?.bind callOf := by
  have hbind : ∀ o : Option (LockPlace ο ρ), o.bind callOf = (o.map callOf).join := by
    rintro (_ | _) <;> rfl
  rw [hbind, hbind, ← List.getElem?_map, ← List.getElem?_map, map_notify callOf_wake]

theorem callOf_eq_none {place : LockPlace ο ρ} : callOf place = none ↔ place = .out := by
  cases place <;> simp [callOf]

/-- The call that the thread returns from in its next step. -/
def leaving : LockPlace ο ρ → Option (ο × ρ)
  | .unlocking op locals => some (op, locals)
  | .out | .locking _ | .locked _ | .test _ | .wait _ | .unassigned _ | .asleep _ | .woken _
  | .body _ _ _ => none

/-- One thread moves. -/
theorem callOf_set {threads : List (LockPlace ο ρ)} {place : LockPlace ο ρ}
    (ht : threads[t]? = some place) (new : LockPlace ο ρ) (v : Nat) :
    (threads.set t new)[v]?.bind callOf =
      if v = t then callOf new else threads[v]?.bind callOf := by
  obtain ⟨hlt, -⟩ := List.getElem?_eq_some_iff.mp ht
  by_cases hv : v = t
  · subst hv
    simp [hlt]
  · rw [List.getElem?_set_ne (Ne.symm hv), if_neg hv]

/-- A thread moves within its call. -/
theorem callOf_set_same {threads : List (LockPlace ο ρ)} {place : LockPlace ο ρ}
    (ht : threads[t]? = some place) (new : LockPlace ο ρ) (hcall : callOf new = callOf place)
    (v : Nat) : (threads.set t new)[v]?.bind callOf = threads[v]?.bind callOf := by
  rw [callOf_set ht]
  split
  · subst_vars
    rw [ht, hcall]
    rfl
  · rfl

/-- A thread stays in its call until it returns from it. -/
theorem callOf_next {place : LockPlace ο ρ} (ht : s.threads[t]? = some place) (u : Option Nat)
    (v : Nat) : (s.next cls t u).threads[v]?.bind callOf =
      if v = t ∧ (leaving place).isSome then none else s.threads[v]?.bind callOf := by
  unfold Locked.next
  simp only [ht]
  cases place with
  | unlocking op locals =>
    simp only [leaving, Option.isSome_some, and_true]
    exact callOf_set ht .out v
  | out | asleep => simp [leaving]
  | locking op | woken op => simpa [leaving, setPlace] using callOf_set_same ht (.locked op) rfl v
  | locked op => simpa [leaving, setPlace] using callOf_set_same ht (.test op) rfl v
  | test op =>
    simp only [leaving, Option.isSome_none, Bool.false_eq_true, and_false, if_false]
    refine callOf_set_same ht _ ?_ v
    split <;> rfl
  | wait op => simpa [leaving, setPlace] using callOf_set_same ht (.unassigned op) rfl v
  | unassigned op => simpa [leaving, setPlace] using callOf_set_same ht (.asleep op) rfl v
  | body op next locals =>
    simp only [leaving, Option.isSome_none, Bool.false_eq_true, and_false, if_false, nextInBody]
    cases (cls.body op)[next]? with
    | none => exact callOf_set_same ht (.unlocking op locals) rfl v
    | some statement =>
      refine (callOf_notify _ u _ v).trans (callOf_set_same ht _ ?_ v)
      rfl

theorem returned_next {place : LockPlace ο ρ} (ht : s.threads[t]? = some place) (u : Option Nat) :
    (s.next cls t u).returned = s.returned ++ (leaving place).toList.map (t, ·) := by
  unfold Locked.next
  simp only [ht]
  cases place with
  | unlocking op locals => rfl
  | body op next locals =>
    simp only [nextInBody]
    cases (cls.body op)[next]? <;> exact (List.append_nil _).symm
  | out | locking | locked | test | wait | unassigned | asleep | woken =>
    exact (List.append_nil _).symm

variable [DecidableEq ο]

/-- How often the thread `t` has called `op`: the calls that have returned, and the one it is
in. -/
def calls (s : Locked σ ο ρ) (t : Nat) (op : ο) : Nat :=
  s.returned.countP (fun entry => entry.1 == t && entry.2.1 == op) +
    (s.threads[t]?.bind callOf).toList.count op

theorem calls_fresh (members : σ) (n t : Nat) (op : ο) :
    (fresh members n : Locked σ ο ρ).calls t op = 0 := by
  have hcall : (List.replicate n (.out : LockPlace ο ρ))[t]?.bind callOf = none := by
    rw [List.getElem?_replicate]
    split <;> rfl
  simp [calls, fresh, hcall]

theorem calls_next {place : LockPlace ο ρ} (ht : s.threads[t]? = some place) (u : Option Nat)
    (v : Nat) (op : ο) : (s.next cls t u).calls v op = s.calls v op := by
  simp only [calls, callOf_next ht, returned_next ht, List.countP_append]
  cases place with
  | unlocking op' locals =>
    by_cases hv : v = t
    · subst hv
      by_cases hop : op' = op <;> simp [ht, leaving, callOf, hop]
    · simp [leaving, hv, Ne.symm hv]
  | out | locking | locked | test | wait | unassigned | asleep | woken | body => simp [leaving]

/-- Only a call adds to the calls. -/
theorem calls_step {i : LockStep ο} (hi : s.Admissible cls i) (t : Nat) (op : ο) :
    (s.step cls i).calls t op = s.calls t op + if i = .call t op then 1 else 0 := by
  cases i with
  | call u op' =>
    have hout : s.threads[u]? = some .out := hi
    simp only [Locked.step, calls, setPlace, callOf_set hout, LockStep.call.injEq]
    by_cases hut : u = t
    · subst hut
      by_cases hop : op' = op <;> simp [hout, callOf, hop]
    · simp [hut, Ne.symm hut]
  | next u v =>
    obtain ⟨place, hu, -⟩ := hi
    simp [Locked.step, calls_next hu]
  | rouse u =>
    obtain ⟨op', hu⟩ := hi
    simp only [Locked.step, hu]
    rw [if_neg (by simp), Nat.add_zero]
    simp only [calls, setPlace]
    rw [callOf_set_same hu (LockPlace.asleep op').wake rfl t]

/-- A thread all of whose calls have returned is outside. -/
theorem out_of_calls (ht : t < s.threads.length)
    (h : ∀ op, s.calls t op ≤ s.returned.countP fun entry => entry.1 == t && entry.2.1 == op) :
    s.threads[t]? = some .out := by
  obtain ⟨place, hplace⟩ : ∃ place, s.threads[t]? = some place :=
    ⟨s.threads[t], List.getElem?_eq_getElem ht⟩
  cases hcall : callOf place with
  | some op =>
    have hop := h op
    simp only [calls, hplace, hcall, Option.bind_some, Option.toList_some,
      List.count_singleton_self] at hop
    omega
  | none =>
    rw [hplace, callOf_eq_none.mp hcall]

end Calls

section Frame

/-! ## What no step changes -/

theorem length_notify (threads : List (LockPlace ο ρ)) (u : Option Nat)
    (signal : Option (Signal κ)) : (cls.notify threads u signal).length = threads.length := by
  match signal, u with
  | none, _ => rfl
  | some (.one _), none => rfl
  | some (.one _), some u =>
    simp only [GuardedClass.notify, Option.bind_some]
    cases threads[u]? with
    | none => rfl
    | some place => exact List.length_set
  | some (.all c), _ => exact List.length_map _

theorem length_step (s : Locked σ ο ρ) (i : LockStep ο) :
    (s.step cls i).threads.length = s.threads.length := by
  cases i with
  | call t op => exact List.length_set
  | next t u =>
    simp only [Locked.step, Locked.next, nextInBody]
    split <;> try split
    all_goals simp [setPlace, length_notify]
  | rouse t =>
    simp only [Locked.step]
    split
    · exact List.length_set
    · rfl

theorem returned_step (s : Locked σ ο ρ) (i : LockStep ο) {entry : Nat × ο × ρ}
    (h : entry ∈ s.returned) : entry ∈ (s.step cls i).returned := by
  cases i with
  | call t op => exact h
  | next t u =>
    simp only [Locked.step, Locked.next, nextInBody]
    split <;> try split
    all_goals simp [setPlace, h]
  | rouse t =>
    simp only [Locked.step]
    split <;> exact h

/-- What every statement keeps. -/
theorem members_step {P : σ → Prop}
    (hP : ∀ op, ∀ statement ∈ cls.body op, ∀ r a, P a → P (statement r a).2.1)
    (s : Locked σ ο ρ) (i : LockStep ο) (h : P s.members) : P (s.step cls i).members := by
  cases i with
  | call t op => exact h
  | next t u =>
    simp only [Locked.step, Locked.next, nextInBody]
    split <;> try split
    all_goals first
      | exact h
      | rename_i hget
        exact hP _ _ (List.mem_of_getElem? hget) _ _ h
  | rouse t =>
    simp only [Locked.step]
    split <;> exact h

end Frame

/-! ## When no thread can go on -/

/-- No thread can go on. -/
def Stuck (cls : GuardedClass σ κ ο ρ) (s : Locked σ ο ρ) : Prop :=
  ∀ t u, ¬ s.Admissible cls (.next t u)

/-- The thread is outside or asleep. -/
def idle : LockPlace ο ρ → Bool
  | .out | .asleep _ => true
  | .locking _ | .locked _ | .test _ | .wait _ | .unassigned _ | .woken _ | .body _ _ _
  | .unlocking _ _ => false

theorem idle_cases {place : LockPlace ο ρ} (h : idle place = true) :
    place = .out ∨ ∃ op, place = .asleep op := by
  cases place with
  | out => exact .inl rfl
  | asleep op => exact .inr ⟨op, rfl⟩
  | locking | locked | test | wait | unassigned | woken | body | unlocking => cases h

theorem stuck_of_idle (h : ∀ place ∈ s.threads, idle place = true) : s.Stuck cls := by
  rintro t u ⟨place, ht, hgo⟩
  rcases idle_cases (h place (List.mem_of_getElem? ht)) with rfl | ⟨op, rfl⟩ <;> exact hgo

/-- A notification always finds its receiver. -/
theorem exists_receives (threads : List (LockPlace ο ρ)) (signal : Option (Signal κ)) :
    ∃ u, Receives cls threads u signal := by
  match signal with
  | none => exact ⟨none, rfl⟩
  | some (.all c) => exact ⟨none, rfl⟩
  | some (.one c) =>
    by_cases hc : ∃ place ∈ threads, cls.asleepOn c place = true
    · obtain ⟨place, hmem, hplace⟩ := hc
      obtain ⟨u, hu⟩ := List.mem_iff_getElem?.mp hmem
      exact ⟨some u, place, hu, hplace⟩
    · refine ⟨none, fun place hmem => ?_⟩
      cases hplace : cls.asleepOn c place with
      | true => exact absurd ⟨place, hmem, hplace⟩ hc
      | false => rfl

/-- The thread that has the mutex can go on. -/
theorem exists_canGo (s : Locked σ ο ρ) {place : LockPlace ο ρ} (h : place.owns = true) :
    ∃ u, s.CanGo cls u place := by
  cases place with
  | out | locking | asleep | woken => cases h
  | locked | test | wait | unassigned | unlocking => exact ⟨none, trivial⟩
  | body op next locals =>
    simp only [CanGo]
    split
    · exact exists_receives s.threads _
    · exact ⟨none, trivial⟩

/-- Then the mutex is free, and every thread is outside or asleep. -/
theorem Refines.idle_of_stuck (h : s.Refines cls I m) (hstuck : s.Stuck cls) :
    s.mutex = none ∧ ∀ place ∈ s.threads, idle place = true := by
  have hfree : s.mutex = none := by
    cases hmutex : s.mutex with
    | none => rfl
    | some t =>
      obtain ⟨place, ht, howns⟩ := (h.mutex t).mp hmutex
      obtain ⟨u, hu⟩ : ∃ u, s.CanGo cls u place := exists_canGo s howns
      exact absurd ⟨place, ht, hu⟩ (hstuck t u)
  refine ⟨hfree, fun place hmem => ?_⟩
  obtain ⟨t, ht⟩ := List.mem_iff_getElem?.mp hmem
  have hnot : ∀ u, ¬ s.CanGo cls u place := fun u hu => hstuck t u ⟨place, ht, hu⟩
  cases place with
  | out | asleep => rfl
  | locking | woken => exact absurd hfree (hnot none)
  | locked | test | wait | unassigned | body | unlocking =>
    rw [h.mutex.eq_some ht rfl] at hfree
    cases hfree

/-- **No wake-up is lost.** When no thread can go on, the mutex is free, and those that sleep cannot
go on because of the members, not because nobody has woken them up. -/
theorem asleep_of_stuck {demand : κ → σ → Nat} {freed : κ → σ → Prop}
    (hwakes : Monitor.Wakes cls.ops demand freed) {members : σ} {n : Nat} {is : List (LockStep ο)}
    (h : Legal (step cls) (Admissible cls) (fresh members n) is) :
    let s := is.foldl (step cls) (fresh members n)
    s.Stuck cls →
      s.mutex = none ∧ (∀ place ∈ s.threads, idle place = true) ∧
        ∀ op, .asleep op ∈ s.threads → cls.ready op s.members = false := by
  intro s hstuck
  obtain ⟨js, hjs, href⟩ := refines_run (I := fun _ => True) (fun _ _ _ _ => trivial) trivial h
  obtain ⟨hfree, hidle⟩ := href.idle_of_stuck hstuck
  obtain ⟨-, hshared, howed, -⟩ := href.free hfree
  refine ⟨hfree, hidle, fun op hmem => ?_⟩
  have hinv := Monitor.wakeInv_run hwakes hjs
  have hawake : ∀ seat' ∈ s.threads.map seat, ∀ c, Monitor.awakeOn cls.ops c seat' = false := by
    intro seat' hmem' c
    obtain ⟨place, hplace, rfl⟩ := List.mem_map.mp hmem'
    rcases idle_cases (hidle place hplace) with rfl | ⟨op', rfl⟩ <;> rfl
  have hparked : .parked op ∈ s.threads.map seat := List.mem_map.mpr ⟨.asleep op, hmem, rfl⟩
  have hready := hinv.parked_not_ready hwakes howed (href.seats ▸ hawake) (href.seats ▸ hparked)
  rw [hshared] at hready
  exact hready

end

end Locked

end MyTinyHttpd
