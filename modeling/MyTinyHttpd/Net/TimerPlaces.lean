import MyTinyHttpd.Net.TimerIndex

/-!
# Each timer is in one place

A timer that has been added is in the queue, in the batch of `HandleRead`, or deleted.

* `addTimer_eq`, `handleRead_eq`, `runNext_eq`: the steps under the invariant.
* `foldl_resetOne`: what `Reset` does to the batch and to all other timers.
* `step_queueInv`: every step keeps the invariant.
* `queue_consistent`: in every run the indexes agree, no assertion fails, and each timer is in one
  place; what `GetExpired` takes; what `Reset` restarts.
-/

namespace MyTinyHttpd

open Verif

namespace TimerQueue

variable {q q' : TimerQueue} {held : List Entry} {a : Address} {t : Timer}

/-! ## The log -/

/-- A timer with the sequence number `s` lives at `a`. -/
def Live (q : TimerQueue) (a : Address) (s : Int) : Prop := ∃ t, q.heap a = some t ∧ t.sequence = s

theorem live_of_heap (h : q.heap a = some t) {s : Int} : q.Live a s ↔ s = t.sequence := by
  constructor
  · rintro ⟨t', ht', rfl⟩
    rw [h] at ht'
    cases ht'
    rfl
  · rintro rfl
    exact ⟨t, h, rfl⟩

theorem not_live_of_heap (h : q.heap a = none) {s : Int} : ¬ q.Live a s := by
  rintro ⟨t, ht, -⟩
  rw [h] at ht
  cases ht

theorem live_congr (h : q'.heap a = q.heap a) {s : Int} : q'.Live a s ↔ q.Live a s := by
  rw [Live, Live, h]

structure LogInv (q : TimerQueue) : Prop where
  added : ∀ a s, q.Live a s → .added (toLex (a, s)) ∈ q.log
  fate : ∀ a s, .added (toLex (a, s)) ∈ q.log → q.Live a s ∨ .deleted (toLex (a, s)) ∈ q.log
  deleted : ∀ a s, .deleted (toLex (a, s)) ∈ q.log →
    .added (toLex (a, s)) ∈ q.log ∧ ¬ q.Live a s
  once : ∀ id, q.log.count (.deleted id) ≤ 1

theorem LogInv.of_eq (h : LogInv q) (hlive : ∀ a s, q'.Live a s ↔ q.Live a s)
    (hlog : q'.log = q.log) : LogInv q' := by
  refine ⟨?_, ?_, ?_, ?_⟩
  · simpa only [hlive, hlog] using h.added
  · simpa only [hlive, hlog] using h.fate
  · simpa only [hlive, hlog] using h.deleted
  · simpa only [hlog] using h.once

/-- Entries that are neither additions nor deletions. -/
theorem LogInv.note (h : LogInv q) {e : TimerEvent}
    (he : ∀ id, e ≠ .added id ∧ e ≠ .deleted id) : LogInv (q.note e) := by
  have hadded : ∀ id, .added id ∈ (q.note e).log ↔ .added id ∈ q.log := by
    simp [TimerQueue.note, fun id => (he id).1.symm]
  have hdeleted : ∀ id, .deleted id ∈ (q.note e).log ↔ .deleted id ∈ q.log := by
    simp [TimerQueue.note, fun id => (he id).2.symm]
  refine ⟨fun a s hl => ?_, fun a s hm => ?_, fun a s hm => ?_, fun id => ?_⟩
  · exact (hadded _).mpr (h.added a s hl)
  · rw [hdeleted]
    exact h.fate a s ((hadded _).mp hm)
  · rw [hadded]
    exact h.deleted a s ((hdeleted _).mp hm)
  · simp only [TimerQueue.note, List.count_append, List.count_singleton, beq_iff_eq, (he id).2,
      ↓reduceIte, Nat.add_zero]
    exact h.once id

theorem LogInv.add (h : LogInv q) (hfree : q.heap a = none)
    (hold : ∀ e ∈ q.log, TimerEvent.OlderAt a t.sequence e) :
    LogInv ((q.setHeap a (some t)).note (.added (toLex (a, t.sequence)))) := by
  have hnew : .added (toLex (a, t.sequence)) ∉ q.log := fun hm =>
    absurd (hold _ hm rfl) (lt_irrefl _)
  have hlive : ∀ b s, b ≠ a →
      (((q.setHeap a (some t)).note (.added (toLex (a, t.sequence)))).Live b s ↔ q.Live b s) :=
    fun b s hb => live_congr (setHeap_ne q _ hb)
  have hself : ∀ s, ((q.setHeap a (some t)).note (.added (toLex (a, t.sequence)))).Live a s ↔
      s = t.sequence := fun s => live_of_heap (setHeap_self q a _)
  refine ⟨fun b s hl => ?_, fun b s hm => ?_, fun b s hm => ?_, fun id => ?_⟩
  · by_cases hb : b = a
    · subst hb
      rw [(hself s).mp hl]
      simp [TimerQueue.note]
    · exact List.mem_append_left _ (h.added b s ((hlive b s hb).mp hl))
  · rcases List.mem_append.mp hm with hm | hm
    · rcases h.fate b s hm with hl | hd
      · have hb : b ≠ a := by
          rintro rfl
          exact not_live_of_heap hfree hl
        exact .inl ((hlive b s hb).mpr hl)
      · exact .inr (List.mem_append_left _ hd)
    · have heq : b = a ∧ s = t.sequence := by simpa using hm
      obtain ⟨rfl, rfl⟩ := heq
      exact .inl ((hself _).mpr rfl)
  · have hm : .deleted (toLex (b, s)) ∈ q.log := by simpa [TimerQueue.note] using hm
    obtain ⟨hadd, hdead⟩ := h.deleted b s hm
    refine ⟨List.mem_append_left _ hadd, fun hl => ?_⟩
    by_cases hb : b = a
    · subst hb
      rw [(hself s).mp hl] at hadd
      exact hnew hadd
    · exact hdead ((hlive b s hb).mp hl)
  · simpa [TimerQueue.note, List.count_append, List.count_singleton] using h.once id

theorem LogInv.delete (h : LogInv q) (ht : q.heap a = some t) :
    LogInv ((q.setHeap a none).note (.deleted (toLex (a, t.sequence)))) := by
  have hlive : ∀ b s, b ≠ a →
      (((q.setHeap a none).note (.deleted (toLex (a, t.sequence)))).Live b s ↔ q.Live b s) :=
    fun b s hb => live_congr (setHeap_ne q _ hb)
  have hself : ∀ s, ¬ ((q.setHeap a none).note (.deleted (toLex (a, t.sequence)))).Live a s :=
    fun s => not_live_of_heap (setHeap_self q a _)
  have hnew : .deleted (toLex (a, t.sequence)) ∉ q.log := fun hm =>
    (h.deleted a t.sequence hm).2 ⟨t, ht, rfl⟩
  refine ⟨fun b s hl => ?_, fun b s hm => ?_, fun b s hm => ?_, fun id => ?_⟩
  · by_cases hb : b = a
    · exact absurd (hb ▸ hl) (hself s)
    · exact List.mem_append_left _ (h.added b s ((hlive b s hb).mp hl))
  · have hm : .added (toLex (b, s)) ∈ q.log := by simpa [TimerQueue.note] using hm
    rcases h.fate b s hm with hl | hd
    · by_cases hb : b = a
      · subst hb
        rw [(live_of_heap ht).mp hl]
        exact .inr (by simp [TimerQueue.note])
      · exact .inl ((hlive b s hb).mpr hl)
    · exact .inr (List.mem_append_left _ hd)
  · rcases List.mem_append.mp hm with hm | hm
    · obtain ⟨hadd, hdead⟩ := h.deleted b s hm
      refine ⟨List.mem_append_left _ hadd, fun hl => ?_⟩
      by_cases hb : b = a
      · exact hself s (hb ▸ hl)
      · exact hdead ((hlive b s hb).mp hl)
    · have heq : b = a ∧ s = t.sequence := by simpa using hm
      obtain ⟨rfl, rfl⟩ := heq
      exact ⟨List.mem_append_left _ (h.added b _ ⟨t, ht, rfl⟩), hself _⟩
  · by_cases hid : id = toLex (a, t.sequence)
    · subst hid
      simp only [TimerQueue.note, List.count_append, List.count_singleton_self]
      have : q.log.count (.deleted (toLex (a, t.sequence))) = 0 := List.count_eq_zero.mpr hnew
      show q.log.count _ + 1 ≤ 1
      omega
    · have hne : TimerEvent.deleted (toLex (a, t.sequence)) ≠ .deleted id := by
        simpa using Ne.symm hid
      simp only [TimerQueue.note, List.count_append, List.count_singleton, beq_iff_eq, hne,
        ↓reduceIte, Nat.add_zero]
      exact h.once id

/-! ## `Reset` -/

/-- Outside of the addresses `as` the timers are as before. -/
structure SameElsewhere (as : List Address) (q q' : TimerQueue) : Prop where
  heap : ∀ b ∉ as, q'.heap b = q.heap b
  timers : ∀ b ∉ as, ∀ x, toLex (x, b) ∈ q'.timers ↔ toLex (x, b) ∈ q.timers
  log : ∃ ids : List ActiveTimer, q'.log = q.log ++ ids.map .deleted
  isCallingExpiredTimers : q'.isCallingExpiredTimers = q.isCallingExpiredTimers
  cancelingTimers : q'.cancelingTimers = q.cancelingTimers
  timerfd : q'.timerfd = q.timerfd
  lastArmed : q'.lastArmed = q.lastArmed

/-- What `Reset` makes of a timer of its batch. -/
def Restarted (now : Timestamp) (q q' : TimerQueue) (e : Entry) : Prop :=
  let a := entryAddress e
  ∀ t, q.heap a = some t →
    (t.isRepeat = true ∧ toLex (a, t.sequence) ∉ q.cancelingTimers →
      q'.heap a = some (t.restart now)) ∧
    (¬ (t.isRepeat = true ∧ toLex (a, t.sequence) ∉ q.cancelingTimers) →
      q'.heap a = none ∧ .deleted (toLex (a, t.sequence)) ∈ q'.log)

theorem resetOne_spec {e : Timestamp} (now : Timestamp) (h : IndexInv q (toLex (e, a) :: held))
    (hlog : LogInv q) :
    IndexInv (resetOne now q (toLex (e, a))) held ∧ LogInv (resetOne now q (toLex (e, a))) ∧
      SameElsewhere [a] q (resetOne now q (toLex (e, a))) ∧
      Restarted now q (resetOne now q (toLex (e, a))) (toLex (e, a)) := by
  obtain ⟨t, ht, -⟩ := h.held_live e a List.mem_cons_self
  refine ⟨h.resetOne, ?_⟩
  by_cases hr : t.isRepeat = true ∧ toLex (a, t.sequence) ∉ q.cancelingTimers
  · rw [resetOne_repeat h ht hr.1 hr.2]
    refine ⟨hlog.of_eq (fun b s => ?_) rfl, ⟨fun b hb => ?_, fun b hb x => ?_,
      ⟨[], (List.append_nil _).symm⟩, rfl, rfl, rfl, rfl⟩, fun t' ht' => ?_⟩
    · by_cases hb : b = a
      · subst hb
        exact (live_of_heap (t := t.restart now) (setHeap_self q b _)).trans (live_of_heap ht).symm
      · exact live_congr (setHeap_ne q _ hb)
    · exact setHeap_ne q _ (by simpa using hb)
    · have hb : b ≠ a := by simpa using hb
      show toLex (x, b) ∈ q.timers.insert _ ↔ _
      simp [hb]
    · obtain rfl : t = t' := Option.some.inj (ht.symm.trans ht')
      exact ⟨fun _ => setHeap_self q a _, fun hn => absurd hr hn⟩
  · rw [resetOne_delete ht hr]
    refine ⟨hlog.delete ht, ⟨fun b hb => setHeap_ne q _ (by simpa using hb), fun b hb x => Iff.rfl,
      ⟨[toLex (a, t.sequence)], rfl⟩, rfl, rfl, rfl, rfl⟩, fun t' ht' => ?_⟩
    obtain rfl : t = t' := Option.some.inj (ht.symm.trans ht')
    refine ⟨fun hr' => absurd hr' hr, fun _ => ⟨setHeap_self q a _, ?_⟩⟩
    exact List.mem_append_right _ List.mem_cons_self

theorem SameElsewhere.trans {as bs : List Address} {q'' : TimerQueue} (h : SameElsewhere as q q')
    (h' : SameElsewhere bs q' q'') : SameElsewhere (as ++ bs) q q'' := by
  refine ⟨fun b hb => ?_, fun b hb x => ?_, ?_,
    h'.isCallingExpiredTimers.trans h.isCallingExpiredTimers,
    h'.cancelingTimers.trans h.cancelingTimers, h'.timerfd.trans h.timerfd,
    h'.lastArmed.trans h.lastArmed⟩
  · rw [List.mem_append, not_or] at hb
    exact (h'.heap b hb.2).trans (h.heap b hb.1)
  · rw [List.mem_append, not_or] at hb
    exact (h'.timers b hb.2 x).trans (h.timers b hb.1 x)
  · obtain ⟨ids, hids⟩ := h.log
    obtain ⟨ids', hids'⟩ := h'.log
    refine ⟨ids ++ ids', ?_⟩
    rw [hids', hids, List.map_append, List.append_assoc]

/-- **What `Reset` does**: it restarts or deletes each timer of the batch and changes no other. -/
theorem foldl_resetOne (now : Timestamp) (l : List Entry) (h : IndexInv q l) (hlog : LogInv q) :
    IndexInv (l.foldl (resetOne now) q) [] ∧ LogInv (l.foldl (resetOne now) q) ∧
      SameElsewhere (l.map entryAddress) q (l.foldl (resetOne now) q) ∧
      ∀ e ∈ l, Restarted now q (l.foldl (resetOne now) q) e := by
  induction l generalizing q with
  | nil =>
    exact ⟨h, hlog, ⟨fun _ _ => rfl, fun _ _ _ => Iff.rfl, ⟨[], (List.append_nil _).symm⟩, rfl, rfl,
      rfl, rfl⟩, by simp⟩
  | cons e l ih =>
    obtain ⟨⟨x, a⟩, rfl⟩ := toLex.surjective e
    obtain ⟨hinv, hlog', hsame, hrestarted⟩ := resetOne_spec now h hlog
    obtain ⟨hinv', hlog'', hsame', hrest⟩ := ih hinv hlog'
    have hnodup := List.nodup_cons.mp h.held_nodup
    refine ⟨hinv', hlog'', hsame.trans hsame', fun e' he' t ht => ?_⟩
    rcases List.mem_cons.mp he' with rfl | he'
    · -- The rest of the batch leaves this timer alone.
      obtain ⟨hkeep, hdelete⟩ := hrestarted t ht
      have hheap := hsame'.heap a hnodup.1
      refine ⟨fun hc => hheap.trans (hkeep hc), fun hc => ?_⟩
      obtain ⟨ids, hids⟩ := hsame'.log
      exact ⟨hheap.trans (hdelete hc).1, hids ▸ List.mem_append_left _ (hdelete hc).2⟩
    · have hne : entryAddress e' ∉ [a] := by
        intro hm
        have heq : entryAddress e' = a := by simpa using hm
        exact hnodup.1 (List.mem_map.mpr ⟨e', he', heq⟩)
      have hr := hrest e' he' t ((hsame.heap _ hne).trans ht)
      rwa [hsame.cancelingTimers] at hr

/-! ## The steps -/

theorem addTimer_eq (h : IndexInv q held) (hfree : q.heap a = none) (ha : a < uintptrMax)
    (t : Timer) (now : Timestamp) :
    q.addTimer a t now =
      let q' := ((q.setHeap a (some t)).note (.added (toLex (a, t.sequence)))).put a t
      if q.isEarliest t.expiration then q'.resetTimerfd t.expiration now else q' := by
  have hinv : IndexInv ((q.setHeap a (some t)).note (.added (toLex (a, t.sequence))))
      (toLex (t.expiration, a) :: held) := (h.alloc hfree ha t).of_eq rfl rfl rfl rfl
  have hheap := setHeap_self q a (some t)
  simp only [addTimer, addTimerInLoop, insert_eq hinv hheap]
  -- Whether the time is the earliest one depends on `timers` only.
  have hearliest : isEarliest ((q.setHeap a (some t)).note (.added (toLex (a, t.sequence))))
      t.expiration = q.isEarliest t.expiration := rfl
  rw [hearliest]
  split
  · have hput : (put ((q.setHeap a (some t)).note (.added (toLex (a, t.sequence)))) a t).heap a =
      some t := hheap
    exact deref_of hput _
  · rfl

theorem readTimerfd_eq (q : TimerQueue) (now : Timestamp) :
    ∃ timerfd, q.readTimerfd now = { q with timerfd } := by
  unfold readTimerfd
  split
  · exact ⟨q.timerfd, rfl⟩
  · split
    · exact ⟨none, rfl⟩
    · exact ⟨q.timerfd, rfl⟩

theorem handleRead_eq (h : IndexInv q []) (now : Timestamp) :
    ∃ activeTimers, let q' := { q.readTimerfd now with
        timers := q.timers.notBelow (toLex (now, uintptrMax)), activeTimers
        isCallingExpiredTimers := true, cancelingTimers := .empty
        batch := some { now, todo := q.expiredEntries now } }
      q.handleRead now = q' ∧ IndexInv q' (q.expiredEntries now) := by
  obtain ⟨timerfd, hread⟩ := readTimerfd_eq q now
  have hinv : IndexInv { q with timerfd } [] := h.of_eq rfl rfl rfl rfl
  obtain ⟨A, hA, hinv'⟩ := getExpired_eq hinv now
  refine ⟨A, ?_, ?_⟩
  · simp only [handleRead, hread, hA]
    rfl
  · rw [hread]
    exact hinv'.of_eq rfl rfl rfl rfl

theorem runNext_eq {b : Batch} {e : Entry} {todo : List Entry} (hb : q.batch = some b)
    (htodo : b.todo = e :: todo) (ht : q.heap (entryAddress e) = some t) :
    q.runNext = { q with batch := some { b with ran := b.ran ++ [e], todo } }.note
      (.ran (toLex (entryAddress e, t.sequence))) := by
  obtain ⟨now, ran, todo', cancelled⟩ := b
  simp only at htodo
  subst htodo
  simp only [runNext, hb]
  exact deref_of (q := { q with batch := some { now, ran := ran ++ [e], todo, cancelled } }) ht _

/-- The timerfd is armed for the first entry, when that is a valid time. -/
def rearm (q : TimerQueue) (clock : Timestamp) : TimerQueue :=
  match q.timers.first with
  | none => q
  | some e => if (ofLex e).1.isValid then q.resetTimerfd (ofLex e).1 clock else q

theorem reset_eq {expired : List Entry} {now : Timestamp}
    (h : IndexInv (expired.foldl (resetOne now) q) []) (clock : Timestamp) :
    q.reset expired now clock = (expired.foldl (resetOne now) q).rearm clock := by
  simp only [reset, rearm]
  generalize expired.foldl (resetOne now) q = q₁ at h
  cases hfirst : q₁.timers.first with
  | none => rfl
  | some e =>
    obtain ⟨⟨x, a⟩, rfl⟩ := toLex.surjective e
    obtain ⟨t, ht, rfl⟩ := h.timer x a (OrdSet.mem_of_first hfirst)
    exact deref_of ht _

/-! ## The invariant of the queue -/

/-- The entries of the batch that `HandleRead` works on. -/
def batchEntries (q : TimerQueue) : List Entry :=
  match q.batch with
  | none => []
  | some b => b.ran ++ b.todo

structure QueueInv (q : TimerQueue) : Prop where
  index : IndexInv q q.batchEntries
  log : LogInv q
  calling : q.isCallingExpiredTimers = q.batch.isSome
  /-- For a timer of the batch, `canceling_timers_` has the cancellations since it was taken. -/
  canceling : ∀ b ∈ q.batch, ∀ e ∈ q.batchEntries, ∀ s, q.Live (entryAddress e) s →
    (toLex (entryAddress e, s) ∈ q.cancelingTimers ↔ toLex (entryAddress e, s) ∈ b.cancelled)

/-- The timers of the batch are alive. -/
theorem QueueInv.batch_live (h : QueueInv q) {e : Entry} (he : e ∈ q.batchEntries) :
    ∃ t, q.heap (entryAddress e) = some t := by
  obtain ⟨t, ht, -⟩ := h.index.held_live (ofLex e).1 (ofLex e).2 he
  exact ⟨t, ht⟩

theorem QueueInv.index_nil (h : QueueInv q) (hb : q.batch = none) : IndexInv q [] := by
  simpa [batchEntries, hb] using h.index

theorem runNext_cases (h : QueueInv q) :
    q.runNext = q ∨ ∃ b e todo t, q.batch = some b ∧ b.todo = e :: todo ∧
      q.heap (entryAddress e) = some t ∧
      q.runNext = { q with batch := some { b with ran := b.ran ++ [e], todo } }.note
        (.ran (toLex (entryAddress e, t.sequence))) := by
  cases hb : q.batch with
  | none => exact .inl (by simp only [runNext, hb])
  | some b =>
    cases htodo : b.todo with
    | nil =>
      obtain ⟨now, ran, todo, cancelled⟩ := b
      simp only at htodo
      subst htodo
      exact .inl (by simp only [runNext, hb])
    | cons e todo =>
      obtain ⟨t, ht⟩ := h.batch_live (e := e) (by simp [batchEntries, hb, htodo])
      exact .inr ⟨b, e, todo, t, rfl, htodo, ht, runNext_eq hb htodo ht⟩

theorem addTimer_queueInv (h : QueueInv q) (hfree : q.heap a = none) (ha : a < uintptrMax)
    (hold : ∀ e ∈ q.log, TimerEvent.OlderAt a t.sequence e) (now : Timestamp) :
    QueueInv (q.addTimer a t now) := by
  have hput :
      QueueInv (((q.setHeap a (some t)).note (.added (toLex (a, t.sequence)))).put a t) := by
    have halloc : IndexInv ((q.setHeap a (some t)).note (.added (toLex (a, t.sequence))))
        (toLex (t.expiration, a) :: q.batchEntries) :=
      (h.index.alloc hfree ha t).of_eq rfl rfl rfl rfl
    refine ⟨halloc.put (setHeap_self q a _), ?_, h.calling, fun b hb e he s hs => ?_⟩
    · exact (h.log.add hfree hold).of_eq (fun _ _ => Iff.rfl) rfl
    · have hne : entryAddress e ≠ a := by
        intro hea
        obtain ⟨t', ht'⟩ := h.batch_live he
        rw [hea, hfree] at ht'
        cases ht'
      exact h.canceling b hb e he s ((live_congr (setHeap_ne q _ hne)).mp hs)
  rw [addTimer_eq h.index hfree ha]
  simp only
  split
  · exact ⟨hput.index.of_eq rfl rfl rfl rfl, hput.log.of_eq (fun _ _ => Iff.rfl) rfl, hput.calling,
      hput.canceling⟩
  · exact hput

@[simp] theorem batchEntries_noteCancelled (q : TimerQueue) (id : ActiveTimer) :
    (q.noteCancelled id).batchEntries = q.batchEntries := by
  unfold batchEntries noteCancelled
  cases q.batch <;> rfl

theorem isSome_batch_noteCancelled (q : TimerQueue) (id : ActiveTimer) :
    (q.noteCancelled id).batch.isSome = q.batch.isSome := Option.isSome_map

theorem LogInv.noteCancelled (h : LogInv q) (id : ActiveTimer) : LogInv (q.noteCancelled id) :=
  (h.note (e := .cancelled id) (by simp)).of_eq (fun _ _ => Iff.rfl) rfl

theorem cancel_queueInv (h : QueueInv q) (id : ActiveTimer) : QueueInv (q.cancel id) := by
  unfold cancel
  rcases cancelInLoop_cases h.index id with ⟨a, t, rfl, ht, hm, heq⟩ | ⟨hnot, heq⟩
  · rw [heq]
    have htaken : LogInv (q.take a t) := h.log.of_eq (fun _ _ => Iff.rfl) rfl
    have hlog : LogInv (((q.take a t).setHeap a none).note (.deleted (toLex (a, t.sequence)))) :=
      htaken.delete ht
    refine ⟨?_, hlog.noteCancelled _, ?_, fun b hb e he s hs => ?_⟩
    · rw [batchEntries_noteCancelled]
      exact (h.index.take ht hm).free.of_eq rfl rfl rfl rfl
    · exact h.calling.trans (isSome_batch_noteCancelled _ _).symm
    · rw [batchEntries_noteCancelled] at he
      obtain ⟨b₀, hb₀, rfl⟩ := Option.map_eq_some_iff.mp hb
      have hne : entryAddress e ≠ a := by
        rintro rfl
        exact h.index.not_mem_timers (e := (ofLex e).1) he _ hm
      have hs' : q.Live (entryAddress e) s := (live_congr (setHeap_ne _ _ hne)).mp hs
      have hmem : toLex (entryAddress e, s) ∈ b₀.cancelled ++ [toLex (a, t.sequence)] ↔
          toLex (entryAddress e, s) ∈ b₀.cancelled := by simp [hne]
      rw [hmem]
      exact h.canceling b₀ hb₀ e he s hs'
  · rw [heq]
    have hcalling := h.calling
    split
    · have hlog : LogInv { q with cancelingTimers := q.cancelingTimers.insert id } :=
        h.log.of_eq (fun _ _ => Iff.rfl) rfl
      refine ⟨?_, hlog.noteCancelled _, ?_, fun b hb e he s hs => ?_⟩
      · rw [batchEntries_noteCancelled]
        exact h.index.of_eq rfl rfl rfl rfl
      · exact h.calling.trans (isSome_batch_noteCancelled _ _).symm
      · rw [batchEntries_noteCancelled] at he
        obtain ⟨b₀, hb₀, rfl⟩ := Option.map_eq_some_iff.mp hb
        have hiff := h.canceling b₀ hb₀ e he s hs
        show toLex (entryAddress e, s) ∈ q.cancelingTimers.insert id ↔ _
        rw [OrdSet.mem_insert, List.mem_append, List.mem_singleton, hiff, or_comm]
    · rename_i hcall
      have hnone : q.batch = none := by
        rw [Bool.not_eq_true, hcalling] at hcall
        simpa using hcall
      refine ⟨?_, h.log.noteCancelled _, ?_, fun b hb => ?_⟩
      · rw [batchEntries_noteCancelled]
        exact h.index.of_eq rfl rfl rfl rfl
      · exact h.calling.trans (isSome_batch_noteCancelled _ _).symm
      · simp [noteCancelled, hnone] at hb

theorem handleRead_queueInv (h : QueueInv q) (hb : q.batch = none) (now : Timestamp) :
    QueueInv (q.handleRead now) := by
  obtain ⟨A, heq, hinv⟩ := handleRead_eq (h.index_nil hb) now
  obtain ⟨timerfd, hread⟩ := readTimerfd_eq q now
  rw [heq]
  refine ⟨hinv, h.log.of_eq (fun a s => live_congr (by rw [hread])) (by rw [hread]), rfl,
    fun b hb e he s hs => ?_⟩
  obtain rfl := Option.some.inj hb
  simp

theorem runNext_queueInv (h : QueueInv q) : QueueInv q.runNext := by
  rcases runNext_cases h with heq | ⟨b, e, todo, t, hb, htodo, ht, heq⟩
  · rwa [heq]
  · rw [heq]
    have hentries : batchEntries ({ q with
        batch := some { b with ran := b.ran ++ [e], todo } }.note
          (.ran (toLex (entryAddress e, t.sequence)))) = q.batchEntries := by
      simp [batchEntries, note, hb, htodo]
    have hlog : LogInv { q with batch := some { b with ran := b.ran ++ [e], todo } } :=
      h.log.of_eq (fun _ _ => Iff.rfl) rfl
    refine ⟨?_, hlog.note (by simp), ?_, fun b' hb' e' he' s hs => ?_⟩
    · rw [hentries]
      exact h.index.of_eq rfl rfl rfl rfl
    · have := h.calling
      rw [hb] at this
      exact this
    · rw [hentries] at he'
      obtain rfl := Option.some.inj hb'
      exact h.canceling b hb e' he' s hs

/-- `Reset` and the end of `HandleRead`. -/
theorem finish_spec {b : Batch} (h : QueueInv q) (hb : q.batch = some b) (htodo : b.todo = [])
    (clock : Timestamp) :
    ∃ q', q.finish clock = { q'.rearm clock with batch := none } ∧ IndexInv q' [] ∧ LogInv q' ∧
      SameElsewhere (b.ran.map entryAddress) { q with isCallingExpiredTimers := false } q' ∧
      ∀ e ∈ b.ran, Restarted b.now q q' e := by
  have hentries : q.batchEntries = b.ran := by simp [batchEntries, hb, htodo]
  have hindex : IndexInv { q with isCallingExpiredTimers := false } b.ran :=
    (hentries ▸ h.index).of_eq rfl rfl rfl rfl
  have hlog : LogInv { q with isCallingExpiredTimers := false } :=
    h.log.of_eq (fun _ _ => Iff.rfl) rfl
  obtain ⟨hindex', hlog', hsame, hrestarted⟩ := foldl_resetOne b.now b.ran hindex hlog
  refine ⟨_, ?_, hindex', hlog', hsame, hrestarted⟩
  simp only [finish, hb]
  rw [← hb, reset_eq hindex']

/-- Arming the timerfd changes nothing else. -/
theorem rearm_eq (q : TimerQueue) (clock : Timestamp) :
    ∃ timerfd lastArmed, q.rearm clock = { q with timerfd, lastArmed } := by
  unfold rearm
  split
  · exact ⟨q.timerfd, q.lastArmed, rfl⟩
  · split
    · exact ⟨_, _, rfl⟩
    · exact ⟨q.timerfd, q.lastArmed, rfl⟩

theorem finish_queueInv (h : QueueInv q) (htodo : ∀ b ∈ q.batch, b.todo = [])
    (clock : Timestamp) : QueueInv (q.finish clock) := by
  cases hb : q.batch with
  | none => simpa only [finish, hb] using h
  | some b =>
    obtain ⟨q', heq, hindex, hlog, hsame, -⟩ := finish_spec h hb (htodo b hb) clock
    obtain ⟨timerfd, lastArmed, hrearm⟩ := rearm_eq q' clock
    rw [heq, hrearm]
    refine ⟨hindex.of_eq rfl rfl rfl rfl, hlog.of_eq (fun _ _ => Iff.rfl) rfl, ?_, by simp⟩
    exact hsame.isCallingExpiredTimers

theorem step_queueInv (h : QueueInv q) (s : TimerStep) (hs : q.Admissible s) :
    QueueInv (q.step s) := by
  cases s with
  | addTimer a t now => exact addTimer_queueInv h hs.1 hs.2.1 hs.2.2 now
  | cancel id => exact cancel_queueInv h id
  | handleRead now => exact handleRead_queueInv h hs now
  | runNext => exact runNext_queueInv h
  | finish clock => exact finish_queueInv h hs clock

theorem empty_queueInv : QueueInv {} := by
  refine ⟨⟨rfl, rfl, ?_, ?_, ?_, List.nodup_nil, ?_, ?_⟩, ⟨?_, ?_, ?_, ?_⟩, rfl, ?_⟩ <;>
    simp [Live, batchEntries]

/-! ## Runs -/

/-- The timer is in the batch that `HandleRead` works on. -/
def InBatch (q : TimerQueue) (id : ActiveTimer) : Prop :=
  q.Live (ofLex id).1 (ofLex id).2 ∧ ∃ e ∈ q.batchEntries, entryAddress e = (ofLex id).1

structure Consistent (q : TimerQueue) : Prop where
  /-- No assertion has failed, and no pointer to a deleted timer has been used. -/
  ok : q.failed = false
  size_eq : q.timers.size = q.activeTimers.size
  /-- The indexes hold the same timers, under their current times and sequence numbers. -/
  timers : ∀ e a, toLex (e, a) ∈ q.timers ↔
    ∃ t, q.heap a = some t ∧ t.expiration = e ∧ toLex (a, t.sequence) ∈ q.activeTimers
  active : ∀ a s, toLex (a, s) ∈ q.activeTimers ↔
    ∃ t, q.heap a = some t ∧ t.sequence = s ∧ toLex (t.expiration, a) ∈ q.timers
  /-- Each timer is in one place. -/
  place : ∀ id, .added id ∈ q.log →
    (id ∈ q.activeTimers ∧ ¬ q.InBatch id ∧ .deleted id ∉ q.log) ∨
    (id ∉ q.activeTimers ∧ q.InBatch id ∧ .deleted id ∉ q.log) ∨
    (id ∉ q.activeTimers ∧ ¬ q.InBatch id ∧ .deleted id ∈ q.log)
  deleted_once : ∀ id, q.log.count (.deleted id) ≤ 1
  /-- `HandleRead` takes exactly the timers up to `now`, in their order. -/
  expired : q.batch = none → ∀ now, ∃ todo,
    (q.handleRead now).batch = some { now, todo } ∧ todo.Pairwise (· < ·) ∧
    (∀ e, e ∈ todo ↔ e ∈ q.timers ∧ (ofLex e).1 ≤ now) ∧
    ∀ e, e ∈ (q.handleRead now).timers ↔ e ∈ q.timers ∧ now < (ofLex e).1
  /-- At its end it restarts the repeating timers that have not been cancelled, and deletes the
  others. -/
  restarted : ∀ b ∈ q.batch, b.todo = [] → ∀ clock, ∀ e ∈ b.ran, ∃ t,
    let a := entryAddress e
    let q' := q.finish clock
    q.heap a = some t ∧
    (t.isRepeat = true ∧ toLex (a, t.sequence) ∉ b.cancelled →
      q'.heap a = some { t with expiration := b.now + t.interval } ∧
      toLex (b.now + t.interval, a) ∈ q'.timers) ∧
    (¬ (t.isRepeat = true ∧ toLex (a, t.sequence) ∉ b.cancelled) →
      q'.heap a = none ∧ .deleted (toLex (a, t.sequence)) ∈ q'.log)

/-- A live timer is in the queue or in the batch, not in both. -/
theorem QueueInv.queued_iff (h : QueueInv q) {id : ActiveTimer}
    (hl : q.Live (ofLex id).1 (ofLex id).2) : id ∈ q.activeTimers ↔ ¬ q.InBatch id := by
  obtain ⟨⟨a, s⟩, rfl⟩ := toLex.surjective id
  obtain ⟨t, ht, rfl⟩ := hl
  constructor
  · rintro hm ⟨-, e, he, hea⟩
    obtain rfl : entryAddress e = a := hea
    exact h.index.not_mem_active (e := (ofLex e).1) he _ hm
  · intro hnot
    rcases h.index.placed a t ht with hm | hm
    · exact (h.index.active _ _).mpr ⟨t, ht, rfl, hm⟩
    · exact absurd ⟨⟨t, ht, rfl⟩, _, hm, rfl⟩ hnot

theorem QueueInv.place (h : QueueInv q) {id : ActiveTimer} (hid : .added id ∈ q.log) :
    (id ∈ q.activeTimers ∧ ¬ q.InBatch id ∧ .deleted id ∉ q.log) ∨
    (id ∉ q.activeTimers ∧ q.InBatch id ∧ .deleted id ∉ q.log) ∨
    (id ∉ q.activeTimers ∧ ¬ q.InBatch id ∧ .deleted id ∈ q.log) := by
  by_cases hl : q.Live (ofLex id).1 (ofLex id).2
  · have hnot : .deleted id ∉ q.log := fun hm => (h.log.deleted _ _ hm).2 hl
    have hiff := h.queued_iff hl
    by_cases hb : q.InBatch id
    · exact .inr (.inl ⟨fun hm => hiff.mp hm hb, hb, hnot⟩)
    · exact .inl ⟨hiff.mpr hb, hb, hnot⟩
  · refine .inr (.inr ⟨fun hm => hl ?_, fun hb => hl hb.1, ?_⟩)
    · obtain ⟨t, ht, hs, -⟩ := (h.index.active (ofLex id).1 (ofLex id).2).mp hm
      exact ⟨t, ht, hs⟩
    · exact (h.log.fate (ofLex id).1 (ofLex id).2 hid).resolve_left hl

theorem QueueInv.expired (h : QueueInv q) (hb : q.batch = none) (now : Timestamp) :
    ∃ todo, (q.handleRead now).batch = some { now, todo } ∧ todo.Pairwise (· < ·) ∧
      (∀ e, e ∈ todo ↔ e ∈ q.timers ∧ (ofLex e).1 ≤ now) ∧
      ∀ e, e ∈ (q.handleRead now).timers ↔ e ∈ q.timers ∧ now < (ofLex e).1 := by
  obtain ⟨A, heq, -⟩ := handleRead_eq (h.index_nil hb) now
  rw [heq]
  exact ⟨q.expiredEntries now, rfl, (q.timers.below _).sorted,
    fun e => (h.index_nil hb).mem_expiredEntries, fun e => (h.index_nil hb).mem_notBelow⟩

theorem QueueInv.restarted (h : QueueInv q) {b : Batch} (hb : q.batch = some b)
    (htodo : b.todo = []) (clock : Timestamp) {e : Entry} (he : e ∈ b.ran) : ∃ t,
    let a := entryAddress e
    let q' := q.finish clock
    q.heap a = some t ∧
    (t.isRepeat = true ∧ toLex (a, t.sequence) ∉ b.cancelled →
      q'.heap a = some { t with expiration := b.now + t.interval } ∧
      toLex (b.now + t.interval, a) ∈ q'.timers) ∧
    (¬ (t.isRepeat = true ∧ toLex (a, t.sequence) ∉ b.cancelled) →
      q'.heap a = none ∧ .deleted (toLex (a, t.sequence)) ∈ q'.log) := by
  have hmem : e ∈ q.batchEntries := by simp [batchEntries, hb, he]
  obtain ⟨t, ht⟩ := h.batch_live hmem
  obtain ⟨q', heq, hindex, -, -, hrestarted⟩ := finish_spec h hb htodo clock
  obtain ⟨timerfd, lastArmed, hrearm⟩ := rearm_eq q' clock
  obtain ⟨hkeep, hdelete⟩ := hrestarted e he t ht
  rw [h.canceling b hb e hmem t.sequence ⟨t, ht, rfl⟩] at hkeep hdelete
  refine ⟨t, ht, fun hc => ?_, fun hc => ?_⟩
  · have hheap := hkeep hc
    have hrestart : t.restart b.now = { t with expiration := b.now + t.interval } := by
      simp [Timer.restart, hc.1]
    rw [hrestart] at hheap
    rw [heq, hrearm]
    refine ⟨hheap, ?_⟩
    rcases hindex.placed _ _ hheap with hm | hm
    · exact hm
    · cases hm
  · rw [heq, hrearm]
    exact hdelete hc

theorem QueueInv.consistent (h : QueueInv q) : Consistent q where
  ok := h.index.ok
  size_eq := h.index.size_eq
  timers e a := by
    constructor
    · intro hm
      obtain ⟨t, ht, rfl⟩ := h.index.timer e a hm
      exact ⟨t, ht, rfl, (h.index.active _ _).mpr ⟨t, ht, rfl, hm⟩⟩
    · rintro ⟨t, ht, rfl, hm⟩
      obtain ⟨t', ht', -, hm'⟩ := (h.index.active _ _).mp hm
      obtain rfl : t = t' := Option.some.inj (ht.symm.trans ht')
      exact hm'
  active := h.index.active
  place id hid := h.place hid
  deleted_once := h.log.once
  expired := h.expired
  restarted b hb htodo clock e he := h.restarted hb htodo clock he

/-- **The indexes and the timers of the queue are consistent** in every run, whatever timers the
functors and the callbacks add and cancel, and at whatever times `HandleRead` runs. -/
theorem queue_consistent (steps : List TimerStep) (hsteps : Legal step Admissible {} steps) :
    Consistent (steps.foldl step {}) := by
  have hinv := legal_invariant (I := QueueInv) (fun _ s h hs => step_queueInv h s hs)
    empty_queueInv hsteps
  exact hinv.consistent

/-- Two timers expire together. The first callback adds a timer and cancels the second one, which
is repeating. -/
def cancelInCallback : List TimerStep :=
  [.addTimer 16 (.once 10 1) 1, .addTimer 32 (.every 12 5 2) 1,
    .cancel (toLex (0, 0)), .handleRead 20, .runNext, .addTimer 48 (.once 0 3) 20,
    .cancel (toLex (32, 2)), .runNext, .finish 21]

theorem cancelInCallback_consistent :
    Consistent (cancelInCallback.foldl step {}) ∧
      (cancelInCallback.foldl step {}).timers.elems = [toLex (0, 48)] := by
  have hsteps : Legal step Admissible {} cancelInCallback := by decide +kernel
  exact ⟨queue_consistent cancelInCallback hsteps, by decide +kernel⟩

end TimerQueue

end MyTinyHttpd
