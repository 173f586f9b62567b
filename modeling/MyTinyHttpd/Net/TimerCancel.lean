import MyTinyHttpd.Lib.Seq
import MyTinyHttpd.Net.TimerPlaces

/-!
# Cancelled timers

`CancelInLoop` deletes a timer that is in the queue. For a timer of the batch it leaves a note in
`canceling_timers_`, which only `Reset` reads. `HandleRead` calls the callbacks of its batch without
a look at it.

* `CancelInv`: a live timer whose cancellation has completed was cancelled in this batch, or before
  it was added.
* `quiet_iff`: a cancelled timer runs again in two ways only. It waits in the batch while another
  callback of the batch cancels it, or it is cancelled before `AddTimerInLoop` has added it.
-/

namespace MyTinyHttpd

open Verif
open scoped List

namespace TimerQueue

variable {q : TimerQueue} {held : List Entry} {a : Address} {t : Timer}

/-- No callback after the cancellation of its timer. -/
def Quiet (q : TimerQueue) : Prop :=
  ∀ id, ¬ [TimerEvent.cancelled id, .ran id] <+ q.log

/-- No callback of a timer that was cancelled before it was added. -/
def AddedFirst (q : TimerQueue) : Prop :=
  ∀ id, ¬ [TimerEvent.cancelled id, .added id, .ran id] <+ q.log

/-- The next callback is that of a timer that has been cancelled since the batch was taken. -/
def RunsCancelled (q : TimerQueue) : TimerStep → Prop
  | .runNext => ∃ b ∈ q.batch, ∃ e ∈ b.todo.head?, ∃ t ∈ q.heap (entryAddress e),
      toLex (entryAddress e, t.sequence) ∈ b.cancelled
  | _ => False

instance (q : TimerQueue) (s : TimerStep) : Decidable (q.RunsCancelled s) :=
  match s with
  | .runNext => inferInstanceAs (Decidable (∃ b ∈ q.batch, ∃ e ∈ b.todo.head?,
      ∃ t ∈ q.heap (entryAddress e), toLex (entryAddress e, t.sequence) ∈ b.cancelled))
  | .addTimer _ _ _ | .cancel _ | .handleRead _ | .finish _ => isFalse not_false

/-! ## The invariant -/

/-- The timer is one of the batch, and has been cancelled since the batch was taken. -/
def CancelledInBatch (q : TimerQueue) (id : ActiveTimer) : Prop :=
  ∃ b ∈ q.batch, id ∈ b.cancelled ∧ ∃ e ∈ q.batchEntries, entryAddress e = (ofLex id).1

structure CancelInv (q : TimerQueue) : Prop where
  /-- The live timers that are cancelled. -/
  live : ∀ a s, q.Live a s → .cancelled (toLex (a, s)) ∈ q.log →
    [TimerEvent.cancelled (toLex (a, s)), .added (toLex (a, s))] <+ q.log ∨
      q.CancelledInBatch (toLex (a, s))
  noted : ∀ b ∈ q.batch, ∀ id ∈ b.cancelled, .cancelled id ∈ q.log

theorem cancelledInBatch_iff_of_batch {q' : TimerQueue} (h : q'.batch = q.batch)
    (id : ActiveTimer) : q'.CancelledInBatch id ↔ q.CancelledInBatch id := by
  rw [CancelledInBatch, CancelledInBatch, batchEntries, batchEntries, h]

/-- What `AddTimerInLoop` leaves as it is, and what it adds to the log. -/
theorem addTimer_frame (h : IndexInv q held) (hfree : q.heap a = none) (ha : a < uintptrMax)
    (t : Timer) (now : Timestamp) :
    (q.addTimer a t now).log = q.log ++ [.added (toLex (a, t.sequence))] ∧
      (q.addTimer a t now).batch = q.batch ∧
      (q.addTimer a t now).heap = (q.setHeap a (some t)).heap := by
  rw [addTimer_eq h hfree ha]
  simp only
  split <;> exact ⟨rfl, rfl, rfl⟩

theorem addTimer_cancelInv (h : QueueInv q) (hc : CancelInv q) (hfree : q.heap a = none)
    (ha : a < uintptrMax) (now : Timestamp) : CancelInv (q.addTimer a t now) := by
  obtain ⟨hlog, hbatch, hheap⟩ := addTimer_frame h.index hfree ha t now
  refine ⟨fun b s hl hm => ?_, fun b hb id hid => ?_⟩
  · rw [hlog] at hm ⊢
    have hmem : .cancelled (toLex (b, s)) ∈ q.log := by simpa using hm
    rw [cancelledInBatch_iff_of_batch hbatch]
    by_cases hba : b = a
    · -- The new timer: a cancellation was before it.
      subst hba
      obtain rfl : s = t.sequence :=
        (live_of_heap (t := t) (by rw [hheap, setHeap_self])).mp hl
      exact .inl ((List.singleton_sublist.mpr hmem).append_right [_])
    · have hl : q.Live b s := (live_congr (by rw [hheap, setHeap_ne q _ hba])).mp hl
      exact (hc.live b s hl hmem).imp_left fun hsub => hsub.trans (List.sublist_append_left _ _)
  · rw [hbatch] at hb
    rw [hlog]
    exact List.mem_append_left _ (hc.noted b hb id hid)

/-- `CancelInLoop` deletes the timer, or does nothing to the timers. -/
theorem cancel_frame (h : QueueInv q) (id : ActiveTimer) :
    (∃ l, (q.cancel id).log = q.log ++ l ++ [.cancelled id] ∧
        ∀ id', .ran id' ∉ l ∧ .cancelled id' ∉ l) ∧
      (q.cancel id).batch = q.batch.map (fun b => { b with cancelled := b.cancelled ++ [id] }) ∧
      (∀ b s, (q.cancel id).Live b s → q.Live b s ∧ (toLex (b, s) = id → q.InBatch id)) := by
  unfold cancel
  rcases cancelInLoop_cases h.index id with ⟨a, t, rfl, ht, hm, heq⟩ | ⟨hnot, heq⟩
  · rw [heq]
    refine ⟨⟨[.deleted (toLex (a, t.sequence))], rfl, by simp⟩, rfl, fun b s hl => ?_⟩
    have hba : b ≠ a := by
      rintro rfl
      exact not_live_of_heap (setHeap_self _ b none) hl
    refine ⟨(live_congr (setHeap_ne _ _ hba)).mp hl, fun heq => absurd ?_ hba⟩
    exact (Prod.mk.inj (toLex.injective heq)).1
  · have hlive : ∀ b s, q.Live b s → q.Live b s ∧ (toLex (b, s) = id → q.InBatch id) := by
      rintro b s hl
      refine ⟨hl, ?_⟩
      rintro rfl
      have hiff : toLex (b, s) ∈ q.activeTimers ↔ ¬ q.InBatch (toLex (b, s)) := h.queued_iff hl
      exact not_not.mp fun hb => hnot (hiff.mpr hb)
    rw [heq]
    split <;> exact ⟨⟨[], by simp [noteCancelled, note], by simp⟩, rfl, hlive⟩

theorem cancel_cancelInv (h : QueueInv q) (hc : CancelInv q) (id : ActiveTimer) :
    CancelInv (q.cancel id) := by
  obtain ⟨⟨l, hlog, hl⟩, hbatch, hlive⟩ := cancel_frame h id
  have hentries : (q.cancel id).batchEntries = q.batchEntries := by
    rw [batchEntries, batchEntries, hbatch]
    cases q.batch <;> rfl
  have hsub : q.log <+ (q.cancel id).log := by
    rw [hlog, List.append_assoc]
    exact List.sublist_append_left _ _
  refine ⟨fun b s hlive' hm => ?_, fun b hb id' hid' => ?_⟩
  · obtain ⟨hold, hself⟩ := hlive b s hlive'
    by_cases hid : toLex (b, s) = id
    · -- Alive after its own cancellation: one of the batch.
      obtain ⟨-, e, he, hea⟩ := hself hid
      obtain ⟨b₀, hb₀⟩ : ∃ b₀, q.batch = some b₀ := by
        cases hb : q.batch with
        | none => simp [batchEntries, hb] at he
        | some b₀ => exact ⟨b₀, rfl⟩
      refine .inr ⟨_, by rw [hbatch, hb₀]; rfl, by simp [hid], e, hentries ▸ he, ?_⟩
      rw [hea, hid]
    · have hm : .cancelled (toLex (b, s)) ∈ q.log := by
        rw [hlog] at hm
        simpa [hl, hid] using hm
      refine (hc.live b s hold hm).imp (fun h => h.trans hsub) ?_
      rintro ⟨b₀, hb₀, hmem, he⟩
      refine ⟨_, by rw [hbatch, hb₀]; rfl, List.mem_append_left _ hmem, hentries ▸ he⟩
  · rw [hbatch] at hb
    obtain ⟨b₀, hb₀, rfl⟩ := Option.map_eq_some_iff.mp hb
    rcases List.mem_append.mp hid' with hid' | hid'
    · exact hsub.subset (hc.noted b₀ hb₀ id' hid')
    · rw [hlog, List.mem_singleton.mp hid']
      simp

/-- What `HandleRead` does up to its first callback, the queue aside. -/
theorem handleRead_frame (h : QueueInv q) (hb : q.batch = none) (now : Timestamp) :
    (q.handleRead now).log = q.log ∧ (q.handleRead now).heap = q.heap ∧
      (q.handleRead now).batch = some { now, todo := q.expiredEntries now } := by
  obtain ⟨A, heq, -⟩ := handleRead_eq (h.index_nil hb) now
  obtain ⟨timerfd, hread⟩ := readTimerfd_eq q now
  rw [heq, hread]
  exact ⟨rfl, rfl, rfl⟩

theorem handleRead_cancelInv (h : QueueInv q) (hc : CancelInv q) (hb : q.batch = none)
    (now : Timestamp) : CancelInv (q.handleRead now) := by
  obtain ⟨hlog, hheap, hbatch⟩ := handleRead_frame h hb now
  refine ⟨fun b s hl hm => ?_, fun b hb' id hid => ?_⟩
  · rw [hlog] at hm ⊢
    have hold : q.Live b s := (live_congr (by rw [hheap])).mp hl
    refine (hc.live b s hold hm).imp_right ?_
    rintro ⟨b₀, hb₀, -⟩
    rw [hb] at hb₀
    cases hb₀
  · rw [hbatch] at hb'
    obtain rfl := Option.some.inj hb'
    cases hid

theorem runNext_cancelInv (h : QueueInv q) (hc : CancelInv q) : CancelInv q.runNext := by
  rcases runNext_cases h with heq | ⟨b, e, todo, t, hb, htodo, -, heq⟩
  · rwa [heq]
  · have hlog : q.runNext.log = q.log ++ [.ran (toLex (entryAddress e, t.sequence))] := by
      rw [heq]
      rfl
    have hbatch : q.runNext.batch = some { b with ran := b.ran ++ [e], todo } := by
      rw [heq]
      rfl
    have hentries : q.runNext.batchEntries = q.batchEntries := by
      simp [batchEntries, hbatch, hb, htodo]
    have hheap : q.runNext.heap = q.heap := by
      rw [heq]
      rfl
    refine ⟨fun a s hl hm => ?_, fun b' hb' id hid => ?_⟩
    · rw [hlog] at hm ⊢
      have hm : .cancelled (toLex (a, s)) ∈ q.log := by simpa using hm
      have hold : q.Live a s := (live_congr (by rw [hheap])).mp hl
      refine (hc.live a s hold hm).imp (fun h => h.trans (List.sublist_append_left _ _)) ?_
      rintro ⟨b', hb', hmem, he⟩
      obtain rfl : b = b' := Option.some.inj (hb.symm.trans hb')
      exact ⟨_, hbatch, hmem, hentries ▸ he⟩
    · rw [hbatch] at hb'
      obtain rfl := Option.some.inj hb'
      rw [hlog]
      exact List.mem_append_left _ (hc.noted b hb id hid)

/-- A timer of the batch that is alive after `Reset` has not been cancelled in the batch. -/
theorem restarted_not_cancelled {q' : TimerQueue} {b : Batch} {e : Entry} (h : QueueInv q)
    (hb : q.batch = some b) (he : e ∈ q.batchEntries) (hr : Restarted b.now q q' e) {s : Int}
    (hold : q.Live (entryAddress e) s) (hl : q'.Live (entryAddress e) s) :
    toLex (entryAddress e, s) ∉ b.cancelled := by
  intro hmem
  have hcancel := (h.canceling b hb e he s hold).mpr hmem
  obtain ⟨t, ht, rfl⟩ := hold
  have hdead := ((hr t ht).2 (fun hc => hc.2 hcancel)).1
  exact not_live_of_heap hdead hl

/-- A timer that is alive after `Reset` was alive before. -/
theorem live_of_restarted {q' : TimerQueue} {b : Batch} {e : Entry} (hr : Restarted b.now q q' e)
    (ht : q.heap (entryAddress e) = some t) {s : Int} (hl : q'.Live (entryAddress e) s) :
    q.Live (entryAddress e) s := by
  obtain ⟨hkeep, hdelete⟩ := hr t ht
  by_cases hc : t.isRepeat = true ∧ toLex (entryAddress e, t.sequence) ∉ q.cancelingTimers
  · obtain rfl := (live_of_heap (hkeep hc)).mp hl
    exact ⟨t, ht, rfl⟩
  · exact absurd hl (not_live_of_heap (hdelete hc).1)

theorem finish_cancelInv (h : QueueInv q) (hc : CancelInv q) (htodo : ∀ b ∈ q.batch, b.todo = [])
    (clock : Timestamp) : CancelInv (q.finish clock) := by
  cases hb : q.batch with
  | none => simpa only [finish, hb] using hc
  | some b =>
    obtain ⟨q', heq, -, -, hsame, hrestarted⟩ := finish_spec h hb (htodo b hb) clock
    obtain ⟨timerfd, lastArmed, hrearm⟩ := rearm_eq q' clock
    obtain ⟨ids, hids⟩ := hsame.log
    rw [heq, hrearm]
    refine ⟨fun a s hl hm => .inl ?_, by simp⟩
    show _ <+ q'.log
    have hm : .cancelled (toLex (a, s)) ∈ q.log := by
      have hm : .cancelled (toLex (a, s)) ∈ q'.log := hm
      rw [hids] at hm
      simpa using hm
    rw [hids]
    refine List.Sublist.trans ?_ (List.sublist_append_left _ _)
    have hentries : q.batchEntries = b.ran := by simp [batchEntries, hb, htodo b hb]
    by_cases ha : a ∈ b.ran.map entryAddress
    · obtain ⟨e, he, rfl⟩ := List.mem_map.mp ha
      have he' : e ∈ q.batchEntries := hentries ▸ he
      obtain ⟨t, ht⟩ := h.batch_live he'
      have hold := live_of_restarted (hrestarted e he) ht hl
      have hnot := restarted_not_cancelled h hb he' (hrestarted e he) hold hl
      refine (hc.live _ s hold hm).resolve_right ?_
      rintro ⟨b', hb', hmem, -⟩
      obtain rfl : b = b' := Option.some.inj (hb.symm.trans hb')
      exact hnot hmem
    · have hold : q.Live a s := (live_congr (hsame.heap a ha)).mp hl
      refine (hc.live a s hold hm).resolve_right ?_
      rintro ⟨b', -, -, e, he, rfl⟩
      exact ha (List.mem_map_of_mem (hentries ▸ he))

theorem step_cancelInv (h : QueueInv q) (hc : CancelInv q) (s : TimerStep)
    (hs : q.Admissible s) : CancelInv (q.step s) := by
  cases s with
  | addTimer a t now => exact addTimer_cancelInv h hc hs.1 hs.2.1 now
  | cancel id => exact cancel_cancelInv h hc id
  | handleRead now => exact handleRead_cancelInv h hc hs now
  | runNext => exact runNext_cancelInv h hc
  | finish clock => exact finish_cancelInv h hc hs clock

/-! ## The log -/

theorem finish_log (h : QueueInv q) (htodo : ∀ b ∈ q.batch, b.todo = []) (clock : Timestamp) :
    ∃ ids : List ActiveTimer, (q.finish clock).log = q.log ++ ids.map .deleted := by
  cases hb : q.batch with
  | none => exact ⟨[], by simp [finish, hb]⟩
  | some b =>
    obtain ⟨q', heq, -, -, hsame, -⟩ := finish_spec h hb (htodo b hb) clock
    obtain ⟨timerfd, lastArmed, hrearm⟩ := rearm_eq q' clock
    rw [heq, hrearm]
    exact hsame.log

/-- Only `runNext` logs a callback. -/
theorem step_log (h : QueueInv q) (s : TimerStep) (hs : q.Admissible s) :
    ∃ l, (q.step s).log = q.log ++ l ∧ (s ≠ .runNext → ∀ id, .ran id ∉ l) := by
  cases s with
  | addTimer a t now =>
    exact ⟨_, (addTimer_frame h.index hs.1 hs.2.1 t now).1, by simp⟩
  | cancel id =>
    obtain ⟨⟨l, hlog, hl⟩, -⟩ := cancel_frame h id
    exact ⟨l ++ [.cancelled id], by rw [← List.append_assoc]; exact hlog, by simp [hl]⟩
  | handleRead now => exact ⟨[], by simpa [step] using (handleRead_frame h hs now).1, by simp⟩
  | runNext =>
    rcases runNext_cases h with heq | ⟨b, e, todo, t, -, -, -, heq⟩
    · exact ⟨[], by simp [step, heq], fun hne => absurd rfl hne⟩
    · exact ⟨_, congrArg TimerQueue.log heq, fun hne => absurd rfl hne⟩
  | finish clock =>
    obtain ⟨ids, hids⟩ := finish_log h hs clock
    exact ⟨_, hids, by simp⟩

/-- A callback after the cancellation is that of a timer cancelled before it was added. -/
def QuietInv (q : TimerQueue) : Prop :=
  ∀ id, [TimerEvent.cancelled id, .ran id] <+ q.log →
    [TimerEvent.cancelled id, .added id, .ran id] <+ q.log

theorem QuietInv.append {q' : TimerQueue} (h : QuietInv q) {l : List TimerEvent}
    (hlog : q'.log = q.log ++ l) {id : ActiveTimer} (hl : .ran id ∉ l)
    (hsub : [TimerEvent.cancelled id, .ran id] <+ q'.log) :
    [TimerEvent.cancelled id, .added id, .ran id] <+ q'.log := by
  rw [hlog] at hsub ⊢
  have hold := sublist_of_append (l := [TimerEvent.cancelled id]) hsub hl
  exact (h id hold).trans (List.sublist_append_left _ _)

theorem runNext_quietInv (h : QueueInv q) (hc : CancelInv q) (hquiet : QuietInv q)
    (hgood : ¬ q.RunsCancelled .runNext) : QuietInv q.runNext := by
  rcases runNext_cases h with heq | ⟨b, e, todo, t, hb, htodo, ht, heq⟩
  · rwa [heq]
  · have hlog : q.runNext.log = q.log ++ [.ran (toLex (entryAddress e, t.sequence))] := by
      rw [heq]
      rfl
    intro id hsub
    by_cases hid : id = toLex (entryAddress e, t.sequence)
    · subst hid
      have hm : .cancelled (toLex (entryAddress e, t.sequence)) ∈ q.log := by
        have hm := hsub.subset (List.mem_cons_self)
        rw [hlog] at hm
        simpa using hm
      rw [hlog]
      rcases hc.live _ _ ⟨t, ht, rfl⟩ hm with hadded | ⟨b', hb', hmem, -⟩
      · exact hadded.append_right [_]
      · obtain rfl : b = b' := Option.some.inj (hb.symm.trans hb')
        exact absurd ⟨b, hb, e, by rw [htodo]; rfl, t, ht, hmem⟩ hgood
    · exact hquiet.append hlog (by simpa using hid) hsub

theorem step_quietInv (h : QueueInv q) (hc : CancelInv q) (hquiet : QuietInv q) (s : TimerStep)
    (hs : q.Admissible s) (hgood : ¬ q.RunsCancelled s) : QuietInv (q.step s) := by
  by_cases hrun : s = .runNext
  · subst hrun
    exact runNext_quietInv h hc hquiet hgood
  · obtain ⟨l, hlog, hl⟩ := step_log h s hs
    exact fun id hsub => hquiet.append hlog (hl hrun id) hsub

/-- The bad step itself. -/
theorem runsCancelled_step (hc : CancelInv q) {s : TimerStep} (hbad : q.RunsCancelled s) :
    ∃ id, [TimerEvent.cancelled id, .ran id] <+ (q.step s).log := by
  cases s with
  | addTimer | cancel | handleRead | finish => exact absurd hbad not_false
  | runNext =>
    obtain ⟨b, hb, e, he, t, ht, hmem⟩ := hbad
    obtain ⟨todo, htodo⟩ := List.head?_eq_some_iff.mp he
    refine ⟨toLex (entryAddress e, t.sequence), ?_⟩
    show _ <+ q.runNext.log
    rw [runNext_eq hb htodo ht]
    exact (List.singleton_sublist.mpr (hc.noted b hb _ hmem)).append_right [_]

/-! ## Runs -/

theorem empty_cancelInv : CancelInv {} := ⟨by simp, by simp⟩

theorem step_inv (s : TimerStep) (h : QueueInv q ∧ CancelInv q) (hs : q.Admissible s) :
    QueueInv (q.step s) ∧ CancelInv (q.step s) :=
  ⟨step_queueInv h.1 s hs, step_cancelInv h.1 h.2 s hs⟩

/-- The log only grows. -/
theorem run_log (h : QueueInv q) {steps : List TimerStep} (hsteps : Legal step Admissible q steps) :
    q.log <+ (steps.foldl step q).log := by
  have hinv := legal_invariant (I := fun q' => QueueInv q' ∧ q.log <+ q'.log)
    (fun q' s hq' hs => ?_) ⟨h, List.Sublist.refl _⟩ hsteps
  · exact hinv.2
  · obtain ⟨l, hlog, -⟩ := step_log hq'.1 s hs
    exact ⟨step_queueInv hq'.1 s hs, hlog ▸ hq'.2.trans (List.sublist_append_left _ _)⟩

/-- **When a cancelled timer does not run again**: exactly when no callback of a batch is called
after another one has cancelled its timer, and no timer runs that was cancelled before it was
added. -/
theorem quiet_iff (steps : List TimerStep) (hsteps : Legal step Admissible {} steps) :
    Quiet (steps.foldl step {}) ↔
      (∀ pre s post, steps = pre ++ s :: post → ¬ RunsCancelled (pre.foldl step {}) s) ∧
        AddedFirst (steps.foldl step {}) := by
  constructor
  · intro hquiet
    refine ⟨?_, fun id hsub => hquiet id (List.Sublist.trans (by simp) hsub)⟩
    rintro pre s post rfl hbad
    rw [legal_append, legal_cons] at hsteps
    obtain ⟨hpre, hs, hpost⟩ := hsteps
    obtain ⟨hq, hc⟩ := legal_invariant (I := fun q => QueueInv q ∧ CancelInv q)
      (fun _ s h hs => step_inv s h hs) ⟨empty_queueInv, empty_cancelInv⟩ hpre
    obtain ⟨id, hsub⟩ := runsCancelled_step hc hbad
    refine hquiet id (hsub.trans ?_)
    rw [List.foldl_append]
    exact run_log (step_queueInv hq s hs) hpost
  · rintro ⟨hgood, hadded⟩ id hsub
    have hgood : Legal step (fun q s => ¬ RunsCancelled q s) {} steps := legal_iff.mpr hgood
    have hinv := legal_invariant (I := fun q => (QueueInv q ∧ CancelInv q) ∧ QuietInv q)
      (fun _ s h hs => ⟨step_inv s h.1 hs.1, step_quietInv h.1.1 h.1.2 h.2 s hs.1 hs.2⟩)
      ⟨⟨empty_queueInv, empty_cancelInv⟩, fun id hsub => by simp at hsub⟩
      (legal_and hsteps hgood)
    exact hadded id (hinv.2 id hsub)

/-- A repeating timer cancels itself, another one is cancelled in the queue. A third one runs
twice. -/
def cancelSelf : List TimerStep :=
  [.addTimer 16 (.every 10 5 1) 1, .addTimer 32 (.every 12 5 2) 1,
    .addTimer 48 (.once 40 3) 1, .handleRead 20, .runNext, .cancel (toLex (16, 1)),
    .runNext, .finish 21, .cancel (toLex (48, 3)), .handleRead 50, .runNext, .finish 51]

theorem cancelSelf_quiet : Quiet (cancelSelf.foldl step {}) := by
  have hgood : Legal step (fun q s => ¬ RunsCancelled q s) {} cancelSelf := by decide +kernel
  have hlog : (cancelSelf.foldl step {}).log.all fun
      | .ran id => !decide ([TimerEvent.cancelled id, .added id, .ran id] <+
          (cancelSelf.foldl step {}).log)
      | _ => true := by decide +kernel
  refine (quiet_iff cancelSelf (by decide +kernel)).mpr ⟨legal_iff.mp hgood, fun id hsub => ?_⟩
  have hid := List.all_eq_true.mp hlog (.ran id) (hsub.subset (by simp))
  exact absurd hsub (by simpa using hid)

/-- Two timers expire together, and the first callback cancels the second timer. -/
def cancelNext : List TimerStep :=
  [.addTimer 16 (.once 10 1) 1, .addTimer 32 (.once 12 2) 1,
    .handleRead 20, .runNext, .cancel (toLex (32, 2)), .runNext, .finish 21]

theorem cancelNext_not_quiet :
    Legal step Admissible {} cancelNext ∧ ¬ Quiet (cancelNext.foldl step {}) := by
  have hsub : [TimerEvent.cancelled (toLex (32, 2)), .ran (toLex (32, 2))] <+
      (cancelNext.foldl step {}).log := by decide +kernel
  exact ⟨by decide +kernel, fun hquiet => hquiet _ hsub⟩

end TimerQueue

end MyTinyHttpd
