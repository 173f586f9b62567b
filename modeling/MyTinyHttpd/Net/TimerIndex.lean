import MyTinyHttpd.Net.TimerQueue

/-!
# The two indexes of the timer queue and its timers

`IndexInv q held` is the invariant of the queue while the entries `held` have been taken out of it:
the batch of `HandleRead`, or a timer that is being inserted or deleted. Every operation moves one
timer between the heap, the queue and `held`.

* `insert_eq`, `cancelInLoop_cases`, `resetOne_repeat`, `resetOne_delete`, `getExpired_eq`: under
  the invariant no assertion fails and no pointer dangles, so each function is what is left of it.
* `IndexInv.mem_expiredEntries`: `GetExpired(now)` takes exactly the entries up to `now`.
-/

namespace MyTinyHttpd

open Verif

namespace TimerQueue

variable {q : TimerQueue} {held : List Entry} {a : Address} {t : Timer}

/-! ## The invariant of the indexes -/

/-- The address of an entry. -/
def entryAddress (e : Entry) : Address := (ofLex e).2

structure IndexInv (q : TimerQueue) (held : List Entry) : Prop where
  ok : q.failed = false
  size_eq : q.timers.size = q.activeTimers.size
  /-- Each entry is the current expiration of a live timer. -/
  timer : ∀ e a, toLex (e, a) ∈ q.timers → ∃ t, q.heap a = some t ∧ t.expiration = e
  active : ∀ a s, toLex (a, s) ∈ q.activeTimers ↔
    ∃ t, q.heap a = some t ∧ t.sequence = s ∧ toLex (t.expiration, a) ∈ q.timers
  held_live : ∀ e a, toLex (e, a) ∈ held →
    ∃ t, q.heap a = some t ∧ t.expiration = e ∧ toLex (e, a) ∉ q.timers
  held_nodup : (held.map entryAddress).Nodup
  placed : ∀ a t, q.heap a = some t →
    toLex (t.expiration, a) ∈ q.timers ∨ toLex (t.expiration, a) ∈ held
  address : ∀ a t, q.heap a = some t → a < uintptrMax

/-- The invariant reads the heap and the two sets. -/
theorem IndexInv.of_eq {q' : TimerQueue} (h : IndexInv q held) (hfailed : q'.failed = q.failed)
    (hheap : q'.heap = q.heap) (htimers : q'.timers = q.timers)
    (hactive : q'.activeTimers = q.activeTimers) : IndexInv q' held := by
  refine ⟨hfailed.trans h.ok, ?_, ?_, ?_, ?_, h.held_nodup, ?_, ?_⟩
  · rw [htimers, hactive]
    exact h.size_eq
  · rw [htimers, hheap]
    exact h.timer
  · rw [hactive, hheap, htimers]
    exact h.active
  · rw [hheap, htimers]
    exact h.held_live
  · rw [hheap, htimers]
    exact h.placed
  · rw [hheap]
    exact h.address

/-- A timer that is held has no entry under any time. -/
theorem IndexInv.not_mem_timers {e : Timestamp} (h : IndexInv q held) (hheld : toLex (e, a) ∈ held)
    (e' : Timestamp) : toLex (e', a) ∉ q.timers := by
  intro hmem
  obtain ⟨t, ht, rfl, hnot⟩ := h.held_live e a hheld
  obtain ⟨t', ht', rfl⟩ := h.timer e' a hmem
  rw [ht] at ht'
  cases ht'
  exact hnot hmem

theorem IndexInv.not_mem_active {e : Timestamp} (h : IndexInv q held) (hheld : toLex (e, a) ∈ held)
    (s : Int) : toLex (a, s) ∉ q.activeTimers := by
  intro hmem
  obtain ⟨t, -, -, hentry⟩ := (h.active a s).mp hmem
  exact h.not_mem_timers hheld _ hentry

/-! ## Taking a timer out of the queue and putting it in -/

/-- The timer `t` at the address `a` in both indexes. -/
def put (q : TimerQueue) (a : Address) (t : Timer) : TimerQueue :=
  { q with
    timers := q.timers.insert (toLex (t.expiration, a))
    activeTimers := q.activeTimers.insert (toLex (a, t.sequence)) }

/-- The timer `t` at the address `a` in neither index. -/
def take (q : TimerQueue) (a : Address) (t : Timer) : TimerQueue :=
  { q with
    timers := q.timers.erase (toLex (t.expiration, a))
    activeTimers := q.activeTimers.erase (toLex (a, t.sequence)) }

theorem IndexInv.put (h : IndexInv q (toLex (t.expiration, a) :: held)) (ht : q.heap a = some t) :
    IndexInv (q.put a t) held := by
  have hnot : toLex (t.expiration, a) ∉ q.timers := h.not_mem_timers List.mem_cons_self _
  have hnot' : toLex (a, t.sequence) ∉ q.activeTimers := h.not_mem_active List.mem_cons_self _
  have hnodup := List.nodup_cons.mp h.held_nodup
  refine ⟨h.ok, ?_, fun e b hb => ?_, fun b s => ?_, fun e b hb => ?_, hnodup.2, fun b t' hb => ?_,
    h.address⟩
  · show (q.timers.insert _).size = (q.activeTimers.insert _).size
    rw [OrdSet.size_insert hnot, OrdSet.size_insert hnot', h.size_eq]
  · rcases OrdSet.mem_insert.mp hb with hb | hb
    · obtain ⟨rfl, rfl⟩ := Prod.mk.inj (toLex.injective hb)
      exact ⟨t, ht, rfl⟩
    · exact h.timer e b hb
  · show toLex (b, s) ∈ q.activeTimers.insert _ ↔
      ∃ t', q.heap b = some t' ∧ t'.sequence = s ∧ toLex (t'.expiration, b) ∈ q.timers.insert _
    simp only [OrdSet.mem_insert, h.active, EmbeddingLike.apply_eq_iff_eq, Prod.mk.injEq]
    constructor
    · rintro (⟨rfl, rfl⟩ | ⟨t', ht', hs, hm⟩)
      · exact ⟨t, ht, rfl, .inl ⟨rfl, rfl⟩⟩
      · exact ⟨t', ht', hs, .inr hm⟩
    · rintro ⟨t', ht', rfl, ⟨-, rfl⟩ | hm⟩
      · rw [ht] at ht'
        cases ht'
        exact .inl ⟨rfl, rfl⟩
      · exact .inr ⟨t', ht', rfl, hm⟩
  · obtain ⟨t', ht', he, hm⟩ := h.held_live e b (List.mem_cons_of_mem _ hb)
    refine ⟨t', ht', he, fun hmem => ?_⟩
    rcases OrdSet.mem_insert.mp hmem with heq | hmem
    · obtain ⟨rfl, rfl⟩ := Prod.mk.inj (toLex.injective heq)
      exact hnodup.1 (List.mem_map_of_mem hb)
    · exact hm hmem
  · rcases h.placed b t' hb with hm | hm
    · exact .inl (OrdSet.mem_insert.mpr (.inr hm))
    · rcases List.mem_cons.mp hm with heq | hm
      · exact .inl (OrdSet.mem_insert.mpr (.inl heq))
      · exact .inr hm

theorem IndexInv.take (h : IndexInv q held) (ht : q.heap a = some t)
    (hmem : toLex (t.expiration, a) ∈ q.timers) :
    IndexInv (q.take a t) (toLex (t.expiration, a) :: held) := by
  have hactive : toLex (a, t.sequence) ∈ q.activeTimers := (h.active _ _).mpr ⟨t, ht, rfl, hmem⟩
  have hout : a ∉ held.map entryAddress := by
    intro hm
    obtain ⟨e, he, rfl⟩ := List.mem_map.mp hm
    exact h.not_mem_timers (e := (ofLex e).1) he _ hmem
  refine ⟨h.ok, ?_, fun e b hb => ?_, fun b s => ?_, fun e b hb => ?_, ?_, fun b t' hb => ?_,
    h.address⟩
  · have h₁ := OrdSet.size_erase hmem
    have h₂ := OrdSet.size_erase hactive
    have h₃ := h.size_eq
    show (q.timers.erase _).size = (q.activeTimers.erase _).size
    omega
  · exact h.timer e b (OrdSet.mem_erase.mp hb).2
  · show toLex (b, s) ∈ q.activeTimers.erase _ ↔
      ∃ t', q.heap b = some t' ∧ t'.sequence = s ∧ toLex (t'.expiration, b) ∈ q.timers.erase _
    simp only [OrdSet.mem_erase, h.active, ne_eq, EmbeddingLike.apply_eq_iff_eq, Prod.mk.injEq,
      not_and]
    constructor
    · rintro ⟨hne, t', ht', rfl, hm⟩
      refine ⟨t', ht', rfl, ?_, hm⟩
      rintro - rfl
      rw [ht] at ht'
      cases ht'
      exact hne rfl rfl
    · rintro ⟨t', ht', rfl, hne, hm⟩
      refine ⟨?_, t', ht', rfl, hm⟩
      rintro rfl -
      rw [ht] at ht'
      cases ht'
      exact hne rfl rfl
  · rcases List.mem_cons.mp hb with heq | hb
    · obtain ⟨rfl, rfl⟩ := Prod.mk.inj (toLex.injective heq)
      exact ⟨t, ht, rfl, fun hm => (OrdSet.mem_erase.mp hm).1 rfl⟩
    · obtain ⟨t', ht', he, hm⟩ := h.held_live e b hb
      exact ⟨t', ht', he, fun hm' => hm (OrdSet.mem_erase.mp hm').2⟩
  · exact List.nodup_cons.mpr ⟨hout, h.held_nodup⟩
  · rcases h.placed b t' hb with hm | hm
    · by_cases heq : toLex (t'.expiration, b) = toLex (t.expiration, a)
      · exact .inr (heq ▸ List.mem_cons_self)
      · exact .inl (OrdSet.mem_erase.mpr ⟨heq, hm⟩)
    · exact .inr (List.mem_cons_of_mem _ hm)

/-! ## The heap -/

@[simp] theorem setHeap_self (q : TimerQueue) (a : Address) (t : Option Timer) :
    (q.setHeap a t).heap a = t := Function.update_self ..

@[simp] theorem setHeap_log (q : TimerQueue) (a : Address) (t : Option Timer) :
    (q.setHeap a t).log = q.log := rfl

theorem setHeap_ne (q : TimerQueue) (t : Option Timer) {b : Address} (h : b ≠ a) :
    (q.setHeap a t).heap b = q.heap b := Function.update_of_ne h ..

/-- A new timer is held until it is in the queue. -/
theorem IndexInv.alloc (h : IndexInv q held) (hfree : q.heap a = none) (ha : a < uintptrMax)
    (t : Timer) : IndexInv (q.setHeap a (some t)) (toLex (t.expiration, a) :: held) := by
  have hne : ∀ {b t'}, q.heap b = some t' → b ≠ a := by
    rintro b t' hb rfl
    rw [hfree] at hb
    cases hb
  have hold : ∀ {b t'}, q.heap b = some t' → (q.setHeap a (some t)).heap b = some t' :=
    fun hb => (setHeap_ne q _ (hne hb)).trans hb
  have hnot : ∀ e, toLex (e, a) ∉ q.timers := by
    intro e hm
    obtain ⟨t', ht', -⟩ := h.timer e a hm
    exact hne ht' rfl
  refine ⟨h.ok, h.size_eq, fun e b hb => ?_, fun b s => ?_, fun e b hb => ?_, ?_, fun b t' hb => ?_,
    fun b t' hb => ?_⟩
  · obtain ⟨t', ht', he⟩ := h.timer e b hb
    exact ⟨t', hold ht', he⟩
  · rw [show (q.setHeap a (some t)).activeTimers = q.activeTimers from rfl, h.active]
    constructor
    · rintro ⟨t', ht', hs, hm⟩
      exact ⟨t', hold ht', hs, hm⟩
    · rintro ⟨t', ht', hs, hm⟩
      have hb : b ≠ a := by
        rintro rfl
        exact hnot _ hm
      exact ⟨t', (setHeap_ne q _ hb).symm.trans ht', hs, hm⟩
  · rcases List.mem_cons.mp hb with heq | hb
    · obtain ⟨rfl, rfl⟩ := Prod.mk.inj (toLex.injective heq)
      exact ⟨t, setHeap_self q b _, rfl, hnot _⟩
    · obtain ⟨t', ht', he, hm⟩ := h.held_live e b hb
      exact ⟨t', hold ht', he, hm⟩
  · refine List.nodup_cons.mpr ⟨fun hm => ?_, h.held_nodup⟩
    obtain ⟨e, he, hea⟩ := List.mem_map.mp hm
    obtain ⟨t', ht', -⟩ := h.held_live (ofLex e).1 (ofLex e).2 he
    exact hne ht' hea
  · by_cases hba : b = a
    · subst hba
      rw [setHeap_self] at hb
      cases hb
      exact .inr List.mem_cons_self
    · rw [setHeap_ne q _ hba] at hb
      exact (h.placed b t' hb).imp_right (List.mem_cons_of_mem _)
  · by_cases hba : b = a
    · exact hba ▸ ha
    · rw [setHeap_ne q _ hba] at hb
      exact h.address b t' hb

/-- A timer that is held is deleted. -/
theorem IndexInv.free {e : Timestamp} (h : IndexInv q (toLex (e, a) :: held)) :
    IndexInv (q.setHeap a none) held := by
  have hnot := h.not_mem_timers List.mem_cons_self
  obtain ⟨t, ht, rfl, -⟩ := h.held_live e a List.mem_cons_self
  have hnodup := List.nodup_cons.mp h.held_nodup
  have hsub : ∀ {b t'}, (q.setHeap a none).heap b = some t' → b ≠ a ∧ q.heap b = some t' := by
    intro b t' hb
    by_cases hba : b = a
    · subst hba
      rw [setHeap_self] at hb
      cases hb
    · exact ⟨hba, (setHeap_ne q _ hba).symm.trans hb⟩
  refine ⟨h.ok, h.size_eq, fun e b hb => ?_, fun b s => ?_, fun e b hb => ?_, hnodup.2,
    fun b t' hb => ?_, fun b t' hb => h.address b t' (hsub hb).2⟩
  · obtain ⟨t', ht', he⟩ := h.timer e b hb
    have hba : b ≠ a := by
      rintro rfl
      exact hnot e hb
    exact ⟨t', (setHeap_ne q _ hba).trans ht', he⟩
  · rw [show (q.setHeap a none).activeTimers = q.activeTimers from rfl, h.active]
    constructor
    · rintro ⟨t', ht', hs, hm⟩
      have hba : b ≠ a := by
        rintro rfl
        exact hnot _ hm
      exact ⟨t', (setHeap_ne q _ hba).trans ht', hs, hm⟩
    · rintro ⟨t', ht', hs, hm⟩
      exact ⟨t', (hsub ht').2, hs, hm⟩
  · obtain ⟨t', ht', he, hm⟩ := h.held_live e b (List.mem_cons_of_mem _ hb)
    have hba : b ≠ a := by
      rintro rfl
      exact hnodup.1 (List.mem_map.mpr ⟨_, hb, rfl⟩)
    exact ⟨t', (setHeap_ne q _ hba).trans ht', he, hm⟩
  · obtain ⟨hba, hb⟩ := hsub hb
    rcases h.placed b t' hb with hm | hm
    · exact .inl hm
    · rcases List.mem_cons.mp hm with heq | hm
      · exact absurd (Prod.mk.inj (toLex.injective heq)).2 hba
      · exact .inr hm

/-- A timer that is held gets another expiration. -/
theorem IndexInv.replace {e : Timestamp} (h : IndexInv q (toLex (e, a) :: held)) (t' : Timer) :
    IndexInv (q.setHeap a (some t')) (toLex (t'.expiration, a) :: held) := by
  obtain ⟨t, ht, -⟩ := h.held_live e a List.mem_cons_self
  have h' := h.free.alloc (setHeap_self q a none) (h.address a t ht) t'
  have he : (q.setHeap a none).setHeap a (some t') = q.setHeap a (some t') := by
    simp [setHeap]
  rwa [he] at h'

/-! ## What the functions are under the invariant -/

theorem check_of {p : Prop} [Decidable p] (h : p) : q.check p = q := by
  simp [check, h]

theorem deref_of (h : q.heap a = some t) (f : Timer → TimerQueue) : q.deref a f = f t := by
  simp [deref, h]

/-- Whether a time is earlier than all of the queue. -/
def isEarliest (q : TimerQueue) (when : Timestamp) : Bool :=
  match q.timers.first with
  | none => true
  | some e => decide (when < (ofLex e).1)

theorem insert_eq {e : Timestamp} (h : IndexInv q (toLex (e, a) :: held)) (ht : q.heap a = some t) :
    q.insert a = (q.put a t, q.isEarliest t.expiration) := by
  have hnot := h.not_mem_timers List.mem_cons_self t.expiration
  have hnot' := h.not_mem_active List.mem_cons_self t.sequence
  have hsize : (q.timers.insert (toLex (t.expiration, a))).size =
      (q.activeTimers.insert (toLex (a, t.sequence))).size := by
    rw [OrdSet.size_insert hnot, OrdSet.size_insert hnot', h.size_eq]
  simp only [insert, ht, check_of h.size_eq, check_of hnot, check_of hnot', check_of hsize]
  rfl

theorem delete_eq (ht : q.heap a = some t) :
    q.delete a = (q.setHeap a none).note (.deleted (toLex (a, t.sequence))) := deref_of ht _

theorem cancelActive_eq (ht : q.heap a = some t) (hmem : toLex (t.expiration, a) ∈ q.timers) :
    q.cancelActive (toLex (a, t.sequence)) =
      ((q.take a t).setHeap a none).note (.deleted (toLex (a, t.sequence))) := by
  have hcheck : q.check (toLex (t.expiration, (ofLex (toLex (a, t.sequence))).1) ∈ q.timers) = q :=
    check_of hmem
  refine (deref_of (a := a) ht _).trans ?_
  simp only [hcheck]
  have hdelete := delete_eq (q := { q with timers := q.timers.erase (toLex (t.expiration, a)) }) ht
  exact congrArg (fun q' : TimerQueue =>
    { q' with activeTimers := q'.activeTimers.erase (toLex (a, t.sequence)) }) hdelete

/-- The two cases of `CancelInLoop`. -/
theorem cancelInLoop_cases (h : IndexInv q held) (id : ActiveTimer) :
    (∃ a t, id = toLex (a, t.sequence) ∧ q.heap a = some t ∧
        toLex (t.expiration, a) ∈ q.timers ∧
        q.cancelInLoop id = ((q.take a t).setHeap a none).note (.deleted id)) ∨
      (id ∉ q.activeTimers ∧ q.cancelInLoop id =
        if q.isCallingExpiredTimers then { q with cancelingTimers := q.cancelingTimers.insert id }
        else q) := by
  obtain ⟨⟨a, s⟩, rfl⟩ := toLex.surjective id
  unfold cancelInLoop
  simp only [check_of h.size_eq]
  by_cases hid : toLex (a, s) ∈ q.activeTimers
  · obtain ⟨t, ht, rfl, hm⟩ := (h.active a s).mp hid
    refine .inl ⟨a, t, rfl, ht, hm, ?_⟩
    rw [if_pos hid, cancelActive_eq ht hm]
    exact check_of (h.take ht hm).free.size_eq
  · refine .inr ⟨hid, ?_⟩
    rw [if_neg hid]
    split <;> exact check_of h.size_eq

theorem resetOne_repeat {e now : Timestamp} (h : IndexInv q (toLex (e, a) :: held))
    (ht : q.heap a = some t) (hrepeat : t.isRepeat = true)
    (hcancel : toLex (a, t.sequence) ∉ q.cancelingTimers) :
    resetOne now q (toLex (e, a)) =
      (q.setHeap a (some (t.restart now))).put a (t.restart now) := by
  refine (deref_of (a := a) ht _).trans ((if_pos ⟨hrepeat, hcancel⟩).trans ?_)
  exact congrArg Prod.fst (insert_eq (h.replace (t.restart now)) (setHeap_self q a _))

theorem resetOne_delete {e now : Timestamp} (ht : q.heap a = some t)
    (hdelete : ¬ (t.isRepeat = true ∧ toLex (a, t.sequence) ∉ q.cancelingTimers)) :
    resetOne now q (toLex (e, a)) =
      (q.setHeap a none).note (.deleted (toLex (a, t.sequence))) := by
  exact (deref_of (a := a) ht _).trans ((if_neg hdelete).trans (delete_eq ht))

theorem IndexInv.resetOne {e now : Timestamp} (h : IndexInv q (toLex (e, a) :: held)) :
    IndexInv (resetOne now q (toLex (e, a))) held := by
  obtain ⟨t, ht, -⟩ := h.held_live e a List.mem_cons_self
  by_cases hr : t.isRepeat = true ∧ toLex (a, t.sequence) ∉ q.cancelingTimers
  · rw [resetOne_repeat h ht hr.1 hr.2]
    exact (h.replace (t.restart now)).put (setHeap_self q a _)
  · rw [resetOne_delete ht hr]
    exact h.free.of_eq rfl rfl rfl rfl

/-! ## `GetExpired` -/

theorem foldl_eraseActive (l : List Entry)
    (hlive : ∀ e ∈ l, ∃ t, q.heap (entryAddress e) = some t ∧
      toLex (entryAddress e, t.sequence) ∈ q.activeTimers)
    (hnodup : (l.map entryAddress).Nodup) :
    ∃ activeTimers, l.foldl eraseActive q = { q with activeTimers } ∧
      activeTimers.size + l.length = q.activeTimers.size ∧
      ∀ b s, toLex (b, s) ∈ activeTimers ↔ toLex (b, s) ∈ q.activeTimers ∧
        ∀ t, b ∈ l.map entryAddress → q.heap b = some t → t.sequence ≠ s := by
  induction l generalizing q with
  | nil => exact ⟨q.activeTimers, rfl, rfl, by simp⟩
  | cons e l ih =>
    obtain ⟨t, ht, hm⟩ := hlive e List.mem_cons_self
    rw [List.map_cons, List.nodup_cons] at hnodup
    have hstep : q.eraseActive e =
        { q with activeTimers := q.activeTimers.erase (toLex (entryAddress e, t.sequence)) } := by
      refine (deref_of (a := entryAddress e) ht _).trans ?_
      have hcheck : q.check (toLex ((ofLex e).2, t.sequence) ∈ q.activeTimers) = q := check_of hm
      simp only [hcheck]
      rfl
    have hlive' : ∀ e' ∈ l, ∃ t', q.heap (entryAddress e') = some t' ∧
        toLex (entryAddress e', t'.sequence) ∈
          q.activeTimers.erase (toLex (entryAddress e, t.sequence)) := by
      intro e' he'
      obtain ⟨t', ht', hm'⟩ := hlive e' (List.mem_cons_of_mem e he')
      refine ⟨t', ht', OrdSet.mem_erase.mpr ⟨fun heq => ?_, hm'⟩⟩
      have := (Prod.mk.inj (toLex.injective heq)).1
      exact hnodup.1 (this ▸ List.mem_map_of_mem he')
    obtain ⟨A, hA, hsize, hmem⟩ := ih (q := { q with
      activeTimers := q.activeTimers.erase (toLex (entryAddress e, t.sequence)) }) hlive' hnodup.2
    refine ⟨A, ?_, ?_, fun b s => ?_⟩
    · rw [List.foldl_cons, hstep, hA]
    · have := OrdSet.size_erase hm
      simp only [List.length_cons] at hsize ⊢
      omega
    · rw [hmem]
      simp only [OrdSet.mem_erase, ne_eq, EmbeddingLike.apply_eq_iff_eq, Prod.mk.injEq,
        List.map_cons, List.mem_cons]
      constructor
      · rintro ⟨⟨hne, hb⟩, hrest⟩
        refine ⟨hb, fun t' hbl ht' => ?_⟩
        rcases hbl with rfl | hbl
        · rw [ht] at ht'
          cases ht'
          exact fun hs => hne ⟨rfl, hs.symm⟩
        · exact hrest t' hbl ht'
      · rintro ⟨hb, hrest⟩
        refine ⟨⟨?_, hb⟩, fun t' hbl => hrest t' (.inr hbl)⟩
        rintro ⟨rfl, rfl⟩
        exact hrest t (.inl rfl) ht rfl

theorem lt_sentry {e now : Timestamp} (ha : a < uintptrMax) :
    (toLex (e, a) : Entry) < toLex (now, uintptrMax) ↔ e ≤ now := by
  rw [Prod.Lex.toLex_lt_toLex']
  exact and_iff_left fun _ => ha

theorem IndexInv.lt_sentry {e now : Timestamp} (h : IndexInv q held)
    (he : toLex (e, a) ∈ q.timers) :
    (toLex (e, a) : Entry) < toLex (now, uintptrMax) ↔ e ≤ now := by
  obtain ⟨t, ht, -⟩ := h.timer e a he
  exact TimerQueue.lt_sentry (h.address a t ht)

/-- The entries that `GetExpired(now)` takes. -/
def expiredEntries (q : TimerQueue) (now : Timestamp) : List Entry :=
  (q.timers.below (toLex (now, uintptrMax))).elems

/-- **`GetExpired`** returns, in order, exactly the entries up to `now`. -/
theorem IndexInv.mem_expiredEntries (h : IndexInv q held) {now : Timestamp} {e : Entry} :
    e ∈ q.expiredEntries now ↔ e ∈ q.timers ∧ (ofLex e).1 ≤ now := by
  obtain ⟨⟨x, a⟩, rfl⟩ := toLex.surjective e
  show toLex (x, a) ∈ q.timers.below _ ↔ _
  rw [OrdSet.mem_below]
  exact and_congr_right fun hm => h.lt_sentry hm

theorem IndexInv.mem_notBelow (h : IndexInv q held) {now : Timestamp} {e : Entry} :
    e ∈ q.timers.notBelow (toLex (now, uintptrMax)) ↔ e ∈ q.timers ∧ now < (ofLex e).1 := by
  obtain ⟨⟨x, a⟩, rfl⟩ := toLex.surjective e
  rw [OrdSet.mem_notBelow]
  refine and_congr_right fun hm => ?_
  rw [← not_lt, h.lt_sentry hm, not_le]
  rfl

/-- The addresses of the entries differ. -/
theorem IndexInv.expiredEntries_nodup (h : IndexInv q held) (now : Timestamp) :
    ((q.expiredEntries now).map entryAddress).Nodup := by
  refine List.Nodup.map_on ?_ (q.timers.below _).nodup
  intro e he e' he' heq
  obtain ⟨⟨x, a⟩, rfl⟩ := toLex.surjective e
  obtain ⟨⟨x', a'⟩, rfl⟩ := toLex.surjective e'
  obtain rfl : a = a' := heq
  obtain ⟨t, ht, rfl⟩ := h.timer x a (h.mem_expiredEntries.mp he).1
  obtain ⟨t', ht', rfl⟩ := h.timer x' a (h.mem_expiredEntries.mp he').1
  rw [ht] at ht'
  cases ht'
  rfl

theorem IndexInv.expiredEntries_live (h : IndexInv q held) (now : Timestamp) :
    ∀ e ∈ q.expiredEntries now, ∃ t, q.heap (entryAddress e) = some t ∧
      toLex (entryAddress e, t.sequence) ∈ q.activeTimers := by
  intro e he
  obtain ⟨⟨x, a⟩, rfl⟩ := toLex.surjective e
  have hm := (h.mem_expiredEntries.mp he).1
  obtain ⟨t, ht, rfl⟩ := h.timer x a hm
  exact ⟨t, ht, (h.active _ _).mpr ⟨t, ht, rfl, hm⟩⟩

/-- `GetExpired` takes the entries out of both indexes. -/
theorem getExpired_eq (h : IndexInv q []) (now : Timestamp) :
    ∃ activeTimers, let timers := q.timers.notBelow (toLex (now, uintptrMax))
      q.getExpired now = (q.expiredEntries now, { q with timers, activeTimers }) ∧
      IndexInv { q with timers, activeTimers } (q.expiredEntries now) := by
  obtain ⟨A, hA, hsize, hmem⟩ := foldl_eraseActive
    (q := { q with timers := q.timers.notBelow (toLex (now, uintptrMax)) })
    (q.expiredEntries now) (h.expiredEntries_live now) (h.expiredEntries_nodup now)
  have hinv : IndexInv { q with
      timers := q.timers.notBelow (toLex (now, uintptrMax)), activeTimers := A }
      (q.expiredEntries now) := by
    refine ⟨h.ok, ?_, fun e a he => ?_, fun a s => ?_, fun e a he => ?_,
      h.expiredEntries_nodup now, fun a t ht => ?_, h.address⟩
    · have h₁ := OrdSet.size_below_add q.timers (toLex (now, uintptrMax))
      have h₂ := h.size_eq
      have h₃ : (q.expiredEntries now).length =
        (q.timers.below (toLex (now, uintptrMax))).size := rfl
      show (q.timers.notBelow _).size = A.size
      simp only at hsize
      omega
    · exact h.timer e a (h.mem_notBelow.mp he).1
    · rw [hmem, h.active]
      constructor
      · rintro ⟨⟨t, ht, rfl, hm⟩, hout⟩
        refine ⟨t, ht, rfl, h.mem_notBelow.mpr ⟨hm, ?_⟩⟩
        by_contra hle
        have hexp := h.mem_expiredEntries.mpr ⟨hm, not_lt.mp hle⟩
        exact hout t (List.mem_map_of_mem hexp) ht rfl
      · rintro ⟨t, ht, rfl, hm⟩
        obtain ⟨hm, hlt⟩ := h.mem_notBelow.mp hm
        refine ⟨⟨t, ht, rfl, hm⟩, fun t' ha _ _ => ?_⟩
        obtain ⟨e, he, rfl⟩ := List.mem_map.mp ha
        obtain ⟨t'', ht'', hexp⟩ := h.timer (ofLex e).1 _ (h.mem_expiredEntries.mp he).1
        obtain rfl : t = t'' := Option.some.inj (ht.symm.trans ht'')
        have hle := (h.mem_expiredEntries.mp he).2
        rw [← hexp] at hle
        exact absurd hlt (not_lt.mpr hle)
    · obtain ⟨hm, hle⟩ := h.mem_expiredEntries.mp he
      obtain ⟨t, ht, hexp⟩ := h.timer e a hm
      exact ⟨t, ht, hexp, fun hm' => absurd (h.mem_notBelow.mp hm').2 (not_lt.mpr hle)⟩
    · rcases h.placed a t ht with hm | hm
      · by_cases hle : t.expiration ≤ now
        · exact .inr (h.mem_expiredEntries.mpr ⟨hm, hle⟩)
        · exact .inl (h.mem_notBelow.mpr ⟨hm, not_le.mp hle⟩)
      · cases hm
  refine ⟨A, ?_, hinv⟩
  have hfirst : ∀ e ∈ (q.timers.notBelow (toLex (now, uintptrMax))).first, now < (ofLex e).1 :=
    fun e he => (h.mem_notBelow.mp (OrdSet.mem_of_first he)).2
  have hexpired : (q.timers.below (toLex (now, uintptrMax))).elems = q.expiredEntries now := rfl
  unfold getExpired
  simp only [check_of h.size_eq, check_of hfirst, hexpired, hA]
  exact Prod.ext rfl (check_of hinv.size_eq)

end TimerQueue

end MyTinyHttpd
