import MyTinyHttpd.Lib.Machine

/-!
# Monitors

A monitor is a shared state with operations that exclude each other. An operation tests first
whether it can go on (`ready`). If it cannot, its thread sleeps on a condition of the operation
until it is woken up, and tests again.

* **Wake-ups.** An operation that goes on owes notifications (`signals`): to one thread that sleeps
  on a condition, or to all of them. A notification makes the sleeper test again; another thread
  may be faster. A sleeper may also wake up without a notification (`rouse`).
* **Accounting** (`Wakes`). `demand c` says how many sleepers on `c` could go on one after the
  other, `freed c` that all of them could. An operation that raises the demand notifies as many
  threads, one that frees a condition notifies all. `WakeInv` is what follows for every reachable
  state: as long as somebody sleeps on `c`, there are as many threads awake or about to be notified
  as the demand. So no wake-up is lost (`parked_not_ready`).
* **Order** (`Replays`). The operations that have gone on are a sequential run.
-/

namespace Verif

/-- A notification on a condition: to one thread, or to all. -/
inductive Signal (κ : Type) where
  | one (c : κ)
  | all (c : κ)
  deriving DecidableEq

/-- The operations `ο` of a monitor with the shared state `σ`, conditions `κ` and results `ρ`. -/
structure MonitorOps (σ κ ο ρ : Type) where
  /-- The condition that the operation sleeps on. -/
  cond : ο → Option κ
  ready : ο → σ → Bool
  act : ο → σ → σ × ρ
  signals : ο → σ → List (Signal κ)

/-- Where a thread is. -/
inductive Seat (ο : Type) where
  | out
  /-- It will test whether it can go on. -/
  | awake (op : ο)
  | parked (op : ο)
  deriving DecidableEq

/-- A parked thread will test again. -/
def Seat.wake {ο : Type} : Seat ο → Seat ο
  | .parked op => .awake op
  | seat => seat

structure Monitor (σ κ ο ρ : Type) where
  shared : σ
  threads : List (Seat ο)
  /-- The notifications of the last operation that have not been given. -/
  owed : List (Signal κ) := []
  /-- The operations that have gone on, with their threads and results. -/
  done : List (Nat × ο × ρ) := []

/-- The steps of a monitor; `t` and `u` are indices of threads. -/
inductive MonitorStep (ο : Type) where
  | call (t : Nat) (op : ο)
  /-- The thread tests, and goes on or sleeps. -/
  | run (t : Nat)
  /-- The next notification is given, to the thread `u` if it is for one thread and somebody
  sleeps. -/
  | deliver (u : Option Nat)
  /-- A thread wakes up without a notification. -/
  | rouse (t : Nat)

namespace Monitor

variable {σ κ ο ρ : Type} [DecidableEq κ] (ops : MonitorOps σ κ ο ρ)

def parkedOn (c : κ) : Seat ο → Bool
  | .parked op => ops.cond op = some c
  | .out | .awake _ => false

def awakeOn (c : κ) : Seat ο → Bool
  | .awake op => ops.cond op = some c
  | .out | .parked _ => false

/-- The thread `u` is woken up. -/
def wakeAt (threads : List (Seat ο)) (u : Nat) : List (Seat ο) :=
  match threads[u]? with
  | some seat => threads.set u seat.wake
  | none => threads

/-! ## Steps -/

def run (m : Monitor σ κ ο ρ) (t : Nat) : Monitor σ κ ο ρ :=
  match m.threads[t]? with
  | some (.awake op) =>
    if ops.ready op m.shared then
      { shared := (ops.act op m.shared).1
        threads := m.threads.set t .out
        owed := ops.signals op m.shared
        done := m.done ++ [(t, op, (ops.act op m.shared).2)] }
    else { m with threads := m.threads.set t (.parked op) }
  | _ => m

/-- The threads after a notification. -/
def notified (threads : List (Seat ο)) (u : Option Nat) : Signal κ → List (Seat ο)
  | .one _ =>
    match u with
    | some u => wakeAt threads u
    | none => threads
  | .all c => threads.map fun seat => if parkedOn ops c seat then seat.wake else seat

def deliver (m : Monitor σ κ ο ρ) (u : Option Nat) : Monitor σ κ ο ρ :=
  match m.owed with
  | [] => m
  | signal :: owed => { m with owed, threads := notified ops m.threads u signal }

def step (m : Monitor σ κ ο ρ) : MonitorStep ο → Monitor σ κ ο ρ
  | .call t op => { m with threads := m.threads.set t (.awake op) }
  | .run t => m.run ops t
  | .deliver u => m.deliver ops u
  | .rouse t => { m with threads := wakeAt m.threads t }

/-- Who gets a notification: one of those that sleep on the condition, if there is one. -/
def Receives (threads : List (Seat ο)) (u : Option Nat) : Signal κ → Prop
  | .one c =>
    match u with
    | some u => ∃ seat, threads[u]? = some seat ∧ parkedOn ops c seat = true
    | none => ∀ seat ∈ threads, parkedOn ops c seat = false
  | .all _ => u = none

/-- The steps that the threads can take. No operation goes on while notifications are owed. -/
def Admissible (m : Monitor σ κ ο ρ) : MonitorStep ο → Prop
  | .call t _ => m.threads[t]? = some .out
  | .run t => m.owed = [] ∧ ∃ op, m.threads[t]? = some (.awake op)
  | .deliver u => ∃ signal owed, m.owed = signal :: owed ∧ Receives ops m.threads u signal
  | .rouse t => ∃ op, m.threads[t]? = some (.parked op)

/-! ## Counting threads -/

section

variable {ops} {threads : List (Seat ο)} {t : Nat} {old : Seat ο}

/-- One thread moves. -/
theorem countP_move (p : Seat ο → Bool) (h : threads[t]? = some old) (new : Seat ο) :
    (threads.set t new).countP p + (if p old then 1 else 0) =
      threads.countP p + if p new then 1 else 0 := by
  obtain ⟨hlt, rfl⟩ := List.getElem?_eq_some_iff.mp h
  have hle : (if p threads[t] then 1 else 0) ≤ threads.countP p := by
    split
    · next hp => exact List.countP_pos_iff.mpr ⟨_, List.getElem_mem hlt, hp⟩
    · exact Nat.zero_le _
  rw [List.countP_set hlt]
  omega

@[simp] theorem parkedOn_wake (c : κ) (seat : Seat ο) : parkedOn ops c seat.wake = false := by
  cases seat <;> rfl

@[simp] theorem awakeOn_wake (c : κ) (seat : Seat ο) :
    awakeOn ops c seat.wake = (awakeOn ops c seat || parkedOn ops c seat) := by
  cases seat <;> simp [Seat.wake, awakeOn, parkedOn]

theorem not_awakeOn_of_parkedOn {c c' : κ} {seat : Seat ο} (h : parkedOn ops c seat = true) :
    awakeOn ops c' seat = false := by
  cases seat with
  | parked op => rfl
  | out | awake => cases h

variable (ops) in
/-- Waking a thread up takes it from those that sleep to those that are awake. -/
theorem wakeAt_counts (c : κ) (h : threads[t]? = some old) :
    (wakeAt threads t).countP (parkedOn ops c) + (if parkedOn ops c old then 1 else 0) =
        threads.countP (parkedOn ops c) ∧
      (wakeAt threads t).countP (awakeOn ops c) =
        threads.countP (awakeOn ops c) + if parkedOn ops c old then 1 else 0 := by
  have hwake : wakeAt threads t = threads.set t old.wake := by simp only [wakeAt, h]
  have hparked := countP_move (parkedOn ops c) h old.wake
  have hawake := countP_move (awakeOn ops c) h old.wake
  rw [hwake]
  by_cases hp : parkedOn ops c old = true
  · simp only [parkedOn_wake, awakeOn_wake, not_awakeOn_of_parkedOn hp, hp, Bool.or_true,
      if_true, Bool.false_eq_true, if_false] at hparked hawake ⊢
    omega
  · simp only [parkedOn_wake, awakeOn_wake, hp, Bool.or_false, Bool.false_eq_true, if_false]
      at hparked hawake ⊢
    omega

variable (ops) in
/-- A notification to all leaves nobody asleep on its condition, and those on the others as they
are. -/
theorem notified_all_counts (threads : List (Seat ο)) (u : Option Nat) (c c' : κ) :
    (notified ops threads u (.all c)).countP (parkedOn ops c) = 0 ∧
      (c' ≠ c →
        (notified ops threads u (.all c)).countP (parkedOn ops c') =
            threads.countP (parkedOn ops c') ∧
          (notified ops threads u (.all c)).countP (awakeOn ops c') =
            threads.countP (awakeOn ops c')) := by
  simp only [notified, List.countP_map]
  refine ⟨List.countP_eq_zero.mpr fun seat _ => ?_, fun hne => ⟨?_, ?_⟩⟩
  · by_cases hp : parkedOn ops c seat = true <;> simp [hp]
  · refine List.countP_congr fun seat _ => ?_
    cases seat with
    | out | awake => simp [parkedOn]
    | parked op =>
      by_cases hop : ops.cond op = some c
      · simp [parkedOn, Seat.wake, hop, hne.symm]
      · simp [parkedOn, hop]
  · refine List.countP_congr fun seat _ => ?_
    cases seat with
    | out | awake => simp [parkedOn]
    | parked op =>
      by_cases hop : ops.cond op = some c
      · simp [parkedOn, awakeOn, Seat.wake, hop, hne.symm]
      · simp [parkedOn, hop]

theorem parked_mem_wakeAt {op : ο} (h : .parked op ∈ wakeAt threads t) :
    .parked op ∈ threads := by
  unfold wakeAt at h
  split at h
  · next seat _ =>
    rcases List.mem_or_eq_of_mem_set h with h | h
    · exact h
    · cases seat <;> cases h
  · exact h

/-- A notification puts nobody to sleep. -/
theorem parked_mem_notified {u : Option Nat} {signal : Signal κ} {op : ο}
    (h : .parked op ∈ notified ops threads u signal) : .parked op ∈ threads := by
  cases signal with
  | one c =>
    cases u with
    | none => exact h
    | some u => exact parked_mem_wakeAt h
  | all c =>
    obtain ⟨seat, hmem, hseat⟩ := List.mem_map.mp h
    split at hseat
    · cases seat <;> cases hseat
    · exact hseat ▸ hmem

end

/-! ## No wake-up is lost -/

/-- What the operations have to do for those that sleep. -/
structure Wakes (demand : κ → σ → Nat) (freed : κ → σ → Prop) : Prop where
  /-- Who sleeps cannot go on. -/
  stay : ∀ op a, ops.ready op a = false →
    ∃ c, ops.cond op = some c ∧ demand c a = 0 ∧ ¬ freed c a
  /-- Who goes on notifies all, or does not free the condition and notifies for what is new in the
  demand, without its own part. -/
  go : ∀ op a c, ops.ready op a = true → ¬ freed c a →
    .all c ∈ ops.signals op a ∨
      ¬ freed c (ops.act op a).1 ∧
        demand c (ops.act op a).1 + (if ops.cond op = some c then 1 else 0) ≤
          demand c a + (ops.signals op a).count (.one c)
  /-- Without a demand nobody can go on. -/
  blocked : ∀ op a c, ops.cond op = some c → demand c a = 0 → ¬ freed c a → ops.ready op a = false

structure WakeInv (demand : κ → σ → Nat) (freed : κ → σ → Prop) (m : Monitor σ κ ο ρ) : Prop where
  /-- Who sleeps has a condition. -/
  conds : ∀ op, .parked op ∈ m.threads → ∃ c, ops.cond op = some c
  /-- As long as somebody sleeps on a condition, the demand is met by those that are awake and by
  the notifications that are owed. -/
  met : ∀ c, 0 < m.threads.countP (parkedOn ops c) → .all c ∉ m.owed →
    ¬ freed c m.shared ∧
      demand c m.shared ≤ m.threads.countP (awakeOn ops c) + m.owed.count (.one c)

variable {ops} {demand : κ → σ → Nat} {freed : κ → σ → Prop} {m : Monitor σ κ ο ρ}

theorem WakeInv.call (h : WakeInv ops demand freed m) {t : Nat}
    (ht : m.threads[t]? = some .out) (op : ο) :
    WakeInv ops demand freed { m with threads := m.threads.set t (.awake op) } := by
  refine ⟨fun op' hmem => h.conds op' ?_, fun c hparked hall => ?_⟩
  · simpa using List.mem_or_eq_of_mem_set hmem
  have hp := countP_move (parkedOn ops c) ht (.awake op)
  have ha := countP_move (awakeOn ops c) ht (.awake op)
  simp only [parkedOn, awakeOn, Bool.false_eq_true, if_false] at hp ha
  obtain ⟨hfreed, hdemand⟩ := h.met c (by dsimp only at hparked; omega) hall
  exact ⟨hfreed, by dsimp only; omega⟩

theorem WakeInv.rouse (h : WakeInv ops demand freed m) {t : Nat} {seat : Seat ο}
    (ht : m.threads[t]? = some seat) :
    WakeInv ops demand freed { m with threads := wakeAt m.threads t } := by
  refine ⟨fun op hmem => h.conds op (parked_mem_wakeAt hmem), fun c hparked hall => ?_⟩
  obtain ⟨hp, ha⟩ := wakeAt_counts ops c ht
  obtain ⟨hfreed, hdemand⟩ := h.met c (by dsimp only at hparked; omega) hall
  exact ⟨hfreed, by dsimp only; omega⟩

theorem WakeInv.run (hwakes : Wakes ops demand freed) (h : WakeInv ops demand freed m) {t : Nat}
    (howed : m.owed = []) {op : ο} (ht : m.threads[t]? = some (.awake op)) :
    WakeInv ops demand freed (m.run ops t) := by
  unfold Monitor.run
  simp only [ht]
  split
  · next hready =>
    refine ⟨fun op' hmem => h.conds op' ?_, fun c hparked hall => ?_⟩
    · simpa using List.mem_or_eq_of_mem_set hmem
    have hp := countP_move (parkedOn ops c) ht .out
    have ha := countP_move (awakeOn ops c) ht .out
    simp only [parkedOn, awakeOn, Bool.false_eq_true, if_false, decide_eq_true_eq] at hp ha
    dsimp only at hparked hall ⊢
    obtain ⟨hfreed, hdemand⟩ := h.met c (by omega) (by simp [howed])
    obtain hnotified | ⟨hkeep, hnew⟩ := hwakes.go op m.shared c hready hfreed
    · exact absurd hnotified hall
    · rw [howed, List.count_nil] at hdemand
      exact ⟨hkeep, by omega⟩
  · next hready =>
    obtain ⟨c', hcond, hzero, hclosed⟩ := hwakes.stay op m.shared (by simpa using hready)
    refine ⟨fun op' hmem => ?_, fun c hparked hall => ?_⟩
    · rcases List.mem_or_eq_of_mem_set hmem with hmem | hmem
      · exact h.conds op' hmem
      · cases hmem
        exact ⟨c', hcond⟩
    have hp := countP_move (parkedOn ops c) ht (.parked op)
    have ha := countP_move (awakeOn ops c) ht (.parked op)
    simp only [parkedOn, awakeOn, Bool.false_eq_true, if_false, decide_eq_true_eq] at hp ha
    dsimp only at hparked hall ⊢
    -- On its own condition there is no demand; the others are as before.
    by_cases hc : ops.cond op = some c
    · obtain rfl : c' = c := by simpa [hcond] using hc
      exact ⟨hclosed, by omega⟩
    · rw [if_neg hc] at hp ha
      obtain ⟨hfreed, hdemand⟩ := h.met c (by omega) hall
      exact ⟨hfreed, by omega⟩

theorem WakeInv.deliver (h : WakeInv ops demand freed m) {u : Option Nat} {signal : Signal κ}
    {owed : List (Signal κ)} (howed : m.owed = signal :: owed)
    (hu : Receives ops m.threads u signal) : WakeInv ops demand freed (m.deliver ops u) := by
  unfold Monitor.deliver
  simp only [howed]
  refine ⟨fun op hmem => h.conds op (parked_mem_notified hmem), fun c hparked hall => ?_⟩
  dsimp only at hparked hall ⊢
  have hold := h.met c
  rw [howed] at hold
  cases signal with
  | one c₀ =>
    have hall' : .all c ∉ Signal.one c₀ :: owed := by simpa using hall
    cases u with
    | none =>
      -- Nobody sleeps on the condition.
      have hne : c₀ ≠ c := by
        rintro rfl
        obtain ⟨seat, hseat, hp⟩ := List.countP_pos_iff.mp hparked
        exact absurd hp (by simp [hu seat hseat])
      have hcount : (Signal.one c₀ :: owed).count (.one c) = owed.count (.one c) :=
        List.count_cons_of_ne (by simpa using hne)
      rw [hcount] at hold
      exact hold hparked hall'
    | some u =>
      obtain ⟨seat, hseat, hp⟩ := hu
      obtain ⟨hmoved, hawake⟩ := wakeAt_counts ops c hseat
      simp only [notified] at hparked ⊢
      obtain ⟨hfreed, hdemand⟩ := hold (by omega) hall'
      refine ⟨hfreed, ?_⟩
      rw [List.count_cons] at hdemand
      by_cases hc : c₀ = c
      · subst hc
        simp only [hp, if_true, beq_self_eq_true] at hawake hdemand
        omega
      · have hbeq : (Signal.one c₀ == Signal.one c) = false := by simpa using hc
        rw [hbeq] at hdemand
        simp only [Bool.false_eq_true, if_false] at hdemand
        omega
  | all c₀ =>
    obtain ⟨hnone, hothers⟩ := notified_all_counts ops m.threads u c₀ c
    by_cases hc : c = c₀
    · subst hc
      omega
    · obtain ⟨hp, ha⟩ := hothers hc
      have hcount : (Signal.all c₀ :: owed).count (.one c) = owed.count (.one c) :=
        List.count_cons_of_ne (by simp)
      rw [hcount] at hold
      rw [hp] at hparked
      rw [ha]
      exact hold hparked (by simp [hc, hall])

theorem WakeInv.step (hwakes : Wakes ops demand freed) (h : WakeInv ops demand freed m)
    {i : MonitorStep ο} (hi : Admissible ops m i) : WakeInv ops demand freed (m.step ops i) := by
  cases i with
  | call t op => exact h.call hi op
  | run t =>
    obtain ⟨howed, op, ht⟩ := hi
    exact h.run hwakes howed ht
  | deliver u =>
    obtain ⟨signal, owed, howed, hu⟩ := hi
    exact h.deliver howed hu
  | rouse t =>
    obtain ⟨op, ht⟩ := hi
    exact h.rouse ht

/-- A monitor that nobody has used. -/
def fresh (a : σ) (n : Nat) : Monitor σ κ ο ρ where
  shared := a
  threads := List.replicate n .out

theorem wakeInv_fresh (a : σ) (n : Nat) :
    WakeInv ops demand freed (fresh a n : Monitor σ κ ο ρ) := by
  refine ⟨fun op hmem => ?_, fun c hparked => ?_⟩
  · cases List.eq_of_mem_replicate hmem
  · obtain ⟨seat, hseat, hp⟩ := List.countP_pos_iff.mp hparked
    rw [List.eq_of_mem_replicate hseat] at hp
    cases hp

theorem wakeInv_run (hwakes : Wakes ops demand freed) {a : σ} {n : Nat}
    {is : List (MonitorStep ο)}
    (h : Legal (step ops) (Admissible ops) (fresh a n : Monitor σ κ ο ρ) is) :
    WakeInv ops demand freed (is.foldl (step ops) (fresh a n : Monitor σ κ ο ρ)) :=
  legal_invariant (I := WakeInv ops demand freed) (fun _ _ hm hi => hm.step hwakes hi)
    (wakeInv_fresh a n) h

/-- **No wake-up is lost.** When nobody is awake and nothing is owed, those that sleep cannot go
on. -/
theorem WakeInv.parked_not_ready (h : WakeInv ops demand freed m) (hwakes : Wakes ops demand freed)
    (howed : m.owed = []) (hawake : ∀ seat ∈ m.threads, ∀ c, awakeOn ops c seat = false) {op : ο}
    (hparked : .parked op ∈ m.threads) : ops.ready op m.shared = false := by
  obtain ⟨c, hcond⟩ := h.conds op hparked
  have hsleeps : 0 < m.threads.countP (parkedOn ops c) :=
    List.countP_pos_iff.mpr ⟨.parked op, hparked, by simp [parkedOn, hcond]⟩
  have hnone : m.threads.countP (awakeOn ops c) = 0 :=
    List.countP_eq_zero.mpr fun seat hseat => by simp [hawake seat hseat]
  obtain ⟨hclosed, hdemand⟩ := h.met c hsleeps (by simp [howed])
  rw [hnone, howed, List.count_nil] at hdemand
  exact hwakes.blocked op m.shared c hcond (by omega) hclosed

/-! ## The operations, one after the other -/

/-- The operations of the log, one after the other, lead from `a` to a state; each could go on, and
has the result of the log. -/
inductive Replays (ops : MonitorOps σ κ ο ρ) (a : σ) : List (Nat × ο × ρ) → σ → Prop where
  | nil : Replays ops a [] a
  | snoc {log : List (Nat × ο × ρ)} {b : σ} (h : Replays ops a log b) (t : Nat) (op : ο)
      (hready : ops.ready op b = true) :
      Replays ops a (log ++ [(t, op, (ops.act op b).2)]) (ops.act op b).1

omit [DecidableEq κ] in
theorem Replays.init {a b : σ} {log : List (Nat × ο × ρ)} {entry : Nat × ο × ρ}
    (h : Replays ops a (log ++ [entry]) b) : ∃ b', Replays ops a log b' := by
  generalize hlog : log ++ [entry] = log' at h
  cases h with
  | nil => simp at hlog
  | snoc h t op hready =>
    obtain ⟨rfl, -⟩ := List.append_inj' hlog rfl
    exact ⟨_, h⟩

theorem replays_run {a : σ} {n : Nat} {is : List (MonitorStep ο)}
    (h : Legal (step ops) (Admissible ops) (fresh a n : Monitor σ κ ο ρ) is) :
    Replays ops a (is.foldl (step ops) (fresh a n)).done
      (is.foldl (step ops) (fresh a n)).shared := by
  refine legal_invariant (I := fun m => Replays ops a m.done m.shared) ?_ .nil h
  intro m i hm hi
  cases i with
  | call | rouse => exact hm
  | deliver u =>
    simp only [step, deliver]
    split <;> exact hm
  | run t =>
    obtain ⟨-, op, ht⟩ := hi
    simp only [step, run, ht]
    split
    · next hready => exact hm.snoc t op hready
    · exact hm

end Monitor

end Verif
