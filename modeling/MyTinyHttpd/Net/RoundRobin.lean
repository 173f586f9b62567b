import Mathlib.Data.Int.CardIntervalMod
import MyTinyHttpd.Net.EventLoopThreadPool

/-!
# Connections are spread evenly over the loops

`GetNextLoop` goes around `loops_`. A pool that is not resized has the loops that it was started
with.

* `nextLoops_eq`: what a number of calls returns, by the place where `next_` stands.
* `count_window`: a residue among consecutive numbers, from `Nat.count_modEq_card`.
* `roundRobin_balanced`: in any window of any run, each loop is returned `⌊k / n⌋` or `⌈k / n⌉`
  times.
-/

namespace MyTinyHttpd

namespace EventLoopThreadPool

/-- What consecutive calls of `GetNextLoop` return. -/
def nextLoops (s : EventLoopThreadPool) : Nat → List (Option LoopRef)
  | 0 => []
  | count + 1 => s.getNextLoop.1 :: s.getNextLoop.2.nextLoops count

/-- The pool after a number of calls. -/
def afterCalls (s : EventLoopThreadPool) : Nat → EventLoopThreadPool
  | 0 => s
  | count + 1 => s.getNextLoop.2.afterCalls count

theorem length_nextLoops (s : EventLoopThreadPool) (count : Nat) :
    (s.nextLoops count).length = count := by
  induction count generalizing s with
  | zero => rfl
  | succ count ih => rw [nextLoops, List.length_cons, ih]

theorem nextLoops_add (s : EventLoopThreadPool) (first count : Nat) :
    s.nextLoops (first + count) = s.nextLoops first ++ (s.afterCalls first).nextLoops count := by
  induction first generalizing s with
  | zero => rw [Nat.zero_add]; rfl
  | succ first ih => rw [Nat.succ_add, nextLoops, ih, nextLoops, afterCalls, List.cons_append]

/-- A pool with `n` loops that has not been resized. -/
structure Rotates (s : EventLoopThreadPool) (n : Nat) : Prop where
  loops_eq : s.loops = (List.range n).map .ofThread
  next_lt : s.next < n

variable {s : EventLoopThreadPool} {n : Nat}

theorem start_rotates (hn : 0 < n) : (start n).Rotates n := by
  rw [start_eq]
  exact ⟨by rw [List.range_eq_range'], hn⟩

theorem Rotates.getNextLoop_eq (h : s.Rotates n) :
    s.getNextLoop = (some (.ofThread s.next), { s with next := (s.next + 1) % n }) := by
  have hnext := h.next_lt
  have hne : s.loops.isEmpty = false := by
    rw [h.loops_eq, List.isEmpty_eq_false_iff, ne_eq, List.map_eq_nil_iff, List.range_eq_nil]
    omega
  have hget : s.loops[s.next]? = some (.ofThread s.next) := by
    simp [h.loops_eq, hnext]
  have hlen : s.loops.length = n := by simp [h.loops_eq]
  simp only [getNextLoop, hne, Bool.false_eq_true, ↓reduceIte, hget, hlen]
  by_cases hwrap : n ≤ s.next + 1
  · rw [if_pos hwrap, show s.next + 1 = n by omega, Nat.mod_self]
  · rw [if_neg hwrap, Nat.mod_eq_of_lt (by omega)]

theorem Rotates.getNextLoop (h : s.Rotates n) : s.getNextLoop.2.Rotates n := by
  rw [h.getNextLoop_eq]
  exact ⟨h.loops_eq, Nat.mod_lt _ (Nat.zero_lt_of_lt h.next_lt)⟩

theorem Rotates.afterCalls (h : s.Rotates n) (count : Nat) : (s.afterCalls count).Rotates n := by
  induction count generalizing s with
  | zero => exact h
  | succ count ih => exact ih h.getNextLoop

theorem Rotates.nextLoops_eq (h : s.Rotates n) (count : Nat) :
    s.nextLoops count = (List.range count).map fun i => some (.ofThread ((s.next + i) % n)) := by
  induction count generalizing s with
  | zero => rfl
  | succ count ih =>
    rw [nextLoops, ih h.getNextLoop, h.getNextLoop_eq, List.range_succ_eq_map, List.map_cons,
      List.map_map]
    simp only [Nat.add_zero, Nat.mod_eq_of_lt h.next_lt]
    congr 1
    refine List.map_congr_left fun i _ => ?_
    simp only [Function.comp_apply, Nat.mod_add_mod, Nat.succ_eq_add_one, Nat.add_assoc,
      Nat.add_comm 1 i]

/-! ## Counting -/

theorem countP_range (p : Nat → Bool) (count : Nat) :
    (List.range count).countP p = Nat.count (fun i => p i = true) count := by
  induction count with
  | zero => rfl
  | succ count ih => rw [List.range_succ, List.countP_append, ih, Nat.count_succ]; simp

theorem ceil_div_eq (hn : 0 < n) {count : Nat} (hpos : 0 < count % n) :
    (count + n - 1) / n = count / n + 1 := by
  have hdiv := Nat.div_add_mod count n
  have hlt := Nat.mod_lt count hn
  have hsum : count + n - 1 = n * (count / n + 1) + (count % n - 1) := by
    rw [Nat.mul_add]
    omega
  have hrest : (count % n - 1) / n = 0 := Nat.div_eq_of_lt (Nat.lt_of_le_of_lt (Nat.sub_le _ _) hlt)
  rw [hsum, Nat.mul_add_div hn, hrest, Nat.add_zero]

/-- How often a residue occurs among `count` consecutive numbers. -/
theorem count_window {t : Nat} (ht : t < n) (first count : Nat) :
    (List.range count).countP (fun i => (first + i) % n = t) = count / n ∨
      (List.range count).countP (fun i => (first + i) % n = t) = (count + n - 1) / n := by
  have hn : 0 < n := Nat.zero_lt_of_lt ht
  -- the number with which the residue begins
  obtain ⟨v, hv⟩ : ∃ v, first + v ≡ t [MOD n] := by
    refine ⟨t + (n - first % n), ?_⟩
    have hfirst := Nat.div_add_mod first n
    have hlt := Nat.mod_lt first hn
    have hsum : first + (t + (n - first % n)) = t + n * (first / n + 1) := by
      rw [Nat.mul_add]
      omega
    rw [Nat.ModEq, hsum, Nat.add_mul_mod_self_left]
  have hiff : ∀ i, (first + i) % n = t ↔ i ≡ v [MOD n] := by
    intro i
    rw [← Nat.mod_eq_of_lt ht]
    exact ⟨fun h => Nat.ModEq.add_left_cancel' first (Nat.ModEq.trans h hv.symm),
      fun h => (h.add_left first).trans hv⟩
  have hcount : (List.range count).countP (fun i => (first + i) % n = t) =
      count / n + if v % n < count % n then 1 else 0 := by
    rw [countP_range, ← Nat.count_modEq_card count hn]
    simp only [decide_eq_true_eq, hiff]
  rw [hcount]
  split
  · rename_i hlt
    exact .inr (ceil_div_eq hn (Nat.zero_lt_of_lt hlt)).symm
  · exact .inl (Nat.add_zero _)

theorem mem_loops_start {loop : LoopRef} :
    loop ∈ (start n).loops ↔ ∃ t < n, loop = .ofThread t := by
  rw [start_eq, ← List.range_eq_range']
  simp [eq_comm]

/-- **Round-robin dispatch is balanced.** For every pool that has been started with `n ≥ 1` loops
and is not resized, and any consecutive calls of `GetNextLoop` of any run: each loop is returned
`⌊k / n⌋` or `⌈k / n⌉` times, where `k` is the number of these calls, and each call returns an
element of `loops_`. -/
theorem roundRobin_balanced (n : Nat) (hn : 0 < n) (count : Nat)
    (before window after : List (Option LoopRef))
    (hrun : (start n).nextLoops count = before ++ window ++ after) :
    (∀ loop ∈ (start n).loops,
        window.count (some loop) = window.length / n ∨
          window.count (some loop) = (window.length + n - 1) / n) ∧
      ∀ r ∈ window, ∃ loop ∈ (start n).loops, r = some loop := by
  -- the window is what the calls after the first ones return
  have hlen : count = before.length + (window.length + after.length) := by
    have := congrArg List.length hrun
    simpa only [length_nextLoops, List.length_append, Nat.add_assoc] using this
  obtain ⟨s, hs, hwindow⟩ : ∃ s : EventLoopThreadPool, s.Rotates n ∧
      window = s.nextLoops window.length := by
    refine ⟨(start n).afterCalls before.length, (start_rotates hn).afterCalls _, ?_⟩
    rw [hlen, nextLoops_add, nextLoops_add, List.append_assoc] at hrun
    have hrest := (List.append_inj hrun (length_nextLoops _ _)).2
    exact ((List.append_inj hrest (length_nextLoops _ _)).1).symm
  rw [hs.nextLoops_eq] at hwindow
  constructor
  · intro loop hloop
    obtain ⟨t, ht, rfl⟩ := mem_loops_start.mp hloop
    have hcount : window.count (some (.ofThread t)) =
        (List.range window.length).countP fun i => (s.next + i) % n = t := by
      conv_lhs => rw [hwindow]
      rw [List.count, List.countP_map]
      refine List.countP_congr fun i _ => ?_
      simp
    rw [hcount]
    exact count_window ht s.next window.length
  · intro r hr
    rw [hwindow] at hr
    obtain ⟨i, -, rfl⟩ := List.mem_map.mp hr
    exact ⟨_, mem_loops_start.mpr ⟨_, Nat.mod_lt _ hn, rfl⟩, rfl⟩

/-- Five calls of a run of seven, with three loops. -/
theorem threeLoops_balanced :
    let window := [some (.ofThread 1), some (.ofThread 2), some (.ofThread 0), some (.ofThread 1),
      some (.ofThread 2)]
    (start 3).nextLoops 7 = [some (.ofThread 0)] ++ window ++ [some (.ofThread 0)] ∧
      (window.count (some (LoopRef.ofThread 0)) = 5 / 3 ∨
        window.count (some (LoopRef.ofThread 0)) = (5 + 3 - 1) / 3) := by
  intro window
  have hrun : (start 3).nextLoops 7 =
      [some (.ofThread 0)] ++ window ++ [some (.ofThread 0)] := by decide
  exact ⟨hrun, (roundRobin_balanced 3 (by decide) 7 _ window _ hrun).1 _ (by decide)⟩

end EventLoopThreadPool

end MyTinyHttpd
