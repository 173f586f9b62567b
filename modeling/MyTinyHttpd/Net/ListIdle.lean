import MyTinyHttpd.Lib.Machine
import MyTinyHttpd.Net.TimingList

/-!
# One pass over the timing list

`OnTimer` stops at the first connection that is young. That is right when the list is in the order
of the time stamps. But `OnMessage` stamps the time when the poll returned and `OnConnection` the
time of its call, so a connection that comes up is stamped later than a message after it.

* `scan_spec`: what the pass does, by the part of the list that it reaches.
* `ListInv`: the list is in order, except for a message after a connection came up in one iteration.
* `caught_iff`: one pass catches every idle connection unless a young connection of this kind stands
  before it.
* `every_pass_catches_iff`: the same for every pass of a run.
-/

namespace MyTinyHttpd

open Verif
open scoped List

namespace TimingList

variable {idleSeconds : Int} {l l' : TimingList} {c : Nat} {now : Timestamp}

/-! ## The pass -/

/-- The connection exists and is too old, as the pass sees it. -/
def IsOld (idleSeconds : Int) (now : Timestamp) (conn : ListConn) : Prop :=
  ∃ node, conn.timingContext = some node ∧ TooOld idleSeconds now node

/-- The time stamps and the objects are as before. -/
structure SameStamps (l l' : TimingList) : Prop where
  timingContext : ∀ c, (l'.conns c).timingContext = (l.conns c).timingContext
  isGone : ∀ c, (l'.conns c).isGone = (l.conns c).isGone
  clock : l'.clock = l.clock
  pollReturnTime : l'.pollReturnTime = l.pollReturnTime
  iteration : l'.iteration = l.iteration
  failed : l'.failed = l.failed

theorem SameStamps.refl (l : TimingList) : SameStamps l l :=
  ⟨fun _ => rfl, fun _ => rfl, rfl, rfl, rfl, rfl⟩

theorem SameStamps.trans {l'' : TimingList} (h : SameStamps l l') (h' : SameStamps l' l'') :
    SameStamps l l'' :=
  ⟨fun c => (h'.timingContext c).trans (h.timingContext c),
    fun c => (h'.isGone c).trans (h.isGone c), h'.clock.trans h.clock,
    h'.pollReturnTime.trans h.pollReturnTime, h'.iteration.trans h.iteration,
    h'.failed.trans h.failed⟩

/-- A change of the state of one connection. -/
theorem SameStamps.setConn {conn : ListConn}
    (hcontext : conn.timingContext = (l.conns c).timingContext)
    (hgone : conn.isGone = (l.conns c).isGone) : SameStamps l (l.setConn c conn) := by
  refine ⟨fun d => ?_, fun d => ?_, rfl, rfl, rfl, rfl⟩
  · by_cases hd : d = c
    · subst hd
      simp [TimingList.setConn, hcontext]
    · simp [TimingList.setConn, hd]
  · by_cases hd : d = c
    · subst hd
      simp [TimingList.setConn, hgone]
    · simp [TimingList.setConn, hd]

/-- What `OnTimer` does to a connection that is too old. -/
def closeOld (conn : ListConn) : ListConn := conn.shutdown.forceCloseWithDelay

@[simp] theorem closeOld_timingContext (conn : ListConn) :
    (closeOld conn).timingContext = conn.timingContext := by
  simp only [closeOld, ListConn.shutdown, ListConn.forceCloseWithDelay, ListConn.setState]
  split <;> split <;> rfl

@[simp] theorem closeOld_isGone (conn : ListConn) : (closeOld conn).isGone = conn.isGone := by
  simp only [closeOld, ListConn.shutdown, ListConn.forceCloseWithDelay, ListConn.setState]
  split <;> split <;> rfl

@[simp] theorem closeOld_isConnected (conn : ListConn) : (closeOld conn).isConnected = false := by
  obtain ⟨state, gone, context⟩ := conn
  cases state <;> rfl

/-- What a pass does when it gets as far as `reached`. -/
structure Pass (idleSeconds : Int) (now : Timestamp) (l l' : TimingList)
    (reached rest : List Nat) : Prop where
  same : SameStamps l l'
  passed : ∀ c ∈ reached, (l.conns c).isGone = true ∨ IsOld idleSeconds now (l.conns c)
  stop : ∀ c ∈ rest.head?, (l.conns c).isGone = false ∧ ¬ IsOld idleSeconds now (l.conns c)
  closed : ∀ c ∈ reached, (l.conns c).isGone = false → (l'.conns c).isConnected = false
  others : ∀ c ∉ reached, l'.conns c = l.conns c
  sublist : l'.connectionList <+ l.connectionList
  kept : ∀ c ∈ l.connectionList, (l.conns c).isGone = false → c ∈ l'.connectionList

theorem Pass.of_head {rest : List Nat}
    (h : ∀ c ∈ rest.head?, (l.conns c).isGone = false ∧ ¬ IsOld idleSeconds now (l.conns c)) :
    Pass idleSeconds now l l [] rest :=
  ⟨SameStamps.refl l, by simp, h, by simp, fun _ _ => rfl, .refl _, fun _ h _ => h⟩

/-- The pass goes on after `c`: it has erased it, closed it or left it. -/
theorem Pass.cons {l₁ : TimingList} {reached rest : List Nat}
    (h : Pass idleSeconds now l₁ l' reached rest) (hsame : SameStamps l l₁)
    (hc : (l.conns c).isGone = true ∨ IsOld idleSeconds now (l.conns c))
    (hclosed : (l.conns c).isGone = false → (l₁.conns c).isConnected = false)
    (hothers : ∀ d, d ≠ c → l₁.conns d = l.conns d)
    (hsublist : l₁.connectionList <+ l.connectionList)
    (hkept : ∀ d ∈ l.connectionList, (l.conns d).isGone = false → d ∈ l₁.connectionList) :
    Pass idleSeconds now l l' (c :: reached) rest := by
  have hold : ∀ d, IsOld idleSeconds now (l₁.conns d) ↔ IsOld idleSeconds now (l.conns d) := by
    intro d
    rw [IsOld, IsOld, hsame.timingContext]
  refine ⟨hsame.trans h.same, fun d hd => ?_, fun d hd => ?_, fun d hd hgone => ?_, fun d hd => ?_,
    h.sublist.trans hsublist, fun d hd hgone => ?_⟩
  · rcases List.mem_cons.mp hd with rfl | hd
    · exact hc
    · rw [← hsame.isGone, ← hold]
      exact h.passed d hd
  · rw [← hsame.isGone, ← hold]
    exact h.stop d hd
  · by_cases hreached : d ∈ reached
    · exact h.closed d hreached ((hsame.isGone d).trans hgone)
    · obtain rfl : d = c := (List.mem_cons.mp hd).resolve_right hreached
      rw [h.others d hreached]
      exact hclosed hgone
  · rw [List.mem_cons, not_or] at hd
    rw [h.others d hd.2, hothers d hd.1]
  · exact h.kept d (hkept d hd hgone) ((hsame.isGone d).trans hgone)

theorem scan_gone (hgone : (l.conns c).isGone = true) (rest : List Nat) :
    scan idleSeconds now l (c :: rest) =
      scan idleSeconds now { l with connectionList := l.connectionList.erase c } rest := by
  rw [scan, if_pos hgone]

/-- The state after a connection that is too old. -/
def passOld (l : TimingList) (c : Nat) : TimingList :=
  if (l.conns c).isConnected then l.setConn c (closeOld (l.conns c)) else l

theorem scan_old {node : Node} (hgone : (l.conns c).isGone = false)
    (hnode : (l.conns c).timingContext = some node) (hold : TooOld idleSeconds now node)
    (rest : List Nat) :
    scan idleSeconds now l (c :: rest) = scan idleSeconds now (l.passOld c) rest := by
  simp only [scan, hgone, Bool.false_eq_true, ↓reduceIte, hnode, hold, passOld]
  split <;> rfl

/-- A time stamp after `now` is replaced. -/
theorem scan_jump {node : Node} (hgone : (l.conns c).isGone = false)
    (hnode : (l.conns c).timingContext = some node) (hold : ¬ TooOld idleSeconds now node)
    (hjump : now - node.lastReceiveTime < 0) (rest : List Nat) :
    scan idleSeconds now l (c :: rest) =
      scan idleSeconds now (l.setConn c
        { l.conns c with timingContext := some { node with lastReceiveTime := now } }) rest := by
  rw [scan]
  simp only [hgone, Bool.false_eq_true, ↓reduceIte, hnode, hold, hjump]

theorem scan_stop {node : Node} (hgone : (l.conns c).isGone = false)
    (hnode : (l.conns c).timingContext = some node) (hold : ¬ TooOld idleSeconds now node)
    (hjump : ¬ now - node.lastReceiveTime < 0) (rest : List Nat) :
    scan idleSeconds now l (c :: rest) = l := by
  simp only [scan, hgone, Bool.false_eq_true, ↓reduceIte, hnode, hold, hjump]

/-- The time does not jump back, so the pass stops at a connection that is not too old. -/
theorem scan_young {node : Node} (hgone : (l.conns c).isGone = false)
    (hnode : (l.conns c).timingContext = some node) (hold : ¬ TooOld idleSeconds now node)
    (hle : node.lastReceiveTime ≤ now) (rest : List Nat) :
    scan idleSeconds now l (c :: rest) = l :=
  scan_stop hgone hnode hold (not_lt.mpr (Int.sub_nonneg_of_le hle)) rest

theorem passOld_sameStamps (l : TimingList) (c : Nat) : SameStamps l (l.passOld c) := by
  unfold passOld
  split
  · exact SameStamps.setConn (by simp) (by simp)
  · exact SameStamps.refl l

theorem passOld_isConnected (l : TimingList) (c : Nat) :
    ((l.passOld c).conns c).isConnected = false := by
  unfold passOld
  split
  · simp [setConn]
  · rename_i hconn
    exact Bool.not_eq_true _ ▸ hconn

theorem passOld_of_ne {d : Nat} (hd : d ≠ c) : (l.passOld c).conns d = l.conns d := by
  unfold passOld
  split
  · simp [setConn, hd]
  · rfl

theorem passOld_connectionList (l : TimingList) (c : Nat) :
    (l.passOld c).connectionList = l.connectionList := by
  unfold passOld
  split <;> rfl

/-- **What the pass does**: it closes the old connections up to the first young one, and erases
those that are gone. -/
theorem scan_spec {todo : List Nat}
    (htodo : ∀ c ∈ todo, (l.conns c).isGone = false →
      ∃ node, (l.conns c).timingContext = some node ∧ node.lastReceiveTime ≤ now) :
    ∃ reached rest, todo = reached ++ rest ∧
      Pass idleSeconds now l (scan idleSeconds now l todo) reached rest := by
  induction todo generalizing l with
  | nil => exact ⟨[], [], rfl, Pass.of_head (by simp)⟩
  | cons c todo ih =>
    -- The rest of the pass, from a state with the same time stamps.
    have hrest : ∀ l₁, SameStamps l l₁ → ∃ reached rest, todo = reached ++ rest ∧
        Pass idleSeconds now l₁ (scan idleSeconds now l₁ todo) reached rest := by
      intro l₁ hsame
      refine ih fun d hd hgone => ?_
      rw [hsame.timingContext]
      exact htodo d (List.mem_cons_of_mem c hd) ((hsame.isGone d).symm.trans hgone)
    cases hgone : (l.conns c).isGone with
    | true =>
      have hsame : SameStamps l { l with connectionList := l.connectionList.erase c } :=
        ⟨fun _ => rfl, fun _ => rfl, rfl, rfl, rfl, rfl⟩
      obtain ⟨reached, rest, rfl, hpass⟩ := hrest _ hsame
      refine ⟨c :: reached, rest, rfl, ?_⟩
      rw [scan_gone hgone]
      refine hpass.cons hsame (.inl hgone) (fun h => ?_) (fun _ _ => rfl) List.erase_sublist
        fun d hd hd' => ?_
      · rw [hgone] at h
        cases h
      · have hne : d ≠ c := by
          rintro rfl
          rw [hgone] at hd'
          cases hd'
        exact (List.mem_erase_of_ne hne).mpr hd
    | false =>
      obtain ⟨node, hnode, hle⟩ := htodo c List.mem_cons_self hgone
      by_cases hold : TooOld idleSeconds now node
      · have hsame := passOld_sameStamps l c
        have hlist := passOld_connectionList l c
        obtain ⟨reached, rest, rfl, hpass⟩ := hrest _ hsame
        refine ⟨c :: reached, rest, rfl, ?_⟩
        rw [scan_old hgone hnode hold]
        exact hpass.cons hsame (.inr ⟨node, hnode, hold⟩) (fun _ => passOld_isConnected l c)
          (fun d hd => passOld_of_ne hd) (by rw [hlist]) fun d hd _ => hlist.symm ▸ hd
      · refine ⟨[], c :: todo, rfl, ?_⟩
        rw [scan_young hgone hnode hold hle]
        refine Pass.of_head fun d hd => ?_
        obtain rfl : c = d := Option.some.inj hd
        refine ⟨hgone, ?_⟩
        rintro ⟨node', hnode', hold'⟩
        rw [hnode] at hnode'
        cases hnode'
        exact hold hold'

/-! ## The order of the list -/

/-- `b` has a message in the iteration in which `a` has come up. -/
def Overtakes (a b : Node) : Prop :=
  a.byMessage = false ∧ b.byMessage = true ∧ a.iteration = b.iteration

/-- The stamps of a connection and of one behind it. -/
def InOrder (conns : Nat → ListConn) (c d : Nat) : Prop :=
  ∀ a b, (conns c).timingContext = some a → (conns d).timingContext = some b →
    a.lastReceiveTime ≤ b.lastReceiveTime ∨ Overtakes a b

/-- A time stamp and the clocks. -/
structure Stamped (l : TimingList) (node : Node) : Prop where
  clock : node.lastReceiveTime ≤ l.clock
  /-- Only a connection that has come up in this iteration is stamped later than the poll. -/
  poll : node.lastReceiveTime ≤ l.pollReturnTime ∨
    (node.byMessage = false ∧ node.iteration = l.iteration)

structure ListInv (l : TimingList) : Prop where
  ok : l.failed = false
  nodup : l.connectionList.Nodup
  poll : l.pollReturnTime ≤ l.clock
  stamped : ∀ c ∈ l.connectionList,
    ∃ node, (l.conns c).timingContext = some node ∧ Stamped l node
  ordered : l.connectionList.Pairwise (InOrder l.conns)

/-- Connections leave the list, and the time goes on. -/
theorem ListInv.of_sublist (h : ListInv l) (hfailed : l'.failed = l.failed)
    (hsub : l'.connectionList <+ l.connectionList)
    (hcontext : ∀ c, (l'.conns c).timingContext = (l.conns c).timingContext)
    (hclock : l.clock ≤ l'.clock) (hpoll : l'.pollReturnTime = l.pollReturnTime)
    (hiteration : l'.iteration = l.iteration) : ListInv l' := by
  refine ⟨hfailed.trans h.ok, h.nodup.sublist hsub, hpoll ▸ h.poll.trans hclock, fun c hc => ?_, ?_⟩
  · obtain ⟨node, hnode, hstamp⟩ := h.stamped c (hsub.subset hc)
    refine ⟨node, (hcontext c).trans hnode, hstamp.clock.trans hclock, ?_⟩
    rw [hpoll, hiteration]
    exact hstamp.poll
  · refine (h.ordered.sublist hsub).imp fun hcd a b ha hb => ?_
    exact hcd a b ((hcontext _).symm.trans ha) ((hcontext _).symm.trans hb)

theorem poll_listInv (h : ListInv l) (hnow : l.clock ≤ now) :
    ListInv (l.step idleSeconds (.poll now)) := by
  refine ⟨h.ok, h.nodup, le_refl _, fun c hc => ?_, h.ordered⟩
  obtain ⟨node, hnode, hstamp⟩ := h.stamped c hc
  exact ⟨node, hnode, hstamp.clock.trans hnow, .inl (hstamp.clock.trans hnow)⟩

/-- A connection is put at the end of the list with a new stamp. -/
theorem ListInv.push {cs : List Nat} {conn : ListConn} {node : Node} (h : ListInv l)
    (hsub : cs <+ l.connectionList) (hc : c ∉ cs) (hconn : conn.timingContext = some node)
    (hnow : l.clock ≤ now) (hstamp : Stamped { l with clock := now } node)
    (hlast : ∀ a, Stamped l a → a.lastReceiveTime ≤ node.lastReceiveTime ∨ Overtakes a node) :
    ListInv ({ l with clock := now, connectionList := cs ++ [c] }.setConn c conn) := by
  have hself : (({ l with clock := now, connectionList := cs ++ [c] }.setConn c conn).conns
      c).timingContext = some node := by
    simp [setConn, hconn]
  have hother : ∀ d ∈ cs,
      ({ l with clock := now, connectionList := cs ++ [c] }.setConn c conn).conns d =
        l.conns d := by
    intro d hd
    have hne : d ≠ c := fun he => hc (he ▸ hd)
    simp [setConn, hne]
  refine ⟨h.ok, ?_, h.poll.trans hnow, fun d hd => ?_, ?_⟩
  · exact List.nodup_append'.mpr ⟨h.nodup.sublist hsub, List.nodup_singleton c, by simpa using hc⟩
  · rcases List.mem_append.mp hd with hd | hd
    · obtain ⟨a, ha, hstamp'⟩ := h.stamped d (hsub.subset hd)
      exact ⟨a, by rw [hother d hd, ha], hstamp'.clock.trans hnow, hstamp'.poll⟩
    · rw [List.mem_singleton.mp hd]
      exact ⟨node, hself, hstamp.clock, hstamp.poll⟩
  · refine List.pairwise_append.mpr
      ⟨?_, List.pairwise_singleton _ _, fun d hd d' hd' a b ha hb => ?_⟩
    · refine List.pairwise_iff_forall_sublist.mpr fun {d d'} hdd' a b ha hb => ?_
      have hd : d ∈ cs := hdd'.subset (by simp)
      have hd' : d' ∈ cs := hdd'.subset (by simp)
      rw [hother d hd] at ha
      rw [hother d' hd'] at hb
      exact List.pairwise_iff_forall_sublist.mp (h.ordered.sublist hsub) hdd' a b ha hb
    · obtain rfl := List.mem_singleton.mp hd'
      rw [hother d hd] at ha
      rw [hself] at hb
      cases hb
      obtain ⟨a', ha', hstamp'⟩ := h.stamped d (hsub.subset hd)
      rw [ha] at ha'
      cases ha'
      exact hlast a hstamp'

theorem up_listInv (h : ListInv l) (hnow : l.clock ≤ now)
    (hc : (l.conns c).timingContext.isNone = true) : ListInv (l.step idleSeconds (.up c now)) := by
  have hnot : c ∉ l.connectionList := by
    intro hm
    obtain ⟨node, hnode, -⟩ := h.stamped c hm
    simp [hnode] at hc
  have hstep : l.step idleSeconds (.up c now) =
      { l with clock := now, connectionList := l.connectionList ++ [c] }.setConn c
        { (l.conns c).setState .kConnected with
          timingContext := some { lastReceiveTime := now, iteration := l.iteration,
                                  byMessage := false } } := by
    simp [step, onConnection, setConn, ListConn.isConnected, ListConn.setState]
  rw [hstep]
  refine h.push (.refl _) hnot rfl hnow ⟨le_refl _, .inr ⟨rfl, rfl⟩⟩ fun a ha => ?_
  exact .inl (ha.clock.trans hnow)

theorem message_listInv (h : ListInv l) (hc : c ∈ l.connectionList) :
    ListInv (l.step idleSeconds (.message c)) := by
  obtain ⟨node, hnode, -⟩ := h.stamped c hc
  have hnot : c ∉ l.connectionList.erase c := fun hm => (h.nodup.mem_erase_iff.mp hm).1 rfl
  have hstep : l.step idleSeconds (.message c) =
      { l with clock := l.clock, connectionList := l.connectionList.erase c ++ [c] }.setConn c
        { l.conns c with
          timingContext := some { lastReceiveTime := l.pollReturnTime, iteration := l.iteration,
                                  byMessage := true } } := by
    simp [step, onMessage, hnode]
  rw [hstep]
  refine h.push List.erase_sublist hnot rfl (le_refl _) ⟨h.poll, .inl (le_refl _)⟩ fun a ha => ?_
  exact ha.poll.imp_right fun hup => ⟨hup.1, rfl, hup.2⟩

theorem down_listInv (h : ListInv l) (hc : c ∈ l.connectionList) :
    ListInv (l.step idleSeconds (.down c)) := by
  obtain ⟨node, hnode, -⟩ := h.stamped c hc
  have hstep : l.step idleSeconds (.down c) =
      { l.setConn c ((l.conns c).setState .kDisconnected) with
        connectionList := l.connectionList.erase c } := by
    simp [step, onConnection, setConn, ListConn.isConnected, ListConn.setState, hnode]
  have hsame : SameStamps l (l.setConn c ((l.conns c).setState .kDisconnected)) :=
    SameStamps.setConn rfl rfl
  rw [hstep]
  exact h.of_sublist rfl List.erase_sublist hsame.timingContext (le_refl _) rfl rfl

theorem onTimer_spec (idleSeconds : Int) (h : ListInv l) (hnow : l.clock ≤ now) :
    ∃ reached rest, l.connectionList = reached ++ rest ∧
      Pass idleSeconds now { l with clock := now } (l.onTimer idleSeconds now) reached rest := by
  refine scan_spec fun c hc _ => ?_
  obtain ⟨node, hnode, hstamp⟩ := h.stamped c hc
  exact ⟨node, hnode, hstamp.clock.trans hnow⟩

theorem onTimer_listInv (h : ListInv l) (hnow : l.clock ≤ now) :
    ListInv (l.onTimer idleSeconds now) := by
  obtain ⟨reached, rest, -, hpass⟩ := onTimer_spec idleSeconds h hnow
  refine h.of_sublist hpass.same.failed hpass.sublist hpass.same.timingContext ?_
    hpass.same.pollReturnTime hpass.same.iteration
  rw [hpass.same.clock]
  exact hnow

theorem ListInv.of_sameStamps (h : ListInv l) (hsame : SameStamps l l')
    (hlist : l'.connectionList = l.connectionList) : ListInv l' := by
  refine h.of_sublist hsame.failed ?_ hsame.timingContext (le_of_eq hsame.clock.symm)
    hsame.pollReturnTime hsame.iteration
  rw [hlist]

theorem step_listInv (h : ListInv l) (s : ListStep) (hs : l.Admissible s) :
    ListInv (l.step idleSeconds s) := by
  cases s with
  | poll now => exact poll_listInv h hs
  | up c now => exact up_listInv h hs.1 hs.2.1
  | down c => exact down_listInv h hs.1
  | message c => exact message_listInv h hs.1
  | timer now => exact onTimer_listInv h hs
  | shutdown c =>
    refine h.of_sameStamps (SameStamps.setConn ?_ ?_) rfl <;>
      (unfold ListConn.shutdown; split <;> rfl)
  | gone c =>
    refine h.of_sublist rfl (.refl _) (fun d => ?_) (le_refl _) rfl rfl
    by_cases hd : d = c
    · subst hd
      simp [step, setConn]
    · simp [step, setConn, hd]

/-! ## Idle connections -/

/-- No connection that is connected is too old. -/
def Caught (idleSeconds : Int) (now : Timestamp) (l : TimingList) : Prop :=
  ∀ c ∈ l.connectionList, (l.conns c).isGone = false → (l.conns c).isConnected = true →
    ¬ IsOld idleSeconds now (l.conns c)

/-- A young connection that has come up stands before an old one that has had a message in the same
iteration. -/
def HidesOld (idleSeconds : Int) (now : Timestamp) (l : TimingList) : Prop :=
  ∃ c d a b, [c, d] <+ l.connectionList ∧
    (l.conns c).timingContext = some a ∧ (l.conns c).isGone = false ∧
      ¬ TooOld idleSeconds now a ∧
    (l.conns d).timingContext = some b ∧ (l.conns d).isGone = false ∧
      (l.conns d).isConnected = true ∧ TooOld idleSeconds now b ∧
    Overtakes a b

instance (a b : Node) : Decidable (Overtakes a b) := inferInstanceAs (Decidable (_ ∧ _))

instance (idleSeconds : Int) (now : Timestamp) (l : TimingList) :
    Decidable (HidesOld idleSeconds now l) := by
  refine decidable_of_iff (∃ c ∈ l.connectionList, ∃ d ∈ l.connectionList,
    ∃ a ∈ (l.conns c).timingContext, ∃ b ∈ (l.conns d).timingContext,
    [c, d] <+ l.connectionList ∧ (l.conns c).isGone = false ∧ ¬ TooOld idleSeconds now a ∧
      (l.conns d).isGone = false ∧ (l.conns d).isConnected = true ∧ TooOld idleSeconds now b ∧
      Overtakes a b) ⟨?_, ?_⟩
  · rintro ⟨c, -, d, -, a, ha, b, hb, hcd, hc, hyoung, hd, hconn, hold, hover⟩
    exact ⟨c, d, a, b, hcd, ha, hc, hyoung, hb, hd, hconn, hold, hover⟩
  · rintro ⟨c, d, a, b, hcd, ha, hc, hyoung, hb, hd, hconn, hold, hover⟩
    exact ⟨c, hcd.subset (by simp), d, hcd.subset (by simp), a, ha, b, hb, hcd, hc, hyoung, hd,
      hconn, hold, hover⟩

theorem TooOld.of_le {a b : Node} (h : TooOld idleSeconds now b)
    (hle : a.lastReceiveTime ≤ b.lastReceiveTime) : TooOld idleSeconds now a :=
  lt_of_lt_of_le h (Int.sub_le_sub_left hle now)

/-- The pass does not come to a connection behind a young one. -/
theorem Pass.not_reached {reached rest : List Nat} {d : Nat}
    (h : Pass idleSeconds now l l' reached rest) (hnodup : (reached ++ rest).Nodup)
    (hcd : [c, d] <+ reached ++ rest) (hgone : (l.conns c).isGone = false)
    (hyoung : ¬ IsOld idleSeconds now (l.conns c)) : d ∉ reached := by
  intro hd
  have hrest : d ∉ rest := fun hm => (List.disjoint_of_nodup_append hnodup) hd hm
  have hc : c ∈ reached := (sublist_of_append (l := [c]) hcd hrest).subset (by simp)
  rcases h.passed c hc with hg | hold
  · rw [hgone] at hg
    cases hg
  · exact hyoung hold

theorem caught_iff (h : ListInv l) (hnow : l.clock ≤ now) :
    Caught idleSeconds now (l.onTimer idleSeconds now) ↔ ¬ HidesOld idleSeconds now l := by
  obtain ⟨reached, rest, heq, hpass⟩ := onTimer_spec idleSeconds h hnow
  constructor
  · rintro hcaught ⟨c, d, a, b, hcd, ha, hgone, hyoung, hb, hgone', hconn, hold, -⟩
    have hd : d ∉ reached := by
      refine hpass.not_reached (heq ▸ h.nodup) (heq ▸ hcd) hgone ?_
      rintro ⟨a', ha', hold'⟩
      rw [show a' = a from Option.some.inj (ha'.symm.trans ha)] at hold'
      exact hyoung hold'
    have hmem := hpass.kept d (hcd.subset (by simp)) hgone'
    have hsame := hpass.others d hd
    exact hcaught d hmem (hsame ▸ hgone') (hsame ▸ hconn) (hsame ▸ ⟨b, hb, hold⟩)
  · rintro hnot d hmem hgone hconn ⟨b, hb, hold⟩
    rw [hpass.same.isGone] at hgone
    rw [hpass.same.timingContext] at hb
    have hd : d ∉ reached := by
      intro hd
      rw [hpass.closed d hd hgone] at hconn
      cases hconn
    rw [hpass.others d hd] at hconn
    have hrest : d ∈ rest := by
      have hm := hpass.sublist.subset hmem
      rw [show l.connectionList = reached ++ rest from heq] at hm
      exact (List.mem_append.mp hm).resolve_left hd
    -- The pass has stopped at `c`, which is not `d`.
    obtain ⟨c, rest, rfl⟩ := List.exists_cons_of_ne_nil (List.ne_nil_of_mem hrest)
    obtain ⟨hcgone, hyoung⟩ := hpass.stop c rfl
    have hne : d ≠ c := by
      rintro rfl
      exact hyoung ⟨b, hb, hold⟩
    have hcd : [c, d] <+ l.connectionList := by
      rw [heq]
      refine List.Sublist.trans ?_ (List.sublist_append_right reached _)
      exact (List.singleton_sublist.mpr ((List.mem_cons.mp hrest).resolve_left hne)).cons_cons c
    obtain ⟨a, ha, -⟩ := h.stamped c (hcd.subset (by simp))
    have hyoung : ¬ TooOld idleSeconds now a := fun hold => hyoung ⟨a, ha, hold⟩
    rcases List.pairwise_iff_forall_sublist.mp h.ordered hcd a b ha hb with hle | hover
    · exact hyoung (hold.of_le hle)
    · exact hnot ⟨c, d, a, b, hcd, ha, hcgone, hyoung, hb, hgone, hconn, hold, hover⟩

/-! ## Runs -/

theorem make_listInv (start : Timestamp) : ListInv (make start) :=
  ⟨rfl, List.nodup_nil, le_refl _, by simp [make], List.Pairwise.nil⟩

/-- **When each pass catches every idle connection**: exactly when at no `OnTimer` a connection that
has come up, and is not idle yet, stands before an idle one that has had its last message in the
same iteration of the loop. -/
theorem every_pass_catches_iff (idleSeconds : Int) (start : Timestamp) (steps : List ListStep)
    (hsteps : Legal (step idleSeconds) Admissible (make start) steps) :
    (∀ pre now post, steps = pre ++ .timer now :: post →
        Caught idleSeconds now ((pre ++ [.timer now]).foldl (step idleSeconds) (make start))) ↔
      ∀ pre now post, steps = pre ++ .timer now :: post →
        ¬ HidesOld idleSeconds now (pre.foldl (step idleSeconds) (make start)) := by
  have hiff : ∀ pre now post, steps = pre ++ .timer now :: post →
      (Caught idleSeconds now ((pre ++ [.timer now]).foldl (step idleSeconds) (make start)) ↔
        ¬ HidesOld idleSeconds now (pre.foldl (step idleSeconds) (make start))) := by
    rintro pre now post rfl
    obtain ⟨hpre, hnow, -⟩ := legal_append.mp hsteps
    have hinv := legal_invariant (I := ListInv) (fun _ s h hs => step_listInv h s hs)
      (make_listInv start) hpre
    rw [List.foldl_append]
    exact caught_iff hinv hnow
  constructor
  · exact fun h pre now post he => (hiff pre now post he).mp (h pre now post he)
  · exact fun h pre now post he => (hiff pre now post he).mpr (h pre now post he)

/-- The second connection comes up in the iteration in which the first one has its last message. -/
def upBeforeMessage : List ListStep :=
  [.poll 1000000, .up 0 1000010, .poll 2000000, .up 1 2000005, .message 0, .poll 10000002,
    .timer 10000003]

theorem upBeforeMessage_not_caught :
    Legal (step 8) Admissible (make 0) upBeforeMessage ∧
      ¬ ∀ pre now post, upBeforeMessage = pre ++ .timer now :: post →
        Caught 8 now ((pre ++ [.timer now]).foldl (step 8) (make 0)) := by
  refine ⟨by decide +kernel, fun h => ?_⟩
  have hcaught := h [.poll 1000000, .up 0 1000010, .poll 2000000, .up 1 2000005, .message 0,
    .poll 10000002] 10000003 [] rfl
  exact hcaught 0 (by decide +kernel) (by decide +kernel) (by decide +kernel)
    ⟨⟨2000000, 2, true⟩, rfl, by decide +kernel⟩

/-- The same two connections with a second message, and one that closes. -/
def upThenQuiet : List ListStep :=
  [.poll 1000000, .up 0 1000010, .poll 2000000, .up 1 2000005, .message 0, .timer 2000020,
    .poll 3000000, .message 1, .up 2 3000001, .timer 10000003, .gone 0, .down 2, .timer 20000000]

/-- The time of an `OnTimer`. -/
def ListStep.timer? : ListStep → Option Timestamp
  | .timer now => some now
  | _ => none

theorem upThenQuiet_caught :
    Legal (step 8) Admissible (make 0) upThenQuiet ∧
      ∀ pre now post, upThenQuiet = pre ++ .timer now :: post →
        Caught 8 now ((pre ++ [.timer now]).foldl (step 8) (make 0)) := by
  have hsteps : Legal (step 8) Admissible (make 0) upThenQuiet := by decide +kernel
  have hguard : Legal (step 8) (fun l s => ∀ now ∈ s.timer?, ¬ HidesOld 8 now l) (make 0)
      upThenQuiet := by decide +kernel
  refine ⟨hsteps, (every_pass_catches_iff 8 0 upThenQuiet hsteps).mpr ?_⟩
  exact fun pre now post he => legal_iff.mp hguard pre (.timer now) post he now rfl

end TimingList

end MyTinyHttpd
