import MyTinyHttpd.Lib.LinkedList
import MyTinyHttpd.Lib.Loop
import MyTinyHttpd.Net.ListIdle
import MyTinyHttpd.Net.LoopLemmas

/-!
# The iterators of the timing list

`TimingList` knows the place of a connection by its number. Here the list is one of elements, as in
`net/timing_list.cc`, and each connection has `position`, an iterator, in its `Node`. The clock may
jump in both directions.

* `NodeInv`: a connection that is up and not deleted stands at `position`, and nowhere else.
* `visit_spec`: an iteration of the loop of `OnTimer` keeps the invariant and comes nearer to the
  end of the list.
* `step_forget`: without the iterators, this is the machine of `TimingList`.
* `list_tracks`: what holds in every run.
-/

namespace MyTinyHttpd

open Verif

/-- What has happened to a connection: its node got a time stamp, or `OnTimer` closed it. -/
inductive NodeEvent where
  | stamped (t : Timestamp)
  /-- `Shutdown` and `ForceCloseWithDelay`. -/
  | closed (now : Timestamp)
deriving DecidableEq

/-- A connection with `position` of its `Node`. `events` only serves the statements. -/
structure PlacedConn extends ListConn where
  position : Nat := 0
  events : List NodeEvent := []

namespace PlacedConn

def update (conn : PlacedConn) (f : ListConn → ListConn) : PlacedConn :=
  { conn with toListConn := f conn.toListConn }

/-- A new value of the node, with its time stamp. -/
def setNode (conn : PlacedConn) (node : Node) : PlacedConn :=
  { conn with
    timingContext := some node, events := conn.events ++ [.stamped node.lastReceiveTime] }

/-- `Shutdown` and `ForceCloseWithDelay`, by `OnTimer`. -/
def close (conn : PlacedConn) (now : Timestamp) : PlacedConn :=
  { conn.update fun conn => conn.shutdown.forceCloseWithDelay with
    events := conn.events ++ [.closed now] }

end PlacedConn

/-- What must not happen: an iterator is used whose element has been erased, a `Node*` is null, an
assertion fails, or a loop does not end. -/
inductive ListFault where
  | invalidIterator
  | noNode
  | assertion
  | endless
deriving DecidableEq

structure NodeList where
  connectionList : LinkedList Nat := .empty
  conns : Nat → PlacedConn := fun _ => {}
  clock : Timestamp
  pollReturnTime : Timestamp
  iteration : Nat := 0
  fault : Option ListFault := none

namespace NodeList

variable (idleSeconds : Int)

def setConn (l : NodeList) (c : Nat) (conn : PlacedConn) : NodeList :=
  { l with conns := Function.update l.conns c conn }

def fail (l : NodeList) (e : ListFault) : NodeList := { l with fault := some e }

/-- The body of the loop of `OnTimer`, at an iterator that is not the end. The loop goes on at the
iterator that is returned; it ends at the end of the list and at a `break`. -/
def visit (now : Timestamp) (l : NodeList) (it : Nat) :
    Except ListFault (NodeList × Option Nat) :=
  match l.connectionList.get? it with
  | none => .error .invalidIterator
  | some c =>
    let conn := l.conns c
    if conn.isGone then
      .ok ({ l with connectionList := l.connectionList.erase it }, l.connectionList.next it)
    else
      match conn.timingContext with
      | none => .error .noNode
      | some node =>
        if TimingList.TooOld idleSeconds now node then
          let l := if conn.isConnected then l.setConn c (conn.close now) else l
          .ok (l, l.connectionList.next it)
        else if now - node.lastReceiveTime < 0 then
          let node := { node with lastReceiveTime := now }
          .ok (l.setConn c (conn.setNode node), l.connectionList.next it)
        else .ok (l, none)

def timerBody (now : Timestamp) (s : NodeList × Option Nat) :
    Except ListFault (NodeList × Option Nat) :=
  match s.2 with
  | none => .ok s
  | some it => visit idleSeconds now s.1 it

/-- The loop of `OnTimer`, with at most `fuel` evaluations of its condition. -/
def timerLoop (now : Timestamp) (fuel : Nat) (l : NodeList) :
    Option (Except ListFault (NodeList × Option Nat)) :=
  whileLoop (fun s => s.2.isSome) (timerBody idleSeconds now) fuel (l, l.connectionList.begin)

def onTimer (l : NodeList) (now : Timestamp) : NodeList :=
  let l := { l with clock := now }
  match timerLoop idleSeconds now (l.connectionList.elems.length + 1) l with
  | some (.ok s) => s.1
  | some (.error e) => l.fail e
  | none => l.fail .endless

def onConnection (l : NodeList) (c : Nat) (now : Timestamp) : NodeList :=
  let conn := l.conns c
  if conn.isConnected then
    let node : Node := { lastReceiveTime := now, iteration := l.iteration, byMessage := false }
    let r := l.connectionList.pushBack c
    { l with connectionList := r.1 }.setConn c { conn.setNode node with position := r.2 }
  else
    match conn.timingContext with
    | none => l.fail .assertion
    | some _ =>
      match l.connectionList.get? conn.position with
      | none => l.fail .invalidIterator
      | some _ => { l with connectionList := l.connectionList.erase conn.position }

def onMessage (l : NodeList) (c : Nat) (receiveTime : Timestamp) : NodeList :=
  let conn := l.conns c
  match conn.timingContext with
  | none => l.fail .assertion
  | some _ =>
    let node : Node :=
      { lastReceiveTime := receiveTime, iteration := l.iteration, byMessage := true }
    let l := l.setConn c (conn.setNode node)
    match l.connectionList.get? conn.position with
    | none => l.fail .invalidIterator
    | some _ =>
      let l := { l with connectionList := l.connectionList.moveToEnd conn.position }
      if l.connectionList.last = some conn.position then l else l.fail .assertion

open TimingList (ListStep)

def step (l : NodeList) : ListStep → NodeList
  | .poll now => { l with clock := now, pollReturnTime := now, iteration := l.iteration + 1 }
  | .up c now =>
    ({ l with clock := now }.setConn c
      ((l.conns c).update (·.setState .kConnected))).onConnection c now
  | .down c =>
    (l.setConn c ((l.conns c).update (·.setState .kDisconnected))).onConnection c l.clock
  | .message c => l.onMessage c l.pollReturnTime
  | .timer now => l.onTimer idleSeconds now
  | .shutdown c => l.setConn c ((l.conns c).update (·.shutdown))
  | .gone c => l.setConn c ((l.conns c).update ({ · with isGone := true }))

/-- A connection comes up once and goes down at most once, with its messages between; nothing
happens to a connection that has been deleted. -/
def Admissible (l : NodeList) : ListStep → Prop
  | .up c _ => (l.conns c).state = .kConnecting ∧ (l.conns c).isGone = false
  | .down c | .message c => LoopConnection.IsOpen (l.conns c).state ∧ (l.conns c).isGone = false
  | .poll _ | .timer _ | .shutdown _ | .gone _ => True

instance (l : NodeList) (s : ListStep) : Decidable (l.Admissible s) :=
  match s with
  | .up c _ =>
    inferInstanceAs (Decidable ((l.conns c).state = .kConnecting ∧ (l.conns c).isGone = false))
  | .down c | .message c =>
    inferInstanceAs
      (Decidable (LoopConnection.IsOpen (l.conns c).state ∧ (l.conns c).isGone = false))
  | .poll _ | .timer _ | .shutdown _ | .gone _ => isTrue trivial

def make (start : Timestamp) : NodeList := { clock := start, pollReturnTime := start }

end NodeList

/-! ## One connection -/

namespace PlacedConn

/-- The last time stamp. -/
def lastStamp (events : List NodeEvent) : Option Timestamp :=
  events.foldl (fun last e => match e with | .stamped t => some t | .closed _ => last) none

@[simp] theorem lastStamp_stamped (events : List NodeEvent) (t : Timestamp) :
    lastStamp (events ++ [.stamped t]) = some t := by
  simp [lastStamp]

@[simp] theorem lastStamp_closed (events : List NodeEvent) (now : Timestamp) :
    lastStamp (events ++ [.closed now]) = lastStamp events := by
  simp [lastStamp]

/-- `OnTimer` closes the connection when its last time stamp is more than `idle_seconds_` before,
and has not closed it before. -/
def ClosesIdle (idleSeconds : Int) (events : List NodeEvent) : Prop :=
  ∀ before e behind, events = before ++ e :: behind → ∀ now, e = .closed now →
    (∃ t, lastStamp before = some t ∧ idleSeconds * Timestamp.kMicroSecondsPerSecond < now - t) ∧
      ∀ now', .closed now' ∉ before

/-- What holds of a connection and of its places in the list. -/
structure ConnInv (idleSeconds : Int) (conn : PlacedConn) (places : List Nat) : Prop where
  sole : places.length ≤ 1
  placed : LoopConnection.IsOpen conn.state → conn.isGone = false → places = [conn.position]
  live : places ≠ [] → conn.isGone = false → LoopConnection.IsOpen conn.state
  context : conn.timingContext = none → conn.state = .kConnecting
  stamped : ∀ node, conn.timingContext = some node →
    lastStamp conn.events = some node.lastReceiveTime
  closed : ∀ now, .closed now ∈ conn.events →
    conn.state = .kDisconnecting ∨ conn.state = .kDisconnected
  idle : ClosesIdle idleSeconds conn.events

section

variable {idleSeconds : Int} {conn : PlacedConn} {places : List Nat} {now : Timestamp}

theorem ConnInv.exists_node (h : ConnInv idleSeconds conn places)
    (hopen : LoopConnection.IsOpen conn.state) : ∃ node, conn.timingContext = some node := by
  rw [← Option.ne_none_iff_exists']
  intro hnone
  rw [h.context hnone] at hopen
  rcases hopen with h | h <;> cases h

theorem ConnInv.setNode (h : ConnInv idleSeconds conn places) (node : Node) :
    ConnInv idleSeconds (conn.setNode node) places where
  sole := h.sole
  placed := h.placed
  live := h.live
  context hnone := by cases hnone
  stamped _ hnode := by
    cases hnode
    exact lastStamp_stamped _ _
  closed now hmem := by
    refine h.closed now ?_
    simpa [PlacedConn.setNode] using hmem
  idle := forall_step_snoc.mpr ⟨h.idle, fun now he => by cases he⟩

theorem close_isOpen (hopen : LoopConnection.IsOpen conn.state) :
    (conn.close now).state = .kDisconnecting := by
  simp only [PlacedConn.close, PlacedConn.update, ListConn.shutdown, ListConn.forceCloseWithDelay,
    ListConn.setState]
  rcases hopen with h | h <;> simp [h]

theorem ConnInv.close {node : Node} (h : ConnInv idleSeconds conn places)
    (hconnected : conn.state = .kConnected) (hnode : conn.timingContext = some node)
    (hold : TimingList.TooOld idleSeconds now node) :
    ConnInv idleSeconds (conn.close now) places := by
  have hstate : (conn.close now).state = .kDisconnecting := close_isOpen (.inl hconnected)
  have hgone : (conn.close now).isGone = conn.isGone := TimingList.closeOld_isGone _
  have hcontext : (conn.close now).timingContext = conn.timingContext :=
    TimingList.closeOld_timingContext _
  refine ⟨h.sole, fun _ hlive => h.placed (.inl hconnected) (hgone ▸ hlive),
    fun _ _ => .inr hstate, fun hnone => ?_, fun node' hnode' => ?_, fun _ _ => .inl hstate,
    forall_step_snoc.mpr ⟨h.idle, fun now' he => ?_⟩⟩
  · rw [hcontext, hnode] at hnone
    cases hnone
  · rw [hcontext] at hnode'
    exact (lastStamp_closed _ _).trans (h.stamped node' hnode')
  · cases he
    refine ⟨⟨node.lastReceiveTime, h.stamped node hnode, hold⟩, fun now' hmem => ?_⟩
    rcases h.closed now' hmem with hs | hs <;> rw [hconnected] at hs <;> cases hs

theorem shutdown_isOpen : LoopConnection.IsOpen (conn.update (·.shutdown)).state ↔
    LoopConnection.IsOpen conn.state := by
  simp only [PlacedConn.update, ListConn.shutdown, ListConn.setState]
  split
  · rename_i h
    simp [LoopConnection.IsOpen, h]
  · rfl

theorem shutdown_rest (conn : PlacedConn) : (conn.update (·.shutdown)).isGone = conn.isGone ∧
    (conn.update (·.shutdown)).timingContext = conn.timingContext := by
  simp only [PlacedConn.update, ListConn.shutdown, ListConn.setState]
  split <;> exact ⟨rfl, rfl⟩

theorem ConnInv.shutdown (h : ConnInv idleSeconds conn places) :
    ConnInv idleSeconds (conn.update (·.shutdown)) places := by
  obtain ⟨hgone, hcontext⟩ := shutdown_rest conn
  refine ⟨h.sole, fun ho hlive => h.placed (shutdown_isOpen.mp ho) (hgone ▸ hlive),
    fun hne hlive => shutdown_isOpen.mpr (h.live hne (hgone ▸ hlive)), fun hnone => ?_,
    fun node hnode => h.stamped node (hcontext ▸ hnode), fun now hmem => ?_, h.idle⟩
  · have hs := h.context (hcontext ▸ hnone)
    simp [PlacedConn.update, ListConn.shutdown, hs]
  · have hs := h.closed now hmem
    simp only [PlacedConn.update, ListConn.shutdown, ListConn.setState]
    split
    · exact .inl rfl
    · exact hs

theorem ConnInv.gone (h : ConnInv idleSeconds conn places) :
    ConnInv idleSeconds (conn.update ({ · with isGone := true })) places :=
  ⟨h.sole, fun _ hlive => absurd hlive (by simp [PlacedConn.update]),
    fun _ hlive => absurd hlive (by simp [PlacedConn.update]), h.context, h.stamped, h.closed,
    h.idle⟩

/-- The element of a connection that has been deleted is erased. -/
theorem ConnInv.erased (h : ConnInv idleSeconds conn places) (hgone : conn.isGone = true) :
    ConnInv idleSeconds conn [] :=
  ⟨Nat.zero_le 1, fun _ hlive => absurd hlive (by simp [hgone]), fun hne => absurd rfl hne,
    h.context, h.stamped, h.closed, h.idle⟩

/-- A connection that has not come up is not in the list. -/
theorem ConnInv.places_eq_nil (h : ConnInv idleSeconds conn places)
    (hstate : conn.state = .kConnecting) (hlive : conn.isGone = false) : places = [] := by
  by_contra hne
  rcases h.live hne hlive with hs | hs <;> rw [hstate] at hs <;> cases hs

theorem ConnInv.up (h : ConnInv idleSeconds conn places) (hstate : conn.state = .kConnecting)
    (it : Nat) (node : Node) :
    ConnInv idleSeconds
      { (conn.update (·.setState .kConnected)).setNode node with position := it } [it] where
  sole := Nat.le_refl 1
  placed _ _ := rfl
  live _ _ := .inl rfl
  context hnone := by cases hnone
  stamped _ hnode := by
    cases hnode
    exact lastStamp_stamped _ _
  closed now hmem := by
    have hold : .closed now ∈ conn.events := by
      simpa [PlacedConn.setNode, PlacedConn.update] using hmem
    rcases h.closed now hold with hs | hs <;> rw [hstate] at hs <;> cases hs
  idle := forall_step_snoc.mpr ⟨h.idle, fun now he => by cases he⟩

theorem ConnInv.down (h : ConnInv idleSeconds conn places)
    (hopen : LoopConnection.IsOpen conn.state) :
    ConnInv idleSeconds (conn.update (·.setState .kDisconnected)) [] where
  sole := Nat.zero_le 1
  placed ho := by rcases ho with ho | ho <;> cases ho
  live hne := absurd rfl hne
  context hnone := by
    obtain ⟨node, hnode⟩ := h.exists_node hopen
    exact absurd (hnode.symm.trans hnone) (by simp)
  stamped := h.stamped
  closed _ _ := .inr rfl
  idle := h.idle

end

end PlacedConn

/-! ## One step -/

namespace NodeList

open TimingList (ListStep)
open PlacedConn (ConnInv)

variable {idleSeconds : Int} {l l' : NodeList} {c it : Nat} {now : Timestamp}

structure NodeInv (idleSeconds : Int) (l : NodeList) : Prop where
  fault : l.fault = none
  conns : ∀ c, ConnInv idleSeconds (l.conns c) (l.connectionList.places c)

/-- A step that is about the connection `c`. -/
theorem NodeInv.set (h : NodeInv idleSeconds l) {conn : PlacedConn} {list : LinkedList Nat}
    (hplaces : ∀ d, d ≠ c → list.places d = l.connectionList.places d)
    (hconn : ConnInv idleSeconds conn (list.places c)) :
    NodeInv idleSeconds { l.setConn c conn with connectionList := list } := by
  refine ⟨h.fault, fun d => ?_⟩
  by_cases hd : d = c
  · subst hd
    simpa only [setConn, Function.update_self] using hconn
  · simp only [setConn, Function.update_of_ne hd, hplaces d hd]
    exact h.conns d

theorem NodeInv.setConn (h : NodeInv idleSeconds l) {conn : PlacedConn}
    (hconn : ConnInv idleSeconds conn (l.connectionList.places c)) :
    NodeInv idleSeconds (l.setConn c conn) :=
  h.set (fun _ _ => rfl) hconn

/-- The element of a live connection is that of an open connection, at its `position`. -/
theorem NodeInv.at_element (h : NodeInv idleSeconds l) (hget : l.connectionList.get? it = some c)
    (hlive : (l.conns c).isGone = false) :
    LoopConnection.IsOpen (l.conns c).state ∧ l.connectionList.places c = [it] := by
  have hmem : it ∈ l.connectionList.places c := LinkedList.mem_places.mpr hget
  have hopen := (h.conns c).live (List.ne_nil_of_mem hmem) hlive
  have hplaces := (h.conns c).placed hopen hlive
  rw [hplaces, List.mem_singleton] at hmem
  exact ⟨hopen, by rw [hplaces, hmem]⟩

theorem NodeInv.get_position (h : NodeInv idleSeconds l)
    (hopen : LoopConnection.IsOpen (l.conns c).state) (hlive : (l.conns c).isGone = false) :
    l.connectionList.get? (l.conns c).position = some c := by
  rw [← LinkedList.mem_places, (h.conns c).placed hopen hlive, List.mem_singleton]

/-- Each connection stands at one place at most, deleted or not. -/
theorem NodeInv.places_eq (h : NodeInv idleSeconds l) (hget : l.connectionList.get? it = some c) :
    l.connectionList.places c = [it] := by
  have hmem : it ∈ l.connectionList.places c := LinkedList.mem_places.mpr hget
  have hlen := (h.conns c).sole
  rcases hplaces : l.connectionList.places c with - | ⟨id, - | ⟨id', ids⟩⟩
  · rw [hplaces] at hmem
    cases hmem
  · rw [hplaces, List.mem_singleton] at hmem
    rw [hmem]
  · rw [hplaces] at hlen
    simp at hlen

/-- The list without the iterators. -/
def forget (l : NodeList) : TimingList where
  connectionList := l.connectionList.values
  conns c := (l.conns c).toListConn
  clock := l.clock
  pollReturnTime := l.pollReturnTime
  iteration := l.iteration
  failed := l.fault.isSome

@[simp] theorem forget_conns (l : NodeList) (c : Nat) :
    l.forget.conns c = (l.conns c).toListConn := rfl

theorem forget_set (l : NodeList) (c : Nat) (conn : PlacedConn) (list : LinkedList Nat) :
    { l.setConn c conn with connectionList := list }.forget =
      { l.forget.setConn c conn.toListConn with connectionList := list.values } := by
  simp only [forget, setConn, TimingList.setConn, TimingList.mk.injEq, true_and, and_true]
  funext d
  by_cases hd : d = c
  · subst hd
    simp
  · simp [hd]

theorem forget_setConn (l : NodeList) (c : Nat) (conn : PlacedConn) :
    (l.setConn c conn).forget = l.forget.setConn c conn.toListConn :=
  forget_set l c conn l.connectionList

/-- Which connections are open and which are deleted is as before. -/
def SameLife (l l' : NodeList) : Prop :=
  ∀ c, (LoopConnection.IsOpen (l'.conns c).state ↔ LoopConnection.IsOpen (l.conns c).state) ∧
    (l'.conns c).isGone = (l.conns c).isGone

theorem SameLife.setConn {conn : PlacedConn}
    (hopen : LoopConnection.IsOpen conn.state ↔ LoopConnection.IsOpen (l.conns c).state)
    (hgone : conn.isGone = (l.conns c).isGone) : SameLife l (l.setConn c conn) := by
  intro d
  by_cases hd : d = c
  · subst hd
    simpa only [NodeList.setConn, Function.update_self] using ⟨hopen, hgone⟩
  · simp only [NodeList.setConn, Function.update_of_ne hd, and_self]

/-- What an iteration of the loop of `OnTimer` does, at the end with the iterator at which the loop
goes on. -/
structure Visit (idleSeconds : Int) (now : Timestamp) (l : NodeList) (it : Nat) (l' : NodeList)
    (next : Option Nat) : Prop where
  inv : NodeInv idleSeconds l'
  life : SameLife l l'
  valid : l'.connectionList.Valid next
  nearer : (l'.connectionList.restFrom next).length < (l.connectionList.rest it).length
  scan_eq : TimingList.scan idleSeconds now l.forget ((l.connectionList.rest it).map Prod.snd) =
    TimingList.scan idleSeconds now l'.forget ((l'.connectionList.restFrom next).map Prod.snd)

/-- The loop goes on at the next element of the same list. -/
theorem Visit.next (hget : l.connectionList.get? it = some c) (hinv : NodeInv idleSeconds l')
    (hlife : SameLife l l') (hlist : l'.connectionList = l.connectionList)
    (hscan : ∀ rest, TimingList.scan idleSeconds now l.forget (c :: rest) =
      TimingList.scan idleSeconds now l'.forget rest) :
    Visit idleSeconds now l it l' (l'.connectionList.next it) := by
  obtain ⟨hrest, -⟩ := LinkedList.restFrom_next hget
  refine ⟨hinv, hlife, ?_, ?_, ?_⟩
  · rw [hlist]
    exact (LinkedList.valid_next hget).1
  · rw [hlist, hrest]
    exact Nat.lt_succ_self _
  · rw [hlist, hrest, List.map_cons]
    exact hscan _

theorem visit_spec (h : NodeInv idleSeconds l) (hget : l.connectionList.get? it = some c) :
    ∃ l' next, visit idleSeconds now l it = .ok (l', next) ∧
      Visit idleSeconds now l it l' next := by
  unfold visit
  simp only [hget]
  by_cases hgone : (l.conns c).isGone = true
  · obtain ⟨hrest, hbehind⟩ := LinkedList.restFrom_next hget
    rw [if_pos hgone]
    refine ⟨_, _, rfl, ⟨⟨h.fault, fun d => ?_⟩, fun d => ⟨Iff.rfl, rfl⟩,
      (LinkedList.valid_next hget).2, ?_, ?_⟩⟩
    · by_cases hd : d = c
      · subst hd
        rw [LinkedList.places_erase_self (h.places_eq hget)]
        exact (h.conns d).erased hgone
      · simp only
        rw [LinkedList.places_erase_of_ne hget hd]
        exact h.conns d
    · rw [hbehind, hrest]
      exact Nat.lt_succ_self _
    · rw [hbehind, hrest, List.map_cons, TimingList.scan_gone hgone]
      congr 1
      simp only [forget, LinkedList.values_erase (h.places_eq hget)]
  · have hlive : (l.conns c).isGone = false := by simpa using hgone
    obtain ⟨hopen, -⟩ := h.at_element hget hlive
    obtain ⟨node, hnode⟩ := (h.conns c).exists_node hopen
    simp only [hlive, Bool.false_eq_true, ↓reduceIte, hnode]
    by_cases hold : TimingList.TooOld idleSeconds now node
    · simp only [hold, ↓reduceIte]
      refine ⟨_, _, rfl, ?_⟩
      by_cases hconnected : (l.conns c).isConnected = true
      · have hstate : (l.conns c).state = .kConnected := by
          simpa [ListConn.isConnected] using hconnected
        rw [if_pos hconnected]
        refine Visit.next hget (h.setConn ((h.conns c).close hstate hnode hold))
          (SameLife.setConn ?_ (TimingList.closeOld_isGone _)) rfl fun rest => ?_
        · rw [PlacedConn.close_isOpen hopen]
          exact iff_of_true (.inr rfl) hopen
        · rw [TimingList.scan_old hlive hnode hold, forget_setConn, TimingList.passOld,
            forget_conns, if_pos hconnected]
          rfl
      · rw [if_neg hconnected]
        refine Visit.next hget h (fun d => ⟨Iff.rfl, rfl⟩) rfl fun rest => ?_
        rw [TimingList.scan_old hlive hnode hold, TimingList.passOld, forget_conns,
          if_neg hconnected]
    · by_cases hjump : now - node.lastReceiveTime < 0
      · simp only [hold, hjump, ↓reduceIte]
        refine ⟨_, _, rfl, Visit.next hget (h.setConn ((h.conns c).setNode _))
          (SameLife.setConn Iff.rfl rfl) rfl fun rest => ?_⟩
        rw [TimingList.scan_jump hlive hnode hold hjump, forget_setConn]
        rfl
      · simp only [hold, hjump, ↓reduceIte]
        obtain ⟨hrest, -⟩ := LinkedList.restFrom_next hget
        refine ⟨_, _, rfl, h, fun d => ⟨Iff.rfl, rfl⟩, fun id hid => absurd hid (by simp), ?_, ?_⟩
        · rw [hrest]
          exact Nat.zero_lt_succ _
        · rw [hrest, List.map_cons, TimingList.scan_stop hlive hnode hold hjump]
          rfl

theorem SameLife.trans {l'' : NodeList} (h : SameLife l l') (h' : SameLife l' l'') :
    SameLife l l'' :=
  fun c => ⟨(h' c).1.trans (h c).1, (h' c).2.trans (h c).2⟩

/-- What holds of the pass from `l` at each evaluation of its condition: the rest of the scan leads
to `target`. -/
structure Scanning (idleSeconds : Int) (now : Timestamp) (l : NodeList) (target : TimingList)
    (s : NodeList × Option Nat) : Prop where
  inv : NodeInv idleSeconds s.1
  life : SameLife l s.1
  valid : s.1.connectionList.Valid s.2
  scan_eq : TimingList.scan idleSeconds now s.1.forget
    ((s.1.connectionList.restFrom s.2).map Prod.snd) = target

theorem timerBody_scanning {target : TimingList} {s : NodeList × Option Nat}
    (h : Scanning idleSeconds now l target s) (hsome : s.2.isSome = true) :
    ∃ s', timerBody idleSeconds now s = .ok s' ∧ Scanning idleSeconds now l target s' ∧
      (s'.1.connectionList.restFrom s'.2).length < (s.1.connectionList.restFrom s.2).length := by
  obtain ⟨s, it⟩ := s
  obtain ⟨it, rfl⟩ := Option.isSome_iff_exists.mp hsome
  obtain ⟨c, hget⟩ := h.valid it rfl
  obtain ⟨s', next, hok, hv⟩ := visit_spec h.inv hget
  exact ⟨(s', next), hok,
    ⟨hv.inv, h.life.trans hv.life, hv.valid, hv.scan_eq ▸ h.scan_eq⟩, hv.nearer⟩

/-- The loop of `OnTimer` ends, with the list that `TimingList.scan` gives. -/
theorem timerLoop_spec (h : NodeInv idleSeconds l) (now : Timestamp) :
    ∃ s, timerLoop idleSeconds now (l.connectionList.elems.length + 1) l = some (.ok s) ∧
      NodeInv idleSeconds s.1 ∧ SameLife l s.1 ∧
      s.1.forget = TimingList.scan idleSeconds now l.forget l.connectionList.values := by
  have hstart : Scanning idleSeconds now l
      (TimingList.scan idleSeconds now l.forget l.connectionList.values)
      (l, l.connectionList.begin) := by
    refine ⟨h, fun c => ⟨Iff.rfl, rfl⟩, LinkedList.valid_begin, ?_⟩
    rw [LinkedList.restFrom_begin]
    rfl
  obtain ⟨⟨s, next⟩, hloop, hs, hend⟩ :=
    whileLoop_variant _
      (fun s : NodeList × Option Nat => (s.1.connectionList.restFrom s.2).length)
      (fun _ hs hsome => timerBody_scanning hs hsome) _ hstart
  simp only [LinkedList.restFrom_begin] at hloop
  obtain rfl : next = none := by simpa using hend
  exact ⟨(s, none), hloop, hs.inv, hs.life, hs.scan_eq⟩

theorem onTimer_spec (h : NodeInv idleSeconds l) (now : Timestamp) :
    NodeInv idleSeconds (l.onTimer idleSeconds now) ∧ SameLife l (l.onTimer idleSeconds now) ∧
      (l.onTimer idleSeconds now).forget = l.forget.onTimer idleSeconds now := by
  have hclock : NodeInv idleSeconds { l with clock := now } := ⟨h.fault, h.conns⟩
  obtain ⟨s, hloop, hinv, hlife, hforget⟩ := timerLoop_spec hclock now
  simp only [onTimer, hloop]
  exact ⟨hinv, hlife, hforget⟩

theorem up_eq (l : NodeList) (c : Nat) (now : Timestamp) :
    l.step idleSeconds (.up c now) =
      { { l with clock := now }.setConn c
          { ((l.conns c).update (·.setState .kConnected)).setNode
              { lastReceiveTime := now, iteration := l.iteration, byMessage := false } with
            position := l.connectionList.fresh } with
        connectionList := (l.connectionList.pushBack c).1 } := by
  simp [step, onConnection, setConn, PlacedConn.update, ListConn.isConnected, ListConn.setState,
    LinkedList.pushBack]

theorem up_inv (h : NodeInv idleSeconds l) (hstate : (l.conns c).state = .kConnecting)
    (hlive : (l.conns c).isGone = false) :
    NodeInv idleSeconds (l.step idleSeconds (.up c now)) := by
  have hclock : NodeInv idleSeconds { l with clock := now } := ⟨h.fault, h.conns⟩
  have hnone := (h.conns c).places_eq_nil hstate hlive
  rw [up_eq]
  refine hclock.set (fun d hd => ?_) ?_
  · rw [LinkedList.places_pushBack, if_neg hd.symm, List.append_nil]
  · rw [LinkedList.places_pushBack, if_pos rfl, hnone, List.nil_append]
    exact (h.conns c).up hstate _ _

theorem down_eq (h : NodeInv idleSeconds l) (hopen : LoopConnection.IsOpen (l.conns c).state)
    (hlive : (l.conns c).isGone = false) :
    l.step idleSeconds (.down c) =
      { l.setConn c ((l.conns c).update (·.setState .kDisconnected)) with
        connectionList := l.connectionList.erase (l.conns c).position } := by
  obtain ⟨node, hnode⟩ := (h.conns c).exists_node hopen
  have hget := h.get_position hopen hlive
  simp [step, onConnection, setConn, PlacedConn.update, ListConn.isConnected, ListConn.setState,
    hnode, hget]

theorem down_inv (h : NodeInv idleSeconds l) (hopen : LoopConnection.IsOpen (l.conns c).state)
    (hlive : (l.conns c).isGone = false) : NodeInv idleSeconds (l.step idleSeconds (.down c)) := by
  have hplaces := (h.conns c).placed hopen hlive
  have hget := h.get_position hopen hlive
  rw [down_eq h hopen hlive]
  refine h.set (fun d hd => LinkedList.places_erase_of_ne hget hd) ?_
  rw [LinkedList.places_erase_self hplaces]
  exact (h.conns c).down hopen

theorem message_eq (h : NodeInv idleSeconds l) (hopen : LoopConnection.IsOpen (l.conns c).state)
    (hlive : (l.conns c).isGone = false) :
    l.step idleSeconds (.message c) =
      { l.setConn c ((l.conns c).setNode
          { lastReceiveTime := l.pollReturnTime, iteration := l.iteration, byMessage := true }) with
        connectionList := l.connectionList.moveToEnd (l.conns c).position } := by
  obtain ⟨node, hnode⟩ := (h.conns c).exists_node hopen
  have hget := h.get_position hopen hlive
  simp [step, onMessage, setConn, hnode, hget, LinkedList.last_moveToEnd hget]

theorem message_inv (h : NodeInv idleSeconds l) (hopen : LoopConnection.IsOpen (l.conns c).state)
    (hlive : (l.conns c).isGone = false) :
    NodeInv idleSeconds (l.step idleSeconds (.message c)) := by
  have hplaces := (h.conns c).placed hopen hlive
  have hget := h.get_position hopen hlive
  rw [message_eq h hopen hlive]
  refine h.set (fun d hd => LinkedList.places_moveToEnd_of_ne hget hd) ?_
  rw [LinkedList.places_moveToEnd_self hplaces, ← hplaces]
  exact (h.conns c).setNode _

theorem step_inv (h : NodeInv idleSeconds l) (s : ListStep) (hs : l.Admissible s) :
    NodeInv idleSeconds (l.step idleSeconds s) := by
  cases s with
  | poll now => exact ⟨h.fault, h.conns⟩
  | up c now => exact up_inv h hs.1 hs.2
  | down c => exact down_inv h hs.1 hs.2
  | message c => exact message_inv h hs.1 hs.2
  | timer now => exact (onTimer_spec h now).1
  | shutdown c => exact h.setConn (h.conns c).shutdown
  | gone c => exact h.setConn (h.conns c).gone

/-! ## Without the iterators -/

/-- A step of the list with iterators is the step of `TimingList`. -/
theorem step_forget (h : NodeInv idleSeconds l) (s : ListStep) (hs : l.Admissible s) :
    (l.step idleSeconds s).forget = l.forget.step idleSeconds s := by
  cases s with
  | poll now => rfl
  | up c now =>
    rw [up_eq, forget_set]
    simp [TimingList.step, TimingList.onConnection, TimingList.setConn, ListConn.isConnected,
      ListConn.setState, forget, LinkedList.values, LinkedList.pushBack, PlacedConn.setNode,
      PlacedConn.update]
  | down c =>
    obtain ⟨node, hnode⟩ := (h.conns c).exists_node hs.1
    rw [down_eq h hs.1 hs.2, forget_set, LinkedList.values_erase ((h.conns c).placed hs.1 hs.2)]
    simp [TimingList.step, TimingList.onConnection, TimingList.setConn, ListConn.isConnected,
      ListConn.setState, forget, hnode, PlacedConn.update]
  | message c =>
    obtain ⟨node, hnode⟩ := (h.conns c).exists_node hs.1
    rw [message_eq h hs.1 hs.2, forget_set,
      LinkedList.values_moveToEnd ((h.conns c).placed hs.1 hs.2)]
    simp [TimingList.step, TimingList.onMessage, TimingList.setConn, forget, hnode,
      PlacedConn.setNode]
  | timer now => exact (onTimer_spec h now).2.2
  | shutdown c => exact forget_setConn _ _ _
  | gone c => exact forget_setConn _ _ _

/-- What `TimingList` admits is admitted here. -/
theorem admissible_of_forget (h : NodeInv idleSeconds l) {s : ListStep}
    (hs : l.forget.Admissible s) : l.Admissible s := by
  have hmem : ∀ c, c ∈ l.forget.connectionList ∧ (l.forget.conns c).isGone = false →
      LoopConnection.IsOpen (l.conns c).state ∧ (l.conns c).isGone = false := by
    rintro c ⟨hc, hlive⟩
    obtain ⟨⟨it, _⟩, he, rfl⟩ := List.mem_map.mp hc
    exact ⟨(h.at_element (LinkedList.get?_eq_some.mpr he) hlive).1, hlive⟩
  cases s with
  | up c now => exact ⟨(h.conns c).context (Option.isNone_iff_eq_none.mp hs.2.1), hs.2.2⟩
  | down c => exact hmem c hs
  | message c => exact hmem c hs
  | _ => trivial

theorem make_inv (idleSeconds : Int) (start : Timestamp) : NodeInv idleSeconds (make start) := by
  refine ⟨rfl, fun c => ⟨Nat.zero_le 1, fun ho => ?_, fun hne => absurd rfl hne, fun _ => rfl,
    fun _ hnode => ?_, fun _ hmem => ?_, fun before e behind he => ?_⟩⟩
  · rcases ho with ho | ho <;> cases ho
  · cases hnode
  · cases hmem
  · simp [make] at he

theorem run_inv {start : Timestamp} {steps : List ListStep}
    (hsteps : Legal (step idleSeconds) Admissible (make start) steps) :
    NodeInv idleSeconds (steps.foldl (step idleSeconds) (make start)) :=
  legal_invariant (I := NodeInv idleSeconds) (fun _ s h hs => step_inv h s hs)
    (make_inv idleSeconds start) hsteps

/-- Every run that `TimingList` admits is a run of the list with iterators, and both have the same
connections, in the same states and order. -/
theorem run_forget {start : Timestamp} {steps : List ListStep}
    (hsteps : Legal (TimingList.step idleSeconds) TimingList.Admissible (.make start) steps) :
    Legal (step idleSeconds) Admissible (make start) steps ∧
      (steps.foldl (step idleSeconds) (make start)).forget =
        steps.foldl (TimingList.step idleSeconds) (.make start) := by
  refine legal_induction
    (P := fun steps => Legal (step idleSeconds) Admissible (make start) steps ∧
      (steps.foldl (step idleSeconds) (make start)).forget =
        steps.foldl (TimingList.step idleSeconds) (.make start))
    ⟨trivial, rfl⟩ (fun steps s _ hs ih => ?_) hsteps
  obtain ⟨hlegal, hforget⟩ := ih
  have hinv := run_inv hlegal
  have hs' := admissible_of_forget hinv (hforget ▸ hs)
  refine ⟨legal_snoc.mpr ⟨hlegal, hs'⟩, ?_⟩
  rw [List.foldl_append, List.foldl_append, List.foldl_cons, List.foldl_nil, List.foldl_cons,
    List.foldl_nil, step_forget hinv s hs', hforget]

/-! ## Every run -/

theorem conns_setConn (l : NodeList) (d : Nat) (conn : PlacedConn) (c : Nat) :
    (l.setConn d conn).conns c = if c = d then conn else l.conns c :=
  Function.update_apply _ _ _ _

theorem conns_set (l : NodeList) (d : Nat) (conn : PlacedConn) (list : LinkedList Nat) (c : Nat) :
    { l.setConn d conn with connectionList := list }.conns c =
      if c = d then conn else l.conns c :=
  conns_setConn l d conn c

/-- Only its down event ends the life of the connection `c` in the list, and only its destruction
that of the object. -/
def Outlives (s : ListStep) (c : Nat) (conn conn' : PlacedConn) : Prop :=
  (s ≠ .down c → (∃ now, s = .up c now) ∨ LoopConnection.IsOpen conn.state →
      LoopConnection.IsOpen conn'.state) ∧
    (s ≠ .gone c → conn'.isGone = conn.isGone)

/-- A step that is about the connection `d`. -/
theorem Outlives.ite {s : ListStep} {d : Nat} {conn conn' : PlacedConn}
    (hup : ∀ now, s = .up c now → c = d) (hself : c = d → Outlives s c conn conn') :
    Outlives s c conn (if c = d then conn' else conn) := by
  split
  · rename_i hd
    exact hself hd
  · rename_i hd
    exact ⟨fun _ ho => ho.resolve_left fun ⟨now, he⟩ => hd (hup now he), fun _ => rfl⟩

theorem step_outlives (h : NodeInv idleSeconds l) {s : ListStep} (hs : l.Admissible s) (c : Nat) :
    Outlives s c (l.conns c) ((l.step idleSeconds s).conns c) := by
  cases s with
  | poll now => exact ⟨fun _ ho => ho.resolve_left (by simp), fun _ => rfl⟩
  | timer now =>
    obtain ⟨hopen, hgone⟩ := (onTimer_spec h now).2.1 c
    exact ⟨fun _ ho => hopen.mpr (ho.resolve_left (by simp)), fun _ => hgone⟩
  | up d now =>
    rw [up_eq, conns_set]
    refine Outlives.ite (fun now' he => ?_) ?_
    · cases he
      rfl
    · rintro rfl
      exact ⟨fun _ _ => .inl rfl, fun _ => rfl⟩
  | down d =>
    rw [down_eq h hs.1 hs.2, conns_set]
    refine Outlives.ite (by simp) ?_
    rintro rfl
    exact ⟨fun hne => absurd rfl hne, fun _ => rfl⟩
  | message d =>
    rw [message_eq h hs.1 hs.2, conns_set]
    refine Outlives.ite (by simp) ?_
    rintro rfl
    exact ⟨fun _ _ => hs.1, fun _ => rfl⟩
  | shutdown d =>
    rw [step, conns_setConn]
    refine Outlives.ite (by simp) ?_
    rintro rfl
    refine ⟨fun _ ho => ?_, fun _ => (PlacedConn.shutdown_rest _).1⟩
    exact PlacedConn.shutdown_isOpen.mpr (ho.resolve_left (by simp))
  | gone d =>
    rw [step, conns_setConn]
    refine Outlives.ite (by simp) ?_
    rintro rfl
    exact ⟨fun _ ho => ho.resolve_left (by simp), fun hne => absurd rfl hne⟩

theorem run_isOpen {start : Timestamp} {steps : List ListStep}
    (hsteps : Legal (step idleSeconds) Admissible (make start) steps)
    (hup : ∃ now, .up c now ∈ steps) (hdown : .down c ∉ steps) :
    LoopConnection.IsOpen ((steps.foldl (step idleSeconds) (make start)).conns c).state := by
  revert hup hdown
  refine legal_induction
    (P := fun steps => (∃ now, .up c now ∈ steps) → .down c ∉ steps →
      LoopConnection.IsOpen ((steps.foldl (step idleSeconds) (make start)).conns c).state)
    (by simp) (fun steps s hlegal hs ih => ?_) hsteps
  rintro ⟨now, hup⟩ hdown
  rw [List.mem_append, List.mem_singleton, not_or] at hdown
  rw [List.foldl_append, List.foldl_cons, List.foldl_nil]
  refine (step_outlives (run_inv hlegal) hs c).1 (Ne.symm hdown.2) ?_
  rcases List.mem_append.mp hup with hup | hup
  · exact .inr (ih ⟨now, hup⟩ hdown.1)
  · exact .inl ⟨now, (List.mem_singleton.mp hup).symm⟩

theorem run_isGone {start : Timestamp} {steps : List ListStep}
    (hsteps : Legal (step idleSeconds) Admissible (make start) steps) (hgone : .gone c ∉ steps) :
    ((steps.foldl (step idleSeconds) (make start)).conns c).isGone = false := by
  revert hgone
  refine legal_induction
    (P := fun steps => .gone c ∉ steps →
      ((steps.foldl (step idleSeconds) (make start)).conns c).isGone = false)
    (fun _ => rfl) (fun steps s hlegal hs ih => ?_) hsteps
  intro hgone
  rw [List.mem_append, List.mem_singleton, not_or] at hgone
  rw [List.foldl_append, List.foldl_cons, List.foldl_nil]
  rw [(step_outlives (run_inv hlegal) hs c).2 (Ne.symm hgone.2), ih hgone.1]

/-- **The timing list tracks each connection once and closes only idle ones.** In every run, with
any clock: no iterator of an erased element is used, no `Node*` is null, no assertion fails and
every pass of `OnTimer` ends. A connection that has come up, not gone down and not been deleted has
a node and stands at its `position` and nowhere else. `OnTimer` closes a connection at most once,
when its last time stamp is more than `idle_seconds_` before. -/
theorem list_tracks (idleSeconds : Int) (start : Timestamp) (steps : List ListStep)
    (hsteps : Legal (step idleSeconds) Admissible (make start) steps) :
    let l := steps.foldl (step idleSeconds) (make start)
    l.fault = none ∧
      (∀ c, (∃ now, .up c now ∈ steps) → .down c ∉ steps → .gone c ∉ steps →
        (∃ node, (l.conns c).timingContext = some node) ∧
          l.connectionList.places c = [(l.conns c).position]) ∧
      ∀ c, PlacedConn.ClosesIdle idleSeconds (l.conns c).events := by
  intro l
  have h : NodeInv idleSeconds l := run_inv hsteps
  refine ⟨h.fault, fun c hup hdown hgone => ?_, fun c => (h.conns c).idle⟩
  have hopen : LoopConnection.IsOpen (l.conns c).state := run_isOpen hsteps hup hdown
  exact ⟨(h.conns c).exists_node hopen, (h.conns c).placed hopen (run_isGone hsteps hgone)⟩

/-- The clock jumps back, a connection is deleted without a down event, and a later pass closes an
idle one. -/
def jumps : List ListStep :=
  [.up 0 20000000, .up 1 21000000, .gone 0, .timer 5000000, .poll 6000000, .message 1,
    .timer 15000000, .timer 16000000]

theorem jumps_tracked :
    let l := jumps.foldl (step 8) (make 0)
    l.connectionList.elems = [(1, 1)] ∧ (l.conns 1).position = 1 ∧
      PlacedConn.ClosesIdle 8 (l.conns 1).events ∧
      (l.conns 1).events = [.stamped 21000000, .stamped 5000000, .stamped 6000000,
        .closed 15000000] := by
  refine ⟨by decide +kernel, by decide +kernel, ?_, by decide +kernel⟩
  exact (list_tracks 8 0 jumps (by decide +kernel)).2.2 1

end NodeList

end MyTinyHttpd
