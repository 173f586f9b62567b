import MyTinyHttpd.Net.TcpServer

/-!
# The life cycle of the connections of a server

Three messages travel for each connection: `ConnectEstablished` from the base loop to the loop of
the connection, `RemoveConnectionInLoop` back to the base loop, and `ConnectDestroyed` to the loop
of the connection again. In the base loop the first two run at once.

* `Phase`: where a connection is on this way; it says what its history is, whether it is in
  `connections_`, and what waits for it in the queues (`ConnAt`, `Waits`).
* `step_serverInv`: every step takes at most one connection to its next phase and leaves the
  others where they are.
* `nameOf_injective`: the 64 bytes of the buffer are enough to keep the names apart.
* `lifeCycle_exact`: the whole life cycle, for every interleaving.
-/

namespace MyTinyHttpd

open Verif

namespace TcpServer

open LoopConnection (IsOpen)

variable {γ : Type} (alloc : Allocator) {s : TcpServer γ} {i : Nat} {c : Served γ}

/-! ## Names -/

/-- The name of the connection with an id. -/
def nameOf (s : TcpServer γ) (id : Int) : List UInt8 := { s with nextConnId := id }.connName

/-- The text of an id that fits in an `int` fits in the buffer. -/
theorem nameOf_eq (hip : s.ipPort.length ≤ 47) {n : Nat} (hn : n < 2 ^ 31) :
    s.nameOf n = s.name ++ (ascii "-" ++ cStr s.ipPort ++ ascii "#" ++ decimal n) := by
  have hdecimal : decimalInt n = decimal n := by
    rw [decimalInt, if_neg (by omega), Int.toNat_natCast]
  have hdigits : (decimal n).length ≤ 10 := length_decimal_le (by omega) (by decide)
  have hip' : (cStr s.ipPort).length ≤ 47 := (List.takeWhile_sublist _).length_le.trans hip
  have hdash : (ascii "-").length = 1 := by decide
  have hhash : (ascii "#").length = 1 := by decide
  rw [nameOf, connName, hdecimal, snprintf_of_lt]
  simp only [List.length_append]
  omega

theorem nameOf_injective (hip : s.ipPort.length ≤ 47) {m n : Nat} (hm : m < 2 ^ 31)
    (hn : n < 2 ^ 31) (h : s.nameOf m = s.nameOf n) : m = n := by
  rw [nameOf_eq hip hm, nameOf_eq hip hn] at h
  exact decimal_injective (List.append_cancel_left (List.append_cancel_left h))

/-! ## Phases -/

/-- Where a connection is on its way. -/
inductive Phase where
  /-- `ConnectEstablished` waits in the loop of the connection. -/
  | created
  | up
  /-- `RemoveConnectionInLoop` waits in the base loop. -/
  | closed
  /-- `ConnectDestroyed` waits in the loop of the connection. -/
  | removed
  | gone

/-- The whole history of a connection that is closed in the state `st`. -/
def lifeCycle (st : ConnState) : List LifeEvent :=
  [.inserted false, .connectEstablished .kConnecting, .connectionCallback true, .handleClose st,
    .connectionCallback false, .erased 1, .connectDestroyed .kDisconnected Channel.kNoneEvent]

namespace Phase

/-- How much of the history has happened. -/
def length : Phase → Nat
  | created => 1
  | up => 3
  | closed => 5
  | removed => 6
  | gone => 7

/-- The connection of a phase. -/
def State : Phase → TcpConnection γ → Prop
  | created, c => c.state = .kConnecting
  | up, c => IsOpen c.state
  | _, c => c.state = .kDisconnected ∧ c.channel.events = Channel.kNoneEvent

/-- What `connections_` has under the name of the connection. -/
def entry (i : Nat) : Phase → Option Nat
  | created | up | closed => some i
  | removed | gone => none

end Phase

def IsCallback (t : ServerTask) : Prop := ∃ i f, t = .callback i f

/-- What waits for a connection in its own loop and in the base loop. -/
def Waits (i : Nat) (own base : List ServerTask) : Phase → Prop
  | .created => own = [.connectEstablished i] ∧ base = []
  | .up => (∀ t ∈ own, IsCallback t) ∧ base = []
  | .closed => (∀ t ∈ own, IsCallback t) ∧ base = [.removeConnectionInLoop i]
  | .removed =>
    (∃ callbacks, (∀ t ∈ callbacks, IsCallback t) ∧ own = callbacks ++ [.connectDestroyed i]) ∧
      base = []
  | .gone => own = [] ∧ base = []

/-- The functors of a connection in the queue of a loop. -/
def tasksOf (s : TcpServer γ) (loop i : Nat) : List ServerTask :=
  (s.pending loop).filter (·.conn = i)

/-- The connection `i` is in a phase; `own` waits in its loop and `base` in the base loop. -/
structure ConnAt (s : TcpServer γ) (i : Nat) (c : Served γ) (p : Phase)
    (own base : List ServerTask) : Prop where
  history : ∃ st, IsOpen st ∧ c.history = (lifeCycle st).take p.length
  state : p.State c.conn
  flushed : c.conn.pending = []
  entry : s.connections.lookup c.name = p.entry i
  tasks : ∀ loop, s.tasksOf loop i =
    (if loop = c.loop then own else []) ++ (if loop = 0 then base else [])

def ConnInv (s : TcpServer γ) (i : Nat) (c : Served γ) : Prop :=
  ∃ p own base, ConnAt s i c p own base ∧ Waits i own base p

theorem ConnAt.congr {s' : TcpServer γ} {p : Phase} {own base : List ServerTask}
    (h : ConnAt s i c p own base)
    (hentry : s'.connections.lookup c.name = s.connections.lookup c.name)
    (htasks : ∀ loop, s'.tasksOf loop i = s.tasksOf loop i) : ConnAt s' i c p own base :=
  ⟨h.history, h.state, h.flushed, hentry.trans h.entry,
    fun loop => (htasks loop).trans (h.tasks loop)⟩

theorem ConnInv.congr {s' : TcpServer γ} (h : ConnInv s i c)
    (hentry : s'.connections.lookup c.name = s.connections.lookup c.name)
    (htasks : ∀ loop, s'.tasksOf loop i = s.tasksOf loop i) : ConnInv s' i c := by
  obtain ⟨p, own, base, hat, hwaits⟩ := h
  exact ⟨p, own, base, hat.congr hentry htasks, hwaits⟩

/-! ## The server -/

/-- The invariant of the server, without what it says of the connection `i`. -/
structure Others (s : TcpServer γ) (i : Nat) : Prop where
  ipPort : s.ipPort.length ≤ 47
  count : s.served.length < 2 ^ 31 - 1
  nextConnId : s.nextConnId = (s.served.length + 1 : Nat)
  names : ∀ j c, s.served[j]? = some c → c.name = s.nameOf (j + 1 : Nat)
  entries : ∀ name j, s.connections.lookup name = some j →
    ∃ c, s.served[j]? = some c ∧ c.name = name
  known : ∀ loop, ∀ t ∈ s.pending loop, t.conn < s.served.length
  conns : ∀ j c, j ≠ i → s.served[j]? = some c → ConnInv s j c

/-- The connection `i` in the server. -/
structure Focus (s : TcpServer γ) (i : Nat) (c : Served γ) (p : Phase)
    (own base : List ServerTask) : Prop where
  others : Others s i
  served : s.served[i]? = some c
  connAt : ConnAt s i c p own base

structure ServerInv (s : TcpServer γ) : Prop where
  others : ∀ i, Others s i

theorem Others.serverInv (h : Others s i) (hi : ∀ c, s.served[i]? = some c → ConnInv s i c) :
    ServerInv s := by
  refine ⟨fun j => { h with conns := fun k c _ hc => ?_ }⟩
  by_cases hk : k = i
  · subst hk
    exact hi c hc
  · exact h.conns k c hk hc

theorem Focus.serverInv {p : Phase} {own base : List ServerTask} (h : Focus s i c p own base)
    (hwaits : Waits i own base p) : ServerInv s := by
  refine h.others.serverInv fun c' hc' => ?_
  obtain rfl : c = c' := Option.some.inj (h.served.symm.trans hc')
  exact ⟨p, own, base, h.connAt, hwaits⟩

theorem ServerInv.focus (h : ServerInv s) (hc : s.served[i]? = some c) :
    ∃ p own base, Focus s i c p own base ∧ Waits i own base p := by
  obtain ⟨p, own, base, hat, hwaits⟩ := (h.others (i + 1)).conns i c (by omega) hc
  exact ⟨p, own, base, ⟨h.others i, hc, hat⟩, hwaits⟩

theorem Others.lt_length {t : ServerTask} {loop : Nat} (h : Others s i) (ht : t ∈ s.pending loop) :
    ∃ c, s.served[t.conn]? = some c :=
  ⟨_, List.getElem?_eq_getElem (h.known loop t ht)⟩

/-- Connections with one name are one connection. -/
theorem Others.name_injective (h : Others s i) {j k : Nat} {c c' : Served γ}
    (hj : s.served[j]? = some c) (hk : s.served[k]? = some c') (hname : c.name = c'.name) :
    j = k := by
  have hjl := (List.getElem?_eq_some_iff.mp hj).1
  have hkl := (List.getElem?_eq_some_iff.mp hk).1
  have hcount := h.count
  rw [h.names j c hj, h.names k c' hk] at hname
  have := nameOf_injective h.ipPort (by omega) (by omega) hname
  omega

/-! ## What a step is made of -/

variable {p : Phase} {own base : List ServerTask}

theorem tasksOf_eq_nil {ts : List ServerTask} (hts : ∀ t ∈ ts, t.conn = i) {j : Nat}
    (hj : j ≠ i) : ts.filter (·.conn = j) = [] := by
  rw [List.filter_eq_nil_iff]
  intro t ht
  simp [hts t ht, hj.symm]

theorem tasksOf_eq_self {ts : List ServerTask} (hts : ∀ t ∈ ts, t.conn = i) :
    ts.filter (·.conn = i) = ts := by
  rw [List.filter_eq_self]
  intro t ht
  simp [hts t ht]

@[simp] theorem tasksOf_queueInLoop (s : TcpServer γ) (loop loop' j : Nat) (ts : List ServerTask) :
    (s.queueInLoop loop ts).tasksOf loop' j =
      s.tasksOf loop' j ++ if loop' = loop then ts.filter (·.conn = j) else [] := by
  by_cases hl : loop' = loop
  · subst hl
    simp [tasksOf, queueInLoop]
  · simp [tasksOf, queueInLoop, hl]

theorem Others.queueInLoop (h : Others s i) (hc : s.served[i]? = some c) (loop : Nat)
    {ts : List ServerTask} (hts : ∀ t ∈ ts, t.conn = i) : Others (s.queueInLoop loop ts) i := by
  refine ⟨h.ipPort, h.count, h.nextConnId, h.names, h.entries, fun loop' t ht => ?_,
    fun j c hj hc => ?_⟩
  · by_cases hl : loop' = loop
    · subst hl
      simp only [TcpServer.queueInLoop, Function.update_self, List.mem_append] at ht
      rcases ht with ht | ht
      · exact h.known loop' t ht
      · rw [hts t ht]
        exact (List.getElem?_eq_some_iff.mp hc).1
    · simp only [TcpServer.queueInLoop, Function.update_of_ne hl] at ht
      exact h.known loop' t ht
  · refine (h.conns j c hj hc).congr rfl fun loop' => ?_
    rw [tasksOf_queueInLoop, tasksOf_eq_nil hts hj, ite_self, List.append_nil]

/-- Functors join the queue of a loop, which makes `own'` and `base'` of the two queues. -/
theorem Focus.queueIn (h : Focus s i c p own base) (loop : Nat) {ts own' base' : List ServerTask}
    (hts : ∀ t ∈ ts, t.conn = i)
    (htasks : ∀ l, ((if l = c.loop then own else []) ++ if l = 0 then base else []) ++
      (if l = loop then ts else []) =
        (if l = c.loop then own' else []) ++ if l = 0 then base' else []) :
    Focus (s.queueInLoop loop ts) i c p own' base' := by
  refine ⟨h.others.queueInLoop h.served loop hts, h.served, ?_⟩
  refine ⟨h.connAt.history, h.connAt.state, h.connAt.flushed, h.connAt.entry, fun l => ?_⟩
  rw [tasksOf_queueInLoop, h.connAt.tasks, tasksOf_eq_self hts]
  exact htasks l

theorem Focus.queueInLoop (h : Focus s i c p own []) {ts : List ServerTask}
    (hts : ∀ t ∈ ts, t.conn = i) : Focus (s.queueInLoop c.loop ts) i c p (own ++ ts) [] := by
  refine h.queueIn c.loop hts fun l => ?_
  by_cases hl : l = c.loop <;> simp [hl]

theorem Focus.queueInBase (h : Focus s i c p own []) {ts : List ServerTask}
    (hts : ∀ t ∈ ts, t.conn = i) : Focus (s.queueInLoop 0 ts) i c p own ts := by
  refine h.queueIn 0 hts fun l => ?_
  by_cases hl : l = 0 <;> simp [hl]

theorem record_served (s : TcpServer γ) (i j : Nat) (f : TcpConnection γ → TcpConnection γ)
    (events : Served γ → List LifeEvent) :
    (s.record i f events).served[j]? = s.served[j]?.map fun c =>
      if i = j then { c with conn := f c.conn, history := c.history ++ events c } else c := by
  rw [record, List.getElem?_modify]
  rfl

theorem Others.record (h : Others s i) (f : TcpConnection γ → TcpConnection γ)
    (events : Served γ → List LifeEvent) : Others (s.record i f events) i := by
  have hlen : (s.record i f events).served.length = s.served.length := List.length_modify ..
  refine ⟨h.ipPort, ?_, ?_, fun j c hc => ?_, fun name j hj => ?_, fun loop t ht => ?_,
    fun j c hj hc => ?_⟩
  · rw [hlen]
    exact h.count
  · rw [hlen]
    exact h.nextConnId
  · rw [record_served] at hc
    obtain ⟨c₀, hc₀, rfl⟩ := Option.map_eq_some_iff.mp hc
    have hname := h.names j c₀ hc₀
    split <;> exact hname
  · obtain ⟨c₀, hc₀, hname⟩ := h.entries name j hj
    refine ⟨_, (record_served s i j f events).trans (by rw [hc₀]; rfl), ?_⟩
    split <;> exact hname
  · rw [hlen]
    exact h.known loop t ht
  · rw [record_served] at hc
    obtain ⟨c₀, hc₀, rfl⟩ := Option.map_eq_some_iff.mp hc
    rw [if_neg hj.symm]
    exact (h.conns j c₀ hj hc₀).congr rfl fun _ => rfl

/-- The connection comes to another phase, with the same entry in `connections_`. -/
theorem Focus.record (h : Focus s i c p own base) {p' : Phase}
    {f : TcpConnection γ → TcpConnection γ} {events : Served γ → List LifeEvent}
    (hhistory : ∃ st, IsOpen st ∧ c.history ++ events c = (lifeCycle st).take p'.length)
    (hstate : p'.State (f c.conn)) (hflushed : (f c.conn).pending = [])
    (hentry : p'.entry i = p.entry i) :
    Focus (s.record i f events) i { c with conn := f c.conn, history := c.history ++ events c } p'
      own base := by
  refine ⟨h.others.record f events, ?_, hhistory, hstate, hflushed, ?_, h.connAt.tasks⟩
  · rw [record_served, h.served, Option.map_some, if_pos rfl]
  · exact h.connAt.entry.trans hentry.symm

/-- `connections_.erase(c.name)`. -/
theorem Others.erase (h : Others s i) (hc : s.served[i]? = some c) :
    Others { s with connections := s.connections.erase c.name } i := by
  have hne : ∀ j c', j ≠ i → s.served[j]? = some c' → c'.name ≠ c.name := by
    intro j c' hj hc' hname
    exact hj (h.name_injective hc' hc hname)
  refine ⟨h.ipPort, h.count, h.nextConnId, h.names, fun name j hj => ?_, h.known,
    fun j c' hj hc' => ?_⟩
  · by_cases hname : name = c.name
    · rw [hname, AList.lookup_erase] at hj
      cases hj
    · rw [AList.lookup_erase_ne hname] at hj
      exact h.entries name j hj
  · exact (h.conns j c' hj hc').congr (AList.lookup_erase_ne (hne j c' hj hc')) fun _ => rfl

theorem tasksOf_pop {t : ServerTask} {loop : Nat} {ts : List ServerTask}
    (hq : s.pending loop = t :: ts) (loop' j : Nat) :
    { s with pending := Function.update s.pending loop ts }.tasksOf loop' j =
      if loop' = loop ∧ t.conn = j then (s.tasksOf loop' j).tail else s.tasksOf loop' j := by
  by_cases hl : loop' = loop
  · subst hl
    by_cases hj : t.conn = j <;> simp [tasksOf, hq, hj]
  · simp [tasksOf, hl]

/-- The first functor of a queue is taken. -/
theorem Others.pop {t : ServerTask} {loop : Nat} {ts : List ServerTask} (h : Others s i)
    (hq : s.pending loop = t :: ts) (ht : t.conn = i) :
    Others { s with pending := Function.update s.pending loop ts } i := by
  refine ⟨h.ipPort, h.count, h.nextConnId, h.names, h.entries, fun loop' t' ht' => ?_,
    fun j c hj hc => ?_⟩
  · by_cases hl : loop' = loop
    · subst hl
      simp only [Function.update_self] at ht'
      exact h.known loop' t' (hq ▸ List.mem_cons_of_mem t ht')
    · simp only [Function.update_of_ne hl] at ht'
      exact h.known loop' t' ht'
  · refine (h.conns j c hj hc).congr rfl fun loop' => ?_
    rw [tasksOf_pop hq, if_neg fun hand => hj (hand.2.symm.trans ht)]

/-- A functor of the connection is taken from its own loop or from the base loop. -/
theorem Focus.pop {t : ServerTask} {loop : Nat} {ts : List ServerTask}
    (h : Focus s i c p own base) (hq : s.pending loop = t :: ts) (ht : t.conn = i) :
    let s' := { s with pending := Function.update s.pending loop ts }
    (∃ own', own = t :: own' ∧ Focus s' i c p own' base) ∨
      ∃ base', base = t :: base' ∧ Focus s' i c p own base' := by
  intro s'
  have hothers : Others s' i := h.others.pop hq ht
  have hhead : s.tasksOf loop i = t :: ts.filter (·.conn = i) := by
    simp [tasksOf, hq, ht]
  have hfocus : ∀ own' base', (∀ loop', s'.tasksOf loop' i =
      (if loop' = c.loop then own' else []) ++ (if loop' = 0 then base' else [])) →
      Focus s' i c p own' base' := fun own' base' htasks =>
    ⟨hothers, h.served, h.connAt.history, h.connAt.state, h.connAt.flushed, h.connAt.entry, htasks⟩
  have htasks := h.connAt.tasks loop
  rw [hhead] at htasks
  by_cases hown : loop = c.loop ∧ own ≠ []
  · obtain ⟨rfl, hne⟩ := hown
    obtain ⟨t', own', rfl⟩ := List.exists_cons_of_ne_nil hne
    rw [if_pos rfl, List.cons_append, List.cons.injEq] at htasks
    obtain ⟨rfl, hrest⟩ := htasks
    refine .inl ⟨own', rfl, hfocus own' base fun loop' => ?_⟩
    rw [tasksOf_pop hq, h.connAt.tasks]
    by_cases hl : loop' = c.loop <;> simp [hl, ht]
  · have hnil : (if loop = c.loop then own else []) = [] := by
      split
      · by_contra hne
        exact hown ⟨‹_›, hne⟩
      · rfl
    rw [hnil, List.nil_append] at htasks
    split at htasks
    · rename_i hl
      subst hl
      refine .inr ⟨ts.filter (·.conn = i), htasks.symm, hfocus _ _ fun loop' => ?_⟩
      rw [tasksOf_pop hq, h.connAt.tasks, ← htasks]
      by_cases hl : loop' = 0
      · subst hl
        simp [hnil, ht]
      · simp [hl]
    · cases htasks

/-! ## The functors -/

theorem connectEstablished_serverInv (h : Focus s i c .created [] []) :
    ServerInv (s.connectEstablished i) := by
  obtain ⟨st, hopen, hhistory⟩ := h.connAt.history
  have hstate : c.conn.state = .kConnecting := h.connAt.state
  refine Focus.serverInv (p := .up) (h.record ⟨st, hopen, ?_⟩ ?_ h.connAt.flushed rfl) ⟨?_, rfl⟩
  · rw [hhistory, hstate]
    rfl
  · exact .inl rfl
  · simp

theorem removeConnectionInLoop_serverInv (h : Focus s i c .closed own [])
    (hown : ∀ t ∈ own, IsCallback t) : ServerInv (s.removeConnectionInLoop i) := by
  obtain ⟨st, hopen, hhistory⟩ := h.connAt.history
  have hentry : s.connections.lookup c.name = some i := h.connAt.entry
  have hmem : c.name ∈ s.connections := by
    rw [← AList.lookup_isSome, hentry]
    rfl
  simp only [removeConnectionInLoop, h.served, hmem, ↓reduceIte]
  have hothers := (h.others.erase h.served).record id fun _ => [.erased 1]
  have hfocus : Focus (record { s with connections := s.connections.erase c.name } i id
      fun _ => [.erased 1]) i { c with history := c.history ++ [.erased 1] } .removed own [] := by
    refine ⟨hothers, ?_, ⟨st, hopen, ?_⟩, h.connAt.state, h.connAt.flushed, ?_, h.connAt.tasks⟩
    · rw [record_served]
      simp [h.served]
    · rw [hhistory]
      rfl
    · exact AList.lookup_erase c.name s.connections
  refine Focus.serverInv (hfocus.queueInLoop (by simp [ServerTask.conn])) ?_
  exact ⟨⟨own, hown, rfl⟩, rfl⟩

theorem connectDestroyed_serverInv (h : Focus s i c .removed [] []) :
    ServerInv (s.connectDestroyed i) := by
  obtain ⟨st, hopen, hhistory⟩ := h.connAt.history
  obtain ⟨hstate, hevents⟩ : c.conn.state = .kDisconnected ∧
      c.conn.channel.events = Channel.kNoneEvent := h.connAt.state
  have hdestroy : destroy c.conn = c.conn := if_neg (by simp [hstate])
  refine Focus.serverInv (p := .gone) (h.record ⟨st, hopen, ?_⟩ ?_ ?_ rfl) ⟨rfl, rfl⟩
  · rw [hhistory, hdestroy, hstate, hevents]
    rfl
  · rw [hdestroy]
    exact ⟨hstate, hevents⟩
  · rw [hdestroy]
    exact h.connAt.flushed

/-- One functor, taken from the queue of a loop. -/
theorem runFunctor_serverInv (h : ServerInv s) (loop : Nat) : ServerInv (s.runFunctor loop) := by
  unfold runFunctor
  split
  · exact h
  · rename_i t ts hq
    have hmem : t ∈ s.pending loop := hq ▸ List.mem_cons_self
    obtain ⟨c, hc⟩ := (h.others 0).lt_length hmem
    obtain ⟨i, ht⟩ : ∃ i, t.conn = i := ⟨_, rfl⟩
    rw [ht] at hc
    obtain ⟨p, own, base, hfocus, hwaits⟩ := h.focus hc
    have hpop := hfocus.pop hq ht
    -- The functor is the first one of what waits in the phase.
    cases p with
    | created =>
      obtain ⟨rfl, rfl⟩ := hwaits
      obtain ⟨own', he, hf⟩ | ⟨base', he, hf⟩ := hpop
      · obtain ⟨rfl, rfl⟩ := List.cons.inj he
        exact connectEstablished_serverInv hf
      · cases he
    | up =>
      obtain ⟨hown, rfl⟩ := hwaits
      obtain ⟨own', rfl, hf⟩ | ⟨base', he, hf⟩ := hpop
      · obtain ⟨⟨i, f, rfl⟩, hown'⟩ := List.forall_mem_cons.mp hown
        exact hf.serverInv ⟨hown', rfl⟩
      · cases he
    | closed =>
      obtain ⟨hown, rfl⟩ := hwaits
      obtain ⟨own', rfl, hf⟩ | ⟨base', he, hf⟩ := hpop
      · obtain ⟨⟨i, f, rfl⟩, hown'⟩ := List.forall_mem_cons.mp hown
        exact hf.serverInv ⟨hown', rfl⟩
      · obtain ⟨rfl, rfl⟩ := List.cons.inj he
        exact removeConnectionInLoop_serverInv hf hown
    | removed =>
      obtain ⟨⟨callbacks, hcallbacks, rfl⟩, rfl⟩ := hwaits
      obtain ⟨own', he, hf⟩ | ⟨base', he, hf⟩ := hpop
      · cases callbacks with
        | nil =>
          obtain ⟨rfl, rfl⟩ := List.cons.inj he
          exact connectDestroyed_serverInv hf
        | cons t' callbacks =>
          obtain ⟨rfl, rfl⟩ := List.cons.inj he
          obtain ⟨⟨i, f, rfl⟩, hrest⟩ := List.forall_mem_cons.mp hcallbacks
          exact hf.serverInv ⟨⟨callbacks, hrest, rfl⟩, rfl⟩
      · cases he
    | gone =>
      obtain ⟨rfl, rfl⟩ := hwaits
      obtain ⟨own', he, hf⟩ | ⟨base', he, hf⟩ := hpop <;> cases he

/-! ## The events -/

theorem handleClose_serverInv (h : ServerInv s) (hc : s.served[i]? = some c)
    (hopen : IsOpen c.conn.state) : ServerInv (s.handleClose i) := by
  obtain ⟨p, own, base, hfocus, hwaits⟩ := h.focus hc
  have hstate := hfocus.connAt.state
  have hclosed : ∀ st, st = ConnState.kConnecting ∨ st = .kDisconnected → ¬ IsOpen st := by
    rintro st (rfl | rfl) <;> decide
  cases p with
  | created => exact absurd hopen (hclosed _ (.inl hstate))
  | closed => exact absurd hopen (hclosed _ (.inr hstate.1))
  | removed => exact absurd hopen (hclosed _ (.inr hstate.1))
  | gone => exact absurd hopen (hclosed _ (.inr hstate.1))
  | up =>
    obtain ⟨hown, rfl⟩ := hwaits
    obtain ⟨st, -, hhistory⟩ := hfocus.connAt.history
    have hfocus' : Focus (s.record i (·.handleClose)
        fun c => [.handleClose c.conn.state, .connectionCallback false]) i _ .closed own [] :=
      hfocus.record ⟨c.conn.state, hopen, by rw [hhistory]; rfl⟩ ⟨rfl, rfl⟩
        hfocus.connAt.flushed rfl
    simp only [handleClose, hc, runInLoop]
    split
    · exact removeConnectionInLoop_serverInv hfocus' hown
    · exact Focus.serverInv (hfocus'.queueInBase (by simp [ServerTask.conn])) ⟨hown, rfl⟩

theorem queueInLoop_nil (s : TcpServer γ) (loop : Nat) : s.queueInLoop loop [] = s := by
  simp [queueInLoop]

theorem Traffic.apply_isOpen {c : TcpConnection γ} (h : IsOpen c.state) (t : Traffic) :
    IsOpen (t.apply alloc c).state := by
  cases t with
  | sendInLoop data =>
    rw [Traffic.apply, TcpConnection.sendInLoop_state]
    exact h
  | handleWrite =>
    rw [Traffic.apply, TcpConnection.handleWrite_state]
    exact h
  | shutdown =>
    simp only [Traffic.apply, TcpConnection.shutdown]
    split
    · rw [TcpConnection.shutdownInLoop_state]
      exact .inr rfl
    · exact h

theorem Traffic.apply_closed {c : TcpConnection γ} (hs : c.state = .kDisconnected)
    (he : c.channel.events = Channel.kNoneEvent) (t : Traffic) : t.apply alloc c = c := by
  cases t with
  | sendInLoop data => exact TcpConnection.sendInLoop_closed alloc hs data
  | handleWrite =>
    have hw : c.channel.isWriting = false := by
      rw [Channel.isWriting, he]
      decide
    exact TcpConnection.handleWrite_idle hw
  | shutdown => exact if_neg (by simp [hs])

/-- Traffic of a closed connection does nothing. -/
theorem traffic_closed (hfocus : Focus s i c p own base) (hs : c.conn.state = .kDisconnected)
    (he : c.conn.channel.events = Channel.kNoneEvent) (t : Traffic)
    (hwaits : Waits i own base p) : ServerInv (s.traffic alloc i t) := by
  have hflushed := hfocus.connAt.flushed
  simp only [traffic, hfocus.served, Traffic.apply_closed alloc hs he, hflushed, List.map_nil,
    queueInLoop_nil]
  have hconn : { c.conn with pending := [] } = c.conn := by
    rw [← hflushed]
  refine Focus.serverInv (p := p) (hfocus.record ?_ ?_ rfl rfl) hwaits
  · simpa using hfocus.connAt.history
  · rw [hconn]
    exact hfocus.connAt.state

theorem traffic_serverInv (h : ServerInv s) (hc : s.served[i]? = some c)
    (hstate : c.conn.state ≠ .kConnecting) (t : Traffic) : ServerInv (s.traffic alloc i t) := by
  obtain ⟨p, own, base, hfocus, hwaits⟩ := h.focus hc
  have hp := hfocus.connAt.state
  cases p with
  | created => exact absurd hp hstate
  | up =>
    obtain ⟨hown, rfl⟩ := hwaits
    have hopen : IsOpen (t.apply alloc c.conn).state := Traffic.apply_isOpen alloc hp t
    have hfocus' : Focus (s.record i (fun _ => { t.apply alloc c.conn with pending := [] })
        fun _ => []) i _ .up own [] :=
      hfocus.record (by simpa using hfocus.connAt.history) hopen rfl rfl
    simp only [traffic, hc]
    refine Focus.serverInv (hfocus'.queueInLoop (by simp [ServerTask.conn])) ⟨?_, rfl⟩
    intro t' ht'
    rcases List.mem_append.mp ht' with hm | hm
    · exact hown t' hm
    · obtain ⟨f, -, rfl⟩ := List.mem_map.mp hm
      exact ⟨i, f, rfl⟩
  | closed => exact traffic_closed alloc hfocus hp.1 hp.2 t hwaits
  | removed => exact traffic_closed alloc hfocus hp.1 hp.2 t hwaits
  | gone => exact traffic_closed alloc hfocus hp.1 hp.2 t hwaits

/-- The next name is new. -/
theorem name_ne_connName (h : Others s i) {j : Nat} {c : Served γ} (hc : s.served[j]? = some c) :
    c.name ≠ s.connName := by
  intro hname
  have hcount := h.count
  have hlt := (List.getElem?_eq_some_iff.mp hc).1
  have hnext : s.connName = s.nameOf (s.served.length + 1 : Nat) := by
    rw [← h.nextConnId]
    rfl
  rw [h.names j c hc, hnext] at hname
  have := nameOf_injective h.ipPort (by omega) (by omega) hname
  omega

theorem connName_not_mem (h : Others s i) : s.connName ∉ s.connections := by
  intro hmem
  obtain ⟨j, hj⟩ := Option.isSome_iff_exists.mp (AList.lookup_isSome.mpr hmem)
  obtain ⟨c, hc, hname⟩ := h.entries _ j hj
  exact name_ne_connName h hc hname

/-- A new connection object in the server. -/
def insert (s : TcpServer γ) (c : Served γ) : TcpServer γ :=
  { s with
    nextConnId := Int.bmod (s.nextConnId + 1) (2 ^ 32)
    connections := s.connections.insert c.name s.served.length
    served := s.served ++ [c] }

theorem insert_served_self (s : TcpServer γ) (c : Served γ) :
    (s.insert c).served[s.served.length]? = some c := by
  simp [insert]

theorem insert_served {c' : Served γ} {j : Nat} (hj : j ≠ s.served.length) :
    (s.insert c).served[j]? = some c' ↔ s.served[j]? = some c' := by
  rcases Nat.lt_or_gt_of_ne hj with hlt | hgt
  · rw [insert, List.getElem?_append_left hlt]
  · have hlen : (s.insert c).served.length = s.served.length + 1 := by simp [insert]
    rw [List.getElem?_eq_none (by omega), List.getElem?_eq_none (by omega)]

theorem Others.insert (h : Others s s.served.length) (hcount : s.served.length + 1 < 2 ^ 31 - 1)
    (hname : c.name = s.connName) : Others (s.insert c) s.served.length := by
  have hlen : (s.insert c).served.length = s.served.length + 1 := by simp [TcpServer.insert]
  refine ⟨h.ipPort, by omega, ?_, fun j c' hc' => ?_, fun name j hj => ?_, fun loop t ht => ?_,
    fun j c' hj hc' => ?_⟩
  · rw [hlen]
    show Int.bmod (s.nextConnId + 1) (2 ^ 32) = _
    rw [h.nextConnId, Int.bmod_eq_of_le (by omega) (by omega)]
    rfl
  · by_cases hj : j = s.served.length
    · subst hj
      obtain rfl : c = c' := Option.some.inj ((insert_served_self s c).symm.trans hc')
      rw [hname, ← h.nextConnId]
      rfl
    · exact h.names j c' ((insert_served hj).mp hc')
  · simp only [TcpServer.insert] at hj
    by_cases hn : name = c.name
    · rw [hn, AList.lookup_insert] at hj
      obtain rfl := Option.some.inj hj
      exact ⟨c, insert_served_self s c, hn.symm⟩
    · rw [AList.lookup_insert_ne hn] at hj
      obtain ⟨c', hc', hname'⟩ := h.entries name j hj
      have hlt := (List.getElem?_eq_some_iff.mp hc').1
      exact ⟨c', (insert_served (by omega)).mpr hc', hname'⟩
  · rw [hlen]
    exact (h.known loop t ht).trans (by omega)
  · have hc' := (insert_served hj).mp hc'
    have hne : c'.name ≠ c.name := hname ▸ name_ne_connName h hc'
    exact (h.conns j c' hj hc').congr (AList.lookup_insert_ne hne) fun _ => rfl

theorem insert_focus (h : Others s s.served.length) (hcount : s.served.length + 1 < 2 ^ 31 - 1)
    (hname : c.name = s.connName) (hhistory : c.history = [.inserted false])
    (hstate : c.conn.state = .kConnecting) (hflushed : c.conn.pending = []) :
    Focus (s.insert c) s.served.length c .created [] [] := by
  refine ⟨h.insert hcount hname, insert_served_self s c, ⟨.kConnected, .inl rfl, hhistory⟩, hstate,
    hflushed, AList.lookup_insert s.connections, fun loop => ?_⟩
  have hnone : (s.insert c).tasksOf loop s.served.length = [] := by
    refine List.filter_eq_nil_iff.mpr fun t ht => ?_
    have := h.known loop t ht
    rw [decide_eq_true_eq]
    omega
  rw [hnone]
  simp

theorem newConnection_serverInv (h : ServerInv s) (hcount : s.served.length + 1 < 2 ^ 31 - 1)
    (answers : Nat → WriteResult) (context : γ) :
    ServerInv (s.newConnection alloc answers context) := by
  obtain ⟨ioLoop, next, hnext⟩ :
      ∃ ioLoop next, s.getNextLoop = (ioLoop, { s with next := next }) := by
    unfold getNextLoop
    split
    · exact ⟨0, s.next, rfl⟩
    · exact ⟨_, _, rfl⟩
  have h₀ := h.others s.served.length
  have hothers : Others { s with next := next } s.served.length :=
    ⟨h₀.ipPort, h₀.count, h₀.nextConnId, h₀.names, h₀.entries, h₀.known,
      fun j c hj hc => (h₀.conns j c hj hc).congr rfl fun _ => rfl⟩
  have hnew := connName_not_mem hothers
  simp only [newConnection, hnext, hnew, decide_false]
  have hfocus := insert_focus (c := ⟨connName { s with next := next }, ioLoop,
    { TcpConnection.make alloc answers context with
      writeCompleteCallback := s.writeCompleteCallback }, [.inserted false]⟩)
    hothers hcount rfl rfl rfl rfl
  unfold runInLoop
  split
  · exact connectEstablished_serverInv hfocus
  · exact Focus.serverInv (hfocus.queueInLoop (by simp [ServerTask.conn])) ⟨rfl, rfl⟩

/-! ## Runs -/

/-- The steps of a run: `HandleClose` is entered in an open state, nobody has the connection before
its first callback, and the ids of the connections do not overflow. -/
def Admissible (s : TcpServer γ) : ServerStep γ → Prop
  | .newConnection _ _ => s.served.length + 1 < 2 ^ 31 - 1
  | .handleClose i => ∀ c ∈ s.served[i]?, IsOpen c.conn.state
  | .traffic i _ => ∀ c ∈ s.served[i]?, c.conn.state ≠ .kConnecting
  | .runFunctor _ => True

theorem step_serverInv (h : ServerInv s) (st : ServerStep γ) (hst : s.Admissible st) :
    ServerInv (s.step alloc st) := by
  cases st with
  | newConnection answers context => exact newConnection_serverInv alloc h hst answers context
  | handleClose i =>
    cases hc : s.served[i]? with
    | none => simpa only [step, handleClose, hc] using h
    | some c => exact handleClose_serverInv h hc (hst c hc)
  | traffic i t =>
    cases hc : s.served[i]? with
    | none => simpa only [step, traffic, hc] using h
    | some c => exact traffic_serverInv alloc h hc (hst c hc) t
  | runFunctor loop => exact runFunctor_serverInv h loop

theorem make_serverInv {ipPort : List UInt8} (hip : ipPort.length ≤ 47) (name : List UInt8)
    (wc : Bool) (loops : Nat) : ServerInv (make (γ := γ) ipPort name wc loops) :=
  ⟨fun _ => ⟨hip, by simp [make], rfl, by simp [make], by simp [make], by simp [make],
    by simp [make]⟩⟩

/-- What holds of each connection of the server. -/
structure ConnExact (s : TcpServer γ) (i : Nat) (c : Served γ) : Prop where
  /-- The history is a first part of the one way that a connection can go. -/
  history : c.history ≠ [] ∧ ∃ st, IsOpen st ∧ c.history <+: lifeCycle st
  /-- `connections_` has the connection until it is erased. -/
  inMap : s.connections.lookup c.name = some i ↔ ∀ n, .erased n ∉ c.history
  /-- No message is lost. -/
  established : .connectEstablished .kConnecting ∈ c.history ∨
    .connectEstablished i ∈ s.pending c.loop
  destroyed : ∀ st, .handleClose st ∈ c.history → c.history = lifeCycle st ∨
    .removeConnectionInLoop i ∈ s.pending 0 ∨ .connectDestroyed i ∈ s.pending c.loop
  /-- A connection that has been destroyed is in no queue and not in `connections_`. -/
  gone : ∀ st, c.history = lifeCycle st →
    (∀ loop, ∀ t ∈ s.pending loop, t.conn ≠ i) ∧ s.connections.lookup c.name = none

theorem mem_pending_of_tasksOf {t : ServerTask} {loop : Nat} (h : t ∈ s.tasksOf loop i) :
    t ∈ s.pending loop := (List.mem_filter.mp h).1

theorem ConnInv.exact (h : ConnInv s i c) : ConnExact s i c := by
  obtain ⟨p, own, base, hat, hwaits⟩ := h
  obtain ⟨st', hopen, hhistory⟩ := hat.history
  refine ⟨⟨?_, st', hopen, ?_⟩, ?_, ?_, fun st hclose => ?_, fun st hdone => ?_⟩
  · rw [hhistory]
    cases p <;> simp [Phase.length, lifeCycle]
  · rw [hhistory]
    exact List.take_prefix _ _
  · rw [hat.entry, hhistory]
    cases p <;> simp [Phase.length, lifeCycle, Phase.entry]
  · cases p with
    | created =>
      obtain ⟨rfl, rfl⟩ := hwaits
      refine .inr (mem_pending_of_tasksOf (i := i) ?_)
      rw [hat.tasks]
      simp
    | _ =>
      refine .inl ?_
      rw [hhistory]
      simp [Phase.length, lifeCycle]
  · rw [hhistory] at hclose
    cases p with
    | created => simp [Phase.length, lifeCycle] at hclose
    | up => simp [Phase.length, lifeCycle] at hclose
    | closed =>
      obtain ⟨-, rfl⟩ := hwaits
      refine .inr (.inl (mem_pending_of_tasksOf (i := i) ?_))
      rw [hat.tasks]
      simp
    | removed =>
      obtain ⟨⟨callbacks, -, rfl⟩, rfl⟩ := hwaits
      refine .inr (.inr (mem_pending_of_tasksOf (i := i) ?_))
      rw [hat.tasks]
      simp
    | gone =>
      obtain rfl : st = st' := by simpa [Phase.length, lifeCycle] using hclose
      exact .inl hhistory
  · -- Only the last phase has the whole history.
    obtain rfl : p = .gone := by
      have hlen := congrArg List.length (hhistory.symm.trans hdone)
      cases p <;> first | rfl | simp [Phase.length, lifeCycle] at hlen
    obtain ⟨rfl, rfl⟩ := hwaits
    refine ⟨?_, hat.entry⟩
    rintro loop t ht rfl
    have hm : t ∈ s.tasksOf loop t.conn := List.mem_filter.mpr ⟨ht, by simp⟩
    rw [hat.tasks] at hm
    simp at hm

/-- **The life cycle of the connections is exact**, for every interleaving of accepts, functors,
closes and traffic, with any number of loops. The names differ, `connections_` maps names to their
connections, and each connection goes its way: inserted under a new name, established, one callback
up, closed, one callback down, erased as the only entry, and destroyed with nothing left to do. -/
theorem lifeCycle_exact (ipPort name : List UInt8) (wc : Bool) (loops : Nat)
    (hip : ipPort.length ≤ 47) (steps : List (ServerStep γ))
    (hsteps : Legal (step alloc) Admissible (make ipPort name wc loops) steps) :
    let s := steps.foldl (step alloc) (make ipPort name wc loops)
    (∀ (i j : Nat) (c c' : Served γ), s.served[i]? = some c → s.served[j]? = some c' →
      c.name = c'.name → i = j) ∧
    (∀ name i, s.connections.lookup name = some i → ∃ c, s.served[i]? = some c ∧ c.name = name) ∧
    ∀ (i : Nat) (c : Served γ), s.served[i]? = some c → ConnExact s i c := by
  intro s
  have hinv : ServerInv s := legal_invariant (I := ServerInv)
    (fun _ st h hst => step_serverInv alloc h st hst) (make_serverInv hip name wc loops) hsteps
  refine ⟨fun i j c c' hc hc' hname => ?_, (hinv.others 0).entries, fun i c hc => ?_⟩
  · exact (hinv.others 0).name_injective hc hc' hname
  · exact ((hinv.others (i + 1)).conns i c (by omega) hc).exact

instance (s : TcpServer γ) (st : ServerStep γ) : Decidable (s.Admissible st) :=
  match st with
  | .newConnection _ _ => inferInstanceAs (Decidable (s.served.length + 1 < 2 ^ 31 - 1))
  | .handleClose i => inferInstanceAs (Decidable (∀ c ∈ s.served[i]?, IsOpen c.conn.state))
  | .traffic i _ => inferInstanceAs (Decidable (∀ c ∈ s.served[i]?, c.conn.state ≠ .kConnecting))
  | .runFunctor _ => isTrue trivial

/-- Two connections in two loops. One sends and is closed while the other one comes up. -/
def twoConnections : List (ServerStep Unit) :=
  [.newConnection (fun _ => .accepted 2) (), .newConnection (fun _ => .accepted 2) (),
    .runFunctor 1, .traffic 0 (.sendInLoop [1, 2, 3]), .traffic 0 .shutdown,
    .traffic 0 .handleWrite, .handleClose 0, .runFunctor 2, .runFunctor 0, .runFunctor 1,
    .runFunctor 1]

theorem twoConnections_exact :
    let s := twoConnections.foldl (step Buffer.zeroAlloc)
      (make (ascii "0.0.0.0:80") (ascii "httpd") true 2)
    ((∀ (i j : Nat) (c c' : Served Unit), s.served[i]? = some c → s.served[j]? = some c' →
      c.name = c'.name → i = j) ∧
    (∀ name i, s.connections.lookup name = some i → ∃ c, s.served[i]? = some c ∧ c.name = name) ∧
    ∀ (i : Nat) (c : Served Unit), s.served[i]? = some c → ConnExact s i c) ∧
    s.served.map (·.history.length) = [7, 3] := by
  intro s
  refine ⟨lifeCycle_exact Buffer.zeroAlloc (ascii "0.0.0.0:80") (ascii "httpd") true 2 ?_
    twoConnections ?_, ?_⟩
  · decide
  · decide +kernel
  · decide +kernel

end TcpServer

end MyTinyHttpd
