import MyTinyHttpd.Lib.Machine
import MyTinyHttpd.Net.TimingWheel

/-!
# How long a connection is idle

* `idle`: the `OnTimer`s since a connection came up or had its last message, by the events alone.
* `WheelInv`: an entry that was touched `k` ticks ago is in the bucket of that tick and in no newer
  one, and its index is that of that tick.
* `wheel_exact`: an entry is destroyed at the `n`-th tick after its connection was last touched.
* `messages_found_iff`: so `OnMessage` finds its entry exactly when no connection has a message
  after `n` ticks of silence.
-/

namespace MyTinyHttpd

open Verif

namespace TimingWheel

variable {n : Nat} {slots : SlotIndex n} {w : TimingWheel n} {e e' : EntryId}

/-! ## Idle time -/

def idleStep (idle : Nat → Option Nat) : WheelStep → Nat → Option Nat
  | .up c | .message c => Function.update idle c (some 0)
  | .timer => fun c => (idle c).map (· + 1)
  | .down _ | .gone _ => idle

/-- The `OnTimer`s since the connection came up or had its last message. -/
def idle (steps : List WheelStep) : Nat → Option Nat := steps.foldl idleStep fun _ => none

theorem idle_snoc (steps : List WheelStep) (s : WheelStep) :
    idle (steps ++ [s]) = idleStep (idle steps) s := by
  rw [idle, List.foldl_append]
  rfl

/-- No message comes after `n` ticks of silence. -/
def InTime (n : Nat) (idle : Nat → Option Nat) : WheelStep → Prop
  | .message c => ∃ k < n, idle c = some k
  | _ => True

instance (n : Nat) (idle : Nat → Option Nat) (s : WheelStep) : Decidable (InTime n idle s) :=
  match s with
  | .message c => inferInstanceAs (Decidable (∃ k < n, idle c = some k))
  | .up _ | .down _ | .timer | .gone _ => isTrue trivial

/-! ## Buckets -/

/-- The entry is in the bucket of `i` ticks ago. -/
def InBucket (w : TimingWheel n) (i : Nat) (e : EntryId) : Prop :=
  ∃ bucket, w.connectionBuckets.ago i = some bucket ∧ e ∈ bucket

theorem InBucket.lt {i : Nat} (h : w.InBucket i e) : i < n := by
  obtain ⟨bucket, hb, -⟩ := h
  exact FullBuffer.lt_of_ago hb

theorem alive_iff : w.Alive e ↔ ∃ i, w.InBucket i e := by
  constructor
  · rintro ⟨bucket, hb, he⟩
    obtain ⟨i, hi⟩ := FullBuffer.mem_elems.mp hb
    exact ⟨i, bucket, hi, he⟩
  · rintro ⟨i, bucket, hi, he⟩
    exact ⟨bucket, FullBuffer.mem_elems.mpr ⟨i, hi⟩, he⟩

theorem inBucket_insertBack (hn : 0 < n) {i : Nat} :
    (w.insertBack e).InBucket i e' ↔ w.InBucket i e' ∨ (i = 0 ∧ e' = e) := by
  cases i with
  | zero =>
    obtain ⟨bucket, hb⟩ := w.connectionBuckets.exists_ago hn
    simp [InBucket, insertBack, FullBuffer.ago_modifyBack_zero, hb, or_comm]
  | succ i => simp [InBucket, insertBack, FullBuffer.ago_modifyBack_succ]

theorem not_inBucket_onTimer_zero : ¬ w.onTimer.InBucket 0 e := by
  intro h
  have hn := h.lt
  obtain ⟨bucket, hb, he⟩ := h
  have hnew : w.onTimer.connectionBuckets.ago 0 = some [] := FullBuffer.ago_pushBack_zero hn
  rw [hnew] at hb
  cases hb
  cases he

theorem inBucket_onTimer_succ {i : Nat} :
    w.onTimer.InBucket (i + 1) e ↔ w.InBucket i e ∧ i + 1 < n := by
  have heq : ∀ hi : i + 1 < n, w.onTimer.connectionBuckets.ago (i + 1) =
      w.connectionBuckets.ago i := fun hi => FullBuffer.ago_pushBack_succ hi
  constructor
  · intro h
    have hi := h.lt
    rw [InBucket, heq hi] at h
    exact ⟨h, hi⟩
  · rintro ⟨h, hi⟩
    rwa [InBucket, heq hi]

/-! ## The invariant -/

/-- The entry was touched `k` ticks ago. -/
structure EntryInv (slots : SlotIndex n) (w : TimingWheel n) (e : EntryId) (entry : WheelEntry)
    (k : Nat) : Prop where
  le : k ≤ w.pushes
  index : k < n → entry.index = slots.slot (w.pushes - k)
  inBucket : k < n → w.InBucket k e
  newest : ∀ i, w.InBucket i e → k ≤ i

theorem EntryInv.alive_iff {entry : WheelEntry} {k : Nat} (h : EntryInv slots w e entry k) :
    w.Alive e ↔ k < n := by
  rw [TimingWheel.alive_iff]
  constructor
  · rintro ⟨i, hi⟩
    exact (h.newest i hi).trans_lt hi.lt
  · exact fun hk => ⟨k, h.inBucket hk⟩

/-- The entry is not touched, and no tick passes. -/
theorem EntryInv.of_bucket_iff {w' : TimingWheel n} {entry : WheelEntry} {k : Nat}
    (h : EntryInv slots w e entry k) (hpushes : w'.pushes = w.pushes)
    (hbucket : ∀ i, w'.InBucket i e ↔ w.InBucket i e) : EntryInv slots w' e entry k := by
  refine ⟨hpushes ▸ h.le, hpushes ▸ h.index, fun hk => ?_, fun i hi => ?_⟩
  · exact (hbucket k).mpr (h.inBucket hk)
  · exact h.newest i ((hbucket i).mp hi)

/-- The entry has just been put in the newest bucket. -/
theorem EntryInv.of_newest {entry : WheelEntry} (hindex : entry.index = slots.slot w.pushes)
    (hbucket : w.InBucket 0 e) : EntryInv slots w e entry 0 :=
  ⟨Nat.zero_le _, fun _ => hindex, fun _ => hbucket, fun i _ => Nat.zero_le i⟩

/-- Two ticks less than `n` apart have the same index only if they are the same: the entry of a
message is not put in the newest bucket again when it is there already. -/
theorem EntryInv.index_eq_iff {entry : WheelEntry} {k : Nat} (h : EntryInv slots w e entry k)
    (hk : k < n) : entry.index = slots.slot w.pushes ↔ k = 0 := by
  rw [h.index hk, slots.eq_iff]
  constructor
  · intro hmod
    have hdvd : n ∣ w.pushes - (w.pushes - k) :=
      (Nat.modEq_iff_dvd' (Nat.sub_le _ _)).mp hmod
    rw [Nat.sub_sub_self h.le] at hdvd
    exact Nat.eq_zero_of_dvd_of_lt hdvd hk
  · rintro rfl
    exact Nat.ModEq.refl _

structure WheelInv (slots : SlotIndex n) (idle : Nat → Option Nat) (w : TimingWheel n) : Prop where
  ok : w.failed = false
  entry : ∀ (e : EntryId) (entry : WheelEntry), w.entries[e]? = some entry →
    ∃ k, idle entry.weakConn = some k ∧ (w.conns entry.weakConn).timingContext = some e ∧
      EntryInv slots w e entry k
  context : ∀ c e, (w.conns c).timingContext = some e →
    ∃ entry, w.entries[e]? = some entry ∧ entry.weakConn = c
  idle_none : ∀ c, (w.conns c).timingContext = none → idle c = none
  bucket : ∀ i e, w.InBucket i e → e < w.entries.length

/-- The entry of a connection. -/
theorem WheelInv.entry_of {idle : Nat → Option Nat} (h : WheelInv slots idle w) {c : Nat}
    (hc : (w.conns c).timingContext = some e) :
    ∃ entry k, w.entries[e]? = some entry ∧ entry.weakConn = c ∧ idle c = some k ∧
      EntryInv slots w e entry k := by
  obtain ⟨entry, he, rfl⟩ := h.context c e hc
  obtain ⟨k, hk, -, hinv⟩ := h.entry e entry he
  exact ⟨entry, k, he, rfl, hk, hinv⟩

/-! ## The steps -/

section

variable {idle : Nat → Option Nat} {c : Nat}

theorem up_wheelInv (hn : 0 < n) (h : WheelInv slots idle w)
    (hc : (w.conns c).timingContext = none) :
    WheelInv slots (Function.update idle c (some 0)) (w.onConnection slots c true) := by
  have hentries : (w.onConnection slots c true).entries =
      w.entries ++ [{ index := slots.slot w.pushes, weakConn := c }] := rfl
  have hpushes : (w.onConnection slots c true).pushes = w.pushes := rfl
  have hbucket : ∀ i e, (w.onConnection slots c true).InBucket i e ↔
      w.InBucket i e ∨ (i = 0 ∧ e = w.entries.length) := fun i e => inBucket_insertBack hn
  have hself : ((w.onConnection slots c true).conns c).timingContext = some w.entries.length := by
    simp [onConnection]
  have hother : ∀ {d}, d ≠ c → (w.onConnection slots c true).conns d = w.conns d := by
    intro d hd
    simp [onConnection, insertBack, hd]
  refine ⟨?_, fun e entry he => ?_, fun d e hd => ?_, fun d hd => ?_, fun i e hi => ?_⟩
  · simp [onConnection, insertBack, h.ok, hc]
  · rw [hentries, List.getElem?_append] at he
    split at he
    · -- An older entry, of another connection.
      rename_i hlt
      obtain ⟨k, hk, hctx, hinv⟩ := h.entry e entry he
      have hne : entry.weakConn ≠ c := by
        rintro rfl
        rw [hc] at hctx
        cases hctx
      refine ⟨k, by rw [Function.update_of_ne hne, hk], by rw [hother hne, hctx],
        hinv.of_bucket_iff hpushes fun i => (hbucket i e).trans (or_iff_left ?_)⟩
      rintro ⟨-, rfl⟩
      exact lt_irrefl _ hlt
    · rename_i hge
      obtain ⟨hlt, rfl⟩ := List.getElem?_eq_some_iff.mp he
      obtain rfl : e = w.entries.length :=
        Nat.le_antisymm (Nat.sub_eq_zero_iff_le.mp (Nat.lt_one_iff.mp hlt)) (Nat.le_of_not_lt hge)
      exact ⟨0, by simp, by simpa using hself,
        EntryInv.of_newest (by simp [hpushes]) ((hbucket 0 _).mpr (.inr ⟨rfl, rfl⟩))⟩
  · by_cases hdc : d = c
    · subst hdc
      rw [hself] at hd
      cases hd
      exact ⟨_, by rw [hentries, List.getElem?_concat_length], rfl⟩
    · rw [hother hdc] at hd
      obtain ⟨entry, he, rfl⟩ := h.context d e hd
      refine ⟨entry, ?_, rfl⟩
      rw [hentries, List.getElem?_append_left (List.getElem?_eq_some_iff.mp he).1, he]
  · have hdc : d ≠ c := by
      rintro rfl
      rw [hself] at hd
      cases hd
    rw [hother hdc] at hd
    rw [Function.update_of_ne hdc, h.idle_none d hd]
  · rw [hentries, List.length_append, List.length_singleton]
    rcases (hbucket i e).mp hi with hi | ⟨-, rfl⟩
    · exact Nat.lt_succ_of_lt (h.bucket i e hi)
    · exact Nat.lt_succ_self _

/-- A step that changes neither the entries nor a timing context. -/
theorem WheelInv.of_eq {w' : TimingWheel n} (h : WheelInv slots idle w)
    (hfailed : w'.failed = w.failed) (hbuckets : w'.connectionBuckets = w.connectionBuckets)
    (hpushes : w'.pushes = w.pushes) (hentries : w'.entries = w.entries)
    (hconns : ∀ c, (w'.conns c).timingContext = (w.conns c).timingContext) :
    WheelInv slots idle w' := by
  have hbucket : ∀ i e, w'.InBucket i e ↔ w.InBucket i e := by
    intro i e
    rw [InBucket, InBucket, hbuckets]
  refine ⟨hfailed.trans h.ok, fun e entry he => ?_, fun c e hc => ?_, fun c hc => ?_,
    fun i e hi => ?_⟩
  · rw [hentries] at he
    obtain ⟨k, hk, hctx, hinv⟩ := h.entry e entry he
    exact ⟨k, hk, (hconns _).trans hctx, hinv.of_bucket_iff hpushes fun i => hbucket i e⟩
  · rw [hentries]
    exact h.context c e ((hconns c).symm.trans hc)
  · exact h.idle_none c ((hconns c).symm.trans hc)
  · rw [hentries]
    exact h.bucket i e ((hbucket i e).mp hi)

theorem onTimer_wheelInv (h : WheelInv slots idle w) :
    WheelInv slots (fun c => (idle c).map (· + 1)) w.onTimer := by
  refine ⟨h.ok, fun e entry he => ?_, h.context, fun c hc => ?_, fun i e hi => ?_⟩
  · obtain ⟨k, hk, hctx, hinv⟩ := h.entry e entry he
    have hpushes : w.onTimer.pushes - (k + 1) = w.pushes - k := Nat.add_sub_add_right _ _ _
    refine ⟨k + 1, by rw [hk]; rfl, hctx, Nat.succ_le_succ hinv.le, fun hkn => ?_, fun hkn => ?_,
      fun i hi => ?_⟩
    · rw [hpushes]
      exact hinv.index (Nat.lt_of_succ_lt hkn)
    · exact inBucket_onTimer_succ.mpr ⟨hinv.inBucket (Nat.lt_of_succ_lt hkn), hkn⟩
    · cases i with
      | zero => exact absurd hi not_inBucket_onTimer_zero
      | succ i => exact Nat.succ_le_succ (hinv.newest i (inBucket_onTimer_succ.mp hi).1)
  · rw [h.idle_none c hc]
    rfl
  · cases i with
    | zero => exact absurd hi not_inBucket_onTimer_zero
    | succ i => exact h.bucket i e (inBucket_onTimer_succ.mp hi).1

/-- `OnMessage` for an entry that was touched at an earlier tick. -/
theorem onMessage_of_ne {entry : WheelEntry} (hc : (w.conns c).timingContext = some e)
    (halive : w.Alive e) (he : w.entries[e]? = some entry)
    (hne : entry.index ≠ slots.slot w.pushes) :
    w.onMessage slots c = (w.setIndex e (slots.slot w.pushes)).insertBack e := by
  simp [onMessage, hc, halive, he, hne]

theorem onMessage_of_eq {entry : WheelEntry} (hc : (w.conns c).timingContext = some e)
    (halive : w.Alive e) (he : w.entries[e]? = some entry)
    (heq : entry.index = slots.slot w.pushes) : w.onMessage slots c = w := by
  simp [onMessage, hc, halive, he, heq]

/-- An entry is put in the newest bucket. -/
theorem touch_wheelInv (hn : 0 < n) (h : WheelInv slots idle w)
    (hc : (w.conns c).timingContext = some e) :
    WheelInv slots (Function.update idle c (some 0))
      ((w.setIndex e (slots.slot w.pushes)).insertBack e) := by
  have hbucket : ∀ i e', ((w.setIndex e (slots.slot w.pushes)).insertBack e).InBucket i e' ↔
      w.InBucket i e' ∨ (i = 0 ∧ e' = e) := fun i e' => inBucket_insertBack hn
  have hentries : ∀ e' : EntryId,
      ((w.setIndex e (slots.slot w.pushes)).insertBack e).entries[e']? =
        (w.entries[e']?).map fun entry =>
          if e = e' then { entry with index := slots.slot w.pushes } else entry := by
    intro e'
    simp [setIndex, insertBack, List.getElem?_modify]
  refine ⟨h.ok, fun e' entry' he' => ?_, fun d e' hd => ?_, fun d hd => ?_, fun i e' hi => ?_⟩
  · rw [hentries e'] at he'
    obtain ⟨entry, he, rfl⟩ := Option.map_eq_some_iff.mp he'
    obtain ⟨k, hk, hctx, hinv⟩ := h.entry e' entry he
    by_cases hee : e = e'
    · subst hee
      have hconn : entry.weakConn = c := by
        obtain ⟨entry₁, he₁, hc₁⟩ := h.context c e hc
        rw [he] at he₁
        cases he₁
        exact hc₁
      rw [if_pos rfl]
      exact ⟨0, by simp [hconn], hctx, EntryInv.of_newest rfl ((hbucket 0 e).mpr (.inr ⟨rfl, rfl⟩))⟩
    · have hne : entry.weakConn ≠ c := by
        rintro rfl
        exact hee (Option.some.inj (hc.symm.trans hctx))
      rw [if_neg hee]
      refine ⟨k, by rw [Function.update_of_ne hne, hk], hctx,
        hinv.of_bucket_iff rfl fun i => (hbucket i e').trans (or_iff_left ?_)⟩
      rintro ⟨-, rfl⟩
      exact hee rfl
  · obtain ⟨entry, he, rfl⟩ := h.context d e' hd
    refine ⟨_, by rw [hentries e', he]; rfl, ?_⟩
    split <;> rfl
  · have hdc : d ≠ c := by
      rintro rfl
      cases hc.symm.trans hd
    rw [Function.update_of_ne hdc, h.idle_none d hd]
  · have hlength : ((w.setIndex e (slots.slot w.pushes)).insertBack e).entries.length =
        w.entries.length := List.length_modify ..
    rw [hlength]
    rcases (hbucket i e').mp hi with hi | ⟨-, rfl⟩
    · exact h.bucket i e' hi
    · obtain ⟨entry, he, -⟩ := h.context c e' hc
      exact (List.getElem?_eq_some_iff.mp he).1

theorem onMessage_wheelInv (hn : 0 < n) (h : WheelInv slots idle w)
    (hc : (w.conns c).timingContext = some e) (halive : w.Alive e) :
    WheelInv slots (Function.update idle c (some 0)) (w.onMessage slots c) := by
  obtain ⟨entry, k, he, -, hk, hinv⟩ := h.entry_of hc
  have hindex := hinv.index_eq_iff (hinv.alive_iff.mp halive)
  by_cases hk0 : k = 0
  · subst hk0
    rw [onMessage_of_eq hc halive he (hindex.mpr rfl), ← hk, Function.update_eq_self]
    exact h
  · rw [onMessage_of_ne hc halive he (fun heq => hk0 (hindex.mp heq))]
    exact touch_wheelInv hn h hc

theorem finds_iff (h : WheelInv slots idle w) {s : WheelStep} (hs : w.Admissible s) :
    w.Finds s ↔ InTime n idle s := by
  cases s with
  | up | down | timer | gone => exact Iff.rfl
  | message c =>
    obtain ⟨e, hc⟩ := Option.isSome_iff_exists.mp hs.1
    obtain ⟨entry, k, -, -, hk, hinv⟩ := h.entry_of hc
    simp only [Finds, InTime, hc, hk, Option.mem_def, Option.some.injEq, exists_eq_left',
      hinv.alive_iff]
    simp

theorem step_wheelInv (hn : 0 < n) (h : WheelInv slots idle w) {s : WheelStep}
    (hs : w.Admissible s) (hfinds : w.Finds s) :
    WheelInv slots (idleStep idle s) (w.step slots s) := by
  cases s with
  | up c => exact up_wheelInv hn h hs.1
  | down c =>
    refine h.of_eq ?_ rfl rfl rfl fun d => ?_
    · simp [step, onConnection, Option.isSome_iff_ne_none.mp hs.1]
    · by_cases hd : d = c
      · subst hd
        simp [step, onConnection]
      · simp [step, onConnection, hd]
  | message c =>
    obtain ⟨e, hc, halive⟩ := hfinds
    exact onMessage_wheelInv hn h hc halive
  | timer => exact onTimer_wheelInv h
  | gone c =>
    refine h.of_eq rfl rfl rfl rfl fun d => ?_
    by_cases hd : d = c
    · subst hd
      simp [step]
    · simp [step, hd]

/-! ## Destructors -/

theorem inBucket_oldest_iff (hn : 0 < n) :
    e ∈ w.connectionBuckets.front.getD [] ↔ w.InBucket (n - 1) e := by
  obtain ⟨bucket, hb⟩ := w.connectionBuckets.exists_ago (Nat.sub_one_lt_of_lt hn)
  rw [FullBuffer.front_eq_ago hn, InBucket, hb]
  simp

/-- The last reference to an entry goes at the tick that makes it `n` ticks old. -/
theorem released_iff (hn : 0 < n) {entry : WheelEntry} {k : Nat} (h : EntryInv slots w e entry k)
    (h' : EntryInv slots w.onTimer e entry (k + 1)) :
    e ∈ w.connectionBuckets.front.getD [] ∧ ¬ w.onTimer.Alive e ↔ k + 1 = n := by
  rw [inBucket_oldest_iff hn, h'.alive_iff]
  constructor
  · rintro ⟨hold, hdead⟩
    have hle := h.newest _ hold
    omega
  · rintro rfl
    exact ⟨h.inBucket (Nat.lt_succ_self k), lt_irrefl _⟩

theorem mem_destructor {entry : WheelEntry} (he : w.entries[e]? = some entry) {ev : WheelEvent} :
    ev ∈ w.destructor e ↔ ev = .destroyed e ∨
      (ev = .shutdown entry.weakConn ∧ (w.conns entry.weakConn).isGone = false) := by
  simp only [destructor, he]
  split
  · rename_i hgone
    simp [hgone]
  · rename_i hgone
    simp [hgone]

/-- What `OnTimer` adds to the log. -/
theorem onTimer_log (hn : 0 < n) (h : WheelInv slots idle w) :
    ∃ evs, w.onTimer.log = w.log ++ evs ∧
      ∀ e k, (w.conns c).timingContext = some e → idle c = some k →
        (.destroyed e ∈ evs ↔ k + 1 = n) ∧
        (.shutdown c ∈ evs ↔ k + 1 = n ∧ (w.conns c).isGone = false) := by
  refine ⟨_, rfl, fun e k hc hk => ?_⟩
  obtain ⟨entry, k', he, hconn, hk', hinv⟩ := h.entry_of hc
  obtain rfl : k = k' := Option.some.inj (hk.symm.trans hk')
  obtain ⟨entry', k', he', -, hk', hinv'⟩ := (onTimer_wheelInv h).entry_of hc
  obtain rfl : entry = entry' := Option.some.inj (he.symm.trans he')
  obtain rfl : k + 1 = k' := by
    rw [hk] at hk'
    exact Option.some.inj hk'
  rw [← released_iff hn hinv hinv']
  -- An entry that is released is known by its number, and it is the only one of its connection.
  have hevent : ∀ ev, (∀ e' entry', w.entries[e']? = some entry' → ev ∈ w.destructor e' → e' = e) →
      (ev ∈ ((w.connectionBuckets.front.getD []).filter fun e =>
          decide (¬ w.onTimer.Alive e)).flatMap w.destructor ↔
        (e ∈ w.connectionBuckets.front.getD [] ∧ ¬ w.onTimer.Alive e) ∧ ev ∈ w.destructor e) := by
    intro ev hev
    simp only [List.mem_flatMap, List.mem_filter, decide_eq_true_eq]
    constructor
    · rintro ⟨e', hrel, hmem⟩
      have hlt := h.bucket _ _ ((inBucket_oldest_iff hn).mp hrel.1)
      obtain rfl := hev e' _ (List.getElem?_eq_getElem hlt) hmem
      exact ⟨hrel, hmem⟩
    · rintro ⟨hrel, hmem⟩
      exact ⟨e, hrel, hmem⟩
  constructor
  · refine (hevent (.destroyed e) fun e' entry' he' hmem => ?_).trans ?_
    · have heq : e = e' := by simpa using (mem_destructor he').mp hmem
      exact heq.symm
    · exact and_iff_left ((mem_destructor he).mpr (.inl rfl))
  · refine (hevent (.shutdown c) fun e' entry' he' hmem => ?_).trans ?_
    · obtain ⟨rfl, -⟩ : c = entry'.weakConn ∧ _ := by simpa using (mem_destructor he').mp hmem
      obtain ⟨-, -, hctx, -⟩ := h.entry e' entry' he'
      exact Option.some.inj (hctx.symm.trans hc)
    · rw [mem_destructor he, hconn]
      simp

/-- Only `OnTimer` destroys entries. -/
theorem step_log {s : WheelStep} (hs : s ≠ .timer) : (w.step slots s).log = w.log := by
  cases s with
  | timer => exact absurd rfl hs
  | up | down | gone => rfl
  | message c =>
    simp only [step, onMessage]
    split
    · rfl
    · split
      · split <;> rfl
      · rfl

end

/-! ## Runs -/

theorem empty_wheelInv (slots : SlotIndex n) : WheelInv slots (fun _ => none) {} := by
  refine ⟨rfl, by simp, by simp, by simp, fun i e h => ?_⟩
  obtain ⟨bucket, hb, he⟩ := h
  rw [FullBuffer.ago_replicate hb] at he
  cases he

theorem run_wheelInv (hn : 0 < n) {steps : List WheelStep}
    (hsteps : Legal (step slots) Admissible {} steps)
    (htime : ∀ pre s post, steps = pre ++ s :: post → InTime n (idle pre) s) :
    WheelInv slots (idle steps) (steps.foldl (step slots) {}) := by
  induction steps using List.reverseRecOn with
  | nil => exact empty_wheelInv slots
  | append_singleton steps s ih =>
    obtain ⟨hlegal, hs, -⟩ := legal_append.mp hsteps
    obtain ⟨htime, hlast⟩ := (forall_step_snoc (Q := fun pre s => InTime n (idle pre) s)).mp htime
    have hinv := ih hlegal htime
    rw [idle_snoc, List.foldl_append]
    exact step_wheelInv hn hinv hs ((finds_iff hinv hs).mpr hlast)

theorem forall_finds_iff (hn : 0 < n) {steps : List WheelStep}
    (hsteps : Legal (step slots) Admissible {} steps) :
    (∀ pre s post, steps = pre ++ s :: post → Finds (pre.foldl (step slots) {}) s) ↔
      ∀ pre s post, steps = pre ++ s :: post → InTime n (idle pre) s := by
  induction steps using List.reverseRecOn with
  | nil => simp
  | append_singleton steps s ih =>
    obtain ⟨hlegal, hs, -⟩ := legal_append.mp hsteps
    rw [forall_step_snoc (Q := fun pre s => Finds (pre.foldl (step slots) {}) s),
      forall_step_snoc (Q := fun pre s => InTime n (idle pre) s), ih hlegal]
    exact and_congr_right fun htime => finds_iff (run_wheelInv hn hlegal htime) hs

/-- **When late data does not break the wheel**: every `OnMessage` finds its entry exactly when each
message comes less than `n` ticks after its connection came up or had its last message. -/
theorem messages_found_iff (hn : 0 < n) (slots : SlotIndex n) (steps : List WheelStep)
    (hsteps : Legal (step slots) Admissible {} steps) :
    (∀ pre c post, steps = pre ++ .message c :: post →
        let w : TimingWheel n := pre.foldl (step slots) {}
        ∃ e, (w.conns c).timingContext = some e ∧ w.Alive e) ↔
      ∀ pre c post, steps = pre ++ .message c :: post → ∃ k < n, idle pre c = some k := by
  have hiff := forall_finds_iff hn hsteps
  constructor
  · intro hfound pre c post he
    refine hiff.mp (fun pre s post he => ?_) pre (.message c) post he
    cases s with
    | message c => exact hfound pre c post he
    | up | down | timer | gone => trivial
  · intro htime pre c post he
    refine hiff.mpr (fun pre s post he => ?_) pre (.message c) post he
    cases s with
    | message c => exact htime pre c post he
    | up | down | timer | gone => trivial

/-- The default idle time: a message in the last second of it, then eight ticks, and the peer, which
still can send, sends again. -/
def halfClosed : List WheelStep :=
  .up 0 :: List.replicate 7 .timer ++ .message 0 :: List.replicate 8 .timer ++ [.message 0]

theorem halfClosed_not_found :
    Legal (step (SlotIndex.ofStart 8)) Admissible {} halfClosed ∧
      ¬ ∀ pre c post, halfClosed = pre ++ .message c :: post →
        let w : TimingWheel 8 := pre.foldl (step (SlotIndex.ofStart 8)) {}
        ∃ e, (w.conns c).timingContext = some e ∧ w.Alive e := by
  refine ⟨by decide +kernel, fun hfound => ?_⟩
  obtain ⟨e, he, halive⟩ :=
    hfound (.up 0 :: List.replicate 7 .timer ++ .message 0 :: List.replicate 8 .timer) 0 [] rfl
  cases he
  revert halive
  decide +kernel

/-- Two connections, with messages in time. The second one closes after its message. -/
def busyPair : List WheelStep :=
  [.up 0, .timer, .up 1, .message 0, .timer, .message 1, .message 0, .down 1, .gone 1, .timer]

theorem busyPair_found :
    Legal (step (SlotIndex.ofStart 2)) Admissible {} busyPair ∧
      ∀ pre c post, busyPair = pre ++ .message c :: post →
        let w : TimingWheel 2 := pre.foldl (step (SlotIndex.ofStart 2)) {}
        ∃ e, (w.conns c).timingContext = some e ∧ w.Alive e := by
  have hsteps : Legal (step (SlotIndex.ofStart 2)) Admissible {} busyPair := by decide +kernel
  have htime : Legal idleStep (InTime 2) (fun _ => none) busyPair := by decide +kernel
  refine ⟨hsteps, (messages_found_iff (by decide) (SlotIndex.ofStart 2) busyPair hsteps).mpr ?_⟩
  exact fun pre c post he => legal_iff.mp htime pre (.message c) post he

/-- **The wheel gives each connection its idle time**: where messages come for live entries only, an
entry that has just been touched is in the newest bucket. It is destroyed at the `n`-th tick after,
and then its connection, if it still exists, is shut down. -/
theorem wheel_exact (hn : 0 < n) (slots : SlotIndex n) (steps : List WheelStep)
    (hsteps : Legal (step slots) (fun w s => w.Admissible s ∧ w.Finds s) {} steps) :
    let w : TimingWheel n := steps.foldl (step slots) {}
    w.failed = false ∧
      (∀ c k, idle steps c = some k → ∃ e, (w.conns c).timingContext = some e ∧
        (k = 0 → w.InBucket 0 e) ∧ (w.Alive e ↔ k < n) ∧
        ∃ evs, (w.step slots .timer).log = w.log ++ evs ∧
          (.destroyed e ∈ evs ↔ k + 1 = n) ∧
          (.shutdown c ∈ evs ↔ k + 1 = n ∧ (w.conns c).isGone = false)) ∧
      ∀ s, s ≠ .timer → (w.step slots s).log = w.log := by
  have hlegal : Legal (step slots) Admissible {} steps :=
    legal_iff.mpr fun pre s post he => (legal_iff.mp hsteps pre s post he).1
  have htime := (forall_finds_iff hn hlegal).mp
    fun pre s post he => (legal_iff.mp hsteps pre s post he).2
  have hinv := run_wheelInv hn hlegal htime
  refine ⟨hinv.ok, fun c k hk => ?_, fun s hs => step_log hs⟩
  cases hc : ((steps.foldl (step slots) {}).conns c).timingContext with
  | none => simp [hinv.idle_none c hc] at hk
  | some e =>
    obtain ⟨entry, k', -, -, hk', hentry⟩ := hinv.entry_of hc
    obtain rfl : k = k' := Option.some.inj (hk.symm.trans hk')
    refine ⟨e, rfl, ?_, hentry.alive_iff, ?_⟩
    · rintro rfl
      exact hentry.inBucket hn
    · obtain ⟨evs, hlog, hevs⟩ := onTimer_log (c := c) hn hinv
      exact ⟨evs, hlog, hevs e k hc hk⟩

theorem busyPair_exact :
    let w : TimingWheel 2 := busyPair.foldl (step (SlotIndex.ofStart 2)) {}
    ∃ e evs, (w.conns 0).timingContext = some e ∧ w.Alive e ∧
      (w.step (SlotIndex.ofStart 2) .timer).log = w.log ++ evs ∧
      .destroyed e ∈ evs ∧ .shutdown 0 ∈ evs := by
  obtain ⟨-, hidle, -⟩ := wheel_exact (by decide) (SlotIndex.ofStart 2) busyPair (by decide +kernel)
  obtain ⟨e, hc, -, halive, evs, hlog, hdestroyed, hshutdown⟩ := hidle 0 1 (by decide +kernel)
  exact ⟨e, evs, hc, halive.mpr (by decide), hlog, hdestroyed.mpr rfl,
    hshutdown.mpr ⟨rfl, by decide +kernel⟩⟩

end TimingWheel

end MyTinyHttpd
