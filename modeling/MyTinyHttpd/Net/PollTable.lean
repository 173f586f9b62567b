import MyTinyHttpd.Net.PollPoller

/-!
# The entries of a `PollPoller`

`TableInv` connects what the calls say about each channel (`ChannelUse`) with `channels_`, the
vector `pollfds_` and the indices that the channels have. Each operation keeps it: the first update
of a channel (`TableInv.register`), a later one (`TableInv.modify`) and the removal, which moves the
last entry (`TableInv.takenOut`).

* `pollfds_bijection`: the indices are a bijection between the registered channels and the entries,
  and `FillActiveChannels` finds exactly the channels that `poll` reports.
-/

namespace MyTinyHttpd

open Verif

namespace PollPoller

variable {κ : Type} (fd : κ → Nat)

/-- The entry that a channel should have. It is not ignored before its second update. -/
structure EntryOf (use : ChannelUse) (ch : Channel) (c : κ) (pfd : PollFd) : Prop where
  fd : pfd.fd = if 2 ≤ use.updates ∧ ch.isNoneEvent = true then ignored fd c else fd c
  events : pfd.events = ch.events.setWidth 16

/-- What the table has for one channel. -/
structure ChannelInv (use : ChannelUse) (s : PollPoller κ) (c : κ) : Prop where
  registered : s.channels.lookup (fd c : Int) = some c ↔ 0 < use.updates
  removed : use.removed = true → use.updates = 0
  fresh : use.updates = 0 → use.removed = false → s.status c = -1
  entry : 0 < use.updates → ∃ i pfd, s.status c = (i : Nat) ∧ s.pollfds[i]? = some pfd ∧
    EntryOf fd use (s.channel c) c pfd

structure TableInv (use : κ → ChannelUse) (s : PollPoller κ) : Prop where
  size : s.pollfds.length = s.channels.keys.length
  key : ∀ n c, s.channels.lookup n = some c → n = fd c
  owner : ∀ i pfd, s.pollfds[i]? = some pfd → ∃ c, 0 < (use c).updates ∧ s.status c = (i : Nat)
  failed : s.failed = false
  channel : ∀ c, ChannelInv fd (use c) s c

variable {fd} {use : κ → ChannelUse} {s s' : PollPoller κ} {c d : κ}

theorem EntryOf.cases {use : ChannelUse} {ch : Channel} {pfd : PollFd}
    (h : EntryOf fd use ch c pfd) : pfd.fd = fd c ∨ pfd.fd = ignored fd c := by
  rw [h.fd]
  split
  · exact .inr rfl
  · exact .inl rfl

/-- The descriptor of a channel, from its entry. -/
theorem EntryOf.decode {use : ChannelUse} {ch : Channel} {pfd : PollFd}
    (h : EntryOf fd use ch c pfd) : (if pfd.fd < 0 then -pfd.fd - 1 else pfd.fd) = fd c := by
  rcases h.cases with h | h <;> rw [h]
  · rw [if_neg (by omega)]
  · rw [ignored, if_pos (by omega)]
    omega

theorem EntryOf.watched {use : ChannelUse} {ch : Channel} {pfd : PollFd}
    (h : EntryOf fd use ch c pfd) (hpfd : ¬ pfd.fd < 0) : pfd.fd = fd c := by
  rcases h.cases with hfd | hfd
  · exact hfd
  · exact absurd (by rw [hfd, ignored]; omega) hpfd

/-- A channel that keeps its mask, its index, its place in the map and its entry. -/
theorem ChannelInv.frame {use : ChannelUse} (h : ChannelInv fd use s d)
    (hlookup : s'.channels.lookup (fd d : Int) = s.channels.lookup (fd d : Int))
    (hstatus : s'.status d = s.status d) (hchannel : s'.channel d = s.channel d)
    (hentry : 0 < use.updates → ∀ (i : Nat) pfd, s.status d = i → s.pollfds[i]? = some pfd →
      s'.pollfds[i]? = some pfd) : ChannelInv fd use s' d := by
  refine ⟨by rw [hlookup]; exact h.registered, h.removed, fun hu hr => ?_, fun hu => ?_⟩
  · rw [hstatus]
    exact h.fresh hu hr
  · obtain ⟨i, pfd, hi, hpfd, he⟩ := h.entry hu
    exact ⟨i, pfd, hstatus.trans hi, hentry hu i pfd hi hpfd, by rw [hchannel]; exact he⟩

theorem TableInv.lookup_none (hfd : Function.Injective fd) (h : TableInv fd use s)
    (hc : (use c).updates = 0) : s.channels.lookup (fd c : Int) = none := by
  refine Option.eq_none_iff_forall_ne_some.mpr fun d hd => ?_
  obtain rfl := hfd (Int.ofNat_inj.mp (h.key _ d hd))
  exact absurd ((h.channel c).registered.mp hd) (by omega)

/-- The index of a registered channel is one of the vector. -/
theorem TableInv.index_lt (h : TableInv fd use s) (hc : 0 < (use c).updates) {i : Nat}
    (hi : s.status c = i) : i < s.pollfds.length := by
  obtain ⟨j, pfd, hj, hpfd, -⟩ := (h.channel c).entry hc
  have hlt := (List.getElem?_eq_some_iff.mp hpfd).1
  omega

/-- Distinct channels have distinct indices. -/
theorem TableInv.index_inj (hfd : Function.Injective fd) (h : TableInv fd use s)
    (hc : 0 < (use c).updates) (hd : 0 < (use d).updates) (heq : s.status c = s.status d) :
    c = d := by
  obtain ⟨i, pfd, hi, hpfd, hentry⟩ := (h.channel c).entry hc
  obtain ⟨j, pfd', hj, hpfd', hentry'⟩ := (h.channel d).entry hd
  obtain rfl : i = j := by omega
  rw [hpfd] at hpfd'
  cases hpfd'
  exact hfd (Int.ofNat_inj.mp (hentry.decode.symm.trans hentry'.decode))

/-- Each entry is the entry of a channel. -/
theorem TableInv.owner_entry (h : TableInv fd use s) {i : Nat} {pfd : PollFd}
    (hpfd : s.pollfds[i]? = some pfd) : ∃ c, 0 < (use c).updates ∧ s.status c = (i : Nat) ∧
      EntryOf fd (use c) (s.channel c) c pfd := by
  obtain ⟨c, hc, hi⟩ := h.owner i pfd hpfd
  obtain ⟨j, pfd', hj, hpfd', hof⟩ := (h.channel c).entry hc
  obtain rfl : i = j := by omega
  rw [hpfd] at hpfd'
  cases hpfd'
  exact ⟨c, hc, hi, hof⟩

/-- The entries have distinct descriptors. -/
theorem TableInv.fds_nodup (hfd : Function.Injective fd) (h : TableInv fd use s) :
    (s.pollfds.map PollFd.fd).Nodup := by
  rw [List.nodup_iff_getElem?_ne_getElem?]
  intro i j hij hj he
  rw [List.length_map] at hj
  have hpfd := List.getElem?_eq_getElem (hij.trans hj)
  have hpfd' := List.getElem?_eq_getElem hj
  rw [List.getElem?_map, List.getElem?_map, hpfd, hpfd', Option.map_some, Option.map_some,
    Option.some.injEq] at he
  obtain ⟨c, -, hi, hof⟩ := h.owner_entry hpfd
  obtain ⟨d, -, hj', hof'⟩ := h.owner_entry hpfd'
  have hcd : c = d := by
    have hdecode := hof.decode
    rw [he, hof'.decode] at hdecode
    exact (hfd (Int.ofNat_inj.mp hdecode)).symm
  rw [hcd] at hi
  omega

theorem TableInv.entry_eq (h : TableInv fd use s) (hc : 0 < (use c).updates) :
    ∃ i pfd, s.status c = (i : Nat) ∧ s.pollfds[i]? = some pfd ∧ s.entry c = some pfd ∧
      EntryOf fd (use c) (s.channel c) c pfd := by
  obtain ⟨i, pfd, hi, hpfd, hentry⟩ := (h.channel c).entry hc
  have hlt := (List.getElem?_eq_some_iff.mp hpfd).1
  refine ⟨i, pfd, hi, hpfd, ?_, hentry⟩
  rw [PollPoller.entry, hi, if_pos (by omega), Int.toNat_natCast, hpfd]

/-! ## Answers of `::poll` -/

/-- The entry has events. -/
abbrev Reported (pfd : PollFd) : Prop := 0 < pfd.revents.toInt

/-- An answer of `::poll`: no event for an entry that is ignored, and no event outside `poll.h`,
where `0x8000` is none. -/
def PollAnswer (s : PollPoller κ) (revents : Nat → BitVec 16) : Prop :=
  ∀ i pfd, s.pollfds[i]? = some pfd → (pfd.fd < 0 → revents i = 0) ∧ (revents i).msb = false

theorem reported_iff {r : BitVec 16} (h : r.msb = false) : 0 < r.toInt ↔ r ≠ 0 := by
  rw [BitVec.toInt_eq_toNat_of_msb h]
  simp [← BitVec.toNat_inj, Nat.pos_iff_ne_zero]

section

variable {revents : Nat → BitVec 16}

theorem polled_getElem? {i : Nat} {pfd' : PollFd} :
    (s.polled revents).pollfds[i]? = some pfd' ↔
      ∃ pfd, s.pollfds[i]? = some pfd ∧ { pfd with revents := revents i } = pfd' := by
  simp only [polled, List.getElem?_mapIdx, Option.map_eq_some_iff]

/-- An entry with events is that of a registered channel, and not ignored. -/
theorem TableInv.reported (h : TableInv fd use s) (hanswer : s.PollAnswer revents) {i : Nat}
    {pfd' : PollFd} (hpfd' : (s.polled revents).pollfds[i]? = some pfd') (hrep : Reported pfd') :
    ∃ c, s.channels.lookup pfd'.fd = some c ∧ (fd c : Int) = pfd'.fd ∧ s.status c = (i : Nat) ∧
      pfd'.revents = revents i := by
  obtain ⟨pfd, hpfd, rfl⟩ := polled_getElem?.mp hpfd'
  obtain ⟨hneg, hmsb⟩ := hanswer i pfd hpfd
  obtain ⟨c, hc, hi, hof⟩ := h.owner_entry hpfd
  have hfdc := hof.watched fun hlt => (reported_iff hmsb).mp hrep (hneg hlt)
  refine ⟨c, ?_, hfdc.symm, hi, rfl⟩
  rw [show ({ pfd with revents := revents i } : PollFd).fd = fd c from hfdc]
  exact (h.channel c).registered.mpr hc

/-- The entry of a registered channel for which `poll` has reported events. -/
theorem TableInv.polled_entry (h : TableInv fd use s) (hanswer : s.PollAnswer revents)
    (hc : 0 < (use c).updates) (hne : revents (s.status c).toNat ≠ 0) :
    ∃ pfd' ∈ (s.polled revents).pollfds, Reported pfd' ∧ s.channels.lookup pfd'.fd = some c ∧
      pfd'.revents = revents (s.status c).toNat := by
  obtain ⟨i, pfd, hi, hpfd, hof⟩ := (h.channel c).entry hc
  rw [hi, Int.toNat_natCast] at hne ⊢
  obtain ⟨hneg, hmsb⟩ := hanswer i pfd hpfd
  have hfdc := hof.watched fun hlt => hne (hneg hlt)
  refine ⟨{ pfd with revents := revents i }, ?_, (reported_iff hmsb).mpr hne, ?_, rfl⟩
  · exact List.mem_of_getElem? (polled_getElem?.mpr ⟨pfd, hpfd, rfl⟩)
  · rw [show ({ pfd with revents := revents i } : PollFd).fd = fd c from hfdc]
    exact (h.channel c).registered.mpr hc

/-- `num_events` is the number of entries with events. -/
theorem count_reported (hanswer : s.PollAnswer revents) :
    ((s.polled revents).pollfds.countP fun pfd => pfd.revents ≠ 0) =
      (s.polled revents).pollfds.countP fun pfd => Reported pfd := by
  refine List.countP_congr fun pfd' hmem => ?_
  obtain ⟨i, hi⟩ := List.getElem?_of_mem hmem
  obtain ⟨pfd, hpfd, rfl⟩ := polled_getElem?.mp hi
  simp only [decide_eq_true_eq]
  exact (reported_iff (hanswer i pfd hpfd).2).symm

end

/-! ## Updates -/

variable [DecidableEq κ]

/-- The first update of a channel. -/
theorem TableInv.register (hfd : Function.Injective fd) (h : TableInv fd use s)
    (hc : (use c).updates = 0) (hr : (use c).removed = false) (ch : Channel) :
    TableInv fd (Function.update use c { use c with updates := (use c).updates + 1 })
      ({ s with channel := Function.update s.channel c ch }.updateChannel fd c) := by
  have hlookup := h.lookup_none hfd hc
  have hkeys : (fd c : Int) ∉ s.channels := AList.lookup_eq_none.mp hlookup
  have hold : ∀ d, 0 < (use d).updates → d ≠ c := by
    rintro d hd rfl
    omega
  simp only [updateChannel, (h.channel c).fresh hc hr, if_true, hkeys, if_false, setStatus]
  refine ⟨?_, fun n d hd => ?_, fun i pfd hpfd => ?_, h.failed, fun d => ?_⟩
  · have hmem : (fd c : Int) ∉ s.channels.keys := hkeys
    simp [AList.keys_insert, List.erase_of_not_mem hmem, h.size]
  · by_cases hn : n = fd c
    · subst hn
      simp only [AList.lookup_insert, Option.some.injEq] at hd
      rw [hd]
    · rw [AList.lookup_insert_ne hn] at hd
      exact h.key n d hd
  · rw [List.getElem?_append] at hpfd
    split at hpfd
    · obtain ⟨d, hd, hi⟩ := h.owner i pfd hpfd
      refine ⟨d, ?_, (Function.update_of_ne (hold d hd) ..).trans hi⟩
      rw [Function.update_of_ne (hold d hd)]
      exact hd
    · have hi : i = s.pollfds.length := by
        have := (List.getElem?_eq_some_iff.mp hpfd).1
        simp only [List.length_singleton] at this
        omega
      subst hi
      exact ⟨c, by simp, by simp⟩
  · by_cases hd : d = c
    · subst hd
      refine ⟨by simp, by simp [hr], by simp, fun _ => ?_⟩
      refine ⟨s.pollfds.length, _, Function.update_self .., List.getElem?_concat_length, ⟨?_, rfl⟩⟩
      simp [hc]
    · have hn := fd_ne hfd hd
      rw [Function.update_of_ne hd]
      refine (h.channel d).frame (AList.lookup_insert_ne hn) (Function.update_of_ne hd ..)
        (Function.update_of_ne hd ..) fun _ i pfd _ hpfd => ?_
      exact (List.getElem?_append_left (List.getElem?_eq_some_iff.mp hpfd).1).trans hpfd

theorem updateChannel_registered {pfd : PollFd} (hnew : s.status c ≠ -1)
    (hlookup : s.channels.lookup (fd c : Int) = some c) (hentry : s.entry c = some pfd)
    (hpfd : pfd.fd = fd c ∨ pfd.fd = ignored fd c) :
    s.updateChannel fd c =
      { s with
        pollfds := s.pollfds.set (s.status c).toNat
          ⟨if (s.channel c).isNoneEvent then ignored fd c else fd c,
            (s.channel c).events.setWidth 16, 0⟩ } := by
  simp only [updateChannel, hnew, if_false, hlookup, if_true, hentry, hpfd]

/-- A later update. -/
theorem TableInv.modify (hfd : Function.Injective fd) (h : TableInv fd use s)
    (hc : 0 < (use c).updates) (ch : Channel) :
    TableInv fd (Function.update use c { use c with updates := (use c).updates + 1 })
      ({ s with channel := Function.update s.channel c ch }.updateChannel fd c) := by
  obtain ⟨i, pfd, hi, hpfd, hentry, hof⟩ := h.entry_eq hc
  have hlt := (List.getElem?_eq_some_iff.mp hpfd).1
  have hlookup := (h.channel c).registered.mpr hc
  rw [updateChannel_registered (s := { s with channel := Function.update s.channel c ch })
    (show s.status c ≠ -1 by omega) hlookup hentry hof.cases]
  simp only [hi, Int.toNat_natCast, Function.update_self]
  refine ⟨by rw [List.length_set]; exact h.size, h.key, fun j pfd' hpfd' => ?_, h.failed,
    fun d => ?_⟩
  · have hj := (List.getElem?_eq_some_iff.mp hpfd').1
    rw [List.length_set] at hj
    obtain ⟨d, hd, hstatus⟩ := h.owner j _ (List.getElem?_eq_getElem hj)
    refine ⟨d, ?_, hstatus⟩
    by_cases hdc : d = c
    · subst hdc
      simp
    · rw [Function.update_of_ne hdc]
      exact hd
  · by_cases hd : d = c
    · subst hd
      refine ⟨by simp [hlookup], fun hr => ?_, by simp, fun _ => ?_⟩
      · have hremoved := (h.channel d).removed (by simpa using hr)
        omega
      · refine ⟨i, _, hi, List.getElem?_set_self hlt, ⟨?_, by simp⟩⟩
        have htwo : 2 ≤ (use d).updates + 1 := by omega
        simp [htwo]
    · rw [Function.update_of_ne hd]
      refine (h.channel d).frame rfl rfl (Function.update_of_ne hd ..) ?_
      intro hreg j pfd' hj hpfd'
      have hij : i ≠ j := fun hij => hd (h.index_inj hfd hreg hc (by rw [hj, hi, hij]))
      exact (List.getElem?_set_ne hij).trans hpfd'

/-! ## Removal -/

variable (fd use) in
/-- The entry `i` of a channel is taken out, and the last entry comes in its place. -/
structure TakenOut (s s' : PollPoller κ) (c : κ) (i : Nat) : Prop where
  channel : s'.channel = s.channel
  channels : s'.channels = s.channels.erase (fd c : Int)
  failed : s'.failed = s.failed
  length : s'.pollfds.length = s.pollfds.length - 1
  get : ∀ j, j + 1 < s.pollfds.length → s'.pollfds[j]? =
    if j = i then s.pollfds[s.pollfds.length - 1]? else s.pollfds[j]?
  status : ∀ d, d ≠ c → s'.status d =
    if 0 < (use d).updates ∧ s.status d = (s.pollfds.length - 1 : Nat) then (i : Int)
    else s.status d

omit [DecidableEq κ] in
/-- The owner of an entry: that of the last one in the place `i`, else the old one. -/
theorem TakenOut.owner {i : Nat} (ht : TakenOut fd use s s' c i) (h : TableInv fd use s)
    (hi : s.status c = i) {j : Nat} {pfd : PollFd} (hpfd : s'.pollfds[j]? = some pfd) :
    ∃ d, d ≠ c ∧ 0 < (use d).updates ∧ s'.status d = (j : Nat) := by
  have hj := (List.getElem?_eq_some_iff.mp hpfd).1
  have hlength := ht.length
  rw [ht.get j (by omega)] at hpfd
  split at hpfd
  · next hji =>
    obtain ⟨d, hd, hlast⟩ := h.owner _ pfd hpfd
    have hdc : d ≠ c := by
      rintro rfl
      omega
    exact ⟨d, hdc, hd, by rw [ht.status d hdc, if_pos ⟨hd, hlast⟩, hji]⟩
  · next hji =>
    obtain ⟨d, hd, hold⟩ := h.owner j pfd hpfd
    have hdc : d ≠ c := by
      rintro rfl
      omega
    exact ⟨d, hdc, hd, by rw [ht.status d hdc, if_neg (by omega), hold]⟩

omit [DecidableEq κ] in
/-- The other channels keep their entries. -/
theorem TakenOut.channelInv {i : Nat} (ht : TakenOut fd use s s' c i)
    (hfd : Function.Injective fd) (h : TableInv fd use s) (hc : 0 < (use c).updates)
    (hi : s.status c = i) (hdc : d ≠ c) : ChannelInv fd (use d) s' d := by
  have hlt := h.index_lt hc hi
  refine ⟨?_, (h.channel d).removed, fun hu hr => ?_, fun hu => ?_⟩
  · rw [ht.channels, AList.lookup_erase_ne (fd_ne hfd hdc)]
    exact (h.channel d).registered
  · rw [ht.status d hdc, if_neg (by omega)]
    exact (h.channel d).fresh hu hr
  · obtain ⟨j, pfd, hj, hpfd, hof⟩ := (h.channel d).entry hu
    have hj' := (List.getElem?_eq_some_iff.mp hpfd).1
    have hji : j ≠ i := fun hji => hdc (h.index_inj hfd hu hc (by rw [hj, hi, hji]))
    rw [ht.channel]
    by_cases hlast : j = s.pollfds.length - 1
    · subst hlast
      refine ⟨i, pfd, by rw [ht.status d hdc, if_pos ⟨hu, hj⟩], ?_, hof⟩
      rw [ht.get i (by omega), if_pos rfl, hpfd]
    · refine ⟨j, pfd, by rw [ht.status d hdc, if_neg (by omega), hj], ?_, hof⟩
      rw [ht.get j (by omega), if_neg hji, hpfd]

theorem TableInv.takenOut {i : Nat} (hfd : Function.Injective fd) (h : TableInv fd use s)
    (hc : 0 < (use c).updates) (hi : s.status c = i) (ht : TakenOut fd use s s' c i) :
    TableInv fd (Function.update use c { updates := 0, removed := true }) s' := by
  refine ⟨?_, fun n d hd => ?_, fun j pfd hpfd => ?_, ht.failed.trans h.failed, fun d => ?_⟩
  · have hlookup := (h.channel c).registered.mpr hc
    have hmem : (fd c : Int) ∈ s.channels.keys := AList.lookup_isSome.mp (by rw [hlookup]; rfl)
    rw [ht.length, h.size, ht.channels, AList.keys_erase, List.length_erase_of_mem hmem]
  · rw [ht.channels] at hd
    by_cases hn : n = fd c
    · subst hn
      rw [AList.lookup_erase] at hd
      cases hd
    · rw [AList.lookup_erase_ne hn] at hd
      exact h.key n d hd
  · obtain ⟨d, hdc, hd, hsd⟩ := ht.owner h hi hpfd
    exact ⟨d, by rw [Function.update_of_ne hdc]; exact hd, hsd⟩
  · by_cases hdc : d = c
    · subst hdc
      refine ⟨?_, by simp, by simp, by simp⟩
      simp [ht.channels]
    · rw [Function.update_of_ne hdc]
      exact ht.channelInv hfd h hc hi hdc

theorem takeOut_last {i : Nat} (h : i = s.pollfds.length - 1) :
    s.takeOut i = { s with pollfds := s.pollfds.dropLast } := by
  rw [takeOut, if_pos h]

theorem takeOut_swap {i : Nat} {back : PollFd} (h : i ≠ s.pollfds.length - 1)
    (hback : s.pollfds[s.pollfds.length - 1]? = some back)
    (hd : s.channels.lookup (if back.fd < 0 then -back.fd - 1 else back.fd) = some d) :
    s.takeOut i = { s with pollfds := swapPop s.pollfds i }.setStatus d i := by
  rw [← List.getLast?_eq_getElem?] at hback
  simp only [takeOut, h, if_false, hback, hd]

theorem TableInv.takeOut (hfd : Function.Injective fd) (h : TableInv fd use s)
    (hc : 0 < (use c).updates) {i : Nat} (hi : s.status c = i) :
    TableInv fd (Function.update use c { updates := 0, removed := true })
      ({ s with channels := s.channels.erase (fd c : Int) }.takeOut i) := by
  have hlt := h.index_lt hc hi
  by_cases hlast : i = s.pollfds.length - 1
  · rw [takeOut_last (s := { s with channels := s.channels.erase (fd c : Int) }) hlast]
    refine h.takenOut hfd hc hi ⟨rfl, rfl, rfl, List.length_dropLast .., fun j hj => ?_,
      fun d hdc => ?_⟩
    · rw [hlast]
      exact dropLast_getElem? hj
    · -- No other channel has the last index.
      refine (if_neg fun hd => hdc (h.index_inj hfd hd.1 hc ?_)).symm
      rw [hd.2, hi, hlast]
  · have hback := List.getElem?_eq_getElem (show s.pollfds.length - 1 < s.pollfds.length by omega)
    obtain ⟨d, hd, hdlast⟩ := h.owner _ _ hback
    have hdc : d ≠ c := by
      rintro rfl
      omega
    have hn := fd_ne hfd hdc
    obtain ⟨j, pfd, hj, hpfd, hof⟩ := (h.channel d).entry hd
    obtain rfl : j = s.pollfds.length - 1 := by omega
    have hlookup : (s.channels.erase (fd c : Int)).lookup
        (if pfd.fd < 0 then -pfd.fd - 1 else pfd.fd) = some d := by
      rw [hof.decode, AList.lookup_erase_ne hn]
      exact (h.channel d).registered.mpr hd
    rw [takeOut_swap (s := { s with channels := s.channels.erase (fd c : Int) }) hlast hpfd hlookup]
    refine h.takenOut hfd hc hi ⟨rfl, rfl, rfl, swapPop_length ..,
      fun j hj => swapPop_getElem? hlt hj, fun e he => ?_⟩
    by_cases hed : e = d
    · subst hed
      rw [if_pos ⟨hd, hdlast⟩]
      exact Function.update_self ..
    · rw [if_neg fun hlast' => hed (h.index_inj hfd hlast'.1 hd (hlast'.2.trans hdlast.symm))]
      exact Function.update_of_ne hed ..

/-- The removal of a channel whose entry is ignored. -/
theorem TableInv.removeChannel (hfd : Function.Injective fd) (h : TableInv fd use s)
    (hc : 0 < (use c).updates) (hnone : (s.channel c).isNoneEvent = true)
    (hignored : ∀ pfd, s.entry c = some pfd → pfd.fd = ignored fd c) :
    TableInv fd (Function.update use c { updates := 0, removed := true })
      (s.removeChannel fd c) := by
  obtain ⟨i, pfd, hi, -, hentry, hof⟩ := h.entry_eq hc
  have hevents : pfd.events.signExtend 32 = (s.channel c).events := by
    rw [hof.events, (Channel.isNoneEvent_iff _).mp hnone]
    rfl
  simp only [PollPoller.removeChannel, (h.channel c).registered.mpr hc, hnone, and_self, if_true,
    hentry, hignored pfd hentry, hevents, hi, Int.toNat_natCast]
  exact h.takeOut hfd hc hi

/-! ## Whole runs -/

variable (fd) in
/-- A channel is not used after its removal, and it is removed while it is registered, has no
events and its entry is ignored. -/
def Allowed (p : (κ → ChannelUse) × PollPoller κ) : κ × ChannelOp → Prop
  | (c, .remove) => (p.1 c).removed = false ∧ p.2.channels.lookup (fd c : Int) = some c ∧
    (p.2.channel c).isNoneEvent = true ∧ (p.2.entry c).map PollFd.fd = some (ignored fd c)
  | (c, _) => (p.1 c).removed = false

theorem TableInv.update (hfd : Function.Injective fd) (h : TableInv fd use s)
    (hr : (use c).removed = false) (ch : Channel) :
    TableInv fd (Function.update use c { use c with updates := (use c).updates + 1 })
      ({ s with channel := Function.update s.channel c ch }.updateChannel fd c) := by
  by_cases hc : (use c).updates = 0
  · exact h.register hfd hc hr ch
  · exact h.modify hfd (Nat.pos_of_ne_zero hc) ch

theorem TableInv.step (hfd : Function.Injective fd) (h : TableInv fd use s) {i : κ × ChannelOp}
    (hi : Allowed fd (use, s) i) : TableInv fd (ChannelUse.step use i) (s.step fd i) := by
  obtain ⟨c, op⟩ := i
  cases op with
  | remove =>
    obtain ⟨-, hlookup, hnone, hignored⟩ := hi
    simp only [PollPoller.step, hnone, if_true]
    refine h.removeChannel hfd ((h.channel c).registered.mp hlookup) hnone fun pfd hpfd => ?_
    rw [hpfd] at hignored
    exact Option.some.inj hignored
  | _ => exact h.update hfd hi _

theorem tableInv_run (hfd : Function.Injective fd) {calls : List (κ × ChannelOp)}
    (h : Legal (pair ChannelUse.step (step fd)) (Allowed fd) (fun _ => {}, {}) calls) :
    TableInv fd (ChannelUse.after calls) (calls.foldl (step fd) {}) := by
  have hrun := legal_invariant
    (I := fun p : (κ → ChannelUse) × PollPoller κ => TableInv fd p.1 p.2)
    (fun p i hp hi => TableInv.step hfd hp hi) ?_ h
  · rw [foldl_pair] at hrun
    exact hrun
  · exact ⟨rfl, by simp, by simp, rfl, fun c => ⟨by simp, by simp, by simp, by simp⟩⟩

/-! ## `FillActiveChannels` -/

variable (fd) in
/-- The loop from an iterator on: `found` are the channels of the entries with events. -/
theorem fill_spec {rest : List PollFd} (hnodup : (rest.map PollFd.fd).Nodup)
    (hfound : ∀ pfd ∈ rest, Reported pfd →
      ∃ c, s.channels.lookup pfd.fd = some c ∧ (fd c : Int) = pfd.fd) (active : List κ) :
    ∃ found revents,
      s.fill fd (rest.countP fun pfd => Reported pfd) rest active =
        ({ s with revents }, active ++ found) ∧
      found.Nodup ∧
      (∀ c, c ∈ found ↔ ∃ pfd ∈ rest, Reported pfd ∧ s.channels.lookup pfd.fd = some c) ∧
      (∀ pfd ∈ rest, ∀ c, Reported pfd → s.channels.lookup pfd.fd = some c →
        revents c = pfd.revents.signExtend 32) ∧
      ∀ c, c ∉ found → revents c = s.revents c := by
  induction rest generalizing s active with
  | nil => exact ⟨[], s.revents, by simp [fill], by simp, by simp, by simp, by simp⟩
  | cons pfd rest ih =>
    rw [List.map_cons, List.nodup_cons] at hnodup
    obtain ⟨hpfd, hnodup⟩ := hnodup
    obtain ⟨hhead, hrest⟩ := List.forall_mem_cons.mp hfound
    by_cases hrep : Reported pfd
    · obtain ⟨c, hlookup, hfdc⟩ := hhead hrep
      obtain ⟨found, revents, hfill, hnd, hmem, hset, hkeep⟩ :=
        ih (s := { s with revents := Function.update s.revents c (pfd.revents.signExtend 32) })
          hnodup hrest (active ++ [c])
      -- The other entries have other descriptors, so `c` is not found again.
      have hc : c ∉ found := fun hc => by
        obtain ⟨pfd', h', hrep', he⟩ := (hmem c).mp hc
        obtain ⟨d, hd, hfdd⟩ := hrest pfd' h' hrep'
        obtain rfl : c = d := Option.some.inj (he.symm.trans hd)
        exact hpfd (List.mem_map.mpr ⟨pfd', h', hfdd.symm.trans hfdc⟩)
      refine ⟨c :: found, revents, ?_, List.nodup_cons.mpr ⟨hc, hnd⟩, fun d => ?_,
        List.forall_mem_cons.mpr ⟨fun d _ he => ?_, hset⟩, fun d hd => ?_⟩
      · rw [List.countP_cons_of_pos (by simpa using hrep), fill]
        simp only [hrep, if_true, hlookup, hfdc]
        rw [hfill, List.append_assoc]
        rfl
      · rw [List.mem_cons, hmem, List.exists_mem_cons_iff, hlookup, Option.some.injEq,
          eq_comm (a := c), and_iff_right hrep]
      · obtain rfl : d = c := Option.some.inj (he.symm.trans hlookup)
        rw [hkeep d hc]
        exact Function.update_self ..
      · rw [List.mem_cons, not_or] at hd
        rw [hkeep d hd.2]
        exact Function.update_of_ne hd.1 ..
    · obtain ⟨found, revents, hfill, hnd, hmem, hset, hkeep⟩ := ih hnodup hrest active
      refine ⟨found, revents, ?_, hnd, fun d => ?_,
        List.forall_mem_cons.mpr ⟨fun d h _ => absurd h hrep, hset⟩, hkeep⟩
      · rw [List.countP_cons_of_neg (by simpa using hrep)]
        cases hcount : rest.countP fun pfd => Reported pfd with
        | zero =>
          rw [hcount] at hfill
          cases rest with
          | nil => exact hfill
          | cons pfd' rest => exact hfill
        | succ n =>
          rw [hcount] at hfill
          rw [fill, if_neg hrep]
          exact hfill
      · rw [hmem, List.exists_mem_cons_iff, or_iff_right fun h => hrep h.1]

/-! ## The table is a bijection -/

variable (fd) in
/-- `FillActiveChannels` appends exactly the channels of the entries with events, each once, and
these channels have the events. -/
def Filled (s : PollPoller κ) (revents : Nat → BitVec 16) (active : List κ) : Prop :=
  let polled := s.polled revents
  let r := polled.fillActiveChannels fd (polled.pollfds.countP fun pfd => pfd.revents ≠ 0) active
  ∃ found, r.2 = active ++ found ∧ r.1.failed = false ∧ found.Nodup ∧
    (∀ c, c ∈ found ↔
      s.channels.lookup (fd c : Int) = some c ∧ revents (s.status c).toNat ≠ 0) ∧
    (∀ c ∈ found, r.1.revents c = (revents (s.status c).toNat).signExtend 32) ∧
    ∀ c, c ∉ found → r.1.revents c = s.revents c

variable (fd) in
/-- The table after some calls, and what `FillActiveChannels` makes of an answer of `::poll`. -/
structure Bijection (use : κ → ChannelUse) (s : PollPoller κ) : Prop where
  failed : s.failed = false
  size : s.pollfds.length = s.channels.keys.length
  index : ∀ c, s.channels.lookup (fd c : Int) = some c →
    ∃ i pfd, s.status c = (i : Nat) ∧ s.pollfds[i]? = some pfd ∧
      (pfd.fd = fd c ∨ pfd.fd = ignored fd c) ∧
      (2 ≤ (use c).updates → (pfd.fd = ignored fd c ↔ (s.channel c).events = 0))
  distinct : ∀ c d, s.channels.lookup (fd c : Int) = some c →
    s.channels.lookup (fd d : Int) = some d → s.status c = s.status d → c = d
  fill : ∀ revents, s.PollAnswer revents → ∀ active, s.Filled fd revents active

theorem TableInv.fill (hfd : Function.Injective fd) (h : TableInv fd use s)
    {revents : Nat → BitVec 16} (hanswer : s.PollAnswer revents) (active : List κ) :
    s.Filled fd revents active := by
  unfold Filled
  intro polled r
  have hnodup : (polled.pollfds.map PollFd.fd).Nodup := by
    have hfds : polled.pollfds.map PollFd.fd = s.pollfds.map PollFd.fd := by
      refine List.ext_getElem? fun i => ?_
      simp only [polled, PollPoller.polled, List.getElem?_map, List.getElem?_mapIdx,
        Option.map_map]
      rfl
    rw [hfds]
    exact h.fds_nodup hfd
  obtain ⟨found, revents', hfill, hnd, hmem, hset, hkeep⟩ := fill_spec fd (s := polled)
    hnodup (fun pfd hpfd hrep => by
      obtain ⟨i, hi⟩ := List.getElem?_of_mem hpfd
      obtain ⟨c, hlookup, hfdc, -⟩ := h.reported hanswer hi hrep
      exact ⟨c, hlookup, hfdc⟩) active
  have hr : r = ({ polled with revents := revents' }, active ++ found) := by
    rw [← hfill]
    simp only [r, fillActiveChannels]
    rw [count_reported hanswer]
  have hiff : ∀ c, c ∈ found ↔
      s.channels.lookup (fd c : Int) = some c ∧ revents (s.status c).toNat ≠ 0 := by
    intro c
    rw [hmem]
    constructor
    · rintro ⟨pfd, hpfd, hrep, hlookup⟩
      obtain ⟨i, hi⟩ := List.getElem?_of_mem hpfd
      obtain ⟨d, hd, hfdd, hstatus, hrev⟩ := h.reported hanswer hi hrep
      obtain rfl : c = d := Option.some.inj (hlookup.symm.trans hd)
      refine ⟨by rw [hfdd]; exact hd, ?_⟩
      rw [hstatus, Int.toNat_natCast, ← hrev]
      intro hzero
      rw [Reported, hzero] at hrep
      exact absurd hrep (by decide)
    · rintro ⟨hlookup, hne⟩
      obtain ⟨pfd, hpfd, hrep, hl, -⟩ :=
        h.polled_entry hanswer ((h.channel c).registered.mp hlookup) hne
      exact ⟨pfd, hpfd, hrep, hl⟩
  rw [hr]
  refine ⟨found, rfl, h.failed, hnd, hiff, fun c hc => ?_, hkeep⟩
  obtain ⟨hlookup, hne⟩ := (hiff c).mp hc
  obtain ⟨pfd, hpfd, hrep, hl, hrev⟩ :=
    h.polled_entry hanswer ((h.channel c).registered.mp hlookup) hne
  rw [← hrev]
  exact hset pfd hpfd c hrep hl

/-- For every sequence of calls in which a channel is removed once, while it is registered, has no
events and its entry is ignored, and is not used after that. -/
theorem pollfds_bijection (hfd : Function.Injective fd) (calls : List (κ × ChannelOp))
    (h : Legal (pair ChannelUse.step (step fd)) (Allowed fd) (fun _ => {}, {}) calls) :
    Bijection fd (ChannelUse.after calls) (calls.foldl (step fd) {}) := by
  have hinv := tableInv_run hfd h
  refine ⟨hinv.failed, hinv.size, fun c hc => ?_, fun c d hc hd hstatus => ?_,
    fun revents hanswer active => hinv.fill hfd hanswer active⟩
  · obtain ⟨i, pfd, hi, hpfd, hof⟩ := (hinv.channel c).entry ((hinv.channel c).registered.mp hc)
    refine ⟨i, pfd, hi, hpfd, hof.cases, fun htwo => ?_⟩
    have hne : (fd c : Int) ≠ ignored fd c := by
      rw [ignored]
      omega
    rw [hof.fd, ← Channel.isNoneEvent_iff]
    simp only [htwo, true_and]
    split
    · next hnone => exact iff_of_true rfl hnone
    · next hnone => exact iff_of_false hne hnone
  · exact hinv.index_inj hfd ((hinv.channel c).registered.mp hc)
      ((hinv.channel d).registered.mp hd) hstatus

/-- Three channels; when the first one is removed the last entry comes in its place. -/
def threeChannels : List (Nat × ChannelOp) :=
  [(0, .enableReading), (1, .disableAll), (2, .enableReading), (1, .enableWriting),
    (2, .disableReading), (0, .disableAll), (0, .remove), (2, .enableReading), (1, .disableAll),
    (1, .remove)]

instance (p : (κ → ChannelUse) × PollPoller κ) (i : κ × ChannelOp) : Decidable (Allowed fd p i) :=
  match i with
  | (c, .remove) => inferInstanceAs (Decidable ((p.1 c).removed = false ∧
      p.2.channels.lookup (fd c : Int) = some c ∧ (p.2.channel c).isNoneEvent = true ∧
      (p.2.entry c).map PollFd.fd = some (ignored fd c)))
  | (c, .enableReading) | (c, .disableReading) | (c, .enableWriting) | (c, .disableWriting)
  | (c, .disableAll) => inferInstanceAs (Decidable ((p.1 c).removed = false))

theorem threeChannels_bijection :
    Legal (pair ChannelUse.step (step (· + 3))) (Allowed (· + 3)) (fun _ => {}, {})
        threeChannels ∧
      Bijection (· + 3) (ChannelUse.after threeChannels)
        (threeChannels.foldl (step (· + 3)) {}) := by
  have h : Legal (pair ChannelUse.step (step (· + 3))) (Allowed (· + 3)) (fun _ => {}, {})
      threeChannels := by decide +kernel
  exact ⟨h, pollfds_bijection (add_left_injective 3) threeChannels h⟩

end PollPoller

end MyTinyHttpd
