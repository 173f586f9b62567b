import MyTinyHttpd.Utils.LocalTime
import MyTinyHttpd.Utils.TimeZoneFile

/-!
# The time zone of a file

`ReadTimeZoneFile` returns true whatever it reads, so that every `TimeZone` made from a file, or
from no file, is valid. What its tables hold is another matter.

* `Rep.Sound`: there is a type, and all indices are in range.
* `ZoneFile`: the files that are complete and consistent as they are read.
* `caught_readRep`, `caught_readTables_complete`: sound tables come from such a file.
* `ofFile_sound_iff`: and the others leave a valid time zone with tables that are not sound, or are
  undefined.
-/

namespace MyTinyHttpd

open Verif File TimeZone

/-- The constructor from the name of a file. `ReadTimeZoneFile` has returned true: the `Rep` is
kept. -/
def TimeZone.ofFile (content : Option (List UInt8)) : Option TimeZone :=
  (readTimeZoneFile content {}).map fun rep => ⟨some rep⟩

structure Rep.Sound (rep : Rep) : Prop extends rep.Indexed where
  arrb_lt : ∀ l ∈ rep.localtimes, l.arrbIdx < rep.abbreviation.length

theorem Rep.Sound.defined {rep : Rep} (h : rep.Sound) : rep.Defined :=
  ⟨h.toIndexed, fun l hl => Nat.le_of_lt (h.arrb_lt l hl)⟩

theorem Rep.Sound.abbreviation_ne {rep : Rep} (h : rep.Sound) : rep.abbreviation ≠ [] := by
  obtain ⟨l, hl⟩ := List.exists_mem_of_ne_nil _ h.localtimes_ne
  have := h.arrb_lt l hl
  intro hnil
  simp [hnil] at this

/-- A file that is complete, by the five counts that are read, and whose indices are in range. -/
structure ZoneFile where
  version : UInt8
  reserved : List UInt8
  isgmtcnt : BitVec 32
  isstdcnt : BitVec 32
  times : List (BitVec 32)
  indices : List UInt8
  types : List RawType
  abbreviation : List UInt8
  rest : List UInt8
  reserved_length : reserved.length = 15
  times_lt : times.length < 2 ^ 31
  indices_length : indices.length = times.length
  types_ne : types ≠ []
  types_lt : types.length < 2 ^ 31
  abbreviation_lt : abbreviation.length < 2 ^ 31
  index_lt : ∀ i ∈ indices, i.toNat < types.length
  abbrind_lt : ∀ r ∈ types, r.abbrind.toNat < abbreviation.length

namespace ZoneFile

def bytes (f : ZoneFile) : List UInt8 :=
  ascii "TZif" ++ ([f.version] ++ (f.reserved ++ (int32Bytes f.isgmtcnt ++
    (int32Bytes f.isstdcnt ++ (TzFile.count f.times.length ++ (TzFile.count f.types.length ++
    (TzFile.count f.abbreviation.length ++ (f.times.flatMap int32Bytes ++ (f.indices ++
    (f.types.flatMap RawType.bytes ++ (f.abbreviation ++ f.rest)))))))))))

def rep (f : ZoneFile) : Rep where
  transitions := (f.times.zip f.indices).map (transitionOf (f.types.map RawType.localtime))
  localtimes := f.types.map RawType.localtime
  abbreviation := f.abbreviation

theorem rep_sound (f : ZoneFile) : f.rep.Sound where
  localtimes_ne := by simpa [rep] using f.types_ne
  index_lt := by
    intro t ht
    obtain ⟨⟨time, i⟩, hmem, rfl⟩ := List.mem_map.mp ht
    simpa [rep, transitionOf] using f.index_lt i (List.of_mem_zip hmem).2
  arrb_lt := by
    intro l hl
    obtain ⟨r, hr, rfl⟩ := List.mem_map.mp hl
    exact f.abbrind_lt r hr

theorem read_bytes (f : ZoneFile) : readTimeZoneFile (some f.bytes) {} = some f.rep := by
  have hread := readRep_header (show [f.version].length = 1 from rfl) f.reserved_length
    f.isgmtcnt f.isstdcnt (BitVec.ofNat 32 f.times.length) (BitVec.ofNat 32 f.types.length)
    (BitVec.ofNat 32 f.abbreviation.length) (f.times.flatMap int32Bytes ++ (f.indices ++
      (f.types.flatMap RawType.bytes ++ (f.abbreviation ++ f.rest))))
  rw [readTables_eq f.rest (toInt_count f.times_lt) f.indices_length (toInt_count f.types_lt)
    (toInt_count f.abbreviation_lt) f.index_lt] at hread
  rw [readTimeZoneFile]
  exact congrArg caught hread

end ZoneFile

section

variable {file : List UInt8} {d : Rep}

/-- A `Rep` that is not empty comes from tables behind a header. -/
theorem caught_readRep (hd : caught (readRep ⟨file, {}⟩) = some d) (hne : d ≠ {}) :
    ∃ version reserved isgmtcnt isstdcnt timecnt typecnt charcnt rest,
      reserved.length = 15 ∧
      file = ascii "TZif" ++ ([version] ++ (reserved ++ (int32Bytes isgmtcnt ++
        (int32Bytes isstdcnt ++ (int32Bytes timecnt ++ (int32Bytes typecnt ++
        (int32Bytes charcnt ++ rest))))))) ∧
      caught (readTables timecnt typecnt charcnt ⟨rest, {}⟩) = some d := by
  rw [readRep, readBytes, readBytes, readBytes, if_pos (by decide), if_pos (by decide),
    if_pos (by decide)] at hd
  obtain ⟨head, file₁, -, hfile, hd⟩ := caught_fread_bind_of_ne (Reads.take 4) hd hne
  by_cases hhead : head ≠ ascii "TZif"
  · rw [if_pos hhead] at hd
    exact absurd (Option.some.inj hd).symm hne
  rw [if_neg hhead] at hd
  obtain ⟨version, file₂, hversion, rfl, hd⟩ := caught_fread_bind_of_ne (Reads.take 1) hd hne
  obtain ⟨reserved, file₃, hreserved, rfl, hd⟩ := caught_fread_bind_of_ne (Reads.take 15) hd hne
  obtain ⟨isgmtcnt, file₄, -, rfl, hd⟩ := caught_fread_bind_of_ne reads_int32 hd hne
  obtain ⟨isstdcnt, file₅, -, rfl, hd⟩ := caught_fread_bind_of_ne reads_int32 hd hne
  obtain ⟨timecnt, file₆, -, rfl, hd⟩ := caught_fread_bind_of_ne reads_int32 hd hne
  obtain ⟨typecnt, file₇, -, rfl, hd⟩ := caught_fread_bind_of_ne reads_int32 hd hne
  obtain ⟨charcnt, rest, -, rfl, hd⟩ := caught_fread_bind_of_ne reads_int32 hd hne
  obtain ⟨v, rfl⟩ := List.length_eq_one_iff.mp hversion
  refine ⟨v, reserved, isgmtcnt, isstdcnt, timecnt, typecnt, charcnt, rest, hreserved, ?_, hd⟩
  rw [not_not.mp hhead] at hfile
  exact hfile

/-- Abbreviations are read last. -/
theorem caught_readTables_complete {timecnt typecnt charcnt : BitVec 32}
    (hd : caught (readTables timecnt typecnt charcnt ⟨file, {}⟩) = some d)
    (habbr : d.abbreviation ≠ []) :
    ∃ (times : List (BitVec 32)) (indices : List UInt8) (raws : List RawType)
      (abbreviation rest : List UInt8),
      timecnt.toInt = times.length ∧ indices.length = times.length ∧
      raws.length = typecnt.toInt.toNat ∧ charcnt.toInt = abbreviation.length ∧
      file = times.flatMap int32Bytes ++ (indices ++ (raws.flatMap RawType.bytes ++
        (abbreviation ++ rest))) ∧
      d = { transitions := (times.zip indices).map (transitionOf (raws.map RawType.localtime))
            localtimes := raws.map RawType.localtime
            abbreviation := abbreviation } := by
  rcases caught_readTables_cases hd with
    ⟨times, indices, raws, rest, htimes, hindices, hraws, hchar, hfile, hlocal, htrans, hread⟩ |
      ⟨-, hnone, -⟩
  · by_cases hle : charcnt.toInt.toNat ≤ rest.length
    · rw [if_pos hle] at hread
      refine ⟨times, indices, raws, rest.take charcnt.toInt.toNat, rest.drop charcnt.toInt.toNat,
        htimes, hindices, hraws, ?_, ?_, ?_⟩
      · rw [List.length_take_of_le hle]
        omega
      · rwa [List.take_append_drop]
      · rw [hlocal] at htrans
        cases d
        simp only [Rep.mk.injEq]
        exact ⟨htrans, hlocal, hread⟩
    · rw [if_neg hle] at hread
      exact absurd hread habbr
  · exact absurd hnone habbr

theorem count_of_toInt {w : BitVec 32} {n : Nat} (h : w.toInt = n) :
    w = BitVec.ofNat 32 n ∧ n < 2 ^ 31 := by
  have hlt := w.toInt_lt
  have hn : n < 2 ^ 31 := by omega
  exact ⟨BitVec.eq_of_toInt_eq (h.trans (toInt_count hn).symm), hn⟩

/-- Sound tables come from a file that is complete. -/
theorem exists_zoneFile (hd : readTimeZoneFile (some file) {} = some d) (h : d.Sound) :
    ∃ f : ZoneFile, file = f.bytes := by
  have hne : d ≠ {} := by
    rintro rfl
    exact h.localtimes_ne rfl
  obtain ⟨version, reserved, isgmtcnt, isstdcnt, timecnt, typecnt, charcnt, tables, hreserved, rfl,
    htables⟩ := caught_readRep hd hne
  obtain ⟨times, indices, raws, abbreviation, rest, htime, hindices, htype, hchar, rfl, rfl⟩ :=
    caught_readTables_complete htables h.abbreviation_ne
  have hraws : raws ≠ [] := by
    rintro rfl
    exact h.localtimes_ne rfl
  have hpos := List.length_pos_iff.mpr hraws
  obtain ⟨rfl, htimes_lt⟩ := count_of_toInt htime
  obtain ⟨rfl, htypes_lt⟩ := count_of_toInt (show typecnt.toInt = raws.length by omega)
  obtain ⟨rfl, habbr_lt⟩ := count_of_toInt hchar
  refine ⟨⟨version, reserved, isgmtcnt, isstdcnt, times, indices, raws, abbreviation, rest,
    hreserved, htimes_lt, hindices, hraws, htypes_lt, habbr_lt, ?_, ?_⟩, rfl⟩
  · intro i hi
    rw [← List.map_snd_zip (Nat.le_of_eq hindices)] at hi
    obtain ⟨p, hp, rfl⟩ := List.mem_map.mp hi
    simpa [transitionOf] using h.index_lt _ (List.mem_map_of_mem hp)
  · intro r hr
    exact h.arrb_lt _ (List.mem_map_of_mem hr)

end

theorem ofFile_sound_iff (content : Option (List UInt8)) :
    (∃ zone, ofFile content = some zone ∧
      (zone.isValid = false ∨ ∃ rep, zone.rep = some rep ∧ rep.Sound ∧
        (∀ c t, ∃ tm, toLocalTime c zone t = some tm) ∧
        ∀ c tm, ∃ t, fromLocalTime c zone tm = some t)) ↔
      ∃ f : ZoneFile, content = some f.bytes := by
  constructor
  · rintro ⟨zone, hzone, hsound⟩
    obtain ⟨d, hd, rfl⟩ := Option.map_eq_some_iff.mp hzone
    rcases hsound with hinvalid | ⟨rep, hrep, hsound, -⟩
    · cases hinvalid
    · obtain rfl := Option.some.inj hrep
      cases content with
      | none =>
        obtain rfl := Option.some.inj hd
        exact absurd rfl hsound.localtimes_ne
      | some file =>
        obtain ⟨f, rfl⟩ := exists_zoneFile hd hsound
        exact ⟨f, rfl⟩
  · rintro ⟨f, rfl⟩
    have hsound := f.rep_sound
    refine ⟨⟨some f.rep⟩, ?_, .inr ⟨f.rep, rfl, hsound, ?_, ?_⟩⟩
    · rw [ofFile, f.read_bytes]
      rfl
    · exact toLocalTime_defined hsound.defined
    · exact fromLocalTime_defined hsound.defined

/-- A file that is not there makes a valid time zone without a type, in which no time has a local
time. -/
theorem ofFile_missing :
    ofFile none = some ⟨some {}⟩ ∧ (⟨some {}⟩ : TimeZone).isValid = true ∧ ¬ ({} : Rep).Sound ∧
      ∀ c t, toLocalTime c ⟨some {}⟩ t = none :=
  ⟨rfl, rfl, fun h => h.localtimes_ne rfl, fun _ _ => rfl⟩

end MyTinyHttpd
