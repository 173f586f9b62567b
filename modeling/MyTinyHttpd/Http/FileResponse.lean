import MyTinyHttpd.Http.PutGet

/-!
# Responses that describe a file

* `appendContentLength_exact_iff`: the `Content-Length` line is complete for a length of at most 13
  digits. `buf` has 32 bytes, and `%zd` is for signed numbers.
* `head_describes_get_iff`: the answer to HEAD is the head of the answer to GET only when there is
  no file. `AppendHeadersEnd()` adds a second `Content-Length` line after the one of the file.
* `framed_iff`: a client finds one `Content-Length` line and that many bytes after the empty line,
  unless a file that is not empty cannot be read. The line is written before the file is read. The
  domain stands in a header line as it is (`PlainDomain`, `FramedByDomain`: its own lines).
-/

namespace MyTinyHttpd

open Verif

/-! ## The `Content-Length` line -/

/-- **The `Content-Length` line.** For every 64-bit length, exactly the digits of the length are
appended, between the name and CRLF, if and only if there are at most 13 of them. -/
theorem HttpResponse.appendContentLength_exact_iff (alloc : Allocator) {r : HttpResponse}
    (hr : r.buffer.Inv) (len : UInt64) :
    (r.appendContentLength alloc len.toNat).buffer.readable =
        r.buffer.readable ++ (ascii "Content-Length: " ++ decimal len.toNat ++ kCrlf) ↔
      len.toNat < 10 ^ 13 := by
  have happend : (r.appendContentLength alloc len.toNat).buffer.readable = r.buffer.readable ++
      snprintf 32 (ascii "Content-Length: " ++ decimalInt (castLong len.toNat) ++ kCrlf) :=
    Buffer.append_readable alloc hr _
  rw [happend, List.append_cancel_left_eq]
  constructor
  · intro h
    by_contra hlarge
    -- 14 digits and the 18 other bytes are more than `snprintf` writes
    have hwritten : (snprintf 32
        (ascii "Content-Length: " ++ decimalInt (castLong len.toNat) ++ kCrlf)).length ≤ 31 :=
      List.length_take_le _ _
    have hdigits := length_decimal_ge (Nat.le_of_not_lt hlarge)
    have hascii : (ascii "Content-Length: ").length = 16 ∧ kCrlf.length = 2 := by decide
    rw [h] at hwritten
    simp only [List.length_append, hascii] at hwritten
    omega
  · intro hsmall
    have hname : ascii "Content-Length: " = ascii "Content-Length" ++ [58, 32] := by decide
    rw [snprintf_contentLength hsmall, fieldLine, hname]
    simp

theorem HttpResponse.appendContentLength_fits :
    (HttpResponse.make Buffer.zeroAlloc false).buffer.Inv ∧
      ((HttpResponse.make Buffer.zeroAlloc false).appendContentLength Buffer.zeroAlloc
          (9999999999999 : UInt64).toNat).buffer.readable =
        (HttpResponse.make Buffer.zeroAlloc false).buffer.readable ++
          (ascii "Content-Length: " ++ decimal (9999999999999 : UInt64).toNat ++ kCrlf) :=
  ⟨Buffer.make_inv _ _, (appendContentLength_exact_iff Buffer.zeroAlloc
    (Buffer.make_inv _ _) 9999999999999).mpr (by decide)⟩

/-- The LF is missing from 14 digits on, and from 2^63 on the number is negative. -/
theorem HttpResponse.appendContentLength_cut :
    ((HttpResponse.make Buffer.zeroAlloc false).appendContentLength Buffer.zeroAlloc
        (10000000000000 : UInt64).toNat).buffer.readable =
      ascii "Content-Length: 10000000000000\r" ∧
    ((HttpResponse.make Buffer.zeroAlloc false).appendContentLength Buffer.zeroAlloc
        (9223372036854775807 : UInt64).toNat).buffer.readable =
      ascii "Content-Length: 922337203685477" ∧
    ((HttpResponse.make Buffer.zeroAlloc false).appendContentLength Buffer.zeroAlloc
        (9223372036854775808 : UInt64).toNat).buffer.readable =
      ascii "Content-Length: -92233720368547" := by
  decide +kernel

/-! ## HEAD and GET -/

/-- The bytes up to and including the first empty line, or all of them if there is none. -/
def headPart (bytes : List UInt8) : List UInt8 :=
  bytes.take (search (kCrlf ++ kCrlf) bytes + 4)

theorem headPart_eq_self_iff {bytes : List UInt8} :
    headPart bytes = bytes ↔ bytes.length ≤ search (kCrlf ++ kCrlf) bytes + 4 :=
  List.take_eq_self_iff bytes

namespace HttpServer

variable (alloc : Allocator) (config : HttpServerConfig)

/-- What follows the domain in a 404 response. -/
def notFoundTail : List UInt8 := ascii "Connection: close\r\nContent-Length: 0\r\n\r\n"

def notFoundText : List UInt8 :=
  statusText 404 (ascii "Not Found") ++ kCrlf ++
    (ascii "Content-Base: " ++ (config.domain ++ kCrlf ++ notFoundTail))

theorem appendNotFound_readable (close : Bool) :
    (appendNotFound alloc config (HttpResponse.make alloc close)).buffer.readable =
      notFoundText config := by
  have hname : ascii "Content-Base: " = ascii "Content-Base" ++ [58, 32] := by decide
  have htail : notFoundTail =
      fieldLine (ascii "Connection", AppendCall.connectionValue true) ++ kCrlf ++
        fieldLine (ascii "Content-Length", decimal 0) ++ kCrlf ++ kCrlf := by decide
  refine (appendNoBody_text alloc config close 404 (ascii "Not Found") (some true)).trans ?_
  simp [messageText, noBodyFields, notFoundText, htail, hname, fieldLine]

/-- The search for the empty line goes over the status line and the name of the first header. -/
theorem search_notFoundText :
    search (kCrlf ++ kCrlf) (notFoundText config) =
      (statusText 404 (ascii "Not Found")).length + 2 + (14 +
        search (kCrlf ++ kCrlf) (config.domain ++ kCrlf ++ notFoundTail)) := by
  have hblank : kCrlf ++ kCrlf = [13, 10, 13, 10] := by decide
  have hcrlf : kCrlf = [13, 10] := by decide
  have hname : 13 ∉ ascii "Content-Base: " ∧ (ascii "Content-Base: ").length = 14 := by decide
  have hshape : notFoundText config = statusText 404 (ascii "Not Found") ++
      13 :: 10 :: (ascii "Content-Base: " ++ (config.domain ++ kCrlf ++ notFoundTail)) := by
    simp [notFoundText, hcrlf]
  have hhead : (ascii "Content-Base: " ++ (config.domain ++ kCrlf ++ notFoundTail)).head? ≠
      some 13 := by
    have hfirst : ascii "Content-Base: " = 67 :: ascii "ontent-Base: " := by decide
    rw [hfirst]
    simp
  have hstatus : NoBlank 13 10 (statusText 404 (ascii "Not Found")) :=
    noBlank_of_notMem (by decide) (cr_notMem_statusText (by decide))
  rw [hshape, hblank, search_noBlank (by decide) hstatus, search_pair (by decide) hhead,
    search_line hname.1, hname.2, Nat.add_assoc]

theorem notFoundTail_facts :
    notFoundTail.head? = some 67 ∧ notFoundTail.length = 40 ∧
      search (kCrlf ++ kCrlf) notFoundTail = 36 := by
  decide +kernel

/-- The 404 response ends with its first empty line, unless the domain brings one. -/
theorem headPart_notFoundText :
    headPart (notFoundText config) = notFoundText config ↔
      ¬ kCrlf ++ kCrlf <:+: config.domain ++ kCrlf := by
  obtain ⟨hfirst, hlength, hend⟩ := notFoundTail_facts
  obtain ⟨tail, htail⟩ := List.head?_eq_some_iff.mp hfirst
  have hlengths : (ascii "Content-Base: ").length = 14 ∧ kCrlf.length = 2 := by decide
  rw [headPart_eq_self_iff, search_notFoundText]
  simp only [notFoundText, List.length_append, hlengths, hlength]
  constructor
  · rintro hle ⟨l, r, hdomain⟩
    have hsearch := search_le_of_append (kCrlf ++ kCrlf) l (r ++ notFoundTail)
    rw [← List.append_assoc, hdomain] at hsearch
    have hsum := congrArg List.length hdomain
    simp only [List.length_append, hlengths] at hsum
    omega
  · intro hdomain
    rw [htail, search_append_cons (by decide) hdomain, ← htail, hend]
    simp only [List.length_append, hlengths]
    omega

section Branches

variable {ω : Type} (files : FileSystem ω) (w : ω) (req : HttpRequest) {w' : ω}

theorem callback_get_none (hget : req.method = .kGet) (hpath : req.path ≠ [])
    (resp : HttpResponse)
    (hin : files.openIn w (cStr (config.getRealPath req.path)) = (none, w')) :
    (defaultHttpCallback alloc config files req resp w).1 = appendNotFound alloc config resp := by
  simp only [defaultHttpCallback, hget, hin]
  rw [if_neg (by simpa using hpath)]

theorem callback_head_none (hhead : req.method = .kHead) (resp : HttpResponse)
    (hin : files.openIn w (cStr (config.getRealPath req.path)) = (none, w')) :
    (defaultHttpCallback alloc config files req resp w).1 = appendNotFound alloc config resp := by
  simp only [defaultHttpCallback, hhead, hin]

theorem callback_head_file (hhead : req.method = .kHead) (resp : HttpResponse) {is : InFile}
    (hin : files.openIn w (cStr (config.getRealPath req.path)) = (some is, w')) :
    (defaultHttpCallback alloc config files req resp w).1 =
      ((appendFileHeaders alloc config resp (config.getRealPath req.path)).appendContentLength
        alloc (castSizeT is.size)).appendHeadersEnd alloc := by
  simp only [defaultHttpCallback, hhead, hin]

end Branches

/-- The length line of a file, as it is written. -/
def fileLengthLine (is : InFile) : List UInt8 :=
  snprintf 32 (ascii "Content-Length: " ++ decimalInt (castLong (castSizeT is.size)) ++ kCrlf)

/-- After the length of the file, HEAD writes a second length. -/
theorem head_file_readable (close : Bool) {path : List UInt8} (hpath : path ≠ []) (is : InFile) :
    (((appendFileHeaders alloc config (HttpResponse.make alloc close)
        (config.getRealPath path)).appendContentLength alloc (castSizeT is.size)).appendHeadersEnd
          alloc).buffer.readable =
      okHead (getFields config close path) ++ fileLengthLine is ++
        ascii "Content-Length: 0\r\n\r\n" := by
  have hlines := appendFileHeaders_wrote alloc config close hpath
  have hlength := (hlines.setState .kAppendHeader).append alloc (fileLengthLine is)
  obtain ⟨_, -, hwrote⟩ := hlength.completes alloc (c := .headersEnd false) rfl trivial
  have htail : ascii "Content-Length: 0\r\n\r\n" =
      fieldLine (lengthField []) ++ kCrlf ++ kCrlf := by decide
  refine hwrote.holds.readable_eq.trans ?_
  rw [htail]
  simp [AppendCall.bodyBytes]

/-- After the length of the file, GET writes the empty line, whatever the file gives. -/
theorem get_file_begins (close : Bool) {path : List UInt8} (hpath : path ≠ []) (is : InFile) :
    okHead (getFields config close path) ++ fileLengthLine is ++ kCrlf <+:
      ((appendFileHeaders alloc config (HttpResponse.make alloc close)
        (config.getRealPath path)).appendBodyStream alloc is).buffer.readable := by
  have hhead := (appendFileHeaders_wrote alloc config close hpath).appendBodyStream_head alloc
    (castSizeT is.size)
  have hreadable := hhead.holds.readable_eq
  rw [show okHead (getFields config close path) ++ fileLengthLine is ++ kCrlf = _ from
    hreadable.symm]
  exact Buffer.appendStream_prefix alloc hhead.holds.inv _ _ _

/-- When there is a file, the two answers part after its length. -/
theorem head_file_differs {head length answer : List UInt8}
    (hget : head ++ length ++ kCrlf <+: answer) :
    ¬ head ++ length ++ ascii "Content-Length: 0\r\n\r\n" <+: answer := by
  intro hhead
  have hshort : kCrlf.length ≤ (ascii "Content-Length: 0\r\n\r\n").length := by decide
  have hpart := List.prefix_of_prefix_length_le hget hhead (by
    simp only [List.length_append]
    omega)
  rw [List.prefix_append_right_inj] at hpart
  exact absurd hpart (by decide)

theorem prefix_of_headPart {h g : List UInt8} (hsame : headPart h = headPart g)
    (hend : headPart h = h) : h <+: g := by
  rw [← hend, hsame]
  exact List.take_prefix _ _

/-- **HEAD describes what GET would send, only if there is no file.** For every request with a path,
every document root and domain, and every file system: up to and including the first empty line,
the answers to HEAD and to GET are the same, and the answer to HEAD ends there, if and only if the
file cannot be opened and the domain brings no empty line of its own. -/
theorem head_describes_get_iff {ω : Type} (files : FileSystem ω) (req : HttpRequest)
    (hpath : req.path ≠ []) (close : Bool) (w : ω) :
    let answer (method : Method) :=
      (defaultHttpCallback alloc config files { req with method := method }
        (HttpResponse.make alloc close) w).1.buffer.readable
    (headPart (answer .kHead) = headPart (answer .kGet) ∧
        headPart (answer .kHead) = answer .kHead) ↔
      (files.openIn w (cStr (config.getRealPath req.path))).1 = none ∧
        ¬ kCrlf ++ kCrlf <:+: config.domain ++ kCrlf := by
  intro answer
  rcases hin : files.openIn w (cStr (config.getRealPath req.path)) with ⟨_ | is, w'⟩
  · have hhead := callback_head_none alloc config files w { req with method := .kHead }
      rfl (HttpResponse.make alloc close) hin
    have hget := callback_get_none alloc config files w { req with method := .kGet }
      rfl hpath (HttpResponse.make alloc close) hin
    simp only [answer, hhead, hget, appendNotFound_readable, headPart_notFoundText]
  · have hhead : answer .kHead = okHead (getFields config close req.path) ++ fileLengthLine is ++
        ascii "Content-Length: 0\r\n\r\n" := by
      simp only [answer, callback_head_file alloc config files w { req with method := .kHead } rfl _
        hin, head_file_readable alloc config close hpath]
    have hget : okHead (getFields config close req.path) ++ fileLengthLine is ++ kCrlf <+:
        answer .kGet := by
      simp only [answer, callback_get_file alloc config files w { req with method := .kGet } rfl
        hpath _ hin]
      exact get_file_begins alloc config close hpath is
    constructor
    · rintro ⟨hsame, hend⟩
      have hstart := prefix_of_headPart hsame hend
      rw [hhead] at hstart
      exact absurd hstart (head_file_differs hget)
    · rintro ⟨hnone, -⟩
      cases hnone

/-- A disk with one file. -/
def helloDisk : List UInt8 → Option (List UInt8) := fun name =>
  if name = ascii "/usr/share/mytinyhttpd/a.txt" then some (ascii "hello") else none

def helloFile : InFile where
  size := 5
  read n := ((ascii "hello").take n, decide (n ≤ (ascii "hello").length))

theorem helloDisk_openIn :
    (diskFiles 100).openIn helloDisk
      (cStr (HttpServerConfig.defaults.getRealPath (ascii "a.txt"))) =
        (some helloFile, helloDisk) := by
  have hname : cStr (HttpServerConfig.defaults.getRealPath (ascii "a.txt")) =
      ascii "/usr/share/mytinyhttpd/a.txt" := by decide
  simp only [diskFiles, helloDisk, hname]
  rfl

/-- The answer to a request for `path`, on that disk. -/
def helloAnswer (method : Method) (path : String) : List UInt8 :=
  (defaultHttpCallback Buffer.zeroAlloc HttpServerConfig.defaults (diskFiles 100)
    { method, path := ascii path } (HttpResponse.make Buffer.zeroAlloc false)
    helloDisk).1.buffer.readable

theorem head_describes_get_missing :
    ascii "b.txt" ≠ [] ∧ headPart (helloAnswer .kHead "b.txt") =
        headPart (helloAnswer .kGet "b.txt") ∧
      headPart (helloAnswer .kHead "b.txt") = helloAnswer .kHead "b.txt" := by
  have hpath : ascii "b.txt" ≠ [] := by decide
  have hiff := head_describes_get_iff Buffer.zeroAlloc HttpServerConfig.defaults (diskFiles 100)
    { path := ascii "b.txt" } hpath false helloDisk
  exact ⟨hpath, hiff.mpr (by decide)⟩

/-- HEAD announces five bytes and then none; GET announces five and sends them. -/
theorem head_differs_from_get :
    let head := okHead (getFields HttpServerConfig.defaults false (ascii "a.txt"))
    helloAnswer .kHead "a.txt" =
        head ++ ascii "Content-Length: 5\r\n" ++ ascii "Content-Length: 0\r\n\r\n" ∧
      helloAnswer .kGet "a.txt" =
        head ++ ascii "Content-Length: 5\r\n" ++ kCrlf ++ ascii "hello" ∧
      ¬ (headPart (helloAnswer .kHead "a.txt") = headPart (helloAnswer .kGet "a.txt") ∧
        headPart (helloAnswer .kHead "a.txt") = helloAnswer .kHead "a.txt") := by
  intro head
  have hpath : ascii "a.txt" ≠ [] := by decide
  have hlength : fileLengthLine helloFile = ascii "Content-Length: 5\r\n" := by decide +kernel
  have hhead : helloAnswer .kHead "a.txt" =
      head ++ ascii "Content-Length: 5\r\n" ++ ascii "Content-Length: 0\r\n\r\n" := by
    rw [helloAnswer, callback_head_file _ _ _ _ { method := .kHead, path := ascii "a.txt" } rfl _
      helloDisk_openIn, head_file_readable _ _ _ hpath, hlength]
  have hget : helloAnswer .kGet "a.txt" =
      head ++ ascii "Content-Length: 5\r\n" ++ kCrlf ++ ascii "hello" := by
    have hread : helloFile.read (ascii "hello").length = (ascii "hello", true) := by decide
    rw [helloAnswer, callback_get_file _ _ _ _ { method := .kGet, path := ascii "a.txt" } rfl hpath
      _ helloDisk_openIn, appendFile_readable _ _ _ hpath (by decide) (by decide) hread, ← hlength]
    rfl
  refine ⟨hhead, hget, ?_⟩
  rintro ⟨hsame, hend⟩
  have hstart := prefix_of_headPart hsame hend
  rw [hhead, hget] at hstart
  exact head_file_differs (List.prefix_append _ _) hstart

/-! ## One length, and that many bytes -/

/-- A client that cuts the message at its first empty line finds exactly one `Content-Length`
line, and its value is the number of bytes after the empty line. -/
def Framed (bytes : List UInt8) : Prop :=
  ∃ status fields body, splitMessage bytes = some (status, fields, body) ∧
    (fields.filter (·.1 = ascii "Content-Length")).map Prod.snd = [decimal body.length]

/-- The values of the `Content-Length` lines. -/
def lengthsIn (lines : List (List UInt8)) : List (List UInt8) :=
  ((lines.map splitField).filter (·.1 = ascii "Content-Length")).map Prod.snd

theorem lengthsIn_append (lines lines' : List (List UInt8)) :
    lengthsIn (lines ++ lines') = lengthsIn lines ++ lengthsIn lines' := by
  simp [lengthsIn]

theorem framed_of_cutBlank {bytes status body : List UInt8} {lines : List (List UInt8)}
    (h : cutBlank 13 10 bytes = some (status :: lines, body)) :
    Framed bytes ↔ lengthsIn lines = [decimal body.length] := by
  have hsplit : splitMessage bytes = some (status, lines.map splitField, body) := by
    rw [splitMessage, h]
  constructor
  · rintro ⟨_, _, _, he, hlengths⟩
    rw [hsplit] at he
    cases he
    exact hlengths
  · exact fun hlengths => ⟨_, _, _, hsplit, hlengths⟩

/-! ### The line with the domain -/

def baseLine (domain : List UInt8) : List UInt8 := fieldLine (ascii "Content-Base", domain)

/-- The domain brings no empty line and no `Content-Length` line. -/
def PlainDomain (domain : List UInt8) : Prop :=
  NoBlank 13 10 (baseLine domain) ∧ lengthsIn (splitPair 13 10 (baseLine domain)) = []

/-- The domain brings an empty line of its own, and before it the length of what follows. -/
def FramedByDomain (domain answer : List UInt8) : Prop :=
  ∃ status after lines rest, 13 ∉ status ∧
    answer = status ++ kCrlf ++ (baseLine domain ++ kCrlf ++ after) ∧
    cutBlank 13 10 (baseLine domain ++ kCrlf) = some (lines, rest) ∧
    lengthsIn lines = [decimal (rest ++ after).length]

theorem kCrlf_eq : kCrlf = [13, 10] := by decide

theorem plainDomain_of_notMem {domain : List UInt8} (h : 13 ∉ domain) : PlainDomain domain := by
  have hline : 13 ∉ baseLine domain := cr_notMem_fieldLine (by decide) h
  refine ⟨noBlank_of_notMem (by decide) hline, ?_⟩
  have hname : ascii "Content-Base" ≠ ascii "Content-Length" := by decide
  have hcolon : 58 ∉ ascii "Content-Base" := by decide
  rw [splitPair_line hline, lengthsIn, List.map_singleton, baseLine,
    splitField_fieldLine (f := (ascii "Content-Base", domain)) hcolon]
  simp [hname]

theorem not_framedByDomain {domain : List UInt8} (h : NoBlank 13 10 (baseLine domain))
    (answer : List UInt8) : ¬ FramedByDomain domain answer := by
  rintro ⟨_, _, _, _, -, -, hcut, -⟩
  have hnone : cutBlank 13 10 (baseLine domain ++ kCrlf) = none := by
    rw [kCrlf_eq, cutBlank_append (by decide) h (by simp)]
    rfl
  cases hnone.symm.trans hcut

/-- The status line is the text before the first CR. -/
theorem framedByDomain_iff {domain status after rest : List UInt8} {lines : List (List UInt8)}
    (hstatus : 13 ∉ status)
    (hcut : cutBlank 13 10 (baseLine domain ++ kCrlf) = some (lines, rest)) :
    FramedByDomain domain (status ++ kCrlf ++ (baseLine domain ++ kCrlf ++ after)) ↔
      lengthsIn lines = [decimal (rest ++ after).length] := by
  constructor
  · rintro ⟨status', after', lines', rest', hstatus', he, hcut', hlengths⟩
    cases hcut'.symm.trans hcut
    simp only [kCrlf_eq, List.append_assoc, List.cons_append, List.nil_append] at he
    have hlen := congrArg (List.idxOf 13) he
    rw [idxOf_append_cons hstatus, idxOf_append_cons hstatus'] at hlen
    obtain ⟨-, he⟩ := List.append_inj he hlen
    simp only [List.cons.injEq, true_and, List.append_cancel_left_eq] at he
    rwa [he]
  · exact fun hlengths => ⟨status, after, lines, rest, hstatus, rfl, hcut, hlengths⟩

/-- What follows the line with the domain is cut as without it, unless the domain brings an empty
line. -/
theorem framed_domain_iff {status domain after body value : List UInt8}
    {lines : List (List UInt8)} (hstatus : 13 ∉ status) (hhead : after.head? ≠ some 13)
    (hcut : cutBlank 13 10 after = some (lines, body)) (hlengths : lengthsIn lines = [value]) :
    Framed (status ++ kCrlf ++ (baseLine domain ++ kCrlf ++ after)) ↔
      PlainDomain domain ∧ value = decimal body.length ∨
        FramedByDomain domain (status ++ kCrlf ++ (baseLine domain ++ kCrlf ++ after)) := by
  have hbase : (baseLine domain ++ kCrlf ++ after).head? ≠ some 13 := by
    have hfirst : ascii "Content-Base" = 67 :: ascii "ontent-Base" := by decide
    simp [baseLine, fieldLine, hfirst]
  have hshape : status ++ kCrlf ++ (baseLine domain ++ kCrlf ++ after) =
      status ++ 13 :: 10 :: (baseLine domain ++ kCrlf ++ after) := by
    simp [kCrlf_eq]
  have hall := cutBlank_append (b := 10) (by decide) (noBlank_of_notMem (by decide) hstatus) hbase
  rw [splitPair_line hstatus, ← hshape] at hall
  by_cases hblank : NoBlank 13 10 (baseLine domain)
  · have hrest : cutBlank 13 10 (baseLine domain ++ kCrlf ++ after) =
        some (splitPair 13 10 (baseLine domain) ++ lines, body) := by
      rw [kCrlf_eq, List.append_assoc]
      exact (cutBlank_append (by decide) hblank hhead).trans (by rw [hcut]; rfl)
    rw [hrest, Option.map_some, List.singleton_append] at hall
    rw [framed_of_cutBlank hall, lengthsIn_append, hlengths,
      or_iff_left (not_framedByDomain hblank _), PlainDomain, and_iff_right hblank]
    constructor
    · intro h
      have hlen := congrArg List.length h
      have hnil : lengthsIn (splitPair 13 10 (baseLine domain)) = [] := by
        rw [List.length_append] at hlen
        exact List.length_eq_zero_iff.mp (by simpa using hlen)
      rw [hnil] at h
      exact ⟨hnil, by simpa using h⟩
    · rintro ⟨hnil, rfl⟩
      rw [hnil]
      rfl
  · have hblank' : [13, 10, 13, 10] <:+: baseLine domain ++ kCrlf := not_not.mp hblank
    obtain ⟨lines', rest, hcut', hrest⟩ := cutBlank_of_blank hblank' after
    rw [hrest, Option.map_some, List.singleton_append] at hall
    rw [framed_of_cutBlank hall, framedByDomain_iff hstatus hcut', PlainDomain]
    exact (or_iff_right fun h => hblank h.1.1).symm

/-- Fields that do not disturb the framing. -/
def PlainFields (fields : List (List UInt8 × List UInt8)) : Prop :=
  ∀ f ∈ fields, (13 ∉ fieldLine f ∧ 58 ∉ f.1) ∧ f.1 ≠ ascii "Content-Length"

theorem lengthsIn_fieldLine {fs : List (List UInt8 × List UInt8)} (h : ∀ f ∈ fs, 58 ∉ f.1) :
    lengthsIn (fs.map fieldLine) = (fs.filter (·.1 = ascii "Content-Length")).map Prod.snd := by
  rw [lengthsIn, map_splitField_fieldLine h]

/-- The lines of a head that begins with the field `f`. -/
theorem cutBlank_fields (f : List UInt8 × List UInt8) (fs : List (List UInt8 × List UInt8))
    (h : ∀ f' ∈ f :: fs, 13 ∉ fieldLine f') (body : List UInt8) :
    let after := (f :: fs).flatMap (fieldLine · ++ kCrlf) ++ kCrlf ++ body
    after.head? ≠ some 13 ∧ cutBlank 13 10 after = some ((f :: fs).map fieldLine, body) := by
  intro after
  obtain ⟨hf, hfs⟩ := List.forall_mem_cons.mp h
  have hlines : ∀ l ∈ fs.map fieldLine, l ≠ [] ∧ 13 ∉ l := by
    intro l hl
    obtain ⟨f', hf', rfl⟩ := List.mem_map.mp hl
    exact ⟨by simp [fieldLine], hfs f' hf'⟩
  constructor
  · intro hhead
    have hfirst : after = fieldLine f ++ (kCrlf ++ (fs.flatMap (fieldLine · ++ kCrlf) ++ kCrlf ++
        body)) := by
      simp [after]
    rw [hfirst, List.head?_append_of_ne_nil _ (by simp [fieldLine])] at hhead
    exact hf (List.mem_of_mem_head? hhead)
  · have hcut := cutBlank_lines (b := 10) (by decide) hf hlines body
    have hshape : after = (fieldLine f :: fs.map fieldLine).flatMap (· ++ [13, 10]) ++
        13 :: 10 :: body := by
      simp [after, kCrlf_eq, List.flatMap_map]
    rw [hshape, hcut]
    rfl

/-- The message is framed when the length is right, and the domain is harmless. -/
theorem framed_messageText {status domain : List UInt8} {others : List (List UInt8 × List UInt8)}
    (hstatus : 13 ∉ status) (hothers : PlainFields others) (n : Nat) (body : List UInt8) :
    Framed (messageText status ((ascii "Content-Base", domain) :: others) n body) ↔
      PlainDomain domain ∧ n = body.length ∨
        FramedByDomain domain
          (messageText status ((ascii "Content-Base", domain) :: others) n body) := by
  have hlength : 13 ∉ fieldLine (ascii "Content-Length", decimal n) ∧
      58 ∉ ascii "Content-Length" :=
    ⟨cr_notMem_fieldLine (by decide) fun h => isDigit_ne_cr (isDigit_of_mem_decimal h) rfl,
      by decide⟩
  have hfields : ∀ f ∈ others ++ [(ascii "Content-Length", decimal n)],
      13 ∉ fieldLine f ∧ 58 ∉ f.1 := by
    intro f hf
    rcases List.mem_append.mp hf with hf | hf
    · exact (hothers f hf).1
    · rw [List.mem_singleton.mp hf]
      exact hlength
  have hnone : others.filter (·.1 = ascii "Content-Length") = [] :=
    List.filter_eq_nil_iff.mpr fun f hf => by simpa using (hothers f hf).2
  obtain ⟨f, fs, hcons⟩ : ∃ f fs, others ++ [(ascii "Content-Length", decimal n)] = f :: fs :=
    List.exists_cons_of_ne_nil (by simp)
  obtain ⟨hhead, hcut⟩ := cutBlank_fields f fs (fun f' hf' => (hfields f' (hcons ▸ hf')).1) body
  rw [← hcons] at hhead hcut
  have hlengths : lengthsIn ((others ++ [(ascii "Content-Length", decimal n)]).map fieldLine) =
      [decimal n] := by
    rw [lengthsIn_fieldLine fun f hf => (hfields f hf).2, List.filter_append, hnone]
    simp
  have htext : messageText status ((ascii "Content-Base", domain) :: others) n body =
      status ++ kCrlf ++ (baseLine domain ++ kCrlf ++
        ((others ++ [(ascii "Content-Length", decimal n)]).flatMap (fieldLine · ++ kCrlf) ++
          kCrlf ++ body)) := by
    simp [messageText, baseLine]
  rw [htext, framed_domain_iff hstatus hhead hcut hlengths, decimal_injective.eq_iff]

theorem cr_notMem_getMimeType (realPath : List UInt8) : 13 ∉ getMimeType realPath := by
  have hmap : ∀ p ∈ mimeTypeMap, 13 ∉ p.2 := by decide +kernel
  have hdefault : 13 ∉ ascii "application/octet-stream" := by decide
  unfold getMimeType
  split
  · cases hl : mimeTypeMap.lookup (46 :: realPath.rtakeWhile (· ≠ 46)) with
    | none => exact hdefault
    | some v =>
      obtain ⟨l₁, l₂, he, -⟩ := List.lookup_eq_some_iff.mp hl
      exact hmap (46 :: realPath.rtakeWhile (· ≠ 46), v) (by rw [he]; simp)
  · exact hdefault

theorem cr_notMem_connectionValue (close : Bool) : 13 ∉ AppendCall.connectionValue close := by
  cases close <;> decide

theorem plain_field (name : List UInt8) {value : List UInt8} (hname : 13 ∉ name ∧ 58 ∉ name)
    (hne : name ≠ ascii "Content-Length") (hvalue : 13 ∉ value) :
    (13 ∉ fieldLine (name, value) ∧ 58 ∉ name) ∧ name ≠ ascii "Content-Length" :=
  ⟨⟨cr_notMem_fieldLine hname.1 hvalue, hname.2⟩, hne⟩

theorem plain_connection (close : Bool) :
    (13 ∉ fieldLine (ascii "Connection", AppendCall.connectionValue close) ∧
        58 ∉ ascii "Connection") ∧
      ascii "Connection" ≠ ascii "Content-Length" :=
  plain_field _ (by decide) (by decide) (cr_notMem_connectionValue close)

theorem getFields_eq (close : Bool) (path : List UInt8) :
    ∃ others, getFields config close path = (ascii "Content-Base", config.domain) :: others ∧
      PlainFields others := by
  have htype {value : List UInt8} (hvalue : 13 ∉ value) :=
    plain_field (ascii "Content-Type") (by decide) (by decide) hvalue
  unfold getFields
  split
  · exact ⟨_, rfl, List.forall_mem_cons.mpr ⟨plain_connection close,
      List.forall_mem_singleton.mpr (htype (by decide))⟩⟩
  · exact ⟨_, rfl, List.forall_mem_cons.mpr ⟨htype (cr_notMem_getMimeType _),
      List.forall_mem_singleton.mpr (plain_connection close)⟩⟩

theorem appendFile_text (close : Bool) {path : List UInt8} (hpath : path ≠ []) {is : InFile}
    (his : InFile.Reads is) :
    ((appendFileHeaders alloc config (HttpResponse.make alloc close)
        (config.getRealPath path)).appendBodyStream alloc is).buffer.readable =
      messageText (statusText 200 (ascii "OK")) (getFields config close path) is.size.toNat
        (if (is.read is.size.toNat).2 then (is.read is.size.toNat).1 else []) := by
  have hnonneg := his.size_nonneg
  have hlt := his.size_lt
  have hlen : castSizeT is.size = is.size.toNat := by
    obtain ⟨n, hn⟩ := Int.eq_ofNat_of_zero_le hnonneg
    rw [hn]
    exact castSizeT_of_lt (by omega)
  have hwrote := (appendFileHeaders_wrote alloc config close hpath).appendBodyStream_read alloc
    hlen (his.read_le _) (his.good _)
  rw [snprintf_contentLength (by omega)] at hwrote
  refine hwrote.holds.readable_eq.trans ?_
  simp [messageText, okHead]

theorem length_optionsHtml : optionsHtml.length < 10 ^ 13 := by
  have hle : optionsHtml.length ≤ 100 + 100 + 100 + 100 := by
    unfold optionsHtml
    iterate 3 refine length_ascii_append_le ?_ ?_
    all_goals
      rw [length_ascii_ofList]
      decide
  exact hle.trans_lt (by decide)

theorem length_html405 : html405.length < 10 ^ 13 := by
  have hle : html405.length ≤ 100 + 100 + 100 + 100 := by
    unfold html405
    iterate 3 refine length_ascii_append_le ?_ ?_
    all_goals
      rw [length_ascii_ofList]
      decide
  exact hle.trans_lt (by decide)

section Framed

theorem framed_noBody (close : Bool) {code : Int} (code' : Int16) (hcode : code = code'.toInt)
    {message : List UInt8} (hmessage : 13 ∉ message) (on : Option Bool) :
    let answer := (appendNoBody alloc config ((HttpResponse.make alloc close).appendStatusLine alloc
      code message) on).buffer.readable
    Framed answer ↔ PlainDomain config.domain ∨ FramedByDomain config.domain answer := by
  intro answer
  have hanswer : answer = messageText (statusText code' message)
      (noBodyFields config (on.getD close)) 0 [] := by
    simp only [answer, hcode, appendNoBody_text]
  rw [hanswer, noBodyFields, framed_messageText (cr_notMem_statusText hmessage)
    (List.forall_mem_singleton.mpr (plain_connection (on.getD close)))]
  simp

theorem framed_page (close : Bool) {code : Int} (code' : Int16) (hcode : code = code'.toInt)
    {message html : List UInt8} (hmessage : 13 ∉ message) (hsmall : html.length < 10 ^ 13) :
    let answer := (appendPage alloc config (HttpResponse.make alloc close) code message
      html).buffer.readable
    Framed answer ↔ PlainDomain config.domain ∨ FramedByDomain config.domain answer := by
  intro answer
  obtain ⟨others, hfields, hothers⟩ := getFields_eq config close []
  have hanswer : answer = messageText (statusText code' message)
      ((ascii "Content-Base", config.domain) :: others) html.length html := by
    simp only [answer, hcode, appendPage_text alloc config close code' message hsmall, hfields]
  rw [hanswer, framed_messageText (cr_notMem_statusText hmessage) hothers]
  simp

/-- A file is framed when it is empty or can be read. -/
theorem framed_file_iff (close : Bool) {path : List UInt8} (hpath : path ≠ []) {is : InFile}
    (his : InFile.Reads is) :
    let answer := ((appendFileHeaders alloc config (HttpResponse.make alloc close)
        (config.getRealPath path)).appendBodyStream alloc is).buffer.readable
    Framed answer ↔
      PlainDomain config.domain ∧ ¬ (0 < is.size ∧ (is.read is.size.toNat).2 = false) ∨
        FramedByDomain config.domain answer := by
  intro answer
  have hnonneg := his.size_nonneg
  obtain ⟨others, hfields, hothers⟩ := getFields_eq config close path
  have hanswer := appendFile_text alloc config close hpath his
  rw [hfields] at hanswer
  have hlength : is.size.toNat = (if (is.read is.size.toNat).2 then (is.read is.size.toNat).1
      else []).length ↔ ¬ (0 < is.size ∧ (is.read is.size.toNat).2 = false) := by
    cases hread : (is.read is.size.toNat).2 with
    | true => simp [his.good _ hread]
    | false =>
      simp only [Bool.false_eq_true, ↓reduceIte, List.length_nil, and_true, not_lt]
      omega
  simp only [answer, hanswer]
  rw [framed_messageText (cr_notMem_statusText (by decide)) hothers, hlength]

end Framed

/-- **Response framing survives file errors, unless a read fails.** For every request other than
HEAD, and whatever the file operations report (sizes below 10^13), a client finds exactly one
`Content-Length` line, with the number of bytes after the empty line, if and only if the request is
not a GET of a file that can be opened, is not empty and cannot be read, and the domain brings no
line that disturbs it; or the domain brings both the length and the empty line. -/
theorem framed_iff {ω : Type} (files : FileSystem ω) (req : HttpRequest)
    (hreq : req.method ≠ .kHead) (close : Bool) (w : ω)
    (hfile : ∀ is w', files.openIn w (cStr (config.getRealPath req.path)) = (some is, w') →
      InFile.Reads is) :
    let answer := (defaultHttpCallback alloc config files req (HttpResponse.make alloc close)
      w).1.buffer.readable
    Framed answer ↔
      PlainDomain config.domain ∧
          ¬ (req.method = .kGet ∧ req.path ≠ [] ∧ ∃ is w',
            files.openIn w (cStr (config.getRealPath req.path)) = (some is, w') ∧
              0 < is.size ∧ (is.read is.size.toNat).2 = false) ∨
        FramedByDomain config.domain answer := by
  intro answer
  have hok : 13 ∉ ascii "OK" := by decide
  have hnotFound : 13 ∉ ascii "Not Found" := by decide
  have herror : 13 ∉ ascii "Internal Server Error" := by decide
  have h200 : HttpResponse.k200Ok = (200 : Int16).toInt := rfl
  have h404 : HttpResponse.k404NotFound = (404 : Int16).toInt := rfl
  have h405 : HttpResponse.k405MethodNotAllowd = (405 : Int16).toInt := rfl
  have h500 : HttpResponse.k500InternalServerError = (500 : Int16).toInt := rfl
  cases hmethod : req.method with
  | kGet =>
    by_cases hpath : req.path = []
    · rw [and_iff_left (by simp [hpath])]
      simp only [answer, callback_get_page alloc config files w hmethod hpath]
      exact framed_page alloc config close 200 h200 hok length_welcomeHtml
    · rcases hin : files.openIn w (cStr (config.getRealPath req.path)) with ⟨_ | is, w'⟩
      · rw [and_iff_left (by simp)]
        simp only [answer, callback_get_none alloc config files w req hmethod hpath _ hin,
          appendNotFound]
        exact framed_noBody alloc config close 404 h404 hnotFound (some true)
      · have hiff := framed_file_iff alloc config close hpath (hfile is w' hin)
        simp only [answer, callback_get_file alloc config files w req hmethod hpath _ hin]
        simpa [hpath] using hiff
  | kHead => exact absurd hmethod hreq
  | kPost =>
    rw [and_iff_left (by simp)]
    simp only [answer, defaultHttpCallback, hmethod]
    exact framed_noBody alloc config close 200 h200 hok none
  | kPut =>
    rw [and_iff_left (by simp)]
    simp only [answer, callback_put alloc config files w hmethod]
    split
    · exact framed_noBody alloc config close 200 h200 hok none
    · exact framed_noBody alloc config close 500 h500 herror none
  | kDelete =>
    rw [and_iff_left (by simp)]
    rcases hremove : files.remove w (cStr (config.getRealPath req.path)) with ⟨_ | errno, w'⟩
    · simp only [answer, defaultHttpCallback, hmethod, hremove]
      exact framed_noBody alloc config close 200 h200 hok none
    · by_cases hnoent : errno = ENOENT
      · simp only [answer, defaultHttpCallback, hmethod, hremove, hnoent, ↓reduceIte]
        exact framed_noBody alloc config close 404 h404 hnotFound none
      · simp only [answer, defaultHttpCallback, hmethod, hremove, hnoent, ↓reduceIte]
        exact framed_noBody alloc config close 500 h500 herror none
  | kOptions =>
    rw [and_iff_left (by simp)]
    simp only [answer, defaultHttpCallback, hmethod]
    exact framed_page alloc config close 200 h200 hok length_optionsHtml
  | kInvalid | kTrack =>
    rw [and_iff_left (by simp)]
    simp only [answer, defaultHttpCallback, hmethod]
    exact framed_page alloc config close 405 h405 (by decide) length_html405

theorem helloFile_reads : InFile.Reads helloFile where
  size_nonneg := by decide
  size_lt := by decide
  read_le n := List.length_take_le n _
  good n h := by
    have hle : n ≤ (ascii "hello").length := of_decide_eq_true h
    exact List.length_take_of_le hle

theorem framed_hello :
    13 ∉ HttpServerConfig.defaults.domain ∧ InFile.Reads helloFile ∧
      Framed (helloAnswer .kGet "a.txt") := by
  have hdomain : 13 ∉ HttpServerConfig.defaults.domain := by decide
  have hread : (helloFile.read helloFile.size.toNat).2 = true := by decide
  have hiff := framed_iff Buffer.zeroAlloc HttpServerConfig.defaults (diskFiles 100)
    { method := .kGet, path := ascii "a.txt" } (by decide) false helloDisk (by
      intro is w' hopen
      rw [helloDisk_openIn] at hopen
      cases hopen
      exact helloFile_reads)
  refine ⟨hdomain, helloFile_reads, hiff.mpr (.inl ⟨plainDomain_of_notMem hdomain, ?_⟩)⟩
  rintro ⟨-, -, is, w', hopen, -, hfails⟩
  rw [helloDisk_openIn] at hopen
  cases hopen
  rw [hread] at hfails
  cases hfails

/-- A file of five bytes on a disk that gives a read error. -/
def badFile : InFile where
  size := 5
  read _ := ([], false)

def badFiles : FileSystem Unit where
  openIn w _ := (some badFile, w)
  openOut w _ := (false, w)
  write w _ _ := w
  remove w _ := (some ENOENT, w)

theorem badFile_reads : InFile.Reads badFile where
  size_nonneg := by decide
  size_lt := by decide
  read_le n := Nat.zero_le n
  good n h := by cases h

/-- Five bytes are announced and none follows. -/
theorem badFile_not_framed :
    let answer := (defaultHttpCallback Buffer.zeroAlloc HttpServerConfig.defaults badFiles
      { method := .kGet, path := ascii "a.txt" } (HttpResponse.make Buffer.zeroAlloc false)
      ()).1.buffer.readable
    answer = messageText (statusText 200 (ascii "OK"))
        (getFields HttpServerConfig.defaults false (ascii "a.txt")) 5 [] ∧
      ¬ Framed answer := by
  intro answer
  have hpath : ascii "a.txt" ≠ [] := by decide
  have hdomain : 13 ∉ HttpServerConfig.defaults.domain := by decide
  have htext : answer = messageText (statusText 200 (ascii "OK"))
      (getFields HttpServerConfig.defaults false (ascii "a.txt")) 5 [] := by
    have hin : badFiles.openIn () (cStr (HttpServerConfig.defaults.getRealPath (ascii "a.txt"))) =
        (some badFile, ()) := rfl
    simp only [answer]
    rw [callback_get_file _ _ _ _ { method := .kGet, path := ascii "a.txt" } rfl hpath _ hin,
      appendFile_text _ _ _ hpath badFile_reads]
    rfl
  refine ⟨htext, ?_⟩
  obtain ⟨others, hfields, hothers⟩ :=
    getFields_eq HttpServerConfig.defaults false (ascii "a.txt")
  have hplain := plainDomain_of_notMem hdomain
  rw [htext, hfields, framed_messageText (cr_notMem_statusText (by decide)) hothers,
    or_iff_left (not_framedByDomain hplain.1 _)]
  exact fun h => absurd h.2 (by decide)

end HttpServer

end MyTinyHttpd
