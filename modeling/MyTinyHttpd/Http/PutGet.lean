import MyTinyHttpd.Http.ResponseFormat
import MyTinyHttpd.Http.Server

/-!
# What PUT has acknowledged, GET returns

`DefaultHttpCallback` answers a PUT with 200 as soon as the file is open. It does not look at the
stream after `<<`, and the stream is flushed and closed when the answer is already written.

* `KeepsWritten files kept`: what the handlers need to know about a file system. Opening for writing
  truncates, a write keeps a first part of the bytes (`kept`), and the file then reads back.
* `okMessage`: a 200 response with its body; `okMessage_injective`: it tells the body.
* `put_get_iff`: the GET that follows returns the body exactly when all of it was kept, and the
  number of its bytes fits into `buf` of `AppendContentLength`.
-/

namespace MyTinyHttpd

open Verif

/-- `kept w name bytes` are the bytes that `write` gets into a file that has just been opened. -/
structure KeepsWritten {ω : Type} (files : FileSystem ω)
    (kept : ω → List UInt8 → List UInt8 → List UInt8) : Prop where
  isPrefix : ∀ w name bytes, kept w name bytes <+: bytes
  /-- Sizes of files are `long`s. -/
  length_lt : ∀ w name bytes, (kept w name bytes).length < 2 ^ 63
  reads : ∀ w name bytes, (files.openOut w name).1 = true →
    let w' := (files.openOut w name).2
    ∃ is w'', files.openIn (files.write w' name bytes) name = (some is, w'') ∧
      is.size = (kept w' name bytes).length ∧
      is.read (kept w' name bytes).length = (kept w' name bytes, true)

/-! ## Responses with a body -/

/-- The lines of a 200 response. -/
def okHead (fields : List (List UInt8 × List UInt8)) : List UInt8 :=
  statusText 200 (ascii "OK") ++ kCrlf ++ fields.flatMap (fieldLine · ++ kCrlf)

def okMessage (fields : List (List UInt8 × List UInt8)) (body : List UInt8) : List UInt8 :=
  okHead (fields ++ [lengthField body]) ++ kCrlf ++ body

theorem okHead_append (fs gs : List (List UInt8 × List UInt8)) :
    okHead (fs ++ gs) = okHead fs ++ gs.flatMap (fieldLine · ++ kCrlf) := by
  simp [okHead]

/-- A message with one more field, a length of `n`. -/
def messageText (status : List UInt8) (fields : List (List UInt8 × List UInt8)) (n : Nat)
    (body : List UInt8) : List UInt8 :=
  status ++ kCrlf ++
    (fields ++ [(ascii "Content-Length", decimal n)]).flatMap (fieldLine · ++ kCrlf) ++ kCrlf ++
    body

theorem length_decimal_mono {m n : Nat} (h : m ≤ n) :
    (decimal m).length ≤ (decimal n).length := by
  by_cases hm : m = 0
  · subst hm
    exact List.length_pos_of_ne_nil (decimal_ne_nil n)
  · have hn : n ≠ 0 := by omega
    simpa [decimal, hm, hn] using Nat.le_length_digits_le 10 m n h

theorem length_decimal_ge {n : Nat} (h : 10 ^ 13 ≤ n) : 14 ≤ (decimal n).length := by
  have hten : (decimal (10 ^ 13)).length = 14 := by decide +kernel
  rw [← hten]
  exact length_decimal_mono h

theorem length_okMessage (fields : List (List UInt8 × List UInt8)) (body : List UInt8) :
    (okMessage fields body).length =
      (okHead fields).length + 20 + (decimal body.length).length + body.length := by
  have hcrlf : kCrlf.length = 2 := by decide
  have hname : (ascii "Content-Length").length = 14 := by decide
  rw [okMessage, okHead_append]
  simp only [List.flatMap_singleton, lengthField, fieldLine, List.length_append, List.length_cons,
    hcrlf, hname]
  omega

/-- The bytes of a response tell its body. -/
theorem okMessage_injective (fields : List (List UInt8 × List UInt8)) :
    Function.Injective (okMessage fields) := by
  intro a b h
  have hlength : a.length = b.length := by
    have hab := congrArg List.length h
    rw [length_okMessage, length_okMessage] at hab
    rcases Nat.lt_trichotomy a.length b.length with hlt | heq | hlt
    · have hmono := length_decimal_mono hlt.le
      omega
    · exact heq
    · have hmono := length_decimal_mono hlt.le
      omega
  simp only [okMessage, lengthField, hlength] at h
  exact List.append_cancel_left h

namespace HttpResponse.Wrote

variable {r : HttpResponse} {state : AppendState} {close : Bool} {text : List UInt8}

/-- The lines that `AppendBody(is)` writes before it reads. -/
theorem appendBodyStream_head (h : r.Wrote state close text) (alloc : Allocator) (len : Nat) :
    ((r.appendContentLength alloc len).appendHeadersEnd alloc true).Wrote .kAppendHeadersEnd close
      (text ++ snprintf 32 (ascii "Content-Length: " ++ decimalInt (castLong len) ++ kCrlf) ++
        kCrlf) :=
  (((h.setState .kAppendHeader).append alloc _).setState .kAppendHeadersEnd).append alloc kCrlf

/-- `AppendBody(is)`: what the file gives, or nothing when the read fails. -/
theorem appendBodyStream_read (h : r.Wrote state close text) (alloc : Allocator) {is : InFile}
    {len : Nat} (hlen : castSizeT is.size = len) (hle : (is.read len).1.length ≤ len)
    (hgood : (is.read len).2 = true → (is.read len).1.length = len) :
    (r.appendBodyStream alloc is).Wrote .kAppendBody close
      (text ++ snprintf 32 (ascii "Content-Length: " ++ decimalInt (castLong len) ++ kCrlf) ++
        kCrlf ++ if (is.read len).2 then (is.read len).1 else []) := by
  have hhead := h.appendBodyStream_head alloc len
  have hinv := Buffer.appendStream_inv alloc hhead.holds.inv len (is.read len).1 (is.read len).2
  have hreadable := Buffer.appendStream_readable alloc hhead.holds.inv hle hgood
  rw [hhead.holds.readable_eq] at hreadable
  simp only [HttpResponse.appendBodyStream, hlen]
  exact ⟨rfl, hhead.close_eq, hinv, hreadable⟩

/-- `AppendBody(is)`, when the reads succeed. -/
theorem appendBodyStream (h : r.Wrote state close text) (alloc : Allocator) {is : InFile}
    {stored : List UInt8} (hlt : stored.length < 2 ^ 63) (hsize : is.size = stored.length)
    (hread : is.read stored.length = (stored, true)) :
    (r.appendBodyStream alloc is).Wrote .kAppendBody close
      (text ++
        snprintf 32 (ascii "Content-Length: " ++ decimalInt (castLong stored.length) ++ kCrlf) ++
        kCrlf ++ stored) := by
  have hlen : castSizeT is.size = stored.length := by
    rw [hsize, castSizeT_of_lt (by omega)]
  have hwrote := h.appendBodyStream_read alloc hlen (by rw [hread]) (by rw [hread]; simp)
  rw [hread] at hwrote
  exact hwrote

end HttpResponse.Wrote

namespace HttpServer

variable (alloc : Allocator) (config : HttpServerConfig)

/-- The header lines of the answer to a GET, before `Content-Length`. -/
def getFields (close : Bool) (path : List UInt8) : List (List UInt8 × List UInt8) :=
  if path = [] then
    [(ascii "Content-Base", config.domain),
      (ascii "Connection", AppendCall.connectionValue close),
      (ascii "Content-Type", ascii "text/html; charset=utf-8")]
  else
    [(ascii "Content-Base", config.domain),
      (ascii "Content-Type", getMimeType (config.getRealPath path)),
      (ascii "Connection", AppendCall.connectionValue close)]

/-- The response starts with the status line of success. -/
def SaysOk (r : HttpResponse) : Prop :=
  statusText 200 (ascii "OK") ++ kCrlf <+: r.buffer.readable

instance (r : HttpResponse) : Decidable (SaysOk r) :=
  inferInstanceAs (Decidable (List.IsPrefix _ _))

/-- The fields of a response without a body. -/
def noBodyFields (close : Bool) : List (List UInt8 × List UInt8) :=
  [(ascii "Content-Base", config.domain), (ascii "Connection", AppendCall.connectionValue close)]

theorem appendNoBody_text (close : Bool) (code : Int16) (message : List UInt8)
    (on : Option Bool) :
    (appendNoBody alloc config ((HttpResponse.make alloc close).appendStatusLine alloc code.toInt
        message) on).buffer.readable =
      messageText (statusText code message) (noBodyFields config (on.getD close)) 0 [] := by
  have hstatus := (HttpResponse.Wrote.make alloc close).appendStatusLine alloc code message
  have hlines := (hstatus.appendHeader alloc (ascii "Content-Base") config.domain
    ).appendCloseConnection alloc on
  obtain ⟨_, -, hwrote⟩ := hlines.completes alloc (c := .headersEnd false) rfl trivial
  refine hwrote.holds.readable_eq.trans ?_
  simp [messageText, noBodyFields, lengthField, AppendCall.bodyBytes]

theorem appendPage_text (close : Bool) (code : Int16) (message : List UInt8) {html : List UInt8}
    (hsmall : html.length < 10 ^ 13) :
    (appendPage alloc config (HttpResponse.make alloc close) code.toInt message
        html).buffer.readable =
      messageText (statusText code message) (getFields config close []) html.length html := by
  have hstatus := (HttpResponse.Wrote.make alloc close).appendStatusLine alloc code message
  have hlines := ((hstatus.appendHeader alloc (ascii "Content-Base") config.domain
    ).appendCloseConnection alloc none).appendHeader alloc (ascii "Content-Type")
    (ascii "text/html; charset=utf-8")
  obtain ⟨_, -, hwrote⟩ := hlines.completes alloc (c := .body html) rfl hsmall
  refine hwrote.holds.readable_eq.trans ?_
  simp [messageText, getFields, lengthField, AppendCall.bodyBytes]

/-- A response without a body starts with its status line. -/
theorem appendNoBody_readable (close : Bool) (code : Int16) (message : List UInt8) :
    statusText code message ++ kCrlf <+:
      (appendNoBody alloc config ((HttpResponse.make alloc close).appendStatusLine alloc code.toInt
        message)).buffer.readable := by
  rw [appendNoBody_text, messageText, List.append_assoc, List.append_assoc]
  exact List.prefix_append _ _

/-- A page of the server's own. -/
theorem appendPage_readable (close : Bool) {html : List UInt8} (hsmall : html.length < 10 ^ 13) :
    (appendPage alloc config (HttpResponse.make alloc close) HttpResponse.k200Ok (ascii "OK")
      html).buffer.readable = okMessage (getFields config close []) html :=
  appendPage_text alloc config close 200 (ascii "OK") hsmall

/-- The lines of a response that describes a file, up to the length. -/
theorem appendFileHeaders_wrote (close : Bool) {path : List UInt8} (hpath : path ≠ []) :
    (appendFileHeaders alloc config (HttpResponse.make alloc close)
      (config.getRealPath path)).Wrote .kAppendHeader close
        (okHead (getFields config close path)) := by
  have hstatus := (HttpResponse.Wrote.make alloc close).appendStatusLine alloc 200 (ascii "OK")
  have hlines := ((hstatus.appendHeader alloc (ascii "Content-Base") config.domain).appendHeader
    alloc (ascii "Content-Type") (getMimeType (config.getRealPath path))).appendCloseConnection
    alloc none
  exact hlines.of_eq (by simp [okHead, getFields, hpath])

/-- A GET for a file that reads back as `stored`: the lines, the cut `Content-Length` line, the
empty line and the bytes. -/
theorem appendFile_readable (close : Bool) {path : List UInt8} (hpath : path ≠ []) {is : InFile}
    {stored : List UInt8} (hlt : stored.length < 2 ^ 63) (hsize : is.size = stored.length)
    (hread : is.read stored.length = (stored, true)) :
    ((appendFileHeaders alloc config (HttpResponse.make alloc close)
        (config.getRealPath path)).appendBodyStream alloc is).buffer.readable =
      okHead (getFields config close path) ++
        snprintf 32 (ascii "Content-Length: " ++ decimalInt (castLong stored.length) ++ kCrlf) ++
        kCrlf ++ stored := by
  have hwrote :=
    (appendFileHeaders_wrote alloc config close hpath).appendBodyStream alloc hlt hsize hread
  exact hwrote.holds.readable_eq

/-- The answer has the body `body`, of which `stored` is the first part, only if all of it was
stored and its length is not cut. -/
theorem fileText_eq_iff (fields : List (List UInt8 × List UInt8)) {stored body : List UInt8}
    (hfront : stored <+: body) :
    okHead fields ++
        snprintf 32 (ascii "Content-Length: " ++ decimalInt (castLong stored.length) ++ kCrlf) ++
        kCrlf ++ stored = okMessage fields body ↔
      stored = body ∧ body.length < 10 ^ 13 := by
  by_cases hsmall : stored.length < 10 ^ 13
  · have htext : okHead fields ++
        snprintf 32 (ascii "Content-Length: " ++ decimalInt (castLong stored.length) ++ kCrlf) ++
        kCrlf ++ stored = okMessage fields stored := by
      rw [snprintf_contentLength hsmall, okMessage, okHead_append]
      simp [lengthField]
    rw [htext, (okMessage_injective fields).eq_iff]
    constructor
    · rintro rfl
      exact ⟨rfl, hsmall⟩
    · exact And.left
  · -- `snprintf` leaves 31 bytes of at least 32, so the answer is too short for any such body
    have hbytes : (snprintf 32
        (ascii "Content-Length: " ++ decimalInt (castLong stored.length) ++ kCrlf)).length ≤ 31 :=
      List.length_take_le _ _
    have hdigits : 14 ≤ (decimal body.length).length :=
      length_decimal_ge ((not_lt.mp hsmall).trans hfront.length_le)
    have hcrlf : kCrlf.length = 2 := by decide
    constructor
    · intro h
      have hlength := congrArg List.length h
      rw [length_okMessage] at hlength
      simp only [List.length_append, hcrlf] at hlength
      have hle := hfront.length_le
      omega
    · rintro ⟨rfl, hbody⟩
      exact absurd hbody hsmall

section Branches

variable {ω : Type} (files : FileSystem ω) (w : ω) {req : HttpRequest}

open HttpResponse in
theorem callback_put (hput : req.method = .kPut) (resp : HttpResponse) :
    defaultHttpCallback alloc config files req resp w =
      if (files.openOut w (cStr (config.getRealPath req.path))).1 then
        (appendNoBody alloc config (resp.appendStatusLine alloc k200Ok (ascii "OK")),
          files.write (files.openOut w (cStr (config.getRealPath req.path))).2
            (cStr (config.getRealPath req.path)) req.body)
      else
        (appendNoBody alloc config (resp.appendStatusLine alloc k500InternalServerError
          (ascii "Internal Server Error")),
          (files.openOut w (cStr (config.getRealPath req.path))).2) := by
  simp only [defaultHttpCallback, hput]
  rcases files.openOut w (cStr (config.getRealPath req.path)) with ⟨opened, w'⟩
  cases opened <;> rfl

theorem callback_get_page (hget : req.method = .kGet) (hpath : req.path = [])
    (resp : HttpResponse) :
    (defaultHttpCallback alloc config files req resp w).1 =
      appendPage alloc config resp HttpResponse.k200Ok (ascii "OK") welcomeHtml := by
  simp only [defaultHttpCallback, hget, hpath]
  rfl

theorem callback_get_file (req : HttpRequest) (hget : req.method = .kGet) (hpath : req.path ≠ [])
    (resp : HttpResponse) {is : InFile} {w' : ω}
    (hin : files.openIn w (cStr (config.getRealPath req.path)) = (some is, w')) :
    (defaultHttpCallback alloc config files req resp w).1 =
      (appendFileHeaders alloc config resp (config.getRealPath req.path)).appendBodyStream
        alloc is := by
  simp only [defaultHttpCallback, hget, hin]
  rw [if_neg (by simpa using hpath)]

end Branches

theorem length_welcomeHtml : welcomeHtml.length < 10 ^ 13 := by
  have hle : welcomeHtml.length ≤ 100 + 100 + 100 + 100 + 100 + 100 + 100 + 100 + 100 := by
    unfold welcomeHtml
    iterate 8 refine length_ascii_append_le ?_ ?_
    all_goals
      rw [length_ascii_ofList]
      decide
  exact hle.trans_lt (by decide)

/-- **What PUT has acknowledged, GET returns.** For every file system that keeps what is written,
every document root, path and body, and whatever part of the body the file system gets into the
file: when the PUT is answered with 200, the GET of the same path that is handled next is answered
with 200 and exactly that body, if and only if, provided that the file can be opened for writing,
all bytes of the body are kept and their number has at most 13 digits. (The empty path is not a
file for a GET: it is answered with the server's own page.) -/
theorem put_get_iff {ω : Type} {files : FileSystem ω}
    {kept : ω → List UInt8 → List UInt8 → List UInt8} (hkeeps : KeepsWritten files kept)
    (put get : HttpRequest) (hput : put.method = .kPut) (hget : get.method = .kGet)
    (hpath : get.path = put.path) (putClose getClose : Bool) (w : ω) :
    let name := cStr (config.getRealPath put.path)
    let stored := kept (files.openOut w name).2 name put.body
    let acknowledged :=
      defaultHttpCallback alloc config files put (HttpResponse.make alloc putClose) w
    let answer := defaultHttpCallback alloc config files get (HttpResponse.make alloc getClose)
      acknowledged.2
    (SaysOk acknowledged.1 →
        answer.1.buffer.readable = okMessage (getFields config getClose put.path) put.body) ↔
      ((files.openOut w name).1 = true →
        (put.path = [] ∧ put.body = welcomeHtml) ∨
          (put.path ≠ [] ∧ stored = put.body ∧ put.body.length < 10 ^ 13)) := by
  intro name stored acknowledged answer
  have hput := callback_put alloc config files w hput (HttpResponse.make alloc putClose)
  cases hopen : (files.openOut w name).1 with
  | false =>
    rw [if_neg (by simpa using hopen)] at hput
    have hnot : ¬ SaysOk acknowledged.1 := by
      intro hok
      have h500 := appendNoBody_readable alloc config putClose 500 (ascii "Internal Server Error")
      rw [SaysOk, show acknowledged = _ from hput] at hok
      have hle := List.prefix_of_prefix_length_le hok h500 (by decide)
      revert hle
      decide
    simp [hnot]
  | true =>
    rw [if_pos hopen] at hput
    have hok : SaysOk acknowledged.1 := by
      rw [show acknowledged = _ from hput]
      exact appendNoBody_readable alloc config putClose 200 (ascii "OK")
    have hworld : acknowledged.2 = files.write (files.openOut w name).2 name put.body :=
      congrArg Prod.snd hput
    simp only [hok, forall_const]
    by_cases hp : put.path = []
    · have hpage := callback_get_page alloc config files acknowledged.2 hget
        (hpath.trans hp) (HttpResponse.make alloc getClose)
      rw [show answer.1 = _ from hpage,
        appendPage_readable alloc config getClose length_welcomeHtml, hp,
        (okMessage_injective _).eq_iff]
      simp [eq_comm]
    · obtain ⟨is, w', hin, hsize, hread⟩ := hkeeps.reads w name put.body hopen
      rw [← hworld, show name = cStr (config.getRealPath get.path) by rw [hpath]] at hin
      have hfile := callback_get_file alloc config files acknowledged.2 get hget
        (show get.path ≠ [] from hpath ▸ hp) (HttpResponse.make alloc getClose) hin
      have hlt := hkeeps.length_lt (files.openOut w name).2 name put.body
      rw [show answer.1 = _ from hfile, hpath,
        appendFile_readable alloc config getClose hp hlt hsize hread,
        fileText_eq_iff _ (hkeeps.isPrefix _ _ _)]
      simp [hp, stored]

/-- A disk on which a file can have `room` bytes: what is written beyond them is lost. -/
def diskFiles (room : Nat) : FileSystem (List UInt8 → Option (List UInt8)) where
  openIn w name :=
    ((w name).map fun bytes =>
      { size := bytes.length, read := fun n => (bytes.take n, decide (n ≤ bytes.length)) }, w)
  openOut w name := (true, Function.update w name (some []))
  write w name bytes := Function.update w name (some (bytes.take room))
  remove w name :=
    if (w name).isSome then (none, Function.update w name none) else (some ENOENT, w)

theorem diskFiles_keeps {room : Nat} (h : room < 2 ^ 63) :
    KeepsWritten (diskFiles room) fun _ _ bytes => bytes.take room where
  isPrefix _ _ bytes := List.take_prefix room bytes
  length_lt _ _ bytes := (List.length_take_le room bytes).trans_lt h
  reads w name bytes _ := by
    refine ⟨⟨(bytes.take room).length, fun n => ((bytes.take room).take n,
      decide (n ≤ (bytes.take room).length))⟩, (diskFiles room).write
      ((diskFiles room).openOut w name).2 name bytes, ?_, rfl, ?_⟩
    · simp [diskFiles]
    · simp

def putHello : HttpRequest where
  method := .kPut
  path := ascii "a.txt"
  body := ascii "hello"

def getHello : HttpRequest where
  method := .kGet
  path := ascii "a.txt"

/-- The answers to the PUT and to the GET that follows, on an empty disk. -/
def helloAnswers (room : Nat) : HttpResponse × HttpResponse :=
  let config := HttpServerConfig.defaults
  let alloc := Buffer.zeroAlloc
  let put := defaultHttpCallback alloc config (diskFiles room) putHello
    (HttpResponse.make alloc false) fun _ => none
  let get := defaultHttpCallback alloc config (diskFiles room) getHello
    (HttpResponse.make alloc false) put.2
  (put.1, get.1)

theorem helloAnswers_room :
    KeepsWritten (diskFiles 100) (fun _ _ bytes => bytes.take 100) ∧
      (SaysOk (helloAnswers 100).1 → (helloAnswers 100).2.buffer.readable =
        okMessage (getFields HttpServerConfig.defaults false (ascii "a.txt")) (ascii "hello")) :=
  ⟨diskFiles_keeps (by decide),
    (put_get_iff Buffer.zeroAlloc HttpServerConfig.defaults (diskFiles_keeps (by decide)) putHello
      getHello rfl rfl rfl false false fun _ => none).mpr
      fun _ => .inr ⟨by decide, by decide, by decide⟩⟩

/-- On a disk that has room for three bytes the PUT is answered with 200, and the GET returns
these. -/
theorem helloAnswers_full :
    KeepsWritten (diskFiles 3) (fun _ _ bytes => bytes.take 3) ∧ SaysOk (helloAnswers 3).1 ∧
      (helloAnswers 3).2.buffer.readable =
        okMessage (getFields HttpServerConfig.defaults false (ascii "a.txt")) (ascii "hel") ∧
      (helloAnswers 3).2.buffer.readable ≠
        okMessage (getFields HttpServerConfig.defaults false (ascii "a.txt")) (ascii "hello") := by
  refine ⟨diskFiles_keeps (by decide), ?_⟩
  decide +kernel

end HttpServer

end MyTinyHttpd
