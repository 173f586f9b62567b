import MyTinyHttpd.Lib.Loop
import MyTinyHttpd.Net.Buffer
import MyTinyHttpd.Http.Request

/-!
# `http/http_context.h` and `http/http_context.cc`

The request parser. `ParseRequest` is a `while` loop over the state machine; the loop may end
with an exception (`std::string::assign` throws on an inverted range), and it does not end at
all when it is entered in `kGotAll`, a state without a branch.

`assert(method_ == kInvalid)` of `SetMethod` is compiled out; what each call of `SetMethod` found
in `method_` is recorded (`found`), so that the assertion can be stated.
-/

namespace MyTinyHttpd

open Verif

inductive ParseState where
  | kExpectRequestLine
  | kExpectHeaders
  | kExpectBody
  | kGotAll
  deriving DecidableEq

structure HttpContext where
  state : ParseState := .kExpectRequestLine
  request : HttpRequest := {}
  deriving DecidableEq

/-- What `ProcessRequestLine` did: the methods that `SetMethod` found, and the returned flag with
the request after it, or `none` when it threw. -/
structure LineResult where
  found : List Method
  returned : Option (Bool × HttpRequest)
  deriving DecidableEq

/-- The version part of the request line, from `start` on. -/
def processVersion (r : HttpRequest) (line : List UInt8) (start : Nat) : Bool × HttpRequest :=
  let text := line.drop start
  if text.length = 8 ∧ text.take 7 = ascii "HTTP/1." then
    if text.getLast? = some 49 then (true, r.setVersion .kHttp11)
    else if text.getLast? = some 48 then (true, r.setVersion .kHttp10)
    else (false, r)
  else (false, r)

/-- `ProcessRequestLine(begin, end)`, where `line` is the range. -/
def processRequestLine (r : HttpRequest) (line : List UInt8) : LineResult :=
  let space := line.idxOf 32
  if space ≠ line.length then
    let found := [r.method]
    let r := r.setMethod line
    let start := space + 1
    let space := start + (line.drop start).idxOf 32
    if space ≠ line.length then
      let question := start + ((line.drop start).take (space - start)).idxOf 63
      let target :=
        if question ≠ space then
          (r.setPath line (start + 1) question).bind fun r => r.setQuery line question space
        else r.setPath line (start + 1) space
      ⟨found, target.map fun r => processVersion r line (space + 1)⟩
    else ⟨found, some (false, r)⟩
  else ⟨[], some (false, r)⟩

namespace HttpContext

def isGotAll (c : HttpContext) : Bool := c.state = .kGotAll

/-- `Reset()`: the request is swapped with a new one. -/
def reset (c : HttpContext) : HttpContext where
  state := .kExpectRequestLine
  request := (c.request.swap {}).1

/-- The variables of the loop in `ParseRequest`. -/
structure Loop where
  context : HttpContext
  buf : Buffer
  ok : Bool
  hasMore : Bool
  found : List Method

/-- The branch of `kExpectRequestLine`. -/
def requestLineBody (receiveTime : Timestamp) (s : Loop) : Except (List Method) Loop :=
  match s.buf.findCrlf with
  | some crlf =>
    let res := processRequestLine s.context.request (s.buf.range s.buf.peek crlf)
    let found := s.found ++ res.found
    match res.returned with
    | none => .error found
    | some (true, r) =>
      .ok { context := { state := .kExpectHeaders, request := r.setReceiveTime receiveTime }
            buf := s.buf.retrieveUntil (crlf + 2), ok := true, hasMore := true, found }
    | some (false, r) =>
      .ok { s with context := { s.context with request := r }, ok := false, hasMore := false,
                   found }
  | none => .ok { s with hasMore := false }

/-- The branch of `kExpectHeaders`. -/
def headersBody (s : Loop) : Loop :=
  match s.buf.findCrlf with
  | some crlf =>
    let line := s.buf.range s.buf.peek crlf
    let colon := line.idxOf 58
    let context :=
      if colon ≠ line.length then
        { s.context with request := s.context.request.addHeader line colon }
      else { s.context with state := .kExpectBody }
    { s with context, buf := s.buf.retrieveUntil (crlf + 2) }
  | none => { s with hasMore := false }

/-- The branch of `kExpectBody`. -/
def bodyBody (s : Loop) : Except (List Method) Loop :=
  if s.context.request.method ≠ .kPost ∧ s.context.request.method ≠ .kPut then
    .ok { s with context := { s.context with state := .kGotAll }, hasMore := false }
  else
    let lenSlice := s.context.request.getHeader (ascii "Content-Length")
    if lenSlice.isEmpty then .ok { s with ok := false, hasMore := false }
    else
      let len := strtol lenSlice
      if castLong s.buf.readableBytes ≠ len then .ok { s with ok := false, hasMore := false }
      else
        let last := s.buf.peek + len
        match s.context.request.setBody s.buf.buffer.storage s.buf.peek last with
        | none => .error s.found
        | some r =>
          .ok { s with context := { state := .kGotAll, request := r }
                       buf := s.buf.retrieveUntil last.toNat, hasMore := false }

/-- One iteration of the loop. No branch is taken in `kGotAll`. -/
def loopBody (receiveTime : Timestamp) (s : Loop) : Except (List Method) Loop :=
  match s.context.state with
  | .kExpectRequestLine => requestLineBody receiveTime s
  | .kExpectHeaders => .ok (headersBody s)
  | .kExpectBody => bodyBody s
  | .kGotAll => .ok s

/-- What a call of `ParseRequest` does: it returns a flag, an exception leaves it, or it does not
end. -/
inductive ParseOutcome where
  | returned (ok : Bool) (context : HttpContext) (buf : Buffer) (found : List Method)
  | threw (found : List Method)
  | diverged

/-- `ParseRequest`. The fuel is enough for every call that ends (`loop_agrees`). -/
def parseRequest (receiveTime : Timestamp) (c : HttpContext) (buf : Buffer) : ParseOutcome :=
  let start : Loop := { context := c, buf, ok := true, hasMore := true, found := [] }
  let fuel := buf.readableBytes + 2
  match whileLoop (fun s : Loop => s.hasMore) (loopBody receiveTime) fuel start with
  | none => .diverged
  | some (.error found) => .threw found
  | some (.ok s) => .returned s.ok s.context s.buf s.found

end HttpContext

end MyTinyHttpd
