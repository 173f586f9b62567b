import Mathlib.Data.Finmap
import MyTinyHttpd.Utils.CStd
import MyTinyHttpd.Utils.Timestamp

/-!
# `http/http_request.h`

`ToDebugString` only serves the log and is left out. A range of pointers into the buffer is the
list of its bytes.
-/

namespace MyTinyHttpd

/-- `std::map<std::string, std::string>`. -/
abbrev HeaderMap := Finmap fun _ : List UInt8 => List UInt8

inductive Method where
  | kInvalid
  | kGet
  | kPost
  | kHead
  | kPut
  | kDelete
  | kTrack
  | kOptions
  deriving DecidableEq

inductive Version where
  | kUnknown
  | kHttp10
  | kHttp11
  deriving DecidableEq

structure HttpRequest where
  method : Method := .kInvalid
  version : Version := .kUnknown
  path : List UInt8 := []
  query : List UInt8 := []
  receiveTime : Timestamp := 0
  headers : HeaderMap := ∅
  body : List UInt8 := []
  deriving DecidableEq

namespace HttpRequest

/-- `memcmp(start, name, n) == 0`, where `mem` are the bytes from `start` on. -/
def startsWith (mem : List UInt8) (name : String) : Bool :=
  mem.take (ascii name).length = ascii name

/-- The method that the bytes from `start` on name. The range of the method ends at a space,
which is in none of the names, so what follows the space never decides a comparison. -/
def methodOf (mem : List UInt8) : Method :=
  if startsWith mem "GET" then .kGet
  else if startsWith mem "POST" then .kPost
  else if startsWith mem "HEAD" then .kHead
  else if startsWith mem "PUT" then .kPut
  else if startsWith mem "DELETE" then .kDelete
  else if startsWith mem "OPTIONS" then .kOptions
  else .kInvalid

/-- `ToMethodString()`: the entry of `methods_map`. -/
def toMethodString : Method → String
  | .kInvalid => "UNKNOWN"
  | .kGet => "GET"
  | .kPost => "POST"
  | .kHead => "HEAD"
  | .kPut => "PUT"
  | .kDelete => "DELETE"
  | .kTrack => "TRACK"
  | .kOptions => "OPTIONS"

/-- `SetMethod(start, end)`, with the bytes from `start` on. -/
def setMethod (r : HttpRequest) (mem : List UInt8) : HttpRequest :=
  { r with method := methodOf mem }

def setVersion (r : HttpRequest) (v : Version) : HttpRequest := { r with version := v }

def setReceiveTime (r : HttpRequest) (t : Timestamp) : HttpRequest := { r with receiveTime := t }

/-- `SetPath(start, end)` on a range of `mem`; `none` when `assign` throws. -/
def setPath (r : HttpRequest) (mem : List UInt8) (first : Nat) (last : Int) :
    Option HttpRequest :=
  (assign mem first last).map fun path => { r with path }

def setQuery (r : HttpRequest) (mem : List UInt8) (first : Nat) (last : Int) :
    Option HttpRequest :=
  (assign mem first last).map fun query => { r with query }

def setBody (r : HttpRequest) (mem : List UInt8) (first : Nat) (last : Int) :
    Option HttpRequest :=
  (assign mem first last).map fun body => { r with body }

/-- The value of a header line: the bytes after the colon without the blanks around them. -/
def headerValue (line : List UInt8) (colon : Nat) : List UInt8 :=
  ((line.drop (colon + 1)).dropWhile isSpace).rdropWhile isSpace

/-- `AddHeader(start, colon, end)`, where `line` is the range from `start` to `end`. -/
def addHeader (r : HttpRequest) (line : List UInt8) (colon : Nat) : HttpRequest :=
  { r with headers := r.headers.insert (line.take colon) (headerValue line colon) }

def getHeader (r : HttpRequest) (field : List UInt8) : List UInt8 :=
  (r.headers.lookup field).getD []

/-- `swap`: both requests after it. The bodies stay where they are. -/
def swap (r that : HttpRequest) : HttpRequest × HttpRequest :=
  ({ method := that.method, version := that.version, path := that.path, query := that.query,
     receiveTime := that.receiveTime, headers := that.headers, body := r.body },
   { method := r.method, version := r.version, path := r.path, query := r.query,
     receiveTime := r.receiveTime, headers := r.headers, body := that.body })

/-- Whether the method takes a body. -/
def takesBody (r : HttpRequest) : Bool := r.method = .kPost || r.method = .kPut

/-- The request without its receive time. -/
def timeless (r : HttpRequest) : HttpRequest := { r with receiveTime := 0 }

/-- The request with another body. -/
def withBody (r : HttpRequest) (body : List UInt8) : HttpRequest := { r with body }

end HttpRequest

end MyTinyHttpd
