import MyTinyHttpd.Net.Buffer
import MyTinyHttpd.Utils.File

/-!
# `http/http_response.h` and `http/http_response.cc`

`state` follows `state_`; the assertions on it are compiled out. Only the status codes that the
server itself uses have names.
-/

namespace MyTinyHttpd

inductive AppendState where
  | kAppendNothing
  | kAppendStatusLine
  | kAppendHeader
  | kAppendHeadersEnd
  | kAppendBody
  deriving DecidableEq

structure HttpResponse where
  state : AppendState := .kAppendNothing
  isCloseConnection : Bool
  buffer : Buffer

namespace HttpResponse

def k200Ok : Int := 200

def k404NotFound : Int := 404

def k405MethodNotAllowd : Int := 405

def k500InternalServerError : Int := 500

def getHttpVersion : List UInt8 := ascii "HTTP/1.1"

variable (alloc : Allocator)

/-- The constructor. -/
def make (isClose : Bool) : HttpResponse where
  isCloseConnection := isClose
  buffer := Buffer.make alloc kInitialSize

/-- `buffer_.Append(text)`. -/
def append (r : HttpResponse) (text : List UInt8) : HttpResponse :=
  { r with buffer := r.buffer.append alloc text }

def appendStatusLine (r : HttpResponse) (code : Int) (message : List UInt8) : HttpResponse :=
  let r := { r with state := .kAppendStatusLine }
  let r := r.append alloc (snprintf 32
    (getHttpVersion ++ ascii " " ++ decimalInt code ++ ascii " "))
  let r := r.append alloc message
  r.append alloc kCrlf

/-- `AppendCloseConnection(on)`, and `AppendCloseConnection()`, which keeps what is set. -/
def appendCloseConnection (r : HttpResponse) (on : Option Bool := none) : HttpResponse :=
  let on := on.getD r.isCloseConnection
  let r := { r with state := .kAppendHeader, isCloseConnection := on }
  if on then r.append alloc (ascii "Connection: close\r\n")
  else r.append alloc (ascii "Connection: Keep-Alive\r\n")

def appendHeader (r : HttpResponse) (key value : List UInt8) : HttpResponse :=
  let r := { r with state := .kAppendHeader }
  let r := r.append alloc key
  let r := r.append alloc (ascii ": ")
  let r := r.append alloc value
  r.append alloc kCrlf

def appendContentType (r : HttpResponse) (contentType : List UInt8) : HttpResponse :=
  r.appendHeader alloc (ascii "Content-Type") contentType

def appendContentBase (r : HttpResponse) (contentBase : List UInt8) : HttpResponse :=
  r.appendHeader alloc (ascii "Content-Base") contentBase

/-- `AppendContentLength(len)`: `%zd` prints the `size_t` as a signed number. -/
def appendContentLength (r : HttpResponse) (len : Nat) : HttpResponse :=
  let r := { r with state := .kAppendHeader }
  r.append alloc (snprintf 32 (ascii "Content-Length: " ++ decimalInt (castLong len) ++ kCrlf))

def appendHeadersEnd (r : HttpResponse) (hasBody : Bool := false) : HttpResponse :=
  let r := if hasBody = false then r.appendContentLength alloc 0 else r
  let r := { r with state := .kAppendHeadersEnd }
  r.append alloc kCrlf

/-- `AppendBody` of a slice or of `len` bytes. -/
def appendBody (r : HttpResponse) (body : List UInt8) : HttpResponse :=
  let r := r.appendContentLength alloc body.length
  let r := r.appendHeadersEnd alloc true
  let r := { r with state := .kAppendBody }
  r.append alloc body

/-- `AppendBody(is)`. -/
def appendBodyStream (r : HttpResponse) (is : InFile) : HttpResponse :=
  let len := castSizeT is.size
  let r := r.appendContentLength alloc len
  let r := r.appendHeadersEnd alloc true
  let got := is.read len
  { r with
    state := .kAppendBody
    buffer := r.buffer.appendStream alloc len got.1 got.2 }

end HttpResponse

end MyTinyHttpd
