import MyTinyHttpd.Http.Context
import MyTinyHttpd.Http.Response
import MyTinyHttpd.Net.TcpConnection

/-!
# `http/http_server.h` and `http/http_server.cc`

The callbacks of a connection and the default handler. A handler is a function on the request, the
response and the world `ω` that it can change; it returns. The timing wheel and the start of the
server are left out; the configuration file is in `Http/Config.lean`.

A `Session` is one connection with the world around it. For the statements it keeps the requests
that came to the handler, each with the state that the connection was in, and what `SetMethod`
found (`found`, see `Http/Context.lean`).
-/

namespace MyTinyHttpd

structure HttpServerConfig where
  domain : List UInt8
  docroot : List UInt8

/-- `default_domain_` and `default_docroot_`. -/
def HttpServerConfig.defaults : HttpServerConfig where
  domain := ascii "www.mytinyhttpd.org"
  docroot := ascii "/usr/share/mytinyhttpd"

/-- `GetRealPath(path)`. -/
def HttpServerConfig.getRealPath (config : HttpServerConfig) (path : List UInt8) : List UInt8 :=
  config.docroot ++ (if config.docroot.getLast? ≠ some 47 then ascii "/" else []) ++ path

namespace HttpServer

/-! ## The default handler -/

def mimeTypeMap : List (List UInt8 × List UInt8) :=
  [(ascii ".pdf", ascii "application/pdf"),
    (ascii ".html", ascii "text/html; charset=utf-8"),
    (ascii ".htm", ascii "text/html; charset=utf-8"),
    (ascii ".jpg", ascii "image/jpeg"),
    (ascii ".jpeg", ascii "image/jpeg"),
    (ascii ".gif", ascii "image/gif"),
    (ascii ".png", ascii "image/png"),
    (ascii ".ico", ascii "image/x-icon"),
    (ascii ".css", ascii "text/css"),
    (ascii ".au", ascii "audio/basic"),
    (ascii ".wav", ascii "audio/wav"),
    (ascii ".avi", ascii "video/x-msvideo"),
    (ascii ".mov", ascii "video/quicktime"),
    (ascii ".qt", ascii "video/quicktime"),
    (ascii ".mpeg", ascii "video/mpeg"),
    (ascii ".mpe", ascii "video/mpeg"),
    (ascii ".vrml", ascii "model/vrml"),
    (ascii ".wrl", ascii "model/vrml"),
    (ascii ".midi", ascii "audio/midi"),
    (ascii ".mid", ascii "audio/midi"),
    (ascii ".mp3", ascii "audio/mpeg"),
    (ascii ".mp4", ascii "audio/mp4"),
    (ascii ".ogg", ascii "application/ogg"),
    (ascii ".pac", ascii "application/x-ns-proxy-autoconfig")]

/-- `GetMimeType(real_path)`, by what stands after the last dot. -/
def getMimeType (realPath : List UInt8) : List UInt8 :=
  if 46 ∈ realPath then
    (mimeTypeMap.lookup (46 :: realPath.rtakeWhile (· ≠ 46))).getD
      (ascii "application/octet-stream")
  else ascii "application/octet-stream"

def welcomeHtml : List UInt8 := ascii <|
  "<!DOCTYPE html><html><head><meta http-equiv=\"Content-Type\" " ++
  "content=\"text/html; charset=windows-1252\"><title>Welcome to " ++
  "MyTinyHttpd!</title><style>body \x7bwidth: 35em;margin: 0 " ++
  "auto;font-family: Tahoma, Verdana, Arial, " ++
  "sans-serif;\x7d</style></head><body><h1>Welcome to " ++
  "MyTinyHttpd!</h1><p>If you see this page, the MyTinyHttpd web " ++
  "server is successfully installed andworking. Further configuration " ++
  "is required.</p><p><em>Thank you for using " ++
  "MyTinyHttpd.</em></p></body></html>"

def optionsHtml : List UInt8 := ascii <|
  "<html><head><title>MyTinyHttpd Support " ++
  "Options</title></head><body><center><h1>MyTinyHttpd Support " ++
  "Options:</h1></center><center>GET POST HEAD PUT DELETE " ++
  "OPTIONS.</center></body></html>"

def html405 : List UInt8 := ascii <|
  "<html><head><title>405 Not " ++
  "Allowed</title></head><body><center><h1>405 Not " ++
  "Allowed</h1></center><hr><center>MyTinyHttpd/0.0.1</center></body></" ++
  "html>"

section Default

open HttpResponse

variable (alloc : Allocator) (config : HttpServerConfig)

/-- A response with a page of the server's own. -/
def appendPage (resp : HttpResponse) (code : Int) (message html : List UInt8) : HttpResponse :=
  let resp := resp.appendStatusLine alloc code message
  let resp := resp.appendContentBase alloc config.domain
  let resp := resp.appendCloseConnection alloc
  let resp := resp.appendContentType alloc (ascii "text/html; charset=utf-8")
  resp.appendBody alloc html

/-- What follows the status line of a response without a body. -/
def appendNoBody (resp : HttpResponse) (on : Option Bool := none) : HttpResponse :=
  let resp := resp.appendContentBase alloc config.domain
  let resp := resp.appendCloseConnection alloc on
  resp.appendHeadersEnd alloc

def appendNotFound (resp : HttpResponse) : HttpResponse :=
  let resp := resp.appendStatusLine alloc k404NotFound (ascii "Not Found")
  appendNoBody alloc config resp (some true)

/-- The start of a response that describes a file. -/
def appendFileHeaders (resp : HttpResponse) (realPath : List UInt8) : HttpResponse :=
  let resp := resp.appendStatusLine alloc k200Ok (ascii "OK")
  let resp := resp.appendContentBase alloc config.domain
  let resp := resp.appendContentType alloc (getMimeType realPath)
  resp.appendCloseConnection alloc

/-- `DefaultHttpCallback`: the response and the world after it. -/
def defaultHttpCallback {ω : Type} (files : FileSystem ω) (req : HttpRequest)
    (resp : HttpResponse) (w : ω) : HttpResponse × ω :=
  let realPath := config.getRealPath req.path
  match req.method with
  | .kGet =>
    if req.path.isEmpty then (appendPage alloc config resp k200Ok (ascii "OK") welcomeHtml, w)
    else
      match files.openIn w (cStr realPath) with
      | (some realFile, w) =>
        ((appendFileHeaders alloc config resp realPath).appendBodyStream alloc realFile, w)
      | (none, w) => (appendNotFound alloc config resp, w)
  | .kPost => (appendNoBody alloc config (resp.appendStatusLine alloc k200Ok (ascii "OK")), w)
  | .kHead =>
    match files.openIn w (cStr realPath) with
    | (some realFile, w) =>
      let resp := appendFileHeaders alloc config resp realPath
      let resp := resp.appendContentLength alloc (castSizeT realFile.size)
      (resp.appendHeadersEnd alloc, w)
    | (none, w) => (appendNotFound alloc config resp, w)
  | .kPut =>
    match files.openOut w (cStr realPath) with
    | (true, w) =>
      let w := files.write w (cStr realPath) req.body
      (appendNoBody alloc config (resp.appendStatusLine alloc k200Ok (ascii "OK")), w)
    | (false, w) =>
      let resp :=
        resp.appendStatusLine alloc k500InternalServerError (ascii "Internal Server Error")
      (appendNoBody alloc config resp, w)
  | .kDelete =>
    match files.remove w (cStr realPath) with
    | (errno, w) =>
      let resp :=
        match errno with
        | none => resp.appendStatusLine alloc k200Ok (ascii "OK")
        | some errno =>
          if errno = ENOENT then resp.appendStatusLine alloc k404NotFound (ascii "Not Found")
          else resp.appendStatusLine alloc k500InternalServerError (ascii "Internal Server Error")
      (appendNoBody alloc config resp, w)
  | .kOptions => (appendPage alloc config resp k200Ok (ascii "OK") optionsHtml, w)
  | .kInvalid | .kTrack =>
    (appendPage alloc config resp k405MethodNotAllowd (ascii "Method Not Allowd") html405, w)

end Default

end HttpServer

/-! ## The callbacks of a connection -/

structure HttpServer (ω : Type) where
  config : HttpServerConfig
  files : FileSystem ω
  httpCallback : Option (HttpRequest → HttpResponse → ω → HttpResponse × ω) := none

/-- How the calls on a connection stand: an exception, or a call that does not end, is the end. -/
inductive Status where
  | running
  | threw
  | diverged
  deriving DecidableEq

structure Session (ω : Type) where
  conn : TcpConnection HttpContext
  world : ω
  status : Status := .running
  /-- The requests that came to the handler, with the state of the connection. -/
  handled : List (HttpRequest × ConnState) := []
  found : List Method := []

namespace HttpServer

variable {ω : Type} (alloc : Allocator) (server : HttpServer ω)

/-- `http_callback_`, or the default handler. -/
def callback (req : HttpRequest) (resp : HttpResponse) (w : ω) : HttpResponse × ω :=
  match server.httpCallback with
  | some cb => cb req resp w
  | none => defaultHttpCallback alloc server.config server.files req resp w

def onRequest (s : Session ω) (req : HttpRequest) : Session ω :=
  let connection := req.getHeader (ascii "Connection")
  let close := decide (connection = ascii "close" ∨
    (req.version = .kHttp10 ∧ connection ≠ ascii "Keep-Alive"))
  let response := HttpResponse.make alloc close
  let answer := server.callback alloc req response s.world
  let conn := (s.conn.sendBuffer alloc answer.1.buffer).1
  let conn := if answer.1.isCloseConnection then conn.shutdown else conn
  { s with conn, world := answer.2, handled := s.handled ++ [(req, s.conn.state)] }

/-- The answer to a request that `ParseRequest` rejects. -/
def badRequest (conn : TcpConnection HttpContext) : TcpConnection HttpContext :=
  (conn.send alloc (ascii "HTTP/1.1 400 Bad Request\r\n\r\n")).shutdown

def onMessage (s : Session ω) (receiveTime : Timestamp) : Session ω :=
  match HttpContext.parseRequest receiveTime s.conn.context s.conn.inputBuffer with
  | .threw found => { s with status := .threw, found := s.found ++ found }
  | .diverged => { s with status := .diverged }
  | .returned ok context buf found =>
    let conn := { s.conn with context, inputBuffer := buf }
    let conn := if ok = false then badRequest alloc conn else conn
    let s := { s with conn, found := s.found ++ found }
    if context.isGotAll then
      let s := onRequest alloc server s context.request
      { s with conn := { s.conn with context := context.reset } }
    else s

end HttpServer

end MyTinyHttpd
