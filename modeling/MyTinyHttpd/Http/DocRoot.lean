import MyTinyHttpd.Lib.LexPath
import MyTinyHttpd.Net.ByteQueue
import MyTinyHttpd.Http.RequestLine
import MyTinyHttpd.Http.Server

/-!
# Which files the default handler touches

`DefaultHttpCallback` passes `GetRealPath(path)` to the system, and nothing on the way from the
request line looks at the `..` in the path.

* `mem_accessedNames`: the names that a request passes to the system.
* `access_confined_iff`: they lie in the document root, exactly when the path does not climb above
  it, or comes back down the names that it has climbed.
-/

namespace MyTinyHttpd

open Verif LexPath

/-- The methods for which the default handler opens or removes a file. -/
def touchesFile : Method → Bool
  | .kGet | .kHead | .kPut | .kDelete => true
  | _ => false

/-- The name lies in the document root or below it, once `.`, `..` and repeated `/` are resolved. -/
def InDocroot (docroot name : List UInt8) : Prop := Below 47 46 (cStr docroot) name

/-- The path, up to its first NUL, stays in the document root. -/
def PathConfined (docroot path : List UInt8) : Prop := Confined 47 46 docroot (cStr path)

instance (docroot name : List UInt8) : Decidable (InDocroot docroot name) :=
  inferInstanceAs (Decidable (Below _ _ _ _))

instance (docroot path : List UInt8) : Decidable (PathConfined docroot path) :=
  inferInstanceAs (Decidable (Confined _ _ _ _))

theorem getRealPath_eq_join (config : HttpServerConfig) (path : List UInt8) :
    config.getRealPath path = join 47 config.docroot path := rfl

/-- What the system gets: the document root alone if it holds a NUL. -/
theorem cStr_getRealPath (config : HttpServerConfig) (path : List UInt8) :
    cStr (config.getRealPath path) =
      if 0 ∈ config.docroot then cStr config.docroot else join 47 config.docroot (cStr path) := by
  rw [getRealPath_eq_join, join, List.append_assoc]
  by_cases h : 0 ∈ config.docroot
  · rw [if_pos h, cStr_append_of_mem h]
  · have hsep : 0 ∉ (if config.docroot.getLast? ≠ some 47 then [47] else [] : List UInt8) := by
      split <;> simp
    rw [if_neg h, cStr_append_of_not_mem h, cStr_append_of_not_mem hsep, join, List.append_assoc]

namespace HttpServer

variable {ω : Type} (alloc : Allocator) (config : HttpServerConfig) (files : FileSystem ω)

/-- The names that a request passes to the system. -/
def accessedNames (req : HttpRequest) (resp : HttpResponse) (w : ω) : List (List UInt8) :=
  (defaultHttpCallback alloc config files.logged req resp (w, [])).2.2

/-- All of them are `GetRealPath(path)`, and there is one unless the method touches no file or it
is a GET for the empty path. -/
theorem mem_accessedNames (req : HttpRequest) (resp : HttpResponse) (w : ω) (name : List UInt8) :
    name ∈ accessedNames alloc config files req resp w ↔
      (touchesFile req.method = true ∧ ¬ (req.method = .kGet ∧ req.path = [])) ∧
        name = cStr (config.getRealPath req.path) := by
  simp only [accessedNames, defaultHttpCallback]
  generalize cStr (config.getRealPath req.path) = realName
  cases hm : req.method with
  | kGet =>
    by_cases hp : req.path = []
    · simp [hp]
    · cases ho : (files.openIn w realName).1 with
      | none => simp [FileSystem.logged, touchesFile, hp, ho]
      | some f => simp [FileSystem.logged, touchesFile, hp, ho]
  | kHead =>
    cases ho : (files.openIn w realName).1 with
    | none => simp [FileSystem.logged, touchesFile, ho]
    | some f => simp [FileSystem.logged, touchesFile, ho]
  | kPut =>
    cases ho : (files.openOut w realName).1 with
    | true => simp [FileSystem.logged, touchesFile, ho]
    | false => simp [FileSystem.logged, touchesFile, ho]
  | kDelete => simp [FileSystem.logged, touchesFile]
  | kPost => simp [touchesFile]
  | kOptions => simp [touchesFile]
  | kInvalid => simp [touchesFile]
  | kTrack => simp [touchesFile]

/-- **When the default handler stays in the document root.** For every request, whatever the file
system does: the names that it passes to the system lie in the document root or below it, exactly
when the method touches no file, or the path does not climb above the document root without coming
back down the names that it has climbed. (A document root with a NUL cuts off the path.) -/
theorem access_confined_iff (hroot : config.docroot ≠ []) (req : HttpRequest)
    (resp : HttpResponse) (w : ω) :
    (∀ name ∈ accessedNames alloc config files req resp w, InDocroot config.docroot name) ↔
      touchesFile req.method = false ∨ 0 ∈ config.docroot ∨
        PathConfined config.docroot req.path := by
  have hempty : PathConfined config.docroot [] := by
    simp [PathConfined, Confined, cStr, walk, enter, here]
  have hname : InDocroot config.docroot (cStr (config.getRealPath req.path)) ↔
      0 ∈ config.docroot ∨ PathConfined config.docroot req.path := by
    rw [cStr_getRealPath, InDocroot]
    split
    · rename_i h
      simp [h, Below]
    · rename_i h
      rw [cStr_of_not_mem h, below_join_iff hroot]
      simp [h, PathConfined]
  simp only [mem_accessedNames, and_imp]
  constructor
  · intro h
    cases ht : touchesFile req.method with
    | false => exact .inl rfl
    | true =>
      by_cases hget : req.method = .kGet ∧ req.path = []
      · exact .inr (.inr (hget.2 ▸ hempty))
      · exact .inr (hname.mp (h _ ht hget rfl))
  · rintro h name ht - rfl
    rw [ht] at h
    exact hname.mpr (h.resolve_left (by simp))

/-- The request of `GET /a/../b HTTP/1.1`. -/
def dotsRequest : HttpRequest := { method := .kGet, version := .kHttp11, path := ascii "a/../b" }

theorem dotsRequest_confined :
    (processRequestLine {} (ascii "GET /a/../b HTTP/1.1")).returned = some (true, dotsRequest) ∧
      ∀ name ∈ accessedNames Buffer.zeroAlloc .defaults noFiles dotsRequest
          (HttpResponse.make Buffer.zeroAlloc false) (),
        InDocroot (ascii "/usr/share/mytinyhttpd") name :=
  ⟨by decide,
    (access_confined_iff Buffer.zeroAlloc .defaults noFiles (by decide) dotsRequest _ ()).mpr
      (by decide)⟩

/-- The request of `GET /../../../etc/passwd HTTP/1.1`. -/
def passwdRequest : HttpRequest :=
  { method := .kGet, version := .kHttp11, path := ascii "../../../etc/passwd" }

/-- The line is accepted, and the handler opens a file outside of the document root. -/
theorem passwdRequest_escapes :
    (processRequestLine {} (ascii "GET /../../../etc/passwd HTTP/1.1")).returned =
        some (true, passwdRequest) ∧
      ascii "/usr/share/mytinyhttpd/../../../etc/passwd" ∈
        accessedNames Buffer.zeroAlloc .defaults noFiles passwdRequest
          (HttpResponse.make Buffer.zeroAlloc false) () ∧
      ¬ InDocroot (ascii "/usr/share/mytinyhttpd")
        (ascii "/usr/share/mytinyhttpd/../../../etc/passwd") := by
  refine ⟨by decide, ?_, by decide⟩
  rw [mem_accessedNames]
  decide

end HttpServer

end MyTinyHttpd
