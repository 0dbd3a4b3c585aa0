import Httpancake.Lib.Bytes

/-! # Requests

The parse state of `HttpTcpConnection` (`src/network/httpTcpConnection.hpp`) and the two line
parsers of `webServer` (`httpancake/webServer.cpp`). A parser answers `none` where `substr` throws
`std::out_of_range`. -/

namespace Httpancake

open Bytes

inductive ProcessState where
  | parseUrl | parseHeaders | parseBody | responsing | processSuccess | processFailed
  | requestLineError
  deriving DecidableEq, Repr

inductive RequestType where
  | getMethod | postMethod | nullMethod
  deriving DecidableEq, Repr

inductive HttpVersion where
  | http1_0 | http1_1
  deriving DecidableEq, Repr

/-- `MimeTypes`, without its entry `"default"`. -/
def mimeTypes : List (Bytes × Bytes) := [
  (ascii ".htm", ascii "text/html"), (ascii ".html", ascii "text/html"),
  (ascii ".txt", ascii "text/plain"), (ascii ".c", ascii "text/plain"),
  (ascii ".avi", ascii "video/x-msvideo"), (ascii ".doc", ascii "application/msword"),
  (ascii ".gz", ascii "application/x-gzip"), (ascii ".bmp", ascii "image/bmp"),
  (ascii ".gif", ascii "image/gif"), (ascii ".jpg", ascii "image/jpeg"),
  (ascii ".png", ascii "image/png"), (ascii ".ico", ascii "image/x-icon"),
  (ascii ".mp3", ascii "audio/mp3")]

/-- `MimeTypes.at("default")`. -/
def defaultMimeType : Bytes := ascii "text/html"

/-- The fields that `HttpTcpConnection` adds to `TcpConnection`. -/
structure HttpTcpConnection where
  processState : ProcessState
  requestType : RequestType
  mimeType : Bytes
  httpVersion : HttpVersion
  url : Bytes
  keepAlive : Bool
  deriving DecidableEq, Repr

namespace HttpTcpConnection

/-- The constructor. -/
def fresh : HttpTcpConnection where
  processState := .parseUrl
  requestType := .nullMethod
  mimeType := ascii "default"
  httpVersion := .http1_0
  url := []
  keepAlive := false

def clearState (_ : HttpTcpConnection) : HttpTcpConnection where
  processState := .parseUrl
  requestType := .nullMethod
  mimeType := ascii "default"
  httpVersion := .http1_0
  url := []
  keepAlive := false

/-- The entry `"default"` has the value of the default, so the lookup may leave it out. -/
def setMimeType (c : HttpTcpConnection) (ms : Bytes) : HttpTcpConnection :=
  { c with mimeType := (mimeTypes.lookup ms).getD defaultMimeType }

/-- `url().c_str()`, which `responseToGet` passes to `lstat` and to `open`. -/
def filePath (c : HttpTcpConnection) : Bytes := cStr c.url

@[simp] theorem clearState_eq (c : HttpTcpConnection) : c.clearState = fresh := rfl

end HttpTcpConnection

/-! ## The request line -/

/-- The method search: a substring search over the whole line. -/
def methodOf (requestLine : Bytes) : RequestType :=
  if (find (ascii "GET") requestLine).isSome then .getMethod
  else if (find (ascii "POST") requestLine).isSome then .postMethod
  else .nullMethod

/-- The version search. `find` answers a position and is used as a condition, so it fails only on
a match at position 0. -/
def versionOf (requestLine : Bytes) : Option HttpVersion :=
  if find (ascii "HTTP/1.1") requestLine ≠ some 0 then some .http1_1
  else if find (ascii "HTTP/1.0") requestLine ≠ some 0 then some .http1_0
  else none

def parseRequestStartLine (fileDir requestLine : Bytes) (c : HttpTcpConnection) :
    Option HttpTcpConnection :=
  let c := { c with requestType := methodOf requestLine }
  if c.requestType = .nullMethod then some { c with processState := .requestLineError }
  else match findByte requestLine SP 0 with
    | none => some { c with processState := .requestLineError }
    | some firstSpaceIdx =>
      match findByte requestLine SP (firstSpaceIdx + 1) with
      | none => some { c with processState := .requestLineError }
      | some secondSpaceIdx => do
        let target ← substr requestLine (some (firstSpaceIdx + 1))
          (secondSpaceIdx - firstSpaceIdx - 1)
        let fileURL := fileDir ++ target
        let suffixIdx := findLastOf DOT fileURL
        let suffix ← substr fileURL suffixIdx (fileURL.length - suffixIdx.getD npos)
        let c := { c.setMimeType suffix with url := fileURL }
        match versionOf requestLine with
        | some version => return { c with httpVersion := version }
        | none => return { c with processState := .requestLineError }

/-! ## Header lines -/

/-- `unordered_map<string, string>`, of which only `insert` and `find` are used. -/
abbrev HeaderMap := List (Bytes × Bytes)

/-- `insert` keeps an existing entry. -/
def HeaderMap.insert (m : HeaderMap) (key val : Bytes) : HeaderMap :=
  if (m.lookup key).isSome then m else (key, val) :: m

/-- The length passed to the second `substr` is `key.length() - keyValDivIdx - 1`, which wraps
to the largest `size_t`. -/
def parseHeader (headerLine : Bytes) (headerContents : HeaderMap) : Option HeaderMap :=
  match findByte headerLine COLON 0 with
  | none => some headerContents
  | some keyValDivIdx => do
    let key := (← substr headerLine (some 0) keyValDivIdx).map toLower
    let val ← substr headerLine (some (keyValDivIdx + 2))
      (sizeSub (sizeSub key.length keyValDivIdx) 1)
    return headerContents.insert key val

end Httpancake
