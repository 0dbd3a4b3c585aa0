import Httpancake.Http.Request

/-! # Responses

`webServer::responseToGet` and the results of the system calls it makes. -/

namespace Httpancake

open Bytes

/-- The result of `lstat`: the size of the file, `ENOENT`, or another error. -/
inductive Lstat where
  | found (stSize : Nat)
  | noent
  | failed
  deriving DecidableEq, Repr

/-- What one call of `responseToGet` learns about a path. `mapped` is the content of the opened
file when `mmap` on its descriptor succeeds. -/
structure FileOutcome where
  lstat : Lstat
  opened : Bool
  mapped : Option Bytes
  deriving DecidableEq, Repr

/-- The answers to the successive calls of `responseToGet`, by path. -/
abbrev FileSystem := Nat → Bytes → FileOutcome

def pageSize : Nat := 4096

/-- The bytes of a mapping: the file, and zeros up to the end of its last page. -/
def mapping (content : Bytes) : Bytes :=
  content ++ List.replicate ((pageSize - content.length % pageSize) % pageSize) 0

/-- `string(fileMapAddr, fileSz)`. Reading through a failed mapping or behind the last page is a
fault. -/
def readMapping (fileMap : Option Bytes) (fileSz : Nat) : Option Bytes :=
  if fileSz = 0 then some []
  else match fileMap with
    | none => none
    | some content =>
      if fileSz ≤ (mapping content).length then some ((mapping content).take fileSz) else none

def versionName : HttpVersion → Bytes
  | .http1_1 => ascii "HTTP/1.1"
  | .http1_0 => ascii "HTTP/1.0"

def notFoundResponse (c : HttpTcpConnection) : Bytes :=
  versionName c.httpVersion ++ ascii " 404 Not Found\n" ++
    ascii "Content-type: text/html\nContent-Length: 44\n\n" ++
    ascii "<html>\nNo such file.\n</html>\n"

/-- The status line names HTTP/1.0 whatever the version of the request. -/
def successResponse (c : HttpTcpConnection) (fileSz : Nat) (msg : Bytes) : Bytes :=
  ascii "HTTP/1.0 200 OK\n" ++ ascii "Content-type: " ++ c.mimeType ++
    ascii "\nContent-Length: " ++ ascii (toString fileSz) ++
    (if c.keepAlive then ascii "\nConnection: keep-alive" else ascii "\nConnection: close") ++
    ascii "\n\n" ++ msg

/-- The message passed to `send` and the connection afterwards; `none` is a fault while reading
the mapped file. -/
def responseToGet (file : FileOutcome) (c : HttpTcpConnection) :
    Option (HttpTcpConnection × Bytes) :=
  if file.lstat = .noent then
    some ({ c with processState := .processFailed }, notFoundResponse c)
  else do
    -- any other error of `lstat` leaves the zeroed `stat` in place
    let fileSz := match file.lstat with
      | .found stSize => stSize
      | _ => 0
    let fileMap := if file.opened then file.mapped else none
    let msg ← readMapping fileMap fileSz
    return ({ c with processState := .processSuccess }, successResponse c fileSz msg)

end Httpancake
