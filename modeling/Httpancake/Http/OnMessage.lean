import Httpancake.Http.Response
import Httpancake.Lib.Machine
import Httpancake.Network.Buffer

/-! # `webServer::onMessage`

The function as a machine: `Pc` is the position in its body, one step is one pass of a phase or of
an inner loop, and an `Effect` is what a step asks of the connection or of the log. The idle-timeout
bookkeeping at its start touches none of this state. -/

namespace Httpancake

open Bytes

/-- What is fixed during a call: the document root, the name of the connection, the files. -/
structure Env where
  fileDir : Bytes
  connName : Bytes
  fs : FileSystem

inductive Effect where
  | send (msg : Bytes)
  | forceClose
  /-- The strings inserted into one `LOG` stream. -/
  | log (text : List Bytes)
  deriving DecidableEq, Repr

inductive Fault where
  /-- `string::substr` throws and nothing catches. -/
  | outOfRange
  /-- An assertion of `Buffer` fails. -/
  | assertion
  /-- A mapped file is read where it is not. -/
  | badRead
  deriving DecidableEq, Repr

inductive Pc where
  | parseUrl
  | parseHeaders
  | headerLoop (headerContents : HeaderMap)
  | parseBody
  | bodyLoop (headerLine : Bytes)
  | responsing
  | finish
  | returned
  | stopped (f : Fault)
  deriving DecidableEq, Repr

/-- The call has returned or the process is gone. -/
def Pc.Final : Pc → Prop
  | returned | stopped _ => True
  | _ => False

structure OnMessage where
  pc : Pc
  conn : HttpTcpConnection
  inBuffer : Buffer
  /-- The calls of `responseToGet` so far. -/
  fsCalls : Nat
  deriving DecidableEq, Repr

/-- A header line as `parseHeader` gets it, without a trailing carriage return. -/
def chomp (headerLine : Bytes) : Bytes :=
  if headerLine.getLast? = some CR then headerLine.dropLast else headerLine

/-- The condition that ends the header loop. -/
def endsHeaders (headerLine : Bytes) : Bool := headerLine == [] || headerLine.head? == some CR

/-- The condition that ends the body loop. -/
def endsBody (headerLine : Bytes) : Bool :=
  headerLine == [] || (find (ascii "HTTP/") headerLine).isSome

/-- The keep-alive decision of the header phase. -/
def setKeepAlive (c : HttpTcpConnection) (headerContents : HeaderMap) : HttpTcpConnection :=
  let c := if c.httpVersion = .http1_1 then { c with keepAlive := true } else c
  match headerContents.lookup (ascii "connection") with
  | none => c
  | some val =>
    if c.httpVersion = .http1_1 then
      { c with keepAlive := !matchesIgnoreCase val (ascii "close") }
    else { c with keepAlive := matchesIgnoreCase val (ascii "keep-alive") }

namespace OnMessage

/-- `onMessage` called on a connection and its input buffer. -/
def start (conn : HttpTcpConnection) (inBuffer : Buffer) (fsCalls : Nat) : OnMessage where
  pc := .parseUrl
  conn := conn
  inBuffer := inBuffer
  fsCalls := fsCalls

/-- An empty request line is an error; any other goes to the parser. -/
def parseUrlLine (env : Env) (requestLine : Bytes) (c : HttpTcpConnection) :
    Option HttpTcpConnection :=
  if requestLine = [] then some { c with processState := .requestLineError }
  else parseRequestStartLine env.fileDir requestLine c

def requestLineErrorLog (env : Env) : Effect :=
  .log [ascii "Connection Error: ", cStr env.connName, ascii "\tREQUEST-LINE-ERROR"]

def parseUrl (env : Env) (s : OnMessage) : OnMessage × List Effect :=
  if s.conn.processState = .parseUrl then
    match s.inBuffer.retrieveLineAsString with
    | none => ({ s with pc := .stopped .assertion }, [])
    | some (inBuffer, requestLine) =>
      match parseUrlLine env requestLine s.conn with
      | none => ({ s with pc := .stopped .outOfRange, inBuffer }, [])
      | some conn =>
        if conn.processState = .requestLineError then
          ({ s with
              pc := .parseHeaders
              conn := { conn with processState := .processFailed }
              inBuffer },
            [requestLineErrorLog env])
        else
          ({ s with
              pc := .parseHeaders
              conn := { conn with processState := .parseHeaders }
              inBuffer }, [])
  else ({ s with pc := .parseHeaders }, [])

def parseHeaders (s : OnMessage) : OnMessage :=
  { s with pc := if s.conn.processState = .parseHeaders then .headerLoop [] else .parseBody }

def headerLoop (s : OnMessage) (headerContents : HeaderMap) : OnMessage :=
  match s.inBuffer.retrieveLineAsString with
  | none => { s with pc := .stopped .assertion }
  | some (inBuffer, headerLine) =>
    if endsHeaders headerLine then
      { s with
        pc := .parseBody
        conn := { setKeepAlive s.conn headerContents with processState := .parseBody }
        inBuffer }
    else match parseHeader (chomp headerLine) headerContents with
      | none => { s with pc := .stopped .outOfRange, inBuffer }
      | some headerContents => { s with pc := .headerLoop headerContents, inBuffer }

def parseBody (s : OnMessage) : OnMessage :=
  { s with
    pc := if s.conn.processState = .parseBody then .bodyLoop s.inBuffer.peekLine else .responsing }

/-- The line is peeked once, before the loop. -/
def bodyLoop (s : OnMessage) (headerLine : Bytes) : OnMessage :=
  if endsBody headerLine then
    { s with pc := .responsing, conn := { s.conn with processState := .responsing } }
  else match s.inBuffer.retrieve headerLine.length with
    | none => { s with pc := .stopped .assertion }
    | some inBuffer => { s with inBuffer }

/-- `responseToPost` is empty, and the switch has no case for `NULL_METHOD`. -/
def responsing (env : Env) (s : OnMessage) : OnMessage × List Effect :=
  if s.conn.processState = .responsing ∧ s.conn.requestType = .getMethod then
    match responseToGet (env.fs s.fsCalls s.conn.filePath) s.conn with
    | none => ({ s with pc := .stopped .badRead }, [])
    | some (conn, msg) => ({ s with pc := .finish, conn, fsCalls := s.fsCalls + 1 }, [.send msg])
  else ({ s with pc := .finish }, [])

/-- The log lines at the end of an iteration. -/
def outcomeLog (env : Env) (c : HttpTcpConnection) : List Effect :=
  if c.processState = .processSuccess then
    if c.requestType = .getMethod then
      [.log [ascii "onMessage(): [", cStr env.connName, ascii "] get: ", c.url,
        ascii " successfully."]]
    else []
  else if c.processState = .processFailed then
    [.log [ascii "onMessage(): [", cStr env.connName, ascii "] request: ", c.url,
      ascii " failed."]]
  else []

/-- The effects of the end of an iteration. -/
def finishEffects (env : Env) (c : HttpTcpConnection) : List Effect :=
  outcomeLog env c ++ if c.keepAlive then [] else [.forceClose]

def finish (env : Env) (s : OnMessage) : OnMessage × List Effect :=
  ({ s with
      pc := if s.inBuffer.readableBytes ≠ 0 then .parseUrl else .returned
      conn := s.conn.clearState },
    finishEffects env s.conn)

def step (env : Env) (s : OnMessage) : OnMessage × List Effect :=
  match s.pc with
  | .parseUrl => parseUrl env s
  | .parseHeaders => (parseHeaders s, [])
  | .headerLoop headerContents => (headerLoop s headerContents, [])
  | .parseBody => (parseBody s, [])
  | .bodyLoop headerLine => (bodyLoop s headerLine, [])
  | .responsing => responsing env s
  | .finish => finish env s
  | .returned | .stopped _ => (s, [])

theorem step_final (env : Env) (s : OnMessage) (h : s.pc.Final) : step env s = (s, []) := by
  unfold step
  cases hpc : s.pc <;> simp_all [Pc.Final]

abbrev machine (env : Env) : Machine OnMessage Effect where
  step := step env
  Final s := s.pc.Final
  step_final := step_final env

/-- Some number of steps lead from `s` to `s'` with the effects `es`. -/
abbrev Steps (env : Env) (s : OnMessage) (es : List Effect) (s' : OnMessage) : Prop :=
  (machine env).Steps s es s'

end OnMessage
end Httpancake
