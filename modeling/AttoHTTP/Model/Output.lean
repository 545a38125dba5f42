import AttoHTTP.Model.State

namespace AttoHTTP
open Library

structure Sent (α : Type) where
  count : α
  state : State

def setByte (b : UInt8) (w : Writer) : Int16 × Writer :=
  (w.results 0, { w with results := fun i => w.results (i + 1), trace := w.trace ++ [.wrote b] })

def Writer.mark (w : Writer) (e : Event) : Writer := { w with trace := w.trace ++ [e] }

def State.mark (s : State) (e : Event) : State := { s with writer := s.writer.mark e }

def write : List UInt8 → Writer → UInt32 × Writer
  | [], w => (0, w)
  | b :: bytes, w =>
      let p := setByte b w
      let q := write bytes p.2
      (p.1.toInt8.toInt32.toUInt32 + q.1, q.2)

def vsnprintf (buffer : Mem) (size : Nat) (expansion : List UInt8) : Mem := fun i =>
  if i < size - 1 ∧ i < expansion.length then expansion.getD i 0
  else if i = min (size - 1) expansion.length then 0
  else buffer i

/-- `attoHTTPvprintf` with a buffer of this size, given the full expansion of its arguments. -/
def vprintf (size : Nat) (expansion : List UInt8) (w : Writer) : UInt16 × Writer :=
  let buffer := vsnprintf (w.stack 0) size expansion
  let w := { w with stack := fun i => w.stack (i + 1) }
  let count := expansion.length % 2 ^ 16
  if count = size then
    let buffer := buffer.set (size - 1) 0
    let p := write (buffer.bytes (count - 1)) w
    (p.1.toUInt16, p.2)
  else
    let p := write (buffer.bytes count) w
    (p.1.toUInt16, p.2)

def State.write (bytes : List UInt8) (s : State) : Sent UInt32 :=
  let p := AttoHTTP.write bytes s.writer
  ⟨p.1, { s with writer := p.2 }⟩

def State.printf (cfg : Config) (expansion : List UInt8) (s : State) : Sent UInt16 :=
  let p := vprintf cfg.printfBufferSize expansion s.writer
  ⟨p.1, { s with writer := p.2 }⟩

/-- `attoHTTPprint`: a C string is given by its bytes. -/
def State.print (text : List UInt8) (s : State) : Sent UInt32 := s.write text

def decimal (n : Nat) : List UInt8 := (Nat.toDigits 10 n).map fun c => UInt8.ofNat c.toNat

/-- `%d` for a 32-bit argument, which it takes for a signed one. -/
def decimalInt (n : UInt32) : List UInt8 :=
  if n.toNat < 2 ^ 31 then decimal n.toNat else 45 :: decimal (2 ^ 32 - n.toNat)

/-- The reason phrase, for the codes `attoHTTPFirstLine` supports. -/
def reasonPhrase (code : UInt16) : Option (List UInt8) :=
  if code = 200 then some (ascii "OK")
  else if code = 202 then some (ascii "Accepted")
  else if code = 400 then some (ascii "Bad Request")
  else if code = 401 then some (ascii "Unauthorized")
  else if code = 404 then some (ascii "Not Found")
  else if code = 501 then some (ascii "Not Implemented")
  else none

def statusLineText (code : UInt16) (phrase : List UInt8) : List UInt8 :=
  httpVersion10 ++ ascii " " ++ decimal code.toNat ++ ascii " " ++ phrase ++ httpEol

def firstLine (cfg : Config) (code : UInt16) (s : State) : Sent UInt16 :=
  if s.writer.firstlineSent then ⟨0, s⟩
  else
    let s := { s with writer := { s.writer with firstlineSent := true } }
    match reasonPhrase code with
    | some phrase => (s.mark (.statusLine code)).printf cfg (statusLineText code phrase)
    | none =>
        let s := { s with request := { s.request with returnCode := statusInternalError } }
        (s.mark (.statusLine 500)).printf cfg (statusLineText 500 (ascii "Internal Error"))

def contentTypeLine (type : List UInt8) : List UInt8 :=
  ascii "Content-Type: " ++ type ++ ascii "; charset=utf-8" ++ httpEol

def contentLengthLine (size : UInt32) : List UInt8 :=
  ascii "Content-Length: " ++ decimalInt size ++ httpEol

def gzipLine : List UInt8 := ascii "Content-Encoding: gzip" ++ httpEol

/-- The guard on the status line that the header functions repeat around `attoHTTPFirstLine`. -/
def ensureFirstLine (cfg : Config) (code : UInt16) (s : State) : State :=
  if s.writer.firstlineSent then s else (firstLine cfg code s).state

def State.headersSent (s : State) : State :=
  { s with writer := { s.writer with headersSent := true } }

def sendHeaders (cfg : Config) (s : State) : Sent UInt16 :=
  let s := ensureFirstLine cfg s.request.returnCode.toUInt16 s
  if s.writer.headersSent then ⟨0, s⟩
  else
    let a := (s.mark .headerBlock).printf cfg (contentTypeLine s.request.contenttype.name)
    let b : Sent UInt16 := if 0 < s.request.contentlength then
        a.state.printf cfg (contentLengthLine s.request.contentlength)
      else ⟨0, a.state⟩
    let c : Sent UInt32 := if cfg.gzipPages then b.state.print gzipLine else ⟨0, b.state⟩
    let d := c.state.print httpEol
    ⟨a.count + b.count + c.count.toUInt16 + d.count.toUInt16, d.state.headersSent⟩

def restSendHeaders (cfg : Config) (code : UInt16) (type : List UInt8)
    (headers : Option (List UInt8)) (s : State) : Sent UInt16 :=
  let s := ensureFirstLine cfg code s
  if s.writer.headersSent then ⟨0, s⟩
  else
    let a := (s.mark .headerBlock).printf cfg (contentTypeLine type)
    let b : Sent UInt32 := match headers with
      | some headers => a.state.print headers
      | none => ⟨0, a.state⟩
    let c := b.state.print httpEol
    ⟨a.count + b.count.toUInt16 + c.count.toUInt16, c.state.headersSent⟩

def sendServerSentEventHeaders (cfg : Config) (s : State) : Sent UInt16 :=
  let s := (firstLine cfg statusOk.toUInt16 s).state
  let a := ((s.mark .eventStream).mark .headerBlock).printf cfg
    (ascii "Content-Type: " ++ MimeType.textEventStream.name ++ httpEol)
  let b := a.state.print (ascii "Cache-Control: no-cache" ++ httpEol)
  let c := b.state.print httpEol
  let s := { c.state with request := { c.state.request with returnCode := statusServerSentEvents } }
  ⟨a.count + b.count.toUInt16 + c.count.toUInt16, s.headersSent⟩

def challenge (cfg : Config) : List (List UInt8) :=
  match cfg.auth with
  | .none => []
  | .basic => [ascii "WWW-Authenticate: Basic realm=\"" ++ authRealm ++ ascii "\"" ++ httpEol]
  | .digest => [ascii "WWW-Authenticate: Digest realm=\"" ++ authRealm ++ ascii "\",",
      ascii "qop=\"auth,auth-int\",", ascii "nonce=\"" ++ authRealm ++ ascii "\",",
      ascii "opaque=\"" ++ authRealm ++ ascii "\"" ++ httpEol]

def State.printfAll (cfg : Config) : List (List UInt8) → State → Sent UInt32
  | [], s => ⟨0, s⟩
  | text :: texts, s =>
      let a := s.printf cfg text
      let b := a.state.printfAll cfg texts
      ⟨a.count.toUInt32 + b.count, b.state⟩

def sendAuthMessage (cfg : Config) (headers : Option (List UInt8)) (s : State) : Sent UInt32 :=
  let s := ensureFirstLine cfg statusUnauthorized.toUInt16 s
  if s.writer.headersSent then ⟨0, s⟩
  else
    let a := (s.mark .headerBlock).printfAll cfg (challenge cfg)
    let b : Sent UInt32 := match headers with
      | some headers => a.state.print headers
      | none => ⟨0, a.state⟩
    let c := b.state.print httpEol
    let d := c.state.headersSent.print authErrorMsg
    ⟨a.count + b.count + c.count + d.count, d.state⟩

def setBytes : List UInt8 → Writer → UInt16 × Writer
  | [], w => (0, w)
  | b :: bytes, w =>
      let p := setByte b w
      let q := setBytes bytes p.2
      (p.1.toUInt16 + q.1, q.2)

/-- One field of an event, left out when it is empty. -/
def eventField (name data : List UInt8) : List UInt8 :=
  if data.length > 0 then name ++ data ++ [10] else []

/-- `attoHTTPSendEvent`, on the connection being served. -/
def sendEvent (event data : List UInt8) (s : State) : Sent UInt16 :=
  let p := setBytes (eventField (ascii "event:") event ++ eventField (ascii "data:") data ++ [10])
    s.writer
  ⟨p.1, { s with writer := p.2 }⟩

end AttoHTTP
