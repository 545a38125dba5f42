import AttoHTTP.Model.Config
import AttoHTTP.Library.Script

/-!
# The state of the server

The globals of `attohttp.c`, grouped by the functions that touch them, and the two ends of the
connection being served. `stack` holds what the automatic variables of the next calls contain
before they are assigned; each call takes the first block.
-/

namespace AttoHTTP
open Library

/-! ## The connection -/

/-- What one call of `attoHTTPGetByte` does. -/
inductive GetByte
  /-- stores the byte and returns 1 -/
  | byte (b : UInt8)
  /-- stores 0 and returns 0 -/
  | zero
  /-- returns 0, the byte is left as it was -/
  | timeout
  /-- returns -1, the byte is left as it was -/
  | error
deriving DecidableEq, Repr

def GetByte.ret : GetByte → Int8
  | .byte _ => 1
  | .zero => 0
  | .timeout => 0
  | .error => -1

def GetByte.store : GetByte → UInt8 → UInt8
  | .byte b, _ => b
  | .zero, _ => 0
  | .timeout, c => c
  | .error, c => c

/-- The read side: what the connection delivers, then `atEnd` for ever, and the pushed-back byte. -/
structure Reader where
  input : List GetByte
  atEnd : GetByte
  extraC : Option UInt8
  stack : Nat → Mem

/-- A call of a public function by the user's callback. -/
inductive ApiCall
  | firstLine (code : UInt16)
  | sendHeaders
  | restSendHeaders (code : UInt16) (type : List UInt8) (headers : Option (List UInt8))
  | print (text : List UInt8)
  | printf (expansion : List UInt8)
  | write (bytes : List UInt8)
  | sendEvent (event data : List UInt8)
  | parseParam (name : Mem) (nameLen : UInt8) (value : Mem) (valueLen : UInt8)
  | getRawParamChar (c : UInt8)

/-- What the function returns, with the caller's buffers where it stores into them. -/
def ApiCall.Reply : ApiCall → Type
  | .firstLine _ => UInt16
  | .sendHeaders => UInt16
  | .restSendHeaders .. => UInt16
  | .print _ => UInt32
  | .printf _ => UInt16
  | .write _ => UInt32
  | .sendEvent .. => UInt16
  | .parseParam .. => UInt8 × Mem × Mem
  | .getRawParamChar _ => UInt8 × UInt8

structure CallbackArgs where
  method : HttpMethod
  accepted : UInt16
  command : List (Option Mem)
  id : List (Option Mem)
  cmdlvl : Nat
  idlvl : Nat

/-- `attoHTTPDefAPICallback`; the first argument is what the user's own state was on entry. -/
abbrev Callback := Nat → CallbackArgs → Script ApiCall ApiCall.Reply ReturnCode

/-- What a request is seen to do, in order; only `wrote` is on the wire. -/
inductive Event
  | wrote (b : UInt8)
  | statusLine (code : UInt16)
  | headerBlock
  | pageContent
  | eventStream
  | callback (args : CallbackArgs)
  | call (op : ApiCall)
  | returned (code : ReturnCode)

/-- The write side: the results of the coming `attoHTTPSetByte` calls and what has happened. -/
structure Writer where
  headersSent : Bool
  firstlineSent : Bool
  results : Nat → Int16
  stack : Nat → Mem
  trace : List Event

/-! ## The globals -/

/-- `_attoHTTP_url_params`: a number of cells past address zero, or an offset into the URL buffer. -/
inductive UrlPtr
  | null (offset : Nat)
  | url (offset : Nat)
deriving DecidableEq, Repr

def UrlPtr.next : UrlPtr → UrlPtr
  | .null i => .null (i + 1)
  | .url i => .url (i + 1)

/-- The result for one Authorization header: the checker's, if a scheme was recognised. -/
abbrev Verdict := Option Int8

/-- What the parsers find out about the request. `authLog` and `paramLog` are bookkeeping of the
model: the Authorization headers parsed and the places the URL parameter reader delivered. -/
structure Request where
  method : HttpMethod
  version : HttpVersion
  url : Mem
  urlParams : UrlPtr
  urlParamsStart : Nat
  urlLen : Nat
  headersDone : Bool
  returnCode : ReturnCode
  accept : UInt16
  contenttype : MimeType
  contentlength : UInt32
  authenticated : UInt8
  lowMemory : Mem
  authLog : List Verdict
  paramLog : List UrlPtr

structure JsonState where
  cblevel : UInt8
  sblevel : UInt8
  baselevel : UInt8
  counter : UInt8

/-- `attoHTTPPage_t`; `content` is `none` for NULL. -/
structure Page where
  url : Mem
  content : Option Mem
  size : UInt32
  type : MimeType

structure Registry where
  pages : Nat → Page
  defaultPage : Page
  callback : Option Callback
  eventsPage : Mem

structure State where
  reader : Reader
  request : Request
  json : JsonState
  writer : Writer
  registry : Registry

/-- The function the user supplies in the auth builds, for the n-th call in a request. -/
abbrev CheckAuth := Nat → AuthType → Mem → Int8

/-- One connection: both ends, the checker, the user's state and the memory calls start with. -/
structure Connection where
  input : List GetByte
  atEnd : GetByte
  readStack : Nat → Mem
  results : Nat → Int16
  writeStack : Nat → Mem
  checkAuth : CheckAuth
  visit : Nat

def Request.initRun (cfg : Config) (q : Request) : Request :=
  { q with
    authenticated := if cfg.auth = .none then 1 else 0
    method := .notSupported
    version := .unknown
    urlLen := 0
    headersDone := false
    returnCode := statusUnknown
    urlParams := .null 0
    urlParamsStart := cfg.urlBufferSize
    accept := UInt16.ofNat MimeType.textHtml.index
    contenttype := .textHtml
    contentlength := 0
    authLog := []
    paramLog := [] }

def State.initRun (cfg : Config) (s : State) : State :=
  { s with
    reader := { s.reader with extraC := none }
    request := s.request.initRun cfg
    json := ⟨0, 0, 0, 0⟩
    writer := { s.writer with headersSent := false, firstlineSent := false } }

end AttoHTTP
