import AttoHTTP.Model.RequestLine

/-! # The header lines -/

namespace AttoHTTP
open Library Comp

/-- `_attoHTTPParseHeaders` and the buffers it keeps from one header to the next. -/
structure HeaderLoop where
  ret : Int8
  name : Mem
  value : Mem
  reader : Reader
  request : Request

def parseHeader (cfg : Config) (h : HeaderLoop) : Comp HeaderLoop := do
  let f ← fill (fun c => c == 58) (fun ret => 0 < ret) (cfg.headerNameSize - 1) h.name h.reader
  let name := f.buffer.set f.ptr 0
  let t ← parseSpace f.reader
  let f ← fill (fun c => c == 13 || c == 10) (fun ret => 0 < ret) (cfg.headerValueSize - 1)
    h.value t.reader
  let reader := if f.ptr < cfg.headerValueSize - 1 then pushC (f.buffer f.ptr) f.reader else f.reader
  let value := f.buffer.set f.ptr 0
  let p ← parseEOL reader h.request
  pure ⟨p.ret, name, value, p.reader, p.request⟩

def checkAuth (cfg : Config) (check : CheckAuth) (auth : AuthType) (cred : Mem) (q : Request) :
    Int8 × Request :=
  let ret := if cfg.auth = .none then 0 else check q.authLog.length auth cred
  let q := if cfg.auth = .none then { q with returnCode := statusUnsupported } else q
  (ret, if ret = 0 ∧ q.returnCode = statusUnknown then { q with returnCode := statusUnauthorized }
    else q)

/-- The last of the types whose name is the whole value sets the mask. -/
def acceptRule (cfg : Config) (value : Mem) (accept : UInt16) : UInt16 :=
  mimeTypes.foldl (fun accept t =>
    if strncasecmpEq value (.ofBytes t.name) cfg.headerValueSize then 1 <<< UInt16.ofNat t.index
    else accept) accept

/-- The first of the types whose name is part of the value. -/
def contentTypeRule (cfg : Config) (value : Mem) (contenttype : MimeType) : MimeType :=
  let text := value.cstr cfg.headerValueSize
  (mimeTypes.find? fun t => (strstr text t.name).isSome).getD contenttype

/-- The credentials start one byte after the scheme's name, wherever that is. -/
def authorize (cfg : Config) (check : CheckAuth) (value : Mem) (q : Request) : Request :=
  let text := value.cstr cfg.headerValueSize
  match authTypes.find? fun t => (strstr text t.name).isSome with
  | some t =>
      let start := (strstr text t.name).getD 0 + t.name.length + 1
      let p := checkAuth cfg check t (value.skip start) q
      { p.2 with authenticated := p.1.toUInt8, authLog := p.2.authLog ++ [some p.1] }
  | none => { q with returnCode := statusUnauthorized, authLog := q.authLog ++ [none] }

def recordHeader (cfg : Config) (check : CheckAuth) (name value : Mem) (q : Request) : Request :=
  if strncasecmpEq name (.ofBytes (ascii "accept")) cfg.headerNameSize then
    { q with accept := acceptRule cfg value q.accept }
  else if strncasecmpEq name (.ofBytes (ascii "content-type")) cfg.headerNameSize then
    { q with contenttype := contentTypeRule cfg value q.contenttype }
  else if strncasecmpEq name (.ofBytes (ascii "authorization")) cfg.headerNameSize then
    if cfg.auth = .none then q else authorize cfg check value q
  else q

def parseHeadersBody (cfg : Config) (check : CheckAuth) (h : HeaderLoop) : Comp HeaderLoop := do
  let h ← parseHeader cfg h
  pure { h with request := recordHeader cfg check h.name h.value h.request }

def moreHeaders (h : HeaderLoop) : Bool := !h.request.headersDone && 0 < h.ret

def parseHeaders (cfg : Config) (check : CheckAuth) (r : Reader) (q : Request) : Comp Parsed := do
  let h ← whileDoM moreHeaders (parseHeadersBody cfg check)
    ⟨1, r.frame, r.enter.frame, r.enter.enter, q⟩
  pure ⟨h.ret, h.reader, h.request⟩

def parseRequestLine (cfg : Config) (r : Reader) (q : Request) : Comp Parsed := do
  let p ← parseMethod r q
  if p.request.returnCode = statusUnknown then do
    let p ← parseURL cfg p.reader p.request
    parseVersion p.reader p.request
  else pure p

/-- The parsing part of `attoHTTPExecute`. -/
def parseRequest (cfg : Config) (check : CheckAuth) (r : Reader) (q : Request) : Comp Parsed := do
  let p ← parseRequestLine cfg r q
  if p.request.returnCode = statusUnknown then parseHeaders cfg check p.reader p.request
  else pure p

end AttoHTTP
