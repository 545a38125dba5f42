import AttoHTTP.Model.Reader

/-! # The request line -/

namespace AttoHTTP
open Library Comp

/-- The size of the buffers of `_attoHTTPParseMethod` and `_attoHTTPParseVersion`. -/
def tokenSize : Nat := 10

def findMethod (buffer : Mem) : Option HttpMethod :=
  knownMethods.find? fun m => strncmpEq (.ofBytes m.name) buffer tokenSize

def parseMethod (r : Reader) (q : Request) : Comp Parsed := do
  let buffer := r.frame
  let t ← parseSpace r.enter
  if 0 < t.ret then
    let f ← fill isBlank (fun ret => 0 < ret) (tokenSize - 1) buffer t.reader
    let buffer := f.buffer.set f.ptr 0
    match findMethod buffer with
    | some m => pure ⟨f.ret, f.reader, { q with method := m }⟩
    | none => pure ⟨f.ret, f.reader, { q with returnCode := statusUnsupported }⟩
  else
    pure ⟨t.ret, t.reader, { q with returnCode := statusInternalError }⟩

def parseURLStep (cfg : Config) (p : Parsed) : Parsed × Bool :=
  let q := p.request
  let g := readC (q.url q.urlLen) p.reader
  let q := { q with url := q.url.set q.urlLen g.c }
  if isBlank g.c then (⟨g.ret, g.reader, q⟩, false)
  else
    let q := if g.c = 63 then
        { q with
          url := q.url.set q.urlLen 0
          urlParams := .url (q.urlLen + 1)
          urlParamsStart := q.urlLen + 1 }
      else q
    let q := { q with urlLen := q.urlLen + 1 }
    (⟨g.ret, g.reader, q⟩, g.ret ≠ 0 && q.urlLen < cfg.urlBufferSize - 1)

def parseURL (cfg : Config) (r : Reader) (q : Request) : Comp Parsed := do
  let t ← parseSpace r
  if 0 < t.ret then
    let p ← doWhile (parseURLStep cfg) ⟨t.ret, t.reader, { q with urlLen := 0 }⟩
    let q := p.request
    -- What does not fit into the buffer is read and dropped.
    let g ← whileDo (fun g => g.ret ≠ 0 && !isBlank g.c) (fun g => readC g.c g.reader)
      ⟨p.ret, q.url q.urlLen, p.reader⟩
    pure ⟨g.ret, pushC g.c g.reader, { q with url := q.url.set q.urlLen 0 }⟩
  else
    pure ⟨t.ret, t.reader, q⟩

def findVersion (buffer : Mem) (ptr : Nat) : HttpVersion :=
  if strncmpEq (.ofBytes httpVersion10) buffer ptr then .v1_0
  else if strncmpEq (.ofBytes httpVersion11) buffer ptr then .v1_1
  else .unknown

def parseVersion (r : Reader) (q : Request) : Comp Parsed := do
  let buffer := r.frame
  let t ← parseSpace r.enter
  if 0 < t.ret then
    let f ← fill isSpace (fun ret => ret ≠ 0) (tokenSize - 1) buffer t.reader
    let c := f.buffer f.ptr
    let buffer := f.buffer.set f.ptr 0
    parseEOL (pushC c f.reader) { q with version := findVersion buffer f.ptr }
  else
    parseEOL t.reader q

end AttoHTTP
