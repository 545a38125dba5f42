import AttoHTTP.Model.Registry
import AttoHTTP.Model.UrlParam
import AttoHTTP.Model.JsonParam

namespace AttoHTTP
open Library Comp

/-! ## The interface of the callback -/

structure ParamReply where
  reply : UInt8 × Mem × Mem
  state : State

def State.parseURLParam (cfg : Config) (name : Mem) (nameLen : UInt8) (value : Mem)
    (valueLen : UInt8) (s : State) : Comp ParamReply := do
  let p ← AttoHTTP.parseURLParam cfg name nameLen value valueLen s.reader s.request
  pure ⟨(p.ret, p.name, p.value), { s with reader := p.reader, request := p.request }⟩

def State.parseJSONParam (name : Mem) (nameLen : UInt8) (value : Mem) (valueLen : UInt8)
    (s : State) : Comp ParamReply := do
  let p ← AttoHTTP.parseJSONParam name nameLen value valueLen s.reader s.json
  pure ⟨(p.ret, p.name, p.value), { s with reader := p.reader, json := p.json }⟩

def parseParam (cfg : Config) (name : Mem) (nameLen : UInt8) (value : Mem) (valueLen : UInt8)
    (s : State) : Comp ParamReply :=
  let name := name.set 0 0
  let value := value.set 0 0
  match s.request.method with
  | .get => s.parseURLParam cfg name nameLen value valueLen
  | .post | .put | .patch | .delete =>
      if s.request.contenttype = .applicationXWwwFormUrlencoded then
        s.parseURLParam cfg name nameLen value valueLen
      else s.parseJSONParam name nameLen value valueLen
  | .notSupported => pure ⟨(0, name, value), s⟩

def getRawParamChar (c : UInt8) (s : State) : (UInt8 × UInt8) × State :=
  let g := readC c s.reader
  ((g.ret.toUInt8, g.c), { s with reader := g.reader })

def apply (cfg : Config) (s : State) : (op : ApiCall) → Comp (op.Reply × State)
  | .firstLine code => let p := firstLine cfg code s; pure (p.count, p.state)
  | .sendHeaders => let p := sendHeaders cfg s; pure (p.count, p.state)
  | .restSendHeaders code type headers =>
      let p := restSendHeaders cfg code type headers s
      pure (p.count, p.state)
  | .print text => let p := s.print text; pure (p.count, p.state)
  | .printf expansion => let p := s.printf cfg expansion; pure (p.count, p.state)
  | .write bytes => let p := s.write bytes; pure (p.count, p.state)
  | .sendEvent event data => let p := sendEvent event data s; pure (p.count, p.state)
  | .parseParam name nameLen value valueLen => do
      let p ← parseParam cfg name nameLen value valueLen s
      pure (p.reply, p.state)
  | .getRawParamChar c => pure (getRawParamChar c s)

/-- A call by the callback, which the trace records. -/
def handle (cfg : Config) (op : ApiCall) (s : State) : Comp (op.Reply × State) :=
  apply cfg (s.mark (.call op)) op

/-! ## The API callback -/

/-- `_attoHTTPFindAPICallback` cutting the URL; the pointers are offsets into it. -/
structure PathLoop where
  url : Mem
  pos : Nat
  cmdlvl : Nat
  idlvl : Nat
  command : Nat → Option Nat
  id : Nat → Option Nat

def cutSlash (levels ctr : Nat) (t : PathLoop) : PathLoop :=
  let t :=
    if t.cmdlvl = t.idlvl ∧ t.cmdlvl < levels then
      -- A slash at the end starts no level.
      if 1 < ctr then
        { t with
          command := fun k => if k = t.cmdlvl then some (t.pos + 1) else t.command k
          cmdlvl := t.cmdlvl + 1 }
      else t
    else if t.idlvl < t.cmdlvl ∧ t.idlvl < levels then
      if 1 < ctr then
        { t with
          id := fun k => if k = t.idlvl then some (t.pos + 1) else t.id k
          idlvl := t.idlvl + 1 }
      else t
    else t
  { t with url := t.url.set t.pos 0 }

/-- The loop counts `ctr` down from the length of the URL. -/
def cutPath (levels : Nat) : Nat → PathLoop → PathLoop
  | 0, t => t
  | ctr + 1, t =>
      if t.url t.pos = 0 then t
      else
        let t := if t.url t.pos = 47 then cutSlash levels (ctr + 1) t else t
        cutPath levels ctr { t with pos := t.pos + 1 }

/-- The loop that sets the pointers to NULL; its counter has eight bits. -/
def clearLevels (levels : Nat) : Comp UInt8 :=
  whileDo (fun i => decide (i.toNat < levels)) (fun i => i + 1) 0

/-- The function up to the call, for any number of levels a build may ask for. -/
def splitURL (levels : Nat) (url : Mem) (urlLen : Nat) : Comp PathLoop := do
  let _ ← clearLevels levels
  pure (cutPath levels urlLen ⟨url, 0, 0, 0, fun _ => none, fun _ => none⟩)

def runCallback (cfg : Config) (callback : Callback) (visit : Nat) (args : CallbackArgs)
    (s : State) : Comp State := do
  let p ← (callback visit args).run (handle cfg) (s.mark (.callback args))
  let s := p.2.mark (.returned p.1)
  pure { s with request := { s.request with returnCode := p.1 } }

structure Found where
  ret : Int8
  state : State

def findAPICallback (cfg : Config) (visit : Nat) (s : State) : Comp Found :=
  match s.registry.callback with
  | none => pure ⟨0, s⟩
  | some callback =>
      let t := cutPath cfg.apiLevels s.request.urlLen
        ⟨s.request.url, 0, 0, 0, fun _ => none, fun _ => none⟩
      let s := { s with request := { s.request with url := t.url } }
      let pointers (p : Nat → Option Nat) : List (Option Mem) :=
        (List.range cfg.apiLevels).map fun k => (p k).map t.url.skip
      if 0 < t.cmdlvl then do
        let s ← runCallback cfg callback visit ⟨s.request.method, s.request.accept,
          pointers t.command, pointers t.id, t.cmdlvl, t.idlvl⟩ s
        pure ⟨1, s⟩
      else
        pure ⟨1, { s with request := { s.request with returnCode := statusInternalError } }⟩

/-! ## The pages -/

def checkPage (cfg : Config) (q : Request) (p : Page) : Bool :=
  !p.empty && strncmpEq q.url p.url cfg.pageUrlSize

/-- The macro `_attoHTTPDefaultPage`. -/
def isDefaultPath (cfg : Config) (q : Request) (g : Registry) : Bool :=
  !g.defaultPage.empty && strncmpEq q.url (.ofBytes (ascii "/")) cfg.urlBufferSize && q.urlLen == 1

def isEventsPath (cfg : Config) (q : Request) (g : Registry) : Bool :=
  g.eventsPage 0 != 0 && strncmpEq q.url g.eventsPage cfg.urlBufferSize

def findPageEntry (cfg : Config) (q : Request) (g : Registry) : Option Page :=
  if isDefaultPath cfg q g || checkPage cfg q g.defaultPage then some g.defaultPage
  else ((List.range cfg.pageBuffers).find? fun i => checkPage cfg q (g.pages i)).map g.pages

def sendPage (cfg : Config) (p : Page) (s : State) : State :=
  let s := { s with
    request := { s.request with
      returnCode := statusOk, contenttype := p.type, contentlength := p.size } }
  let s := (sendHeaders cfg s).state.mark .pageContent
  (s.write ((p.content.getD fun _ => 0).bytes p.size.toNat)).state

def findPage (cfg : Config) (visit : Nat) (s : State) : Comp Found :=
  match findPageEntry cfg s.request s.registry with
  | some p =>
      if s.request.method = .get then pure ⟨1, sendPage cfg p s⟩
      else
        pure ⟨-1, { s with request := { s.request with returnCode := statusUnsupported } }⟩
  | none =>
      if isEventsPath cfg s.request s.registry then
        pure ⟨1, (sendServerSentEventHeaders cfg s).state⟩
      else findAPICallback cfg visit s

end AttoHTTP
