import AttoHTTP.Model.Headers
import AttoHTTP.Model.Router

/-!
# Serving connections

`attoHTTPExecute`, and the runs of a server: it is set up and then serves one connection after
another.
-/

namespace AttoHTTP
open Library Comp

/-- The state `attoHTTPExecute` starts parsing in. -/
def State.accept (cfg : Config) (conn : Connection) (s : State) : State :=
  State.initRun cfg { s with
    reader := ⟨conn.input, conn.atEnd, s.reader.extraC, conn.readStack⟩
    writer := ⟨s.writer.headersSent, s.writer.firstlineSent, conn.results, conn.writeStack, []⟩ }

def State.setReturnCode (code : ReturnCode) (s : State) : State :=
  { s with request := { s.request with returnCode := code } }

/-- The part of `attoHTTPExecute` that looks for the page. -/
def respond (cfg : Config) (visit : Nat) (s : State) : Comp State := do
  let s := if s.request.authenticated = 0 then s.setReturnCode statusUnauthorized else s
  let s ← if s.request.returnCode = statusUnknown then do
      let f ← findPage cfg visit (s.setReturnCode statusNotFound)
      pure (if 0 < f.ret ∧ f.state.request.returnCode = statusUnknown then
          f.state.setReturnCode statusOk
        else f.state)
    else pure s
  pure (if s.request.returnCode = statusUnknown then s.setReturnCode statusInternalError else s)

/-- The part of `attoHTTPExecute` that sends the status line if nothing has. -/
def finish (cfg : Config) (s : State) : State :=
  if s.request.returnCode = statusUnauthorized then (sendAuthMessage cfg none s).state
  else if s.request.returnCode = statusServerSentEvents then
    (firstLine cfg statusOk.toUInt16 s).state
  else (firstLine cfg s.request.returnCode.toUInt16 s).state

/-- `attoHTTPExecute`; what it returns is the return code in the state. -/
def execute (cfg : Config) (conn : Connection) (s : State) : Comp State := do
  let s := s.accept cfg conn
  let p ← parseRequest cfg conn.checkAuth s.reader s.request
  let s ← respond cfg conn.visit { s with reader := p.reader, request := p.request }
  pure (finish cfg s)

def Event.byte? : Event → Option UInt8
  | .wrote b => some b
  | _ => none

def State.written (s : State) : List UInt8 := s.writer.trace.filterMap Event.byte?

/-! ## Runs -/

/-- Static storage starts as zeros. -/
def Booted (cfg : Config) (s : State) : Prop := ∀ i, i < cfg.urlBufferSize → s.request.url i = 0

def State.boot : State where
  reader := ⟨[], .zero, none, fun _ _ => 0⟩
  request :=
    { method := .get, version := .unknown, url := fun _ => 0, urlParams := .null 0
      urlParamsStart := 0, urlLen := 0, headersDone := false, returnCode := 0, accept := 0
      contenttype := .applicationJson, contentlength := 0, authenticated := 0
      lowMemory := fun _ => 0, authLog := [], paramLog := [] }
  json := ⟨0, 0, 0, 0⟩
  writer := ⟨false, false, fun _ => 0, fun _ _ => 0, []⟩
  registry :=
    { pages := fun _ => ⟨fun _ => 0, none, 0, .applicationJson⟩
      defaultPage := ⟨fun _ => 0, none, 0, .applicationJson⟩
      callback := none, eventsPage := fun _ => 0 }

/-- A client that sends these bytes, after which reads find nothing. -/
def Connection.ofBytes (bytes : List UInt8) : Connection where
  input := bytes.map .byte
  atEnd := .zero
  readStack _ _ := 0
  results _ := 1
  writeStack _ _ := 0
  checkAuth _ _ _ := 0
  visit := 0

def State.setUp (cfg : Config) (s : State) (calls : List Registration) : State :=
  let s := s.init cfg
  { s with registry := s.registry.registerAll cfg calls }

inductive Serves (cfg : Config) : State → List Connection → State → Prop
  | nil (s : State) : Serves cfg s [] s
  | cons {s s' t : State} {conn : Connection} {rest : List Connection}
      (first : (execute cfg conn s).Returns s') (others : Serves cfg s' rest t) :
      Serves cfg s (conn :: rest) t

/-- The states between two requests. -/
def Reachable (cfg : Config) (s : State) : Prop :=
  ∃ boot calls history, Booted cfg boot ∧ Serves cfg (boot.setUp cfg calls) history s

/-- What a program does with its server: it may set pages up between two connections, or begin
anew. -/
inductive Action
  | init
  | register (call : Registration)
  | serve (conn : Connection)

inductive Acts (cfg : Config) (s : State) : Action → State → Prop
  | init : Acts cfg s .init (s.init cfg)
  | register (call : Registration) :
      Acts cfg s (.register call) { s with registry := (call.apply cfg s.registry).2 }
  | serve {conn : Connection} {t : State} (served : (execute cfg conn s).Returns t) :
      Acts cfg s (.serve conn) t

/-- A program that keeps connections open: `writers` is what it gives to `attoHTTPSendEvent`. -/
structure Host (C : Type) where
  state : State
  writers : C → Writer

inductive Deed (C : Type)
  | register (call : Registration)
  | serve (c : C) (conn : Connection)
  | sendEvent (c : C) (event data : List UInt8)

def Host.setWriter {C : Type} [DecidableEq C] (c : C) (w : Writer) (h : Host C) : Host C :=
  { h with writers := fun d => if d = c then w else h.writers d }

inductive Does {C : Type} [DecidableEq C] (cfg : Config) (h : Host C) : Deed C → Host C → Prop
  | register (call : Registration) :
      Does cfg h (.register call)
        { h with state := { h.state with registry := (call.apply cfg h.state.registry).2 } }
  | serve {c : C} {conn : Connection} {t : State} (served : (execute cfg conn h.state).Returns t) :
      Does cfg h (.serve c conn) { h.setWriter c t.writer with state := t }
  | sendEvent (c : C) (event data : List UInt8) :
      Does cfg h (.sendEvent c event data)
        (h.setWriter c (sendEvent event data { h.state with writer := h.writers c }).state.writer)

end AttoHTTP
