import AttoHTTP.Model.Server

/-!
# The wrapper for Unix sockets

`wrapper_unix_sockets.h`: bytes through `select`, `recv` and `send`, and the function that the main loop
of a program calls. The answers of the system are given.
-/

namespace AttoHTTP.UnixSockets
open Library Comp

/-! ## Receiving -/

/-- How `select` for the descriptor ends, and what `recv` for one byte then says. -/
inductive Poll
  /-- `select` fails with `EINTR` -/
  | interrupted
  /-- `select` fails otherwise -/
  | broken
  /-- nothing comes in time -/
  | quiet
  /-- `recv` fails -/
  | failed
  /-- `recv` returns 0 -/
  | closed
  | byte (b : UInt8)
deriving DecidableEq, Repr

/-- The variables of `attoHTTPGetByte`; `exited` when it has ended the process. -/
structure Waiting where
  ret : Int16
  byte : UInt8
  polls : List Poll
  exited : Bool

/-- After the last of the answers nothing comes any more. -/
def getByteStep (t : Waiting) : Waiting × Bool :=
  match t.polls with
  | [] => ({ t with ret := 0 }, false)
  | .interrupted :: polls => ({ t with ret := -1, polls := polls }, true)
  | .broken :: polls => ({ t with ret := -1, polls := polls, exited := true }, false)
  | .quiet :: polls => ({ t with ret := 0, polls := polls }, false)
  | .failed :: polls => ({ t with ret := -1, polls := polls }, true)
  | .closed :: polls => ({ t with ret := 0, polls := polls }, false)
  | .byte b :: polls => ({ t with ret := 1, byte := b, polls := polls }, false)

def getByte (sock : Int16) (byte : UInt8) (polls : List Poll) : Comp Waiting :=
  if 0 < sock then doWhile getByteStep ⟨0, byte, polls, false⟩ else pure ⟨0, byte, polls, false⟩

/-! ## Sending -/

/-- What `send` for one byte says. -/
inductive Send
  | sent
  /-- 0 bytes -/
  | nothing
  /-- it fails with `EINTR` or `EAGAIN` -/
  | again
  /-- it fails otherwise -/
  | failed
deriving DecidableEq, Repr

/-- The variables of `attoHTTPSetByte`, and what has gone out. -/
structure Sending where
  ret : Int16
  sends : List Send
  wire : List UInt8

/-- After the last of the answers every byte goes out. -/
def setByteStep (b : UInt8) (t : Sending) : Sending × Bool :=
  match t.sends with
  | [] => ({ t with ret := 1, wire := t.wire ++ [b] }, false)
  | .sent :: sends => ({ t with ret := 1, sends := sends, wire := t.wire ++ [b] }, false)
  | .nothing :: sends => ({ t with ret := 0, sends := sends }, true)
  | .again :: sends => ({ t with ret := -1, sends := sends }, true)
  | .failed :: sends => ({ t with ret := -1, sends := sends }, false)

/-- `attoHTTPSetByte`; `ret` is 0 at first, so that the loop is entered. -/
def setByte (b : UInt8) (t : Sending) : Comp Sending := doWhile (setByteStep b) { t with ret := 0 }

/-! ## The connections -/

/-- What one accepted connection meets: a client that sends finitely many bytes, and sends to it that
return. `accept` returns no negative descriptor, and for a descriptor that is open `select` fails only
when it is interrupted. -/
structure Guest where
  sock : Int16
  polls : List Poll
  sends : List Send
  readStack : Nat → Mem
  writeStack : Nat → Mem
  checkAuth : CheckAuth
  visit : Nat
  sock_accepted : 0 ≤ sock
  polls_open : .broken ∉ polls

/-- The results of the calls of `attoHTTPGetByte`. -/
def heard : List Poll → List GetByte
  | [] => []
  | .interrupted :: polls => heard polls
  | .broken :: polls => heard polls
  | .quiet :: polls => .timeout :: heard polls
  | .failed :: polls => heard polls
  | .closed :: polls => .timeout :: heard polls
  | .byte b :: polls => .byte b :: heard polls

/-- The results of the calls of `attoHTTPSetByte`. -/
def said : List Send → List Int16
  | [] => []
  | .sent :: sends => 1 :: said sends
  | .nothing :: sends => said sends
  | .again :: sends => said sends
  | .failed :: sends => -1 :: said sends

def Guest.connection (g : Guest) : Connection where
  input := if 0 < g.sock then heard g.polls else []
  atEnd := .timeout
  readStack := g.readStack
  results i := (said g.sends).getD i 1
  writeStack := g.writeStack
  checkAuth := g.checkAuth
  visit := g.visit

/-- How `select` for the listening socket ends, and then `accept`. -/
inductive Knock
  | interrupted
  | broken
  | refused
  | guest (g : Guest)

/-- `sock` is `attoHTTPUnixSock`. -/
structure Process where
  sock : Int32
  state : State

/-- `attoHTTPWrapperMain`, without a result when it ends the process. -/
def wrapperMain (cfg : Config) (knock : Knock) (p : Process) : Comp (Option Process) :=
  if 0 < p.sock then
    match knock with
    | .interrupted => pure (some p)
    | .broken => pure none
    | .refused => pure none
    | .guest g => do
        let s ← execute cfg g.connection p.state
        pure (some { p with state := s })
  else pure (some p)

def wrapperEnd (p : Process) : Process := { p with sock := -1 }

/-! ## Runs -/

/-- What a program does between `attoHTTPWrapperInit` and its end. -/
inductive Turn
  | register (call : Registration)
  | main (knock : Knock)
  | stop

inductive Turns (cfg : Config) (p : Process) : Turn → Process → Prop
  | register (call : Registration) :
      Turns cfg p (.register call)
        { p with state := { p.state with registry := (call.apply cfg p.state.registry).2 } }
  | main {knock : Knock} {q : Process} (returned : (wrapperMain cfg knock p).Returns (some q)) :
      Turns cfg p (.main knock) q
  | stop : Turns cfg p .stop (wrapperEnd p)

end AttoHTTP.UnixSockets
