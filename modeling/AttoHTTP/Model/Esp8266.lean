import AttoHTTP.Library.Comp
import Mathlib.Data.UInt

/-!
# The ESP8266 wrapper's connections

`wrapper_esp8266.c`: the table of connections and the callbacks that fill it. `espconn` itself only
delivers the callbacks.
-/

namespace AttoHTTP.Esp8266
open Library Comp

/-- `attoHTTPConnections_t`, without the pointer to the data. -/
structure Slot where
  length : UInt16
  ptr : UInt16
  active : UInt8

/-- The table with the memory behind it, and the pointer each `espconn` carries: NULL or the address
of an entry. -/
structure Wrapper (C : Type) where
  connections : Nat → Slot
  reverse : C → Option Nat

variable {C : Type} [DecidableEq C]

def Wrapper.setSlot (i : Nat) (slot : Slot) (s : Wrapper C) : Wrapper C :=
  { s with connections := fun k => if k = i then slot else s.connections k }

def Wrapper.setReverse (c : C) (slot : Option Nat) (s : Wrapper C) : Wrapper C :=
  { s with reverse := fun d => if d = c then slot else s.reverse d }

def Wrapper.clearServerBuffer (i : Nat) (s : Wrapper C) : Wrapper C :=
  s.setSlot i { active := 0, length := 0, ptr := 0 }

/-- `attoHTTPWrapperInit`: the loop over the table. -/
def wrapperInit (maxConn : Nat) (s : Wrapper C) : Comp (Wrapper C) := do
  let p ← whileDo (fun p => p.1.toNat < maxConn)
    (fun p => (p.1 + 1, p.2.clearServerBuffer p.1.toNat)) ((0 : UInt16), s)
  pure p.2

def connectcb (maxConn : Nat) (c : C) (s : Wrapper C) : Comp (Wrapper C) := do
  let i ← whileDo (fun i => i.toNat < maxConn && (s.connections i.toNat).active != 0)
    (fun i => i + 1) (0 : UInt16)
  if maxConn < i.toNat then pure (s.setReverse c none)
  else
    let s := s.setReverse c (some i.toNat)
    pure (s.setSlot i.toNat { s.connections i.toNat with active := 1 })

def disconnectcb (c : C) (s : Wrapper C) : Wrapper C :=
  let s := match s.reverse c with
    | some i => s.clearServerBuffer i
    | none => s
  s.setReverse c none

/-! ## Runs -/

inductive Callback (C : Type)
  | connect (c : C)
  | disconnect (c : C)

/-- The wrapper between two callbacks; `live` are the connections that have connected and not yet
disconnected. -/
structure Moment (C : Type) where
  wrapper : Wrapper C
  live : List C

/-- A connection connects before it disconnects, and connects once. -/
def Moment.Allows (m : Moment C) : Callback C → Prop
  | .connect c => c ∉ m.live
  | .disconnect c => c ∈ m.live

def Moment.deliver (maxConn : Nat) (m : Moment C) : Callback C → Comp (Moment C)
  | .connect c => do
      let s ← connectcb maxConn c m.wrapper
      pure ⟨s, c :: m.live⟩
  | .disconnect c => pure ⟨disconnectcb c m.wrapper, m.live.filter (· ≠ c)⟩

/-- The moments after callbacks that all meet a condition. -/
inductive Run (maxConn : Nat) (meets : Moment C → Callback C → Prop) (start : Moment C) :
    Moment C → Prop
  | start : Run maxConn meets start start
  | next {m m' : Moment C} {callback : Callback C} (run : Run maxConn meets start m)
      (allowed : m.Allows callback) (condition : meets m callback)
      (delivered : (m.deliver maxConn callback).Returns m') : Run maxConn meets start m'

end AttoHTTP.Esp8266
