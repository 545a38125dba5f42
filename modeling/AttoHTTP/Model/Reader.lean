import AttoHTTP.Model.State

namespace AttoHTTP
open Library Comp

/-- The memory the next call finds in its automatic variables. -/
def Reader.frame (r : Reader) : Mem := r.stack 0

def Reader.enter (r : Reader) : Reader := { r with stack := fun i => r.stack (i + 1) }

structure Got where
  ret : Int8
  c : UInt8
  reader : Reader

def getByte (c : UInt8) (r : Reader) : Got :=
  match r.input with
  | [] => ⟨r.atEnd.ret, r.atEnd.store c, r⟩
  | e :: rest => ⟨e.ret, e.store c, { r with input := rest }⟩

def readC (c : UInt8) (r : Reader) : Got :=
  match r.extraC with
  | some e => if e ≠ 0 then ⟨1, e, { r with extraC := none }⟩ else getByte c r
  | none => getByte c r

def pushC (c : UInt8) (r : Reader) : Reader := { r with extraC := some c }

structure Scanned where
  ret : Int8
  reader : Reader

def parseSpaceStep (g : Got) : Got × Bool :=
  let g := readC g.c g.reader
  (g, isBlank g.c && 0 < g.ret)

def parseSpace (r : Reader) : Comp Scanned := do
  let g ← doWhile parseSpaceStep ⟨1, r.frame 0, r.enter⟩
  pure ⟨g.ret, pushC g.c g.reader⟩

/-- The outcome of a parser: what it returns and what it has read and found. -/
structure Parsed where
  ret : Int8
  reader : Reader
  request : Request

/-- `ret` is unsigned here, unlike in the other loops. -/
structure EolLoop where
  ret : UInt8
  c : UInt8
  eolCount : Nat
  reader : Reader

def parseEOLStep (t : EolLoop) : EolLoop × Bool :=
  let g := readC t.c t.reader
  let t : EolLoop :=
    ⟨g.ret.toUInt8, g.c, if g.c = 10 then t.eolCount + 1 else t.eolCount, g.reader⟩
  (t, (isSpace t.c || t.eolCount == 0) && 0 < t.ret && t.eolCount < 2)

def parseEOL (r : Reader) (q : Request) : Comp Parsed := do
  let t ← doWhile parseEOLStep ⟨1, r.frame 0, 0, r.enter⟩
  pure ⟨t.ret.toInt8, pushC t.c t.reader,
    if 1 < t.eolCount then { q with headersDone := true } else q⟩

/-! ## Filling a buffer

The loops over the method, the version, a header's name and its value differ in the bytes that
end them, in the read results that let them go on, and in the room they have. -/

structure Fill where
  ret : Int8
  buffer : Mem
  ptr : Nat
  reader : Reader

def fillStep (stop : UInt8 → Bool) (more : Int8 → Bool) (room : Nat) (f : Fill) : Fill × Bool :=
  let g := readC (f.buffer f.ptr) f.reader
  let buffer := f.buffer.set f.ptr g.c
  if stop g.c then (⟨g.ret, buffer, f.ptr, g.reader⟩, false)
  else (⟨g.ret, buffer, f.ptr + 1, g.reader⟩, more g.ret && f.ptr + 1 < room)

def fill (stop : UInt8 → Bool) (more : Int8 → Bool) (room : Nat) (buffer : Mem) (r : Reader) :
    Comp Fill :=
  doWhile (fillStep stop more room) ⟨1, buffer, 0, r⟩

end AttoHTTP
