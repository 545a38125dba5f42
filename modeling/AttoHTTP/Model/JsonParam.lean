import AttoHTTP.Model.Output
import AttoHTTP.Model.Reader

/-! # JSON parameters from the body -/

namespace AttoHTTP
open Library Comp

structure JsonLoop where
  ret : Int8
  c : UInt8
  name : Mem
  nameAt : Nat
  nameLen : UInt8
  value : Mem
  valueAt : Nat
  valueLen : UInt8
  sqlevel : UInt8
  dqlevel : UInt8
  divider : UInt8
  json : JsonState
  reader : Reader

def JsonState.level (j : JsonState) : UInt8 := j.cblevel + j.sblevel

/-- Stores an ordinary character, to the name until a divider has been seen. -/
def storeJsonChar (t : JsonLoop) : JsonLoop :=
  if 0 < t.nameLen then
    if 1 < t.nameLen then
      { t with name := t.name.set t.nameAt t.c, nameAt := t.nameAt + 1, nameLen := t.nameLen - 1 }
    else t
  else if 1 < t.valueLen then
    { t with value := t.value.set t.valueAt t.c, valueAt := t.valueAt + 1, valueLen := t.valueLen - 1 }
  else t

/-- Follows the brackets of a nested value; `true` when it has been closed. -/
def nestJson (c : UInt8) (j : JsonState) : JsonState × Bool :=
  if c = 123 then ({ j with cblevel := j.cblevel + 1 }, false)
  else if c = 125 then ({ j with cblevel := j.cblevel - 1 }, j.cblevel - 1 ≤ 1)
  else if c = 91 then ({ j with sblevel := j.sblevel + 1 }, false)
  else if c = 93 then ({ j with sblevel := j.sblevel - 1 }, j.sblevel - 1 = 1)
  else (j, false)

def openJson (c : UInt8) (j : JsonState) : JsonState :=
  if j.baselevel = 0 then { j with baselevel := c } else j

def jsonChar (t : JsonLoop) : JsonLoop × Bool :=
  let j := t.json
  let c := t.c
  if c = 58 ∧ j.cblevel = 1 ∧ j.sblevel = 0 ∧ t.sqlevel ≠ 1 ∧ t.dqlevel ≠ 1 then
    ({ t with nameLen := 0, divider := c }, true)
  else if isSpace c ∧ t.sqlevel = 0 ∧ t.dqlevel = 0 ∧ j.level ≤ 1 then (t, true)
  else if c = 44 ∧ j.level = 1 then (t, false)
  else if c = 39 ∧ j.level ≤ 1 ∧ t.dqlevel = 0 then
    ({ t with sqlevel := if t.sqlevel = 1 then 0 else 1 }, true)
  else if c = 34 ∧ j.level ≤ 1 ∧ t.sqlevel = 0 then
    ({ t with dqlevel := if t.dqlevel = 1 then 0 else 1 }, true)
  else if c = 123 ∧ j.level = 0 then
    ({ t with json := openJson c { j with cblevel := j.cblevel + 1 } }, true)
  else if c = 125 ∧ j.cblevel ≤ 1 ∧ j.baselevel = 123 then
    ({ t with json := { j with cblevel := j.cblevel - 1 }, reader := pushC c t.reader }, false)
  else if c = 91 ∧ j.level = 0 then
    ({ t with json := openJson c { j with sblevel := j.sblevel + 1 } }, true)
  else if c = 93 ∧ j.sblevel = 1 ∧ j.baselevel = 91 then
    ({ t with json := { j with sblevel := j.sblevel - 1 } }, false)
  else
    let p := nestJson c j
    ({ storeJsonChar t with json := p.1 }, !p.2)

def jsonStep (t : JsonLoop) : JsonLoop × Bool :=
  let g := readC t.c t.reader
  let t := { t with ret := g.ret, c := g.c, reader := g.reader }
  if 0 < t.ret ∧ t.c ≠ 0 then
    let p := jsonChar t
    (p.1, p.2 && (0 < p.1.valueLen && p.1.ret ≠ 0))
  else (t, false)

/-- `snprintf` of a number, which stores nothing when there is no room at all. -/
def snprintfDecimal (buffer : Mem) (size : Nat) (n : Nat) : Mem :=
  if size = 0 then buffer else vsnprintf buffer size (decimal n)

structure JsonParam where
  ret : UInt8
  name : Mem
  value : Mem
  reader : Reader
  json : JsonState

/-- Ends the two strings; an element without a key is given the counter as its name. -/
def finishJson (nameLen valueLen : UInt8) (t : JsonLoop) : JsonParam :=
  let value := t.value.set t.valueAt 0
  let name := t.name.set t.nameAt 0
  if t.divider = 0 ∧ t.nameAt ≠ 0 then
    ⟨1, snprintfDecimal name nameLen.toNat t.json.counter.toNat,
      value.strncpy (name.cstr valueLen.toNat) valueLen.toNat, t.reader,
      { t.json with counter := t.json.counter + 1 }⟩
  else ⟨if t.nameLen = 0 then 1 else 0, name, value, t.reader, t.json⟩

def parseJSONParam (name : Mem) (nameLen : UInt8) (value : Mem) (valueLen : UInt8)
    (r : Reader) (j : JsonState) : Comp JsonParam := do
  let t ← doWhile jsonStep
    ⟨0, r.frame 0, name, 0, nameLen, value, 0, valueLen, 0, 0, 0, j, r.enter⟩
  pure (finishJson nameLen valueLen t)

end AttoHTTP
