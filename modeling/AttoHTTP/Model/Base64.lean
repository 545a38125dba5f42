import AttoHTTP.Library.Comp
import AttoHTTP.Library.Memory

/-!
# Base64

The two functions for the credentials. The characters are signed; the shifts are done on `int`.
-/

namespace AttoHTTP
open Library Comp

def base64data : List UInt8 :=
  ascii "ABCDEFGHIJKLMNOPQRSTUVWXYZabcdefghijklmnopqrstuvwxyz0123456789+/="

structure Base64Loop where
  i : UInt16
  o : UInt16
  output : Mem

/-- `output[o++] = c` -/
def Base64Loop.emit (c : UInt8) (t : Base64Loop) : Base64Loop :=
  { t with output := t.output.set t.o.toNat c, o := t.o + 1 }

/-- `if (o >= olen) break;` -/
def Base64Loop.room (olen : UInt16) (t : Base64Loop) : Except Base64Loop Base64Loop :=
  if olen ≤ t.o then .error t else .ok t

def Base64Loop.terminate (olen : UInt16) (t : Base64Loop) : UInt16 × Mem :=
  let o := if olen ≤ t.o then olen - 1 else t.o
  (o, t.output.set o.toNat 0)

/-- A `for` loop over groups whose body may break. -/
def base64Step (ilen width : UInt16) (group : Base64Loop → Except Base64Loop Base64Loop)
    (t : Base64Loop) : Base64Loop × Bool :=
  if t.i < ilen then
    match group t with
    | .ok t => ({ t with i := t.i + width }, true)
    | .error t => (t, false)
  else (t, false)

/-- `(x >> n) & 0x3F` -/
def sextetRight (x : UInt8) (n : Int32) : UInt8 := ((x.toInt8.toInt32 >>> n) &&& 0x3F).toUInt32.toUInt8

/-- `(x << n) & 0x3F` -/
def sextetLeft (x : UInt8) (n : Int32) : UInt8 := ((x.toInt8.toInt32 <<< n) &&& 0x3F).toUInt32.toUInt8

def base64Char (c : UInt8) : UInt8 := base64data.getD c.toNat 0

def encodeGroup (input : Mem) (ilen olen : UInt16) (t : Base64Loop) :
    Except Base64Loop Base64Loop := do
  let i := t.i.toNat
  let t ← t.room olen
  let t := t.emit (base64Char (sextetRight (input i) 2))
  let t ← t.room olen
  let c := sextetLeft (input i) 4
  if i + 1 < ilen.toNat then
    let t := t.emit (base64Char (c ||| sextetRight (input (i + 1)) 4))
    let t ← t.room olen
    let c := sextetLeft (input (i + 1)) 2
    if i + 2 < ilen.toNat then
      let t := t.emit (base64Char (c ||| sextetRight (input (i + 2)) 6))
      let t ← t.room olen
      return t.emit (base64Char (sextetRight (input (i + 2)) 0))
    else
      let t := t.emit (base64Char c)
      let t ← t.room olen
      return t.emit 61
  else
    let t := t.emit (base64Char c)
    let t ← t.room olen
    let t := t.emit 61
    let t ← t.room olen
    return t.emit 61

def base64Encode (input : Mem) (ilen : UInt16) (output : Mem) (olen : UInt16) :
    Comp (UInt16 × Mem) := do
  let t ← doWhile (base64Step ilen 3 (encodeGroup input ilen olen)) ⟨0, 0, output⟩
  pure (t.terminate olen)

def base64DecodeChar (c : UInt8) : Int8 :=
  if 65 ≤ c ∧ c ≤ 90 then (c - 65).toInt8
  else if 97 ≤ c ∧ c ≤ 122 then (c - 97 + 26).toInt8
  else if 48 ≤ c ∧ c ≤ 57 then (c - 48 + 52).toInt8
  else if c = 43 then 62
  else if c = 47 then 63
  else if c = 61 then 64
  else 65

/-- `(high << n & hmask) | (low >> m & lmask)`, stored as a character. -/
def joinSextets (high low : Int8) (n m hmask lmask : Int32) : UInt8 :=
  (((high.toInt32 <<< n) &&& hmask) ||| ((low.toInt32 >>> m) &&& lmask)).toUInt32.toUInt8

def decodeGroup (input : Mem) (ilen olen : UInt16) (t : Base64Loop) :
    Except Base64Loop Base64Loop := do
  let i := t.i.toNat
  let c (k : Nat) : Int8 :=
    if k = 0 ∨ i + k < ilen.toNat then base64DecodeChar (input (i + k)) else 65
  let t ← t.room olen
  if c 1 < 64 then
    let t := t.emit (joinSextets (c 0) (c 1) 2 4 0xFC 0x03)
    let t ← t.room olen
    if c 2 < 64 then
      let t := t.emit (joinSextets (c 1) (c 2) 4 2 0xF0 0x0F)
      let t ← t.room olen
      if c 3 < 64 then
        (t.emit (joinSextets (c 2) (c 3) 6 0 0xC0 0x3F)).room olen
      else .error t
    else .error t
  else .error t

def base64Decode (input : Mem) (ilen : UInt16) (output : Mem) (olen : UInt16) :
    Comp (UInt16 × Mem) := do
  let t ← doWhile (base64Step ilen 4 (decodeGroup input ilen olen)) ⟨0, 0, output⟩
  pure (t.terminate olen)

end AttoHTTP
