import AttoHTTP.Model.Output
import AttoHTTP.Model.Reader

/-! # URL-encoded parameters, from the URL or from the body -/

namespace AttoHTTP
open Library Comp

def UrlPtr.load (q : Request) : UrlPtr → UInt8
  | .null i => q.lowMemory i
  | .url i => q.url i

structure ParamGot where
  ret : UInt8
  c : UInt8
  reader : Reader
  request : Request

/-- Reads the body, leaving out white space and question marks. -/
def bodyParamStep (g : ParamGot) : ParamGot × Bool :=
  let p := readC g.c g.reader
  (⟨p.ret.toUInt8, p.c, p.reader, g.request⟩, p.ret.toUInt8 == 1 && (isSpace p.c || p.c == 63))

def parseURLParamChar (cfg : Config) (c : UInt8) (r : Reader) (q : Request) : Comp ParamGot :=
  if q.method = .get then
    let start := (q.urlParamsStart + 1) % 2 ^ 16
    if q.urlParamsStart < cfg.urlBufferSize then
      pure ⟨1, q.urlParams.load q, r,
        { q with
          urlParamsStart := start
          urlParams := q.urlParams.next
          paramLog := q.paramLog ++ [q.urlParams] }⟩
    else pure ⟨0, c, r, { q with urlParamsStart := start }⟩
  else doWhile bodyParamStep ⟨0, c, r, q⟩

def hexDigit (c : UInt8) : Option Nat :=
  if 48 ≤ c ∧ c ≤ 57 then some (c.toNat - 48)
  else if 65 ≤ c ∧ c ≤ 70 then some (c.toNat - 55)
  else if 97 ≤ c ∧ c ≤ 102 then some (c.toNat - 87)
  else none

def hexPrefixValue : Nat → List UInt8 → Nat
  | acc, [] => acc
  | acc, c :: text =>
      match hexDigit c with
      | some d => hexPrefixValue (16 * acc + d) text
      | none => acc

/-- `strtol(text, NULL, 16)`, as far as the two characters of an escape can take it. -/
def strtol16 (text : List UInt8) : Int :=
  let text := text.dropWhile isSpace
  let negative := text.head? = some 45
  let text := if text.head? = some 45 ∨ text.head? = some 43 then text.tail else text
  let magnitude := hexPrefixValue 0 text
  if negative then -magnitude else magnitude

structure UrlParamLoop where
  ret : Int8
  c : UInt8
  decode : Mem
  count : Nat
  name : Mem
  nameAt : Nat
  nameLen : UInt8
  value : Mem
  valueAt : Nat
  valueLen : UInt8
  reader : Reader
  request : Request

/-- Reads the two characters after a percent sign; what does not arrive stays as it was. -/
def decodeEscape (cfg : Config) (t : UrlParamLoop) : Comp UrlParamLoop := do
  let a ← parseURLParamChar cfg (t.decode 0) t.reader t.request
  let b ← parseURLParamChar cfg (t.decode 1) a.reader a.request
  let decode := ((t.decode.set 0 a.c).set 1 b.c).set 2 0
  pure { t with
    c := UInt8.ofInt (strtol16 (decode.cstr 3)), decode := decode
    reader := b.reader, request := b.request }

def storeParamChar (t : UrlParamLoop) : UrlParamLoop :=
  if 0 < t.nameLen then
    { t with
      count := t.count + 1, name := t.name.set t.nameAt t.c, nameAt := t.nameAt + 1
      nameLen := t.nameLen - 1 }
  else
    { t with
      value := t.value.set t.valueAt t.c, valueAt := t.valueAt + 1, valueLen := t.valueLen - 1 }

def urlParamBody (cfg : Config) (t : UrlParamLoop) : Comp (UrlParamLoop × Bool) := do
  let p ← parseURLParamChar cfg t.c t.reader t.request
  let t := { t with ret := p.ret.toInt8, c := p.c, reader := p.reader, request := p.request }
  let again (t : UrlParamLoop) : UrlParamLoop × Bool := (t, 0 < t.valueLen && t.ret ≠ 0)
  if 0 < t.ret ∧ t.c ≠ 0 then
    if t.c = 61 then pure (again { t with nameLen := 0 })
    else if t.c = 38 ∨ isSpace t.c then pure (if 0 < t.count then (t, false) else again t)
    else if t.c = 37 then do
      let t ← decodeEscape cfg t
      pure (again (storeParamChar t))
    else pure (again (storeParamChar t))
  else pure (t, false)

/-- What the function returns, with the caller's buffers. -/
structure UrlParam where
  ret : UInt8
  name : Mem
  value : Mem
  reader : Reader
  request : Request

def parseURLParam (cfg : Config) (name : Mem) (nameLen : UInt8) (value : Mem) (valueLen : UInt8)
    (r : Reader) (q : Request) : Comp UrlParam := do
  let t ← doWhileM (urlParamBody cfg)
    ⟨0, r.frame 0, r.frame.skip 1, 0, name, 0, nameLen, value, 0, valueLen, r.enter, q⟩
  pure ⟨if t.nameLen = 0 then 1 else 0, t.name.set t.nameAt 0, t.value.set t.valueAt 0,
    t.reader, t.request⟩

end AttoHTTP
