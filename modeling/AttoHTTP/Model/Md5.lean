import AttoHTTP.Library.Comp
import AttoHTTP.Library.Memory

/-!
# MD5

The functions of `md5.c`, which digest authentication brings in. The data passed in does not overlap
the context.
-/

namespace AttoHTTP
open Library Comp

/-- What is fixed at compile time: the bits of an `unsigned long`, and whether `SET` and `GET` read
the words where they are. -/
structure Machine where
  long : Nat
  wide : 32 ≤ long
  direct : Bool

structure MD5_CTX where
  lo : UInt32
  hi : UInt32
  a : UInt32
  b : UInt32
  c : UInt32
  d : UInt32
  buffer : Mem
  block : Nat → UInt32

inductive MD5_Function
  | F
  | G
  | H
  | H2
  | I
deriving DecidableEq

def MD5_Function.apply (x y z : UInt32) : MD5_Function → UInt32
  | .F => z ^^^ (x &&& (y ^^^ z))
  | .G => y ^^^ (z &&& (x ^^^ y))
  | .H => (x ^^^ y) ^^^ z
  | .H2 => x ^^^ (y ^^^ z)
  | .I => y ^^^ (x ||| ~~~z)

/-- `STEP`: what is stored in its first variable. -/
def STEP (f : MD5_Function) (a b c d x t s : UInt32) : UInt32 :=
  let a := a + (f.apply b c d + x + t)
  let a := (a <<< s) ||| ((a &&& 0xffffffff) >>> (32 - s))
  a + b

inductive Operand
  | SET (n : Nat)
  | GET (n : Nat)
deriving DecidableEq

inductive Variable
  | a
  | b
  | c
  | d
deriving DecidableEq

/-- A use of `STEP`. The other variables follow its first one in the order a, b, c, d, a, … -/
structure StepCall where
  f : MD5_Function
  first : Variable
  x : Operand
  t : UInt32
  s : UInt32

def stepCalls : List StepCall := [
  -- Round 1
  ⟨.F, .a, .SET 0, 0xd76aa478, 7⟩,
  ⟨.F, .d, .SET 1, 0xe8c7b756, 12⟩,
  ⟨.F, .c, .SET 2, 0x242070db, 17⟩,
  ⟨.F, .b, .SET 3, 0xc1bdceee, 22⟩,
  ⟨.F, .a, .SET 4, 0xf57c0faf, 7⟩,
  ⟨.F, .d, .SET 5, 0x4787c62a, 12⟩,
  ⟨.F, .c, .SET 6, 0xa8304613, 17⟩,
  ⟨.F, .b, .SET 7, 0xfd469501, 22⟩,
  ⟨.F, .a, .SET 8, 0x698098d8, 7⟩,
  ⟨.F, .d, .SET 9, 0x8b44f7af, 12⟩,
  ⟨.F, .c, .SET 10, 0xffff5bb1, 17⟩,
  ⟨.F, .b, .SET 11, 0x895cd7be, 22⟩,
  ⟨.F, .a, .SET 12, 0x6b901122, 7⟩,
  ⟨.F, .d, .SET 13, 0xfd987193, 12⟩,
  ⟨.F, .c, .SET 14, 0xa679438e, 17⟩,
  ⟨.F, .b, .SET 15, 0x49b40821, 22⟩,
  -- Round 2
  ⟨.G, .a, .GET 1, 0xf61e2562, 5⟩,
  ⟨.G, .d, .GET 6, 0xc040b340, 9⟩,
  ⟨.G, .c, .GET 11, 0x265e5a51, 14⟩,
  ⟨.G, .b, .GET 0, 0xe9b6c7aa, 20⟩,
  ⟨.G, .a, .GET 5, 0xd62f105d, 5⟩,
  ⟨.G, .d, .GET 10, 0x02441453, 9⟩,
  ⟨.G, .c, .GET 15, 0xd8a1e681, 14⟩,
  ⟨.G, .b, .GET 4, 0xe7d3fbc8, 20⟩,
  ⟨.G, .a, .GET 9, 0x21e1cde6, 5⟩,
  ⟨.G, .d, .GET 14, 0xc33707d6, 9⟩,
  ⟨.G, .c, .GET 3, 0xf4d50d87, 14⟩,
  ⟨.G, .b, .GET 8, 0x455a14ed, 20⟩,
  ⟨.G, .a, .GET 13, 0xa9e3e905, 5⟩,
  ⟨.G, .d, .GET 2, 0xfcefa3f8, 9⟩,
  ⟨.G, .c, .GET 7, 0x676f02d9, 14⟩,
  ⟨.G, .b, .GET 12, 0x8d2a4c8a, 20⟩,
  -- Round 3
  ⟨.H, .a, .GET 5, 0xfffa3942, 4⟩,
  ⟨.H2, .d, .GET 8, 0x8771f681, 11⟩,
  ⟨.H, .c, .GET 11, 0x6d9d6122, 16⟩,
  ⟨.H2, .b, .GET 14, 0xfde5380c, 23⟩,
  ⟨.H, .a, .GET 1, 0xa4beea44, 4⟩,
  ⟨.H2, .d, .GET 4, 0x4bdecfa9, 11⟩,
  ⟨.H, .c, .GET 7, 0xf6bb4b60, 16⟩,
  ⟨.H2, .b, .GET 10, 0xbebfbc70, 23⟩,
  ⟨.H, .a, .GET 13, 0x289b7ec6, 4⟩,
  ⟨.H2, .d, .GET 0, 0xeaa127fa, 11⟩,
  ⟨.H, .c, .GET 3, 0xd4ef3085, 16⟩,
  ⟨.H2, .b, .GET 6, 0x04881d05, 23⟩,
  ⟨.H, .a, .GET 9, 0xd9d4d039, 4⟩,
  ⟨.H2, .d, .GET 12, 0xe6db99e5, 11⟩,
  ⟨.H, .c, .GET 15, 0x1fa27cf8, 16⟩,
  ⟨.H2, .b, .GET 2, 0xc4ac5665, 23⟩,
  -- Round 4
  ⟨.I, .a, .GET 0, 0xf4292244, 6⟩,
  ⟨.I, .d, .GET 7, 0x432aff97, 10⟩,
  ⟨.I, .c, .GET 14, 0xab9423a7, 15⟩,
  ⟨.I, .b, .GET 5, 0xfc93a039, 21⟩,
  ⟨.I, .a, .GET 12, 0x655b59c3, 6⟩,
  ⟨.I, .d, .GET 3, 0x8f0ccc92, 10⟩,
  ⟨.I, .c, .GET 10, 0xffeff47d, 15⟩,
  ⟨.I, .b, .GET 1, 0x85845dd1, 21⟩,
  ⟨.I, .a, .GET 8, 0x6fa87e4f, 6⟩,
  ⟨.I, .d, .GET 15, 0xfe2ce6e0, 10⟩,
  ⟨.I, .c, .GET 6, 0xa3014314, 15⟩,
  ⟨.I, .b, .GET 13, 0x4e0811a1, 21⟩,
  ⟨.I, .a, .GET 4, 0xf7537e82, 6⟩,
  ⟨.I, .d, .GET 11, 0xbd3af235, 10⟩,
  ⟨.I, .c, .GET 2, 0x2ad7d2bb, 15⟩,
  ⟨.I, .b, .GET 9, 0xeb86d391, 21⟩]

structure Registers where
  a : UInt32
  b : UInt32
  c : UInt32
  d : UInt32

/-- `*(MD5_u32plus *)&ptr[p]` on a little-endian machine. -/
def loadWord (ptr : Mem) (p : Nat) : UInt32 :=
  UInt32.ofNat ((ptr p).toNat + (ptr (p + 1)).toNat * 2 ^ 8 + (ptr (p + 2)).toNat * 2 ^ 16 +
    (ptr (p + 3)).toNat * 2 ^ 24)

/-- The value that the other `SET` stores. -/
def assembleWord (ptr : Mem) (p : Nat) : UInt32 :=
  (ptr p).toUInt32 ||| ((ptr (p + 1)).toUInt32 <<< 8) ||| ((ptr (p + 2)).toUInt32 <<< 16) |||
    ((ptr (p + 3)).toUInt32 <<< 24)

/-- The value of an operand, and `ctx->block` afterwards. -/
def Operand.read (direct : Bool) (ptr : Mem) (block : Nat → UInt32) :
    Operand → UInt32 × (Nat → UInt32)
  | .SET n =>
      if direct then (loadWord ptr (n * 4), block)
      else (assembleWord ptr (n * 4), fun k => if k = n then assembleWord ptr (n * 4) else block k)
  | .GET n => if direct then (loadWord ptr (n * 4), block) else (block n, block)

def Registers.step (r : Registers) (call : StepCall) (x : UInt32) : Registers :=
  match call.first with
  | .a => { r with a := STEP call.f r.a r.b r.c r.d x call.t call.s }
  | .d => { r with d := STEP call.f r.d r.a r.b r.c x call.t call.s }
  | .c => { r with c := STEP call.f r.c r.d r.a r.b x call.t call.s }
  | .b => { r with b := STEP call.f r.b r.c r.d r.a x call.t call.s }

def StepCall.run (direct : Bool) (ptr : Mem) (p : Registers × (Nat → UInt32)) (call : StepCall) :
    Registers × (Nat → UInt32) :=
  let (x, block) := call.x.read direct ptr p.2
  (p.1.step call x, block)

structure BodyLoop (w : Nat) where
  r : Registers
  block : Nat → UInt32
  ptr : Mem
  size : BitVec w

/-- `a += saved_a; b += saved_b; c += saved_c; d += saved_d;` -/
def Registers.add (r saved : Registers) : Registers :=
  ⟨r.a + saved.a, r.b + saved.b, r.c + saved.c, r.d + saved.d⟩

def bodyRound (m : Machine) (s : BodyLoop m.long) : BodyLoop m.long × Bool :=
  let p := stepCalls.foldl (StepCall.run m.direct s.ptr) (s.r, s.block)
  let size := s.size - 64
  (⟨p.1.add s.r, p.2, s.ptr.skip 64, size⟩, size != 0)

def body (m : Machine) (ctx : MD5_CTX) (data : Mem) (size : BitVec m.long) :
    Comp (MD5_CTX × Mem) := do
  let s ← doWhile (bodyRound m) ⟨⟨ctx.a, ctx.b, ctx.c, ctx.d⟩, ctx.block, data, size⟩
  pure ({ ctx with a := s.r.a, b := s.r.b, c := s.r.c, d := s.r.d, block := s.block }, s.ptr)

def MD5_Init (ctx : MD5_CTX) : MD5_CTX :=
  { ctx with
    a := 0x67452301
    b := 0xefcdab89
    c := 0x98badcfe
    d := 0x10325476
    lo := 0
    hi := 0 }

def MD5_CTX.count {w : Nat} (ctx : MD5_CTX) (size : BitVec w) : MD5_CTX :=
  let lo := UInt32.ofNat ((BitVec.ofNat w ctx.lo.toNat + size) &&& 0x1fffffff).toNat
  let hi := if lo < ctx.lo then ctx.hi + 1 else ctx.hi
  { ctx with lo, hi := UInt32.ofNat (BitVec.ofNat w hi.toNat + size >>> 29).toNat }

/-- The end of `MD5_Update`: whole blocks, and the rest into the buffer. -/
def updateBlocks (m : Machine) (ctx : MD5_CTX) (data : Mem) (size : BitVec m.long) :
    Comp MD5_CTX := do
  if 64 ≤ size then
    let (ctx, data) ← body m ctx data (size &&& ~~~0x3f)
    let size := size &&& 0x3f
    pure { ctx with buffer := ctx.buffer.memcpy 0 data size.toNat }
  else
    pure { ctx with buffer := ctx.buffer.memcpy 0 data size.toNat }

def MD5_Update (m : Machine) (ctx : MD5_CTX) (data : Mem) (size : BitVec m.long) :
    Comp MD5_CTX := do
  let used := BitVec.ofNat m.long (ctx.lo &&& 0x3f).toNat
  let ctx := ctx.count size
  if used ≠ 0 then
    let available := 64 - used
    if size < available then
      pure { ctx with buffer := ctx.buffer.memcpy used.toNat data size.toNat }
    else
      let ctx := { ctx with buffer := ctx.buffer.memcpy used.toNat data available.toNat }
      let (ctx, _) ← body m ctx ctx.buffer 64
      updateBlocks m ctx (data.skip available.toNat) (size - available)
  else
    updateBlocks m ctx data size

/-- `p[0] = x; p[1] = x >> 8; p[2] = x >> 16; p[3] = x >> 24;` -/
def storeWord (out : Mem) (p : Nat) (x : UInt32) : Mem :=
  (((out.set p x.toUInt8).set (p + 1) (x >>> 8).toUInt8).set (p + 2) (x >>> 16).toUInt8).set (p + 3)
    (x >>> 24).toUInt8

/-- The end of `MD5_Final`: the last block, and the result. -/
def finalBlock (m : Machine) (result : Mem) (ctx : MD5_CTX) (used available : BitVec m.long) :
    Comp (Mem × MD5_CTX) := do
  let ctx := { ctx with buffer := ctx.buffer.memset used.toNat 0 (available - 8).toNat }
  let ctx := { ctx with lo := ctx.lo <<< 3 }
  let ctx := { ctx with buffer := storeWord (storeWord ctx.buffer 56 ctx.lo) 60 ctx.hi }
  let (ctx, _) ← body m ctx ctx.buffer 64
  let result := storeWord (storeWord (storeWord (storeWord result 0 ctx.a) 4 ctx.b) 8 ctx.c) 12 ctx.d
  pure (result,
    ⟨0, 0, 0, 0, 0, 0, ctx.buffer.memset 0 0 64, fun k => if k < 16 then 0 else ctx.block k⟩)

def MD5_Final (m : Machine) (result : Mem) (ctx : MD5_CTX) : Comp (Mem × MD5_CTX) := do
  let used := BitVec.ofNat m.long (ctx.lo &&& 0x3f).toNat
  let ctx := { ctx with buffer := ctx.buffer.set used.toNat 0x80 }
  let used := used + 1
  let available := 64 - used
  if available < 8 then
    let ctx := { ctx with buffer := ctx.buffer.memset used.toNat 0 available.toNat }
    let (ctx, _) ← body m ctx ctx.buffer 64
    finalBlock m result ctx 0 64
  else
    finalBlock m result ctx used available

end AttoHTTP
