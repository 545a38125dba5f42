import AttoHTTP.Library.BlockHash
import AttoHTTP.Library.Memory
import AttoHTTP.Library.Sine

/-!
# The MD5 message digest

RFC 1321 in its own terms: sixteen little-endian words to a block, four rounds of sixteen operations
on four words, and a message that is filled up with a bit, zeros and its length.
-/

namespace Library.Md5

structure Chain where
  a : UInt32
  b : UInt32
  c : UInt32
  d : UInt32
deriving DecidableEq

def f (x y z : UInt32) : UInt32 := (x &&& y) ||| (~~~x &&& z)

def g (x y z : UInt32) : UInt32 := (x &&& z) ||| (y &&& ~~~z)

def h (x y z : UInt32) : UInt32 := x ^^^ y ^^^ z

def i (x y z : UInt32) : UInt32 := y ^^^ (x ||| ~~~z)

def mix : Nat → UInt32 → UInt32 → UInt32 → UInt32
  | 0 => f
  | 1 => g
  | 2 => h
  | _ => i

def index (round k : Nat) : Nat :=
  match round with
  | 0 => k % 16
  | 1 => (5 * k + 1) % 16
  | 2 => (3 * k + 5) % 16
  | _ => 7 * k % 16

def shift (round k : Nat) : Nat :=
  match round with
  | 0 => [7, 12, 17, 22].getD (k % 4) 0
  | 1 => [5, 9, 14, 20].getD (k % 4) 0
  | 2 => [4, 11, 16, 23].getD (k % 4) 0
  | _ => [6, 10, 15, 21].getD (k % 4) 0

def rotate (x : UInt32) (s : Nat) : UInt32 := ⟨x.toBitVec.rotateLeft s⟩

/-- `b + ((a + mix(b, c, d) + x + t) <<< s)`, after which the words change places. -/
def operation (mix : UInt32 → UInt32 → UInt32 → UInt32) (x t : UInt32) (s : Nat)
    (v : Chain) : Chain :=
  ⟨v.d, v.b + rotate (v.a + mix v.b v.c v.d + x + t) s, v.b, v.c⟩

/-- Four bytes, the lowest first. -/
def wordOf (bytes : List UInt8) : UInt32 :=
  UInt32.ofNat (bytes.foldr (fun byte value => byte.toNat + 256 * value) 0)

def bytesOf (count value : Nat) : List UInt8 :=
  (List.range count).map fun k => UInt8.ofNat (value / 256 ^ k)

def wordAt (block : List UInt8) (n : Nat) : UInt32 := wordOf ((block.drop (4 * n)).take 4)

def scramble (t : Nat → UInt32) (block : List UInt8) (v : Chain) (k : Nat) : Chain :=
  operation (mix (k / 16)) (wordAt block (index (k / 16) k)) (t k) (shift (k / 16) k) v

def Chain.add (v w : Chain) : Chain := ⟨v.a + w.a, v.b + w.b, v.c + w.c, v.d + w.d⟩

def compress (t : Nat → UInt32) (v : Chain) (block : List UInt8) : Chain :=
  ((List.range 64).foldl (scramble t block) v).add v

def start : Chain := ⟨0x67452301, 0xefcdab89, 0x98badcfe, 0x10325476⟩

/-- A single bit, zeros up to 8 bytes less than whole blocks, and the number of bits. -/
def padding (length : Nat) : List UInt8 :=
  0x80 :: (List.replicate ((119 - length % 64) % 64) 0 ++ bytesOf 8 (8 * length))

def Chain.bytes (v : Chain) : List UInt8 :=
  bytesOf 4 v.a.toNat ++ bytesOf 4 v.b.toNat ++ bytesOf 4 v.c.toNat ++ bytesOf 4 v.d.toNat

def digest (t : Nat → UInt32) (message : List UInt8) : List UInt8 :=
  (absorb (compress t) 64 start (message ++ padding message.length)).bytes

/-- The constants of the RFC: the integer part of 2³² times the absolute value of the sine. -/
noncomputable def sineTable (k : Nat) : UInt32 :=
  UInt32.ofNat ⌊(2 ^ 32 : Nat) * |Real.sin (k + 1 : Nat)|⌋₊

theorem sineTable_eq {k : Nat} {c : UInt32} (digits : Sine.Digits (k + 1) c.toNat) :
    sineTable k = c := by
  rw [sineTable, Nat.cast_pow, Nat.cast_ofNat, Sine.floor_sin digits, UInt32.ofNat_toNat]

@[simp]
theorem length_bytesOf (count value : Nat) : (bytesOf count value).length = count := by
  simp [bytesOf]

theorem bytesOf_mod (count value : Nat) : bytesOf count (value % 256 ^ count) = bytesOf count value := by
  apply List.map_congr_left
  intro k inside
  rw [List.mem_range] at inside
  obtain ⟨rest, rfl⟩ : ∃ rest, count = k + (rest + 1) := ⟨count - k - 1, by omega⟩
  apply UInt8.toNat_inj.mp
  rw [UInt8.toNat_ofNat', UInt8.toNat_ofNat', pow_add, Nat.mod_mul_right_div_self,
    Nat.mod_mod_of_dvd]
  exact dvd_pow_self 256 (Nat.succ_ne_zero rest)

theorem bytesOf_add (low high value : Nat) :
    bytesOf (low + high) value = bytesOf low value ++ bytesOf high (value / 256 ^ low) := by
  rw [bytesOf, List.range_add, List.map_append, List.map_map]
  congr 1
  apply List.map_congr_left
  intro k _
  rw [Function.comp_apply, pow_add, Nat.div_div_eq_div_mul]

@[simp]
theorem length_bytes (v : Chain) : v.bytes.length = 16 := by simp [Chain.bytes]

theorem compress_congr {t u : Nat → UInt32} (same : ∀ k < 64, t k = u k) : compress t = compress u := by
  funext v block
  have steps : (List.range 64).foldl (scramble t block) v = (List.range 64).foldl (scramble u block) v := by
    apply List.foldl_ext
    intro w k member
    rw [scramble, scramble, same k (List.mem_range.mp member)]
  rw [compress, compress, steps]

theorem digest_congr {t u : Nat → UInt32} (same : ∀ k < 64, t k = u k) (message : List UInt8) :
    digest t message = digest u message := by
  rw [digest, digest, compress_congr same]

end Library.Md5
