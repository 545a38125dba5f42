import AttoHTTP.Library.Md5
import AttoHTTP.Model.Md5

/-!
# The rounds of MD5

One pass of the loop in `body` is the compression of a block. The macros change their variables in
place, where the operations of the algorithm let the words change places.
-/

namespace AttoHTTP
open Library Comp

/-! ## The functions -/

theorem bitwise {x y : UInt32}
    (same : ∀ i < 32, x.toBitVec.getLsbD i = y.toBitVec.getLsbD i) : x = y :=
  UInt32.toBitVec_inj.mp (BitVec.eq_of_getLsbD_eq same)

theorem F_eq (x y z : UInt32) : MD5_Function.F.apply x y z = Md5.f x y z := by
  apply bitwise
  intro i inside
  simp only [MD5_Function.apply, Md5.f, UInt32.toBitVec_xor, UInt32.toBitVec_and,
    UInt32.toBitVec_or, UInt32.toBitVec_not, BitVec.getLsbD_xor, BitVec.getLsbD_and,
    BitVec.getLsbD_or, BitVec.getLsbD_not, inside, decide_true, Bool.true_and]
  cases x.toBitVec.getLsbD i <;> cases y.toBitVec.getLsbD i <;> cases z.toBitVec.getLsbD i <;> rfl

theorem G_eq (x y z : UInt32) : MD5_Function.G.apply x y z = Md5.g x y z := by
  apply bitwise
  intro i inside
  simp only [MD5_Function.apply, Md5.g, UInt32.toBitVec_xor, UInt32.toBitVec_and,
    UInt32.toBitVec_or, UInt32.toBitVec_not, BitVec.getLsbD_xor, BitVec.getLsbD_and,
    BitVec.getLsbD_or, BitVec.getLsbD_not, inside, decide_true, Bool.true_and]
  cases x.toBitVec.getLsbD i <;> cases y.toBitVec.getLsbD i <;> cases z.toBitVec.getLsbD i <;> rfl

/-- The functions of a round; the third round has two forms of one. -/
def functionIn (round k : Nat) : MD5_Function :=
  match round with
  | 0 => .F
  | 1 => .G
  | 2 => if k % 2 = 0 then .H else .H2
  | _ => .I

theorem functionIn_eq (round k : Nat) (x y z : UInt32) :
    (functionIn round k).apply x y z = Md5.mix round x y z := by
  rcases round with _ | _ | _ | round
  · exact F_eq x y z
  · exact G_eq x y z
  · rw [functionIn]
    split
    · rfl
    · exact (UInt32.xor_assoc x y z).symm
  · rfl

theorem rotate_eq (x : UInt32) {s : Nat} (low : 0 < s) (high : s < 32) :
    (x <<< UInt32.ofNat s) ||| (x >>> (32 - UInt32.ofNat s)) = Md5.rotate x s := by
  apply UInt32.toBitVec_inj.mp
  have left : ((UInt32.ofNat s).toBitVec % 32).toNat = s := by
    simp
    omega
  have right : ((32 - UInt32.ofNat s).toBitVec % 32).toNat = 32 - s := by
    simp
    omega
  rw [UInt32.toBitVec_or, UInt32.toBitVec_shiftLeft, UInt32.toBitVec_shiftRight,
    BitVec.shiftLeft_eq', BitVec.ushiftRight_eq', left, right, Md5.rotate, BitVec.rotateLeft_def,
    Nat.mod_eq_of_lt high]

theorem STEP_eq (f : MD5_Function) (a b c d x t : UInt32) {s : Nat} (low : 0 < s) (high : s < 32) :
    STEP f a b c d x t (UInt32.ofNat s) = b + Md5.rotate (a + f.apply b c d + x + t) s := by
  have whole : a + (f.apply b c d + x + t) = a + f.apply b c d + x + t := by
    simp only [UInt32.add_assoc]
  have masked (y : UInt32) : y &&& 0xffffffff = y := UInt32.and_neg_one
  rw [STEP, masked, whole, rotate_eq _ low high, UInt32.add_comm]

/-! ## The table -/

def variableAt (k : Nat) : Variable :=
  match k % 4 with
  | 0 => .a
  | 1 => .d
  | 2 => .c
  | _ => .b

def constantAt (k : Nat) : UInt32 := (stepCalls.map (·.t)).getD k 0

def operandAt (k : Nat) : Operand :=
  if k < 16 then .SET (Md5.index (k / 16) k) else .GET (Md5.index (k / 16) k)

def callAt (k : Nat) : StepCall :=
  ⟨functionIn (k / 16) k, variableAt k, operandAt k, constantAt k, UInt32.ofNat (Md5.shift (k / 16) k)⟩

theorem stepCalls_eq : stepCalls = (List.range 64).map callAt := by
  rfl

theorem constantAt_sine : ∀ k < 64, Md5.sineTable k = constantAt k := by
  have digits : ∀ k < 64, Sine.Digits (k + 1) (constantAt k).toNat := by decide +kernel
  exact fun k small => Md5.sineTable_eq (digits k small)

/-! ## The words of a block -/

theorem or_above {low i : Nat} (small : low < 2 ^ i) (high : Nat) :
    low ||| high <<< i = low + high * 2 ^ i := by
  rw [Nat.or_comm, ← Nat.shiftLeft_add_eq_or_of_lt small, Nat.shiftLeft_eq, Nat.add_comm]

theorem shifted_toNat (b : UInt8) {s : Nat} (fits : s ≤ 24) :
    (b.toUInt32 <<< UInt32.ofNat s).toNat = b.toNat <<< s := by
  have small := b.toNat_lt
  have bound : b.toNat <<< s < 2 ^ 32 := by
    rw [Nat.shiftLeft_eq]
    calc b.toNat * 2 ^ s < 2 ^ 8 * 2 ^ s := by gcongr
      _ ≤ 2 ^ 8 * 2 ^ 24 := by gcongr; norm_num
      _ = 2 ^ 32 := by norm_num
  have amount : (UInt32.ofNat s).toNat % 32 = s := by
    simp
    omega
  rw [UInt32.toNat_shiftLeft, amount, UInt8.toNat_toUInt32, Nat.mod_eq_of_lt bound]

theorem assembleWord_eq (ptr : Mem) (p : Nat) : assembleWord ptr p = loadWord ptr p := by
  have first := (ptr p).toNat_lt
  have second := (ptr (p + 1)).toNat_lt
  have third := (ptr (p + 2)).toNat_lt
  have fourth := (ptr (p + 3)).toNat_lt
  apply UInt32.toNat_inj.mp
  calc (assembleWord ptr p).toNat
      = (ptr p).toNat ||| (ptr (p + 1)).toNat <<< 8 ||| (ptr (p + 2)).toNat <<< 16 |||
          (ptr (p + 3)).toNat <<< 24 := by
        rw [assembleWord, UInt32.toNat_or, UInt32.toNat_or, UInt32.toNat_or, UInt8.toNat_toUInt32]
        exact congrArg₂ _ (congrArg₂ _ (congrArg₂ _ rfl (shifted_toNat _ (s := 8) (by norm_num)))
          (shifted_toNat _ (s := 16) (by norm_num))) (shifted_toNat _ (s := 24) (by norm_num))
    _ = (ptr p).toNat + (ptr (p + 1)).toNat * 2 ^ 8 + (ptr (p + 2)).toNat * 2 ^ 16 +
          (ptr (p + 3)).toNat * 2 ^ 24 := by
        have two := or_above (i := 8) first (ptr (p + 1)).toNat
        have three := or_above (i := 16)
          (show (ptr p).toNat + (ptr (p + 1)).toNat * 2 ^ 8 < 2 ^ 16 by omega) (ptr (p + 2)).toNat
        rw [two, three, or_above]
        omega
    _ = (loadWord ptr p).toNat := by
        rw [loadWord, UInt32.toNat_ofNat_of_lt']
        norm_num [UInt32.size]
        omega

theorem wordAt_bytes (ptr : Mem) {n : Nat} (inside : n < 16) :
    Md5.wordAt (ptr.bytes 64) n = loadWord ptr (n * 4) := by
  have split : ptr.bytes 64 =
      ptr.bytes (4 * n) ++ ((ptr.skip (4 * n)).bytes 4 ++
        ((ptr.skip (4 * n)).skip 4).bytes (60 - 4 * n)) := by
    rw [← Mem.bytes_add, ← Mem.bytes_add]
    congr 1
    omega
  have four : ((ptr.bytes 64).drop (4 * n)).take 4 = (ptr.skip (4 * n)).bytes 4 := by
    rw [split, List.drop_left' (Mem.length_bytes ptr _), List.take_left' (Mem.length_bytes _ 4)]
  rw [Md5.wordAt, four, Nat.mul_comm, Md5.wordOf, loadWord]
  congr 1
  simp only [Mem.bytes, List.range_succ, List.range_zero, List.nil_append, List.cons_append,
    List.map_cons, List.map_nil, List.foldr_cons, List.foldr_nil, Mem.skip_apply, Nat.add_zero]
  ring

/-- The words that `SET` has stored before a use of `STEP`. -/
def Loaded (direct : Bool) (ptr : Mem) (k : Nat) (block : Nat → UInt32) : Prop :=
  direct = false → ∀ n < 16, n < k → block n = loadWord ptr (n * 4)

theorem index_lt (round k : Nat) : Md5.index round k < 16 := by
  rcases round with _ | _ | _ | round <;> exact Nat.mod_lt _ (by norm_num)

theorem operandAt_read {direct : Bool} {ptr : Mem} {k : Nat} {block : Nat → UInt32}
    (loaded : Loaded direct ptr k block) :
    ((operandAt k).read direct ptr block).1 =
        Md5.wordAt (ptr.bytes 64) (Md5.index (k / 16) k) ∧
      Loaded direct ptr (k + 1) ((operandAt k).read direct ptr block).2 ∧
        ∀ n, 16 ≤ n → ((operandAt k).read direct ptr block).2 n = block n := by
  have inside := index_lt (k / 16) k
  rw [wordAt_bytes ptr inside]
  cases direct with
  | true =>
      unfold operandAt
      split <;> exact ⟨rfl, fun off => absurd off (by simp), fun _ _ => rfl⟩
  | false =>
      unfold operandAt
      split
      · rename_i first
        have here : Md5.index (k / 16) k = k := by
          rw [Nat.div_eq_of_lt first]
          exact Nat.mod_eq_of_lt first
        rw [here]
        refine ⟨assembleWord_eq ptr _, fun off n small before => ?_, fun n outside => ?_⟩
        · by_cases new : n = k
          · rw [new]
            simp [Operand.read, assembleWord_eq]
          · have old := loaded off n small (by omega)
            simpa [Operand.read, new] using old
        · have other : n ≠ k := by omega
          simp [Operand.read, other]
      · rename_i later
        exact ⟨loaded rfl _ inside (by omega),
          fun off n small _ => loaded off n small (by omega), fun _ _ => rfl⟩

/-! ## The sixty-four operations -/

def Registers.order (r : Registers) (k : Nat) : Md5.Chain :=
  match k % 4 with
  | 0 => ⟨r.a, r.b, r.c, r.d⟩
  | 1 => ⟨r.d, r.a, r.b, r.c⟩
  | 2 => ⟨r.c, r.d, r.a, r.b⟩
  | _ => ⟨r.b, r.c, r.d, r.a⟩

theorem shift_range (round k : Nat) : 0 < Md5.shift round k ∧ Md5.shift round k < 32 := by
  have column : k % 4 = 0 ∨ k % 4 = 1 ∨ k % 4 = 2 ∨ k % 4 = 3 := by omega
  rcases round with _ | _ | _ | round <;> rcases column with at' | at' | at' | at' <;>
    simp [Md5.shift, at']

theorem step_order (r : Registers) (k : Nat) (x : UInt32) :
    (r.step (callAt k) x).order (k + 1) =
      Md5.operation (Md5.mix (k / 16)) x (constantAt k) (Md5.shift (k / 16) k) (r.order k) := by
  obtain ⟨low, high⟩ := shift_range (k / 16) k
  have column : k % 4 = 0 ∨ k % 4 = 1 ∨ k % 4 = 2 ∨ k % 4 = 3 := by omega
  rcases column with first | second | third | fourth
  · have next : (k + 1) % 4 = 1 := by omega
    simp only [Registers.order, Registers.step, callAt, variableAt, first, next,
      STEP_eq _ _ _ _ _ _ _ low high, functionIn_eq, Md5.operation]
  · have next : (k + 1) % 4 = 2 := by omega
    simp only [Registers.order, Registers.step, callAt, variableAt, second, next,
      STEP_eq _ _ _ _ _ _ _ low high, functionIn_eq, Md5.operation]
  · have next : (k + 1) % 4 = 3 := by omega
    simp only [Registers.order, Registers.step, callAt, variableAt, third, next,
      STEP_eq _ _ _ _ _ _ _ low high, functionIn_eq, Md5.operation]
  · have next : (k + 1) % 4 = 0 := by omega
    simp only [Registers.order, Registers.step, callAt, variableAt, fourth, next,
      STEP_eq _ _ _ _ _ _ _ low high, functionIn_eq, Md5.operation]

theorem steps_order (direct : Bool) (ptr : Mem) (r : Registers) (block : Nat → UInt32) (k : Nat) :
    let p := (List.range k).foldl (fun p k => StepCall.run direct ptr p (callAt k)) (r, block)
    p.1.order k = (List.range k).foldl (Md5.scramble constantAt (ptr.bytes 64)) (r.order 0) ∧
      Loaded direct ptr k p.2 ∧ ∀ n, 16 ≤ n → p.2 n = block n := by
  induction k with
  | zero => exact ⟨rfl, fun _ _ _ none => absurd none (Nat.not_lt_zero _), fun _ _ => rfl⟩
  | succ k ih =>
      obtain ⟨ordered, loaded, outside⟩ := ih
      obtain ⟨value, loaded', outside'⟩ := operandAt_read loaded
      rw [List.range_succ, List.foldl_append, List.foldl_append, ← ordered]
      refine ⟨?_, loaded', fun n far => (outside' n far).trans (outside n far)⟩
      calc _ = _ := step_order _ k _
        _ = _ := by rw [List.foldl_cons, List.foldl_nil, Md5.scramble, ← value]; rfl

def Registers.chain (r : Registers) : Md5.Chain := ⟨r.a, r.b, r.c, r.d⟩

theorem order_zero (r : Registers) : r.order 0 = r.chain := rfl

theorem order_whole (r : Registers) : r.order 64 = r.chain := rfl

def MD5_CTX.chain (ctx : MD5_CTX) : Md5.Chain := ⟨ctx.a, ctx.b, ctx.c, ctx.d⟩

theorem chain_add (r saved : Registers) : (r.add saved).chain = r.chain.add saved.chain := rfl

theorem stepCalls_run (direct : Bool) (ptr : Mem) (r : Registers) (block : Nat → UInt32) :
    ((stepCalls.foldl (StepCall.run direct ptr) (r, block)).1.chain).add r.chain =
        Md5.compress constantAt r.chain (ptr.bytes 64) ∧
      ∀ n, 16 ≤ n → (stepCalls.foldl (StepCall.run direct ptr) (r, block)).2 n = block n := by
  have calls : stepCalls.foldl (StepCall.run direct ptr) (r, block) =
      (List.range 64).foldl (fun p k => StepCall.run direct ptr p (callAt k)) (r, block) := by
    rw [stepCalls_eq, List.foldl_map]
  obtain ⟨ordered, -, outside⟩ := steps_order direct ptr r block 64
  rw [calls, Md5.compress, ← order_whole, ordered, order_zero]
  exact ⟨rfl, outside⟩

theorem bodyRound_eq (m : Machine) (s : BodyLoop m.long) :
    (bodyRound m s).1.r.chain = Md5.compress constantAt s.r.chain (s.ptr.bytes 64) ∧
      (∀ n, 16 ≤ n → (bodyRound m s).1.block n = s.block n) ∧
        (bodyRound m s).1.ptr = s.ptr.skip 64 ∧ (bodyRound m s).1.size = s.size - 64 ∧
          (bodyRound m s).2 = (s.size - 64 != 0) := by
  obtain ⟨chain, outside⟩ := stepCalls_run m.direct s.ptr s.r s.block
  rw [bodyRound]
  exact ⟨(chain_add _ s.r).trans chain, outside, rfl, rfl, rfl⟩

/-! ## Several blocks -/

theorem block_length (ptr : Mem) : (ptr.bytes 64).length = 64 := Mem.length_bytes ptr 64

theorem size_next {w q : Nat} {size : BitVec w} (blocks : size = BitVec.ofNat w (64 * (q + 1))) :
    size - 64 = BitVec.ofNat w (64 * q) := by
  rw [blocks, Nat.mul_succ, BitVec.ofNat_add]
  exact BitVec.add_sub_cancel _ _

theorem blocks_return (m : Machine) {q : Nat} (s : BodyLoop m.long)
    (fits : 64 * (q + 1) ≤ 2 ^ m.long) (size : s.size = BitVec.ofNat m.long (64 * (q + 1))) :
    ∃ t, (doWhile (bodyRound m) s).Returns t ∧
      t.r.chain = absorb (Md5.compress constantAt) 64 s.r.chain (s.ptr.bytes (64 * (q + 1))) ∧
        t.ptr = s.ptr.skip (64 * (q + 1)) ∧ ∀ n, 16 ≤ n → t.block n = s.block n := by
  induction q generalizing s with
  | zero =>
      obtain ⟨chain, outside, ptr, rest, again⟩ := bodyRound_eq m s
      have stop : (bodyRound m s).2 = false := by
        rw [again, size_next size]
        exact bne_self_eq_false _
      refine ⟨(bodyRound m s).1, (doWhile_exit stop).mpr rfl, ?_, ptr, outside⟩
      rw [chain, Nat.zero_add, Nat.mul_one, absorb_single (by norm_num) (block_length s.ptr)]
  | succ q ih =>
      obtain ⟨chain, outside, ptr, rest, again⟩ := bodyRound_eq m s
      have more : (bodyRound m s).2 = true := by
        rw [again, size_next size]
        apply bne_iff_ne.mpr
        intro zero
        have value := congrArg BitVec.toNat zero
        rw [BitVec.toNat_ofNat, Nat.mod_eq_of_lt (by omega)] at value
        simp at value
      obtain ⟨t, run, last, end', same⟩ :=
        ih (bodyRound m s).1 (by omega) (rest.trans (size_next size))
      refine ⟨t, (doWhile_next more).mpr run, ?_, ?_, fun n far => (same n far).trans (outside n far)⟩
      · have count : 64 * (q + 1 + 1) = 64 + 64 * (q + 1) := by ring
        rw [last, chain, ptr, count, Mem.bytes_add,
          absorb_block (by norm_num) (block_length s.ptr)]
      · rw [end', ptr]
        funext i
        simp only [Mem.skip_apply]
        congr 1
        ring

theorem blocks_diverge (m : Machine) (s : BodyLoop m.long) (uneven : ¬ 64 ∣ s.size.toNat) :
    (doWhile (bodyRound m) s).Diverges := by
  have whole : 64 ∣ 2 ^ m.long := pow_dvd_pow 2 (show 6 ≤ m.long from le_trans (by norm_num) m.wide)
  have kept {size : BitVec m.long} (uneven : ¬ 64 ∣ size.toNat) : ¬ 64 ∣ (size - 64).toNat := by
    intro even
    apply uneven
    rw [← BitVec.sub_add_cancel size 64, BitVec.toNat_add, Nat.dvd_mod_iff whole]
    apply Nat.dvd_add even
    exact (Nat.dvd_mod_iff whole).mpr (dvd_refl 64)
  apply doWhile_diverges (fun s : BodyLoop m.long => ¬ 64 ∣ s.size.toNat) _ s uneven
  intro s uneven
  obtain ⟨-, -, -, rest, again⟩ := bodyRound_eq m s
  rw [again, rest]
  refine ⟨?_, kept uneven⟩
  apply bne_iff_ne.mpr
  intro zero
  exact kept uneven (by rw [zero]; simp)

/-- What `body` does to whole blocks; a size of 0 stands for all of the memory. -/
theorem body_blocks (m : Machine) (ctx : MD5_CTX) (data : Mem) {size : BitVec m.long} {q : Nat}
    (fits : 64 * (q + 1) ≤ 2 ^ m.long) (length : size = BitVec.ofNat m.long (64 * (q + 1))) :
    ∃ ctx', (body m ctx data size).Returns (ctx', data.skip (64 * (q + 1))) ∧
      ctx'.chain = absorb (Md5.compress constantAt) 64 ctx.chain (data.bytes (64 * (q + 1))) ∧
      ctx'.lo = ctx.lo ∧ ctx'.hi = ctx.hi ∧ ctx'.buffer = ctx.buffer ∧
        ∀ n, 16 ≤ n → ctx'.block n = ctx.block n := by
  obtain ⟨t, run, chain, ptr, outside⟩ :=
    blocks_return m ⟨⟨ctx.a, ctx.b, ctx.c, ctx.d⟩, ctx.block, data, size⟩ fits length
  refine ⟨{ ctx with a := t.r.a, b := t.r.b, c := t.r.c, d := t.r.d, block := t.block },
    run.bind ?_, chain, rfl, rfl, rfl, outside⟩
  rw [returns_pure, ptr]

/-- The bytes that `body` goes through: the size is tested after it has been lowered. -/
def bodyLength {w : Nat} (size : BitVec w) : Nat := if size = 0 then 2 ^ w else size.toNat

theorem bodyLength_blocks (m : Machine) {size : BitVec m.long} (even : 64 ∣ size.toNat) :
    ∃ q, bodyLength size = 64 * (q + 1) ∧ 64 * (q + 1) ≤ 2 ^ m.long ∧
      size = BitVec.ofNat m.long (64 * (q + 1)) := by
  have whole : 64 ∣ 2 ^ m.long := pow_dvd_pow 2 (show 6 ≤ m.long from le_trans (by norm_num) m.wide)
  have positive : 0 < 2 ^ m.long := by positivity
  have bound := size.isLt
  rw [bodyLength]
  split
  · rename_i zero
    obtain ⟨q, all⟩ := whole
    refine ⟨q - 1, by omega, by omega, ?_⟩
    rw [Nat.sub_add_cancel (by omega), ← all, zero]
    apply BitVec.toNat_inj.mp
    rw [BitVec.toNat_ofNat, Nat.mod_self]
    exact BitVec.toNat_zero
  · rename_i nonzero
    have some : size.toNat ≠ 0 := fun zero => nonzero (BitVec.toNat_inj.mp (by simpa using zero))
    obtain ⟨q, all⟩ := even
    refine ⟨q - 1, by omega, by omega, ?_⟩
    rw [Nat.sub_add_cancel (by omega), ← all, BitVec.ofNat_toNat, BitVec.setWidth_eq]

/-- `body` comes back exactly when it is given whole blocks. -/
theorem body_runs (m : Machine) (ctx : MD5_CTX) (data : Mem) (size : BitVec m.long) :
    (64 ∣ size.toNat → ∃ ctx',
      (body m ctx data size).Returns (ctx', data.skip (bodyLength size)) ∧
        ctx'.chain =
          absorb (Md5.compress Md5.sineTable) 64 ctx.chain (data.bytes (bodyLength size))) ∧
      (¬ 64 ∣ size.toNat → (body m ctx data size).Diverges) := by
  constructor
  · intro even
    obtain ⟨q, all, fits, blocks⟩ := bodyLength_blocks m even
    obtain ⟨ctx', run, chain, -⟩ := body_blocks m ctx data fits blocks
    rw [all, Md5.compress_congr constantAt_sine]
    exact ⟨ctx', run, chain⟩
  · intro uneven
    exact (blocks_diverge m _ uneven).bind

end AttoHTTP
