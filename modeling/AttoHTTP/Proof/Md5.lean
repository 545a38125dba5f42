import AttoHTTP.Proof.Md5Rounds

/-!
# The digest of a message given in pieces

Between the calls the context holds the state after the whole blocks of the message, and in its
buffer what does not fill a block.
-/

namespace AttoHTTP
open Library Comp

/-! ## Lengths -/

theorem ulong_toNat (m : Machine) {n : Nat} (small : n < 2 ^ 32) :
    (BitVec.ofNat m.long n).toNat = n := by
  have wide : 2 ^ 32 ≤ 2 ^ m.long := Nat.pow_le_pow_right (by norm_num) m.wide
  rw [BitVec.toNat_ofNat, Nat.mod_eq_of_lt (by omega)]

theorem masked_toNat (m : Machine) (x : BitVec m.long) {k : Nat} (small : k ≤ 32) :
    (x &&& BitVec.ofNat m.long (2 ^ k - 1)).toNat = x.toNat % 2 ^ k := by
  have fits : 2 ^ k - 1 < 2 ^ 32 :=
    lt_of_lt_of_le (Nat.sub_lt (by positivity) (by norm_num)) (Nat.pow_le_pow_right (by norm_num) small)
  rw [BitVec.toNat_and, ulong_toNat m fits, Nat.and_two_pow_sub_one_eq_mod]

theorem not_masked_toNat (m : Machine) (x : BitVec m.long) :
    (x &&& ~~~0x3f).toNat = 64 * (x.toNat / 64) := by
  have parts : (x &&& ~~~0x3f) ||| (x &&& 0x3f) = x := by
    rw [← BitVec.and_or_distrib_left, BitVec.or_comm, BitVec.or_not_self, BitVec.and_allOnes]
  have apart : (x &&& ~~~0x3f) &&& (x &&& 0x3f) = 0 := by
    rw [BitVec.and_comm x 0x3f, ← BitVec.and_assoc, BitVec.and_assoc x, BitVec.not_and_self]
    simp
  have whole := BitVec.toNat_add_of_and_eq_zero apart
  have low := masked_toNat m x (k := 6) (by norm_num)
  rw [BitVec.add_eq_or_of_and_eq_zero _ _ apart, parts] at whole
  have digits : (x &&& 0x3f).toNat = x.toNat % 64 := low
  omega

/-- The bytes that the buffer holds. -/
def MD5_CTX.used (ctx : MD5_CTX) : Nat := ctx.lo.toNat % 64

def MD5_CTX.pending (ctx : MD5_CTX) : List UInt8 := ctx.buffer.bytes ctx.used

theorem used_lt (ctx : MD5_CTX) : ctx.used < 64 := Nat.mod_lt _ (by norm_num)

theorem used_toNat (m : Machine) (ctx : MD5_CTX) :
    (BitVec.ofNat m.long (ctx.lo &&& 0x3f).toNat).toNat = ctx.used := by
  have low : (ctx.lo &&& 0x3f).toNat = ctx.used := by
    rw [UInt32.toNat_and]
    exact Nat.and_two_pow_sub_one_eq_mod _ 6
  have small := used_lt ctx
  rw [low, ulong_toNat m (by omega)]

theorem count_lo (m : Machine) (ctx : MD5_CTX) (size : BitVec m.long) :
    (ctx.count size).lo.toNat = (ctx.lo.toNat + size.toNat) % 2 ^ 29 := by
  have whole : 2 ^ 29 ∣ 2 ^ m.long := pow_dvd_pow 2 (le_trans (by norm_num) m.wide)
  have masked := masked_toNat m (BitVec.ofNat m.long ctx.lo.toNat + size) (k := 29) (by norm_num)
  rw [BitVec.toNat_add, ulong_toNat m ctx.lo.toNat_lt, Nat.mod_mod_of_dvd _ whole] at masked
  have counted : (ctx.count size).lo = UInt32.ofNat
      ((BitVec.ofNat m.long ctx.lo.toNat + size) &&& BitVec.ofNat m.long (2 ^ 29 - 1)).toNat := rfl
  rw [counted, UInt32.toNat_ofNat', masked, Nat.mod_eq_of_lt]
  omega

/-- The carry is seen from the lower counter, which has 29 bits. -/
theorem count_hi (m : Machine) (ctx : MD5_CTX) (size : BitVec m.long)
    (small : ctx.lo.toNat < 2 ^ 29) :
    (ctx.count size).hi.toNat =
      (ctx.hi.toNat + (ctx.lo.toNat + size.toNat) / 2 ^ 29) % 2 ^ 32 := by
  have whole : 2 ^ 32 ∣ 2 ^ m.long := pow_dvd_pow 2 m.wide
  have carried (hi : UInt32) :
      (UInt32.ofNat (BitVec.ofNat m.long hi.toNat + size >>> 29).toNat).toNat =
        (hi.toNat + size.toNat / 2 ^ 29) % 2 ^ 32 := by
    rw [UInt32.toNat_ofNat', BitVec.toNat_add, ulong_toNat m hi.toNat_lt, Nat.mod_mod_of_dvd _ whole,
      BitVec.toNat_ushiftRight, Nat.shiftRight_eq_div_pow]
  have lo := count_lo m ctx size
  have smaller : (ctx.count size).lo < ctx.lo ↔ (ctx.count size).lo.toNat < ctx.lo.toNat :=
    UInt32.lt_iff_toNat_lt
  have counted : (ctx.count size).hi =
      UInt32.ofNat (BitVec.ofNat m.long
        (if (ctx.count size).lo < ctx.lo then ctx.hi + 1 else ctx.hi).toNat + size >>> 29).toNat := rfl
  rw [counted, carried]
  split
  · rename_i less
    have next : (ctx.hi + 1).toNat = (ctx.hi.toNat + 1) % 2 ^ 32 := UInt32.toNat_add ..
    rw [smaller, lo] at less
    rw [next]
    omega
  · rename_i less
    rw [smaller, lo] at less
    omega

/-! ## Outside the context -/

structure Confined (ctx ctx' : MD5_CTX) : Prop where
  buffer : ∀ i, 64 ≤ i → ctx'.buffer i = ctx.buffer i
  block : ∀ n, 16 ≤ n → ctx'.block n = ctx.block n

theorem Confined.trans {ctx ctx' ctx'' : MD5_CTX} (first : Confined ctx ctx')
    (second : Confined ctx' ctx'') : Confined ctx ctx'' :=
  ⟨fun i far => (second.buffer i far).trans (first.buffer i far),
    fun n far => (second.block n far).trans (first.block n far)⟩

/-! ## `MD5_Update` -/

theorem bytes_memcpy (m : Mem) (p : Nat) (src : Mem) (n : Nat) :
    (m.memcpy p src n).bytes (p + n) = m.bytes p ++ src.bytes n := by
  have written := Mem.bytes_write m p (src.bytes n)
  rwa [Mem.length_bytes] at written

theorem memcpy_after (m : Mem) (src : Mem) {p n : Nat} (room : p + n ≤ 64) (i : Nat) (far : 64 ≤ i) :
    m.memcpy p src n i = m i :=
  Mem.write_after m (by rw [Mem.length_bytes]; omega)

theorem size_le_iff (m : Machine) (size : BitVec m.long) : 64 ≤ size ↔ 64 ≤ size.toNat := by
  have limit : (64 : BitVec m.long).toNat = 64 := ulong_toNat m (by norm_num)
  rw [BitVec.le_def, limit]

theorem refill (m : Mem) (src : Mem) {n : Nat} (short : n < 64) :
    (m.memcpy 0 src n).bytes n = src.bytes n ∧ ∀ i, 64 ≤ i → m.memcpy 0 src n i = m i := by
  have copied := bytes_memcpy m 0 src n
  rw [Nat.zero_add] at copied
  exact ⟨copied, memcpy_after m src (by omega)⟩

theorem updateBlocks_eq (m : Machine) (ctx : MD5_CTX) (data : Mem) (size : BitVec m.long) :
    ∃ ctx', (updateBlocks m ctx data size).Returns ctx' ∧
      ctx'.chain = absorb (Md5.compress constantAt) 64 ctx.chain (data.bytes size.toNat) ∧
        ctx'.buffer.bytes (size.toNat % 64) = leftover 64 (data.bytes size.toNat) ∧
          ctx'.lo = ctx.lo ∧ ctx'.hi = ctx.hi ∧ Confined ctx ctx' := by
  rw [updateBlocks]
  split
  · rename_i long
    rw [size_le_iff] at long
    obtain ⟨q, blocks⟩ : ∃ q, size.toNat / 64 = q + 1 := ⟨size.toNat / 64 - 1, by omega⟩
    have whole : size &&& ~~~0x3f = BitVec.ofNat m.long (64 * (q + 1)) := by
      rw [← blocks, ← not_masked_toNat, BitVec.ofNat_toNat, BitVec.setWidth_eq]
    have fits : 64 * (q + 1) ≤ 2 ^ m.long := by
      have bound := size.isLt
      omega
    have left : (size &&& 0x3f).toNat = size.toNat % 64 := masked_toNat m size (k := 6) (by norm_num)
    obtain ⟨ctx', run, chain, lo, hi, buffer, outside⟩ := body_blocks m ctx data fits whole
    have split : data.bytes size.toNat =
        data.bytes (64 * (q + 1)) ++ (data.skip (64 * (q + 1))).bytes (size.toNat % 64) := by
      rw [← Mem.bytes_add, ← blocks, Nat.div_add_mod]
    have multiple : 64 ∣ (data.bytes (64 * (q + 1))).length := by
      rw [Mem.length_bytes]
      exact Nat.dvd_mul_right 64 (q + 1)
    have short : ((data.skip (64 * (q + 1))).bytes (size.toNat % 64)).length < 64 := by
      rw [Mem.length_bytes]
      exact Nat.mod_lt _ (by norm_num)
    obtain ⟨held, same⟩ :=
      refill ctx'.buffer (data.skip (64 * (q + 1))) (Nat.mod_lt size.toNat (show 0 < 64 by norm_num))
    refine ⟨_, run.bind (returns_pure.mpr rfl), ?_, ?_, lo, hi, ?_⟩
    · rw [split, absorb_whole_append _ (by norm_num) _ multiple, absorb_short _ _ short]
      exact chain
    · rw [split, leftover_whole_append (by norm_num) multiple, leftover_short short, left]
      exact held
    · rw [left]
      exact ⟨fun i far => (same i far).trans (congrFun buffer i), outside⟩
  · rename_i short
    rw [size_le_iff, not_le] at short
    obtain ⟨held, same⟩ := refill ctx.buffer data short
    refine ⟨_, returns_pure.mpr rfl, ?_, ?_, rfl, rfl, same, fun _ _ => rfl⟩
    · rw [absorb_short _ _ (by rwa [Mem.length_bytes])]
      rfl
    · rw [Nat.mod_eq_of_lt short, leftover_short (by rwa [Mem.length_bytes])]
      exact held

theorem body_buffer (m : Machine) (ctx : MD5_CTX) :
    ∃ ctx' p, (body m ctx ctx.buffer 64).Returns (ctx', p) ∧
      ctx'.chain = Md5.compress constantAt ctx.chain (ctx.buffer.bytes 64) ∧
      ctx'.lo = ctx.lo ∧ ctx'.hi = ctx.hi ∧ ctx'.buffer = ctx.buffer ∧
        ∀ n, 16 ≤ n → ctx'.block n = ctx.block n := by
  have fits : 64 * (0 + 1) ≤ 2 ^ m.long :=
    le_trans (by norm_num) (Nat.pow_le_pow_right (show 0 < 2 by norm_num) m.wide)
  obtain ⟨ctx', run, chain, rest⟩ := body_blocks m ctx ctx.buffer fits rfl
  refine ⟨ctx', _, run, ?_, rest⟩
  rw [chain, absorb_single (by norm_num)]
  exact block_length ctx.buffer

theorem available_toNat (m : Machine) (ctx : MD5_CTX) :
    (64 - BitVec.ofNat m.long (ctx.lo &&& 0x3f).toNat).toNat = 64 - ctx.used := by
  have limit : (64 : BitVec m.long).toNat = 64 := ulong_toNat m (by norm_num)
  have room := used_lt ctx
  have used := used_toNat m ctx
  rw [BitVec.toNat_sub_of_le, used, limit]
  rw [BitVec.le_def, used, limit]
  exact room.le

/-! The three ways through `MD5_Update`. -/

section Ways

variable (m : Machine) (ctx : MD5_CTX) (data : Mem) (size : BitVec m.long)

theorem MD5_Update_empty (empty : ctx.used = 0) :
    MD5_Update m ctx data size = updateBlocks m (ctx.count size) data size := by
  rw [MD5_Update, if_neg]
  rw [not_not, ← BitVec.toNat_inj, used_toNat, empty]
  simp

theorem used_ne_zero (held : ctx.used ≠ 0) : BitVec.ofNat m.long (ctx.lo &&& 0x3f).toNat ≠ 0 := by
  intro zero
  apply held
  rw [← used_toNat m, zero]
  simp

theorem MD5_Update_short (held : ctx.used ≠ 0) (short : size.toNat < 64 - ctx.used) :
    MD5_Update m ctx data size =
      pure { ctx.count size with buffer := ctx.buffer.memcpy ctx.used data size.toNat } := by
  have less : size < 64 - BitVec.ofNat m.long (ctx.lo &&& 0x3f).toNat := by
    rwa [BitVec.lt_def, available_toNat]
  rw [MD5_Update, if_pos (used_ne_zero m ctx held)]
  dsimp only
  rw [if_pos less, used_toNat]
  rfl

def MD5_CTX.filled (ctx : MD5_CTX) (data : Mem) : Mem :=
  ctx.buffer.memcpy ctx.used data (64 - ctx.used)

theorem MD5_Update_fill (held : ctx.used ≠ 0) (long : 64 - ctx.used ≤ size.toNat) :
    MD5_Update m ctx data size = (do
      let p ← body m { ctx.count size with buffer := ctx.filled data } (ctx.filled data) 64
      updateBlocks m p.1 (data.skip (64 - ctx.used))
        (size - (64 - BitVec.ofNat m.long (ctx.lo &&& 0x3f).toNat))) := by
  have more : ¬ size < 64 - BitVec.ofNat m.long (ctx.lo &&& 0x3f).toNat := by
    rwa [BitVec.lt_def, available_toNat, not_lt]
  rw [MD5_Update, if_pos (used_ne_zero m ctx held)]
  dsimp only
  rw [if_neg more, used_toNat, available_toNat]
  rfl

end Ways

/-- The text goes behind the bytes that the context holds. -/
theorem MD5_Update_eq (m : Machine) (ctx : MD5_CTX) (data : Mem) (size : BitVec m.long) :
    ∃ ctx', (MD5_Update m ctx data size).Returns ctx' ∧
      ctx'.chain =
          absorb (Md5.compress constantAt) 64 ctx.chain (ctx.pending ++ data.bytes size.toNat) ∧
        ctx'.pending = leftover 64 (ctx.pending ++ data.bytes size.toNat) ∧
          ctx'.lo = (ctx.count size).lo ∧ ctx'.hi = (ctx.count size).hi ∧ Confined ctx ctx' := by
  have room := used_lt ctx
  have now {ctx' : MD5_CTX} (lo : ctx'.lo = (ctx.count size).lo) :
      ctx'.used = (ctx.used + size.toNat) % 64 := by
    have counted := count_lo m ctx size
    unfold MD5_CTX.used
    rw [lo]
    omega
  by_cases empty : ctx.used = 0
  · have pending : ctx.pending = [] := by
      rw [MD5_CTX.pending, empty]
      rfl
    obtain ⟨ctx', run, chain, held, lo, hi, outside⟩ := updateBlocks_eq m (ctx.count size) data size
    rw [MD5_Update_empty m ctx data size empty, pending, List.nil_append]
    refine ⟨ctx', run, chain, ?_, lo, hi, outside.buffer, outside.block⟩
    rw [← held, MD5_CTX.pending, now lo, empty, Nat.zero_add]
  · rcases Nat.lt_or_ge size.toNat (64 - ctx.used) with short | long
    · have together : (ctx.pending ++ data.bytes size.toNat).length < 64 := by
        rw [List.length_append, MD5_CTX.pending, Mem.length_bytes, Mem.length_bytes]
        omega
      rw [MD5_Update_short m ctx data size empty short, absorb_short _ _ together,
        leftover_short together]
      refine ⟨_, returns_pure.mpr rfl, rfl, ?_, rfl, rfl,
        memcpy_after ctx.buffer data (by omega), fun _ _ => rfl⟩
      have total : (ctx.count size).used = ctx.used + size.toNat :=
        (now rfl).trans (Nat.mod_eq_of_lt (by omega))
      calc _ = (ctx.buffer.memcpy ctx.used data size.toNat).bytes (ctx.count size).used := rfl
        _ = ctx.pending ++ data.bytes size.toNat := by rw [total]; exact bytes_memcpy ..
    · have rest : (size - (64 - BitVec.ofNat m.long (ctx.lo &&& 0x3f).toNat)).toNat =
          size.toNat - (64 - ctx.used) := by
        rw [BitVec.toNat_sub_of_le, available_toNat]
        rwa [BitVec.le_def, available_toNat]
      have block : (ctx.filled data).bytes 64 = ctx.pending ++ data.bytes (64 - ctx.used) := by
        have copied := bytes_memcpy ctx.buffer ctx.used data (64 - ctx.used)
        rwa [Nat.add_sub_cancel' room.le] at copied
      have full : (ctx.pending ++ data.bytes (64 - ctx.used)).length = 64 := by
        rw [← block, Mem.length_bytes]
      have split : data.bytes size.toNat = data.bytes (64 - ctx.used) ++
          (data.skip (64 - ctx.used)).bytes (size.toNat - (64 - ctx.used)) := by
        rw [← Mem.bytes_add, Nat.add_sub_cancel' long]
      obtain ⟨mid, p, first, chain, lo, hi, buffer, outside⟩ :=
        body_buffer m { ctx.count size with buffer := ctx.filled data }
      obtain ⟨ctx', run, chain', held, lo', hi', outside'⟩ :=
        updateBlocks_eq m mid (data.skip (64 - ctx.used))
          (size - (64 - BitVec.ofNat m.long (ctx.lo &&& 0x3f).toNat))
      rw [rest] at chain' held
      rw [MD5_Update_fill m ctx data size empty long, split, ← List.append_assoc,
        absorb_block (by norm_num) full, leftover_block (by norm_num) full, ← block]
      refine ⟨ctx', first.bind run, ?_, ?_, lo'.trans lo, hi'.trans hi, ?_⟩
      · rw [chain', chain]
        rfl
      · rw [← held, MD5_CTX.pending, now (lo'.trans lo)]
        congr 1
        omega
      · constructor
        · intro i far
          rw [outside'.buffer i far, buffer]
          exact memcpy_after ctx.buffer data (by omega) i far
        · exact fun n far => (outside'.block n far).trans (outside n far)

/-! ## `MD5_Final` -/

theorem bytesOf_word (x : UInt32) :
    Md5.bytesOf 4 x.toNat =
      [x.toUInt8] ++ [(x >>> 8).toUInt8] ++ [(x >>> 16).toUInt8] ++ [(x >>> 24).toUInt8] := by
  have byte (s : Nat) (small : s < 32) :
      (x >>> UInt32.ofNat s).toUInt8 = UInt8.ofNat (x.toNat / 2 ^ s) := by
    apply UInt8.toNat_inj.mp
    have amount : (UInt32.ofNat s).toNat % 32 = s := by
      simp
      omega
    rw [UInt32.toNat_toUInt8, UInt32.toNat_shiftRight, amount, Nat.shiftRight_eq_div_pow,
      UInt8.toNat_ofNat']
  have first : x.toUInt8 = UInt8.ofNat (x.toNat / 256 ^ 0) := by
    apply UInt8.toNat_inj.mp
    rw [UInt32.toNat_toUInt8, UInt8.toNat_ofNat', pow_zero, Nat.div_one]
  have second : (x >>> 8).toUInt8 = UInt8.ofNat (x.toNat / 256 ^ 1) := byte 8 (by norm_num)
  have third : (x >>> 16).toUInt8 = UInt8.ofNat (x.toNat / 256 ^ 2) := byte 16 (by norm_num)
  have fourth : (x >>> 24).toUInt8 = UInt8.ofNat (x.toNat / 256 ^ 3) := byte 24 (by norm_num)
  rw [first, second, third, fourth]
  rfl

theorem storeWord_eq (out : Mem) (p : Nat) (x : UInt32) :
    storeWord out p x = out.write p (Md5.bytesOf 4 x.toNat) := by
  rw [storeWord, bytesOf_word, ← Mem.write_append, ← Mem.write_append, ← Mem.write_append]
  simp only [Mem.set_eq_write]
  rfl

def MD5_CTX.counters (ctx : MD5_CTX) : List UInt8 :=
  Md5.bytesOf 4 (ctx.lo <<< 3).toNat ++ Md5.bytesOf 4 ctx.hi.toNat

theorem length_counters (ctx : MD5_CTX) : ctx.counters.length = 8 := by
  rw [MD5_CTX.counters, List.length_append, Md5.length_bytesOf, Md5.length_bytesOf]

/-- What `MD5_Final` puts behind the bytes that the context holds. -/
def MD5_CTX.ending (ctx : MD5_CTX) : List UInt8 :=
  0x80 :: (List.replicate ((119 - ctx.used) % 64) 0 ++ ctx.counters)

structure Wiped (ctx : MD5_CTX) : Prop where
  lo : ctx.lo = 0
  hi : ctx.hi = 0
  chain : ctx.chain = ⟨0, 0, 0, 0⟩
  buffer : ∀ i < 64, ctx.buffer i = 0
  block : ∀ n < 16, ctx.block n = 0

theorem store_counters (ctx : MD5_CTX) (out : Mem) :
    storeWord (storeWord out 56 (ctx.lo <<< 3)) 60 ctx.hi = out.write 56 ctx.counters := by
  rw [storeWord_eq, storeWord_eq, MD5_CTX.counters, ← Mem.write_append, Md5.length_bytesOf]

theorem store_result (ctx : MD5_CTX) (out : Mem) :
    storeWord (storeWord (storeWord (storeWord out 0 ctx.a) 4 ctx.b) 8 ctx.c) 12 ctx.d =
      out.write 0 ctx.chain.bytes := by
  rw [storeWord_eq, storeWord_eq, storeWord_eq, storeWord_eq, Md5.Chain.bytes, MD5_CTX.chain,
    ← Mem.write_append, ← Mem.write_append, ← Mem.write_append]
  simp only [List.length_append, Md5.length_bytesOf]

theorem bytes_memset (m : Mem) (p : Nat) (c : UInt8) (n : Nat) :
    (m.memset p c n).bytes (p + n) = m.bytes p ++ List.replicate n c := by
  have written := Mem.bytes_write m p (List.replicate n c)
  rwa [List.length_replicate] at written

theorem memset_after (m : Mem) (c : UInt8) {p n : Nat} (room : p + n ≤ 64) (i : Nat) (far : 64 ≤ i) :
    m.memset p c n i = m i :=
  Mem.write_after m (by rw [List.length_replicate]; omega)

theorem wiped (ctx : MD5_CTX) :
    let ctx' : MD5_CTX :=
      ⟨0, 0, 0, 0, 0, 0, ctx.buffer.memset 0 0 64, fun k => if k < 16 then 0 else ctx.block k⟩
    Wiped ctx' ∧ Confined ctx ctx' := by
  constructor
  · refine ⟨rfl, rfl, rfl, fun i inside => ?_, fun n inside => if_pos inside⟩
    have cell : (List.replicate 64 (0 : UInt8)).getD i (ctx.buffer i) = 0 := by
      rw [List.getD_eq_getElem?_getD, List.getElem?_replicate, if_pos inside]
      rfl
    exact cell
  · exact ⟨memset_after ctx.buffer 0 (p := 0) (n := 64) (by norm_num),
      fun n far => if_neg (Nat.not_lt.mpr far)⟩

theorem finalBlock_eq (m : Machine) (result : Mem) (ctx : MD5_CTX) {used available : BitVec m.long}
    (room : used.toNat ≤ 56) (rest : available.toNat = 64 - used.toNat) :
    ∃ ctx', (finalBlock m result ctx used available).Returns
        (result.write 0 (Md5.compress constantAt ctx.chain
          (ctx.buffer.bytes used.toNat ++ List.replicate (56 - used.toNat) 0 ++ ctx.counters)).bytes,
          ctx') ∧ Wiped ctx' ∧ Confined ctx ctx' := by
  have eight : (8 : BitVec m.long).toNat = 8 := ulong_toNat m (by norm_num)
  have zeros : (available - 8).toNat = 56 - used.toNat := by
    rw [BitVec.toNat_sub_of_le, rest, eight]
    · omega
    · rw [BitVec.le_def, rest, eight]
      omega
  have front : (ctx.buffer.memset used.toNat 0 (56 - used.toNat)).bytes 56 =
      ctx.buffer.bytes used.toNat ++ List.replicate (56 - used.toNat) 0 := by
    rw [← bytes_memset, Nat.add_sub_cancel' room]
  have block : ((ctx.buffer.memset used.toNat 0 (56 - used.toNat)).write 56 ctx.counters).bytes 64 =
      ctx.buffer.bytes used.toNat ++ List.replicate (56 - used.toNat) 0 ++ ctx.counters := by
    have written := Mem.bytes_write (ctx.buffer.memset used.toNat 0 (56 - used.toNat)) 56 ctx.counters
    rwa [length_counters, front] at written
  obtain ⟨ctx', p, run, chain, -, -, buffer, outside⟩ := body_buffer m { ctx with
    lo := ctx.lo <<< 3
    buffer := (ctx.buffer.memset used.toNat 0 (56 - used.toNat)).write 56 ctx.counters }
  obtain ⟨clean, inside⟩ := wiped ctx'
  refine ⟨_, ?_, clean, ?_⟩
  · rw [finalBlock]
    dsimp only
    rw [zeros, store_counters]
    refine run.bind ?_
    rw [returns_pure, store_result, chain]
    dsimp only
    rw [block]
    rfl
  · refine Confined.trans ⟨fun i far => ?_, outside⟩ inside
    rw [buffer]
    dsimp only
    rw [Mem.write_after _ (by rw [length_counters]; omega)]
    exact memset_after ctx.buffer 0 (by omega) i far

theorem used_next (m : Machine) (ctx : MD5_CTX) :
    (BitVec.ofNat m.long (ctx.lo &&& 0x3f).toNat + 1).toNat = ctx.used + 1 := by
  have room := used_lt ctx
  have wide : 2 ^ 32 ≤ 2 ^ m.long := Nat.pow_le_pow_right (by norm_num) m.wide
  have one : (1 : BitVec m.long).toNat = 1 := ulong_toNat m (by norm_num)
  rw [BitVec.toNat_add, used_toNat, one, Nat.mod_eq_of_lt (by omega)]

theorem left_next (m : Machine) (ctx : MD5_CTX) :
    (64 - (BitVec.ofNat m.long (ctx.lo &&& 0x3f).toNat + 1)).toNat = 63 - ctx.used := by
  have room := used_lt ctx
  have limit : (64 : BitVec m.long).toNat = 64 := ulong_toNat m (by norm_num)
  rw [BitVec.toNat_sub_of_le, used_next, limit]
  · omega
  · rw [BitVec.le_def, used_next, limit]
    omega

theorem bytes_marked (ctx : MD5_CTX) :
    (ctx.buffer.set ctx.used 0x80).bytes (ctx.used + 1) = ctx.pending ++ [0x80] := by
  rw [Mem.set_eq_write]
  exact Mem.bytes_write ctx.buffer ctx.used [0x80]

theorem ending_short (ctx : MD5_CTX) (short : ctx.used < 56) :
    ctx.pending ++ ctx.ending = (ctx.buffer.set ctx.used 0x80).bytes (ctx.used + 1) ++
        List.replicate (56 - (ctx.used + 1)) 0 ++ ctx.counters ∧
      (ctx.pending ++ ctx.ending).length = 64 := by
  constructor
  · rw [bytes_marked, MD5_CTX.ending, show (119 - ctx.used) % 64 = 56 - (ctx.used + 1) by omega]
    simp only [List.append_assoc, List.cons_append, List.nil_append]
  · simp only [MD5_CTX.pending, MD5_CTX.ending, List.length_append, List.length_cons,
      List.length_replicate, length_counters, Mem.length_bytes]
    omega

theorem ending_long (ctx : MD5_CTX) (long : 56 ≤ ctx.used) :
    ctx.pending ++ ctx.ending =
      ((ctx.buffer.set ctx.used 0x80).memset (ctx.used + 1) 0 (63 - ctx.used)).bytes 64 ++
        (List.replicate 56 0 ++ ctx.counters) := by
  have room := used_lt ctx
  have first : ((ctx.buffer.set ctx.used 0x80).memset (ctx.used + 1) 0 (63 - ctx.used)).bytes 64 =
      ctx.pending ++ [0x80] ++ List.replicate (63 - ctx.used) 0 := by
    rw [← bytes_marked, ← bytes_memset]
    congr 1
    omega
  have zeros : (119 - ctx.used) % 64 = 63 - ctx.used + 56 := by omega
  rw [first, MD5_CTX.ending, zeros, List.replicate_add]
  simp only [List.append_assoc, List.cons_append, List.nil_append]

/-- The padding brings the text to whole blocks; two of them when the counters no longer fit. -/
theorem MD5_Final_eq (m : Machine) (result : Mem) (ctx : MD5_CTX) :
    ∃ ctx', (MD5_Final m result ctx).Returns
        (result.write 0 (absorb (Md5.compress constantAt) 64 ctx.chain (ctx.pending ++ ctx.ending)).bytes,
          ctx') ∧ Wiped ctx' ∧ Confined ctx ctx' := by
  have room := used_lt ctx
  have outside (i : Nat) (far : 64 ≤ i) : ctx.buffer.set ctx.used 0x80 i = ctx.buffer i :=
    Mem.set_of_ne ctx.buffer 0x80 (by omega)
  have less : 64 - (BitVec.ofNat m.long (ctx.lo &&& 0x3f).toNat + 1) < 8 ↔ 56 ≤ ctx.used := by
    have eight : (8 : BitVec m.long).toNat = 8 := ulong_toNat m (by norm_num)
    rw [BitVec.lt_def, left_next, eight]
    omega
  rw [MD5_Final]
  dsimp only
  rcases Nat.lt_or_ge ctx.used 56 with short | long
  · rw [if_neg (fun full => absurd (less.mp full) (by omega)), used_toNat]
    obtain ⟨ctx', run, clean, inside⟩ :=
      finalBlock_eq m result { ctx with buffer := ctx.buffer.set ctx.used 0x80 }
        (by rw [used_next m ctx]; omega) (by rw [left_next m ctx, used_next m ctx]; omega)
    obtain ⟨last, full⟩ := ending_short ctx short
    have start : Confined ctx { ctx with buffer := ctx.buffer.set ctx.used 0x80 } :=
      ⟨outside, fun _ _ => rfl⟩
    refine ⟨ctx', ?_, clean, start.trans inside⟩
    rw [absorb_single (by norm_num) full, last]
    rw [used_next] at run
    exact run
  · rw [if_pos (less.mpr long), used_toNat, used_next, left_next]
    have second : (List.replicate 56 0 ++ ctx.counters).length = 64 := by
      rw [List.length_append, List.length_replicate, length_counters]
    obtain ⟨mid, p, run, chain, lo, hi, buffer, inside⟩ := body_buffer m { ctx with
      buffer := (ctx.buffer.set ctx.used 0x80).memset (ctx.used + 1) 0 (63 - ctx.used) }
    have none : (0 : BitVec m.long).toNat = 0 := ulong_toNat m (by norm_num)
    have limit : (64 : BitVec m.long).toNat = 64 := ulong_toNat m (by norm_num)
    obtain ⟨ctx', run', clean, inside'⟩ :=
      finalBlock_eq m result mid (show (0 : BitVec m.long).toNat ≤ 56 by omega)
        (show (64 : BitVec m.long).toNat = 64 - (0 : BitVec m.long).toNat by rw [limit, none])
    have kept : mid.counters = ctx.counters := by
      rw [MD5_CTX.counters, MD5_CTX.counters, lo, hi]
    have start : Confined ctx mid := by
      refine ⟨fun i far => ?_, inside⟩
      rw [buffer, ← outside i far]
      exact memset_after _ 0 (by omega) i far
    refine ⟨ctx', run.bind ?_, clean, start.trans inside'⟩
    rw [ending_long ctx long, absorb_block (by norm_num) (Mem.length_bytes _ _),
      absorb_single (by norm_num) second]
    rw [none, kept, chain] at run'
    exact run'

/-! ## Whole messages -/

/-- The context after the bytes of a message. -/
structure Hashes (ctx : MD5_CTX) (message : List UInt8) : Prop where
  chain : ctx.chain = absorb (Md5.compress constantAt) 64 Md5.start message
  pending : ctx.pending = leftover 64 message
  lo : ctx.lo.toNat = message.length % 2 ^ 29
  hi : ctx.hi.toNat = message.length / 2 ^ 29 % 2 ^ 32

theorem hashes_init (ctx : MD5_CTX) : Hashes (MD5_Init ctx) [] := ⟨rfl, rfl, rfl, rfl⟩

theorem hashes_update (m : Machine) {ctx : MD5_CTX} {message : List UInt8} (h : Hashes ctx message)
    (data : Mem) (size : BitVec m.long) :
    ∃ ctx', (MD5_Update m ctx data size).Returns ctx' ∧
      Hashes ctx' (message ++ data.bytes size.toNat) ∧ Confined ctx ctx' := by
  have small : ctx.lo.toNat < 2 ^ 29 := by
    rw [h.lo]
    exact Nat.mod_lt _ (by norm_num)
  have low := count_lo m ctx size
  have high := count_hi m ctx size small
  obtain ⟨ctx', run, chain, pending, lo, hi, outside⟩ := MD5_Update_eq m ctx data size
  refine ⟨ctx', run, ⟨?_, ?_, ?_, ?_⟩, outside⟩
  · rw [chain, h.chain, h.pending, ← absorb_append _ (by norm_num)]
  · rw [pending, h.pending, ← leftover_append (by norm_num)]
  · rw [lo, low, h.lo, List.length_append, Mem.length_bytes, Nat.mod_add_mod]
  · rw [hi, high, h.hi, h.lo, List.length_append, Mem.length_bytes]
    omega

theorem hashes_ending {ctx : MD5_CTX} {message : List UInt8} (h : Hashes ctx message) :
    ctx.ending = Md5.padding message.length := by
  have used : ctx.used = message.length % 64 := by
    rw [MD5_CTX.used, h.lo, Nat.mod_mod_of_dvd _ (by norm_num)]
  have low : (ctx.lo <<< 3).toNat = 8 * message.length % 256 ^ 4 := by
    have amount : (3 : UInt32).toNat % 32 = 3 := rfl
    rw [UInt32.toNat_shiftLeft, amount, Nat.shiftLeft_eq, h.lo]
    omega
  have high : ctx.hi.toNat = 8 * message.length / 256 ^ 4 % 256 ^ 4 := by
    rw [h.hi]
    omega
  have counters : ctx.counters = Md5.bytesOf 8 (8 * message.length) := by
    rw [MD5_CTX.counters, low, high, Md5.bytesOf_mod, Md5.bytesOf_mod, ← Md5.bytesOf_add]
  rw [MD5_CTX.ending, Md5.padding, used, counters]

def hashPieces (m : Machine) (result : Mem) (ctx : MD5_CTX) (pieces : List (Mem × BitVec m.long)) :
    Comp (Mem × MD5_CTX) := do
  let ctx ← pieces.foldlM (fun ctx piece => MD5_Update m ctx piece.1 piece.2) (MD5_Init ctx)
  MD5_Final m result ctx

def piecesText {w : Nat} (pieces : List (Mem × BitVec w)) : List UInt8 :=
  pieces.flatMap fun piece => piece.1.bytes piece.2.toNat

theorem hashes_pieces (m : Machine) {ctx : MD5_CTX} {message : List UInt8} (h : Hashes ctx message)
    (pieces : List (Mem × BitVec m.long)) :
    ∃ ctx', (pieces.foldlM (fun ctx piece => MD5_Update m ctx piece.1 piece.2) ctx).Returns ctx' ∧
      Hashes ctx' (message ++ piecesText pieces) := by
  induction pieces generalizing ctx message with
  | nil =>
      refine ⟨ctx, returns_pure.mpr rfl, ?_⟩
      simpa [piecesText] using h
  | cons piece pieces ih =>
      obtain ⟨mid, first, held, -⟩ := hashes_update m h piece.1 piece.2
      obtain ⟨ctx', rest, held'⟩ := ih held
      refine ⟨ctx', ?_, ?_⟩
      · rw [List.foldlM_cons]
        exact first.bind rest
      · rw [piecesText, List.flatMap_cons, ← List.append_assoc]
        exact held'

/-- However a message is cut into pieces, the result is its digest. -/
theorem hashPieces_digest (m : Machine) (result : Mem) (ctx : MD5_CTX)
    (pieces : List (Mem × BitVec m.long)) :
    ∃ ctx', (hashPieces m result ctx pieces).Returns
      (result.write 0 (Md5.digest Md5.sineTable (piecesText pieces)), ctx') := by
  obtain ⟨mid, updates, held⟩ := hashes_pieces m (hashes_init ctx) pieces
  rw [List.nil_append] at held
  obtain ⟨ctx', final, -, -⟩ := MD5_Final_eq m result mid
  have digest : Md5.digest Md5.sineTable (piecesText pieces) =
      (absorb (Md5.compress constantAt) 64 mid.chain (mid.pending ++ mid.ending)).bytes := by
    rw [Md5.digest_congr constantAt_sine, Md5.digest, hashes_ending held, held.chain, held.pending,
      ← absorb_append _ (by norm_num)]
  rw [digest]
  exact ⟨ctx', updates.bind final⟩

example : Md5.digest Md5.sineTable (ascii "abc") =
    [0x90, 0x01, 0x50, 0x98, 0x3c, 0xd2, 0x4f, 0xb0, 0xd6, 0x96, 0x3f, 0x7d, 0x28, 0xe1, 0x7f, 0x72] := by
  rw [Md5.digest_congr constantAt_sine]
  decide +kernel

/-! ## Calls in any order -/

inductive Md5Call (w : Nat)
  | MD5_Init
  | MD5_Update (data : Mem) (size : BitVec w)
  | MD5_Final

def Md5Call.run (m : Machine) (p : Mem × MD5_CTX) : Md5Call m.long → Comp (Mem × MD5_CTX)
  | .MD5_Init => pure (p.1, AttoHTTP.MD5_Init p.2)
  | .MD5_Update data size => do
      let ctx ← AttoHTTP.MD5_Update m p.2 data size
      pure (p.1, ctx)
  | .MD5_Final => AttoHTTP.MD5_Final m p.1 p.2

theorem write_digest (result : Mem) (v : Md5.Chain) {i : Nat} (far : 16 ≤ i) :
    result.write 0 v.bytes i = result i := by
  apply Mem.write_after
  rwa [Md5.length_bytes, Nat.zero_add]

theorem call_confined (m : Machine) (p : Mem × MD5_CTX) (call : Md5Call m.long) :
    ∃ p', (call.run m p).Returns p' ∧ Confined p.2 p'.2 ∧ (∀ i, 16 ≤ i → p'.1 i = p.1 i) ∧
      (call = .MD5_Final → Wiped p'.2) := by
  cases call with
  | MD5_Init =>
      exact ⟨_, returns_pure.mpr rfl, ⟨fun _ _ => rfl, fun _ _ => rfl⟩, fun _ _ => rfl, nofun⟩
  | MD5_Update data size =>
      obtain ⟨ctx', run, -, -, -, -, outside⟩ := MD5_Update_eq m p.2 data size
      exact ⟨(p.1, ctx'), run.bind (returns_pure.mpr rfl), outside, fun _ _ => rfl, nofun⟩
  | MD5_Final =>
      obtain ⟨ctx', run, clean, outside⟩ := MD5_Final_eq m p.1 p.2
      exact ⟨_, run, outside, fun i far => write_digest p.1 _ far, fun _ => clean⟩

/-- Whatever the context holds and in whatever order the functions are called, they return and
change nothing but the context and the sixteen bytes of the result. -/
theorem calls_confined (m : Machine) (p : Mem × MD5_CTX) (calls : List (Md5Call m.long)) :
    ∃ p', (calls.foldlM (Md5Call.run m) p).Returns p' ∧ Confined p.2 p'.2 ∧
      (∀ i, 16 ≤ i → p'.1 i = p.1 i) ∧ (calls.getLast? = some .MD5_Final → Wiped p'.2) := by
  induction calls generalizing p with
  | nil => exact ⟨p, returns_pure.mpr rfl, ⟨fun _ _ => rfl, fun _ _ => rfl⟩, fun _ _ => rfl, nofun⟩
  | cons call calls ih =>
      obtain ⟨mid, first, outside, result, clean⟩ := call_confined m p call
      obtain ⟨p', rest, outside', result', clean'⟩ := ih mid
      refine ⟨p', ?_, outside.trans outside', fun i far => (result' i far).trans (result i far), ?_⟩
      · rw [List.foldlM_cons]
        exact first.bind rest
      · intro last
        cases calls with
        | nil =>
            rw [List.foldlM_nil, returns_pure] at rest
            rw [rest]
            exact clean (by simpa using last)
        | cons next calls => exact clean' (by simpa using last)

end AttoHTTP
