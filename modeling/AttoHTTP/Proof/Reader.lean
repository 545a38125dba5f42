import AttoHTTP.Model.Reader

/-!
# What a read delivers

The pushed-back byte and the connection together are one stream, `Reader.pending`. Every parser
only moves forward in it (`Reader.Follows`), and when the connection ends with a result of 0 every
loop over it ends.
-/

namespace AttoHTTP
open Library Comp

/-- The reads to come before the connection is at its end. -/
def Reader.pending (r : Reader) : List GetByte :=
  match r.extraC with
  | some e => if e ≠ 0 then .byte e :: r.input else r.input
  | none => r.input

def Reader.next (r : Reader) : GetByte := r.pending.headD r.atEnd

theorem readC_eq (c : UInt8) (r : Reader) :
    (readC c r).ret = r.next.ret ∧ (readC c r).c = r.next.store c ∧
      (readC c r).reader.input = r.pending.tail ∧ (readC c r).reader.pending = r.pending.tail ∧
      (readC c r).reader.atEnd = r.atEnd ∧ (readC c r).reader.stack = r.stack := by
  unfold readC Reader.next Reader.pending getByte
  rcases r with ⟨input, atEnd, extraC, stack⟩
  cases extraC with
  | none => cases input <;> simp
  | some e =>
      by_cases zero : e = 0
      · cases input <;> simp [zero]
      · simp [zero, GetByte.ret, GetByte.store]

@[simp]
theorem readC_ret (c : UInt8) (r : Reader) : (readC c r).ret = r.next.ret := (readC_eq c r).1

@[simp]
theorem readC_c (c : UInt8) (r : Reader) : (readC c r).c = r.next.store c := (readC_eq c r).2.1

@[simp]
theorem readC_input (c : UInt8) (r : Reader) : (readC c r).reader.input = r.pending.tail :=
  (readC_eq c r).2.2.1

@[simp]
theorem readC_pending (c : UInt8) (r : Reader) : (readC c r).reader.pending = r.pending.tail :=
  (readC_eq c r).2.2.2.1

@[simp]
theorem readC_atEnd (c : UInt8) (r : Reader) : (readC c r).reader.atEnd = r.atEnd :=
  (readC_eq c r).2.2.2.2.1

@[simp]
theorem readC_stack (c : UInt8) (r : Reader) : (readC c r).reader.stack = r.stack :=
  (readC_eq c r).2.2.2.2.2

theorem readC_reader (c d : UInt8) (r : Reader) : (readC c r).reader = (readC d r).reader := by
  unfold readC getByte
  cases r.extraC with
  | none => cases r.input <;> rfl
  | some e =>
      dsimp only
      split
      · rfl
      · cases r.input <;> rfl

@[simp]
theorem pushC_input (c : UInt8) (r : Reader) : (pushC c r).input = r.input := rfl

@[simp]
theorem pushC_atEnd (c : UInt8) (r : Reader) : (pushC c r).atEnd = r.atEnd := rfl

@[simp]
theorem pushC_pending (c : UInt8) (r : Reader) :
    (pushC c r).pending = if c = 0 then r.input else .byte c :: r.input := by
  by_cases zero : c = 0 <;> simp [pushC, Reader.pending, zero]

@[simp]
theorem enter_input (r : Reader) : r.enter.input = r.input := rfl

@[simp]
theorem enter_atEnd (r : Reader) : r.enter.atEnd = r.atEnd := rfl

@[simp]
theorem enter_pending (r : Reader) : r.enter.pending = r.pending := rfl

@[simp]
theorem enter_next (r : Reader) : r.enter.next = r.next := rfl

theorem next_of_pending {r : Reader} {e : GetByte} {rest : List GetByte}
    (h : r.pending = e :: rest) : r.next = e := by
  simp [Reader.next, h]

theorem next_of_empty {r : Reader} (h : r.pending = []) : r.next = r.atEnd := by
  simp [Reader.next, h]

theorem pending_length_le (r : Reader) : r.pending.length ≤ r.input.length + 1 := by
  unfold Reader.pending
  split
  · split <;> simp
  · simp

theorem pending_tail_suffix (r : Reader) : r.pending.tail <:+ r.input := by
  unfold Reader.pending
  split
  · split
    · exact List.suffix_rfl
    · exact List.tail_suffix _
  · exact List.tail_suffix _

/-! ## Moving forward -/

/-- `r'` is `r` after some calls, some reads and at most one byte pushed back. -/
structure Reader.Follows (r' r : Reader) : Prop where
  atEnd : r'.atEnd = r.atEnd
  input : r'.input <:+ r.input
  stack : ∃ k, ∀ i, r'.stack i = r.stack (i + k)

theorem Reader.Follows.refl (r : Reader) : r.Follows r := ⟨rfl, List.suffix_rfl, 0, fun _ => rfl⟩

theorem Reader.Follows.trans {a b c : Reader} (ab : a.Follows b) (bc : b.Follows c) : a.Follows c := by
  obtain ⟨k, first⟩ := ab.stack
  obtain ⟨j, second⟩ := bc.stack
  refine ⟨ab.atEnd.trans bc.atEnd, ab.input.trans bc.input, k + j, fun i => ?_⟩
  rw [first, second, Nat.add_assoc]

theorem readC_follows (c : UInt8) (r : Reader) : (readC c r).reader.Follows r :=
  ⟨readC_atEnd c r, by simpa using pending_tail_suffix r, 0, fun i => congrFun (readC_stack c r) i⟩

theorem pushC_follows (c : UInt8) (r : Reader) : (pushC c r).Follows r :=
  ⟨rfl, List.suffix_rfl, 0, fun _ => rfl⟩

theorem enter_follows (r : Reader) : r.enter.Follows r := ⟨rfl, List.suffix_rfl, 1, fun _ => rfl⟩

theorem pending_tail_lt {r : Reader} (final : r.atEnd.ret = 0) (success : r.next.ret ≠ 0) :
    r.pending.tail.length < r.pending.length := by
  cases h : r.pending with
  | nil =>
      rw [next_of_empty h] at success
      exact absurd final success
  | cons e rest => simp

theorem pending_tail_lt_of_pos {r : Reader} (final : r.atEnd.ret ≤ 0) (success : 0 < r.next.ret) :
    r.pending.tail.length < r.pending.length := by
  cases h : r.pending with
  | nil =>
      rw [next_of_empty h] at success
      exact absurd success (Int8.not_lt.mpr final)
  | cons e rest => simp

@[simp]
theorem byte_ret (b : UInt8) : (GetByte.byte b).ret = 1 := rfl

@[simp]
theorem byte_store (b c : UInt8) : (GetByte.byte b).store c = b := rfl

theorem ret_pos_iff (e : GetByte) : 0 < e.ret ↔ ∃ b, e = .byte b := by
  cases e <;> simp [GetByte.ret]

theorem ret_pos_of_unsigned {e : GetByte} (h : 0 < e.ret.toUInt8.toInt8) : 0 < e.ret := by
  rwa [Int8.toInt8_toUInt8] at h

theorem ret_ne_zero_of_pos {x : Int8} (h : 0 < x) : x ≠ 0 := by
  intro zero
  rw [zero] at h
  exact absurd h (by decide)

theorem ret_pos_of_ne_zero_unsigned {e : GetByte} (h : 0 < e.ret.toUInt8) : e.ret ≠ 0 := by
  intro zero
  rw [zero] at h
  exact absurd h (by decide)

/-! ## The helpers -/

theorem parseSpace_follows {r : Reader} {t : Scanned} (h : (parseSpace r).Returns t) :
    t.reader.Follows r := by
  obtain ⟨g, loop, h⟩ := returns_bind.mp h
  rw [returns_pure] at h
  subst h
  refine (pushC_follows _ _).trans ?_
  refine doWhile_invariant (fun g => g.reader.Follows r) (fun g => g.reader.Follows r) ?_ loop
    (enter_follows r)
  intro g hg
  have step : (parseSpaceStep g).1.reader.Follows r := (readC_follows _ _).trans hg
  split <;> exact step

theorem parseSpace_total {r : Reader} (final : r.atEnd.ret ≤ 0) :
    ∃ t, (parseSpace r).Returns t := by
  suffices round : ∃ g, (doWhile parseSpaceStep ⟨1, r.frame 0, r.enter⟩).Returns g ∧ True by
    obtain ⟨g, loop, -⟩ := round
    exact ⟨_, loop.bind (returns_pure.mpr rfl)⟩
  apply doWhile_total (fun g => g.reader.pending.length) (fun g => g.reader.atEnd = r.atEnd)
    (fun _ => True) _ _ rfl
  intro g hg
  split
  · rename_i again
    simp only [parseSpaceStep, readC_ret, Bool.and_eq_true, decide_eq_true_eq] at again
    have lower := pending_tail_lt_of_pos (hg ▸ final) again.2
    exact ⟨by simp [parseSpaceStep, hg], by simpa [parseSpaceStep] using lower⟩
  · trivial

theorem parseEOL_follows {r : Reader} {q : Request} {p : Parsed} (h : (parseEOL r q).Returns p) :
    p.reader.Follows r := by
  obtain ⟨t, loop, h⟩ := returns_bind.mp h
  rw [returns_pure] at h
  subst h
  refine (pushC_follows _ _).trans ?_
  refine doWhile_invariant (fun t => t.reader.Follows r) (fun t => t.reader.Follows r) ?_ loop
    (enter_follows r)
  intro t ht
  have step : (parseEOLStep t).1.reader.Follows r := (readC_follows _ _).trans ht
  split <;> exact step

theorem parseEOL_total {r : Reader} (final : r.atEnd.ret = 0) (q : Request) :
    ∃ p, (parseEOL r q).Returns p := by
  suffices round : ∃ t, (doWhile parseEOLStep ⟨1, r.frame 0, 0, r.enter⟩).Returns t ∧ True by
    obtain ⟨t, loop, -⟩ := round
    exact ⟨_, loop.bind (returns_pure.mpr rfl)⟩
  apply doWhile_total (fun t => t.reader.pending.length) (fun t => t.reader.atEnd = r.atEnd)
    (fun _ => True) _ _ rfl
  intro t ht
  split
  · rename_i again
    simp only [parseEOLStep, readC_ret, Bool.and_eq_true, decide_eq_true_eq] at again
    have lower := pending_tail_lt (ht ▸ final) (ret_pos_of_ne_zero_unsigned again.1.2)
    exact ⟨by simp [parseEOLStep, ht], by simpa [parseEOLStep] using lower⟩
  · trivial

theorem fill_follows {stop : UInt8 → Bool} {more : Int8 → Bool} {room : Nat} {buffer : Mem}
    {r : Reader} {f : Fill} (h : (fill stop more room buffer r).Returns f) :
    f.reader.Follows r := by
  refine doWhile_invariant (fun f => f.reader.Follows r) (fun f => f.reader.Follows r) ?_ h
    (Reader.Follows.refl r)
  intro f hf
  have step : (fillStep stop more room f).1.reader.Follows r := by
    simp only [fillStep]
    split <;> exact (readC_follows _ _).trans hf
  split <;> exact step

theorem fill_total (stop : UInt8 → Bool) (more : Int8 → Bool) (room : Nat) (buffer : Mem)
    (r : Reader) : ∃ f, (fill stop more room buffer r).Returns f := by
  suffices round : ∃ f, (fill stop more room buffer r).Returns f ∧ True by
    obtain ⟨f, loop, -⟩ := round
    exact ⟨f, loop⟩
  apply doWhile_total (fun f => room - f.ptr) (fun _ => True) (fun _ => True) _ _ trivial
  intro f _
  split
  · rename_i again
    simp only [fillStep] at again ⊢
    split at again
    · simp at again
    · rename_i go
      rw [Bool.and_eq_true, decide_eq_true_eq] at again
      rw [if_neg go]
      exact ⟨trivial, by dsimp only; omega⟩
  · trivial

/-- A line end that reports more to read has taken at least one byte off the connection: two reads
succeeded, and only one of them can have been the byte pushed back. -/
theorem parseEOL_progress {r : Reader} {q : Request} {p : Parsed} (h : (parseEOL r q).Returns p)
    (final : r.atEnd.ret ≤ 0) (more : 0 < p.ret) : p.reader.input.length < r.input.length := by
  obtain ⟨t, loop, h⟩ := returns_bind.mp h
  rw [returns_pure] at h
  subst h
  have success : 0 < t.ret.toInt8 := more
  -- Each newline still missing is one more pending read.
  have reads : t.reader.pending.length + 2 ≤ r.pending.length ∧
      t.reader.input = t.reader.pending := by
    refine doWhile_induction
      (motive := fun s t => s.reader.atEnd = r.atEnd → s.eolCount < 2 → 0 < t.ret.toInt8 →
        t.reader.pending.length + (2 - s.eolCount) ≤ s.reader.pending.length ∧
          t.reader.input = t.reader.pending)
      ?_ ?_ loop rfl (by simp) success
    · intro s stop hs count success
      have read : 0 < s.reader.next.ret := by
        simp only [parseEOLStep, readC_ret] at success
        exact ret_pos_of_unsigned success
      have lower := pending_tail_lt_of_pos (hs ▸ final) read
      obtain ⟨b, byte⟩ := (ret_pos_iff _).mp read
      have positive : 0 < (GetByte.byte b).ret.toUInt8 := show (0 : UInt8) < (1 : Int8).toUInt8 by decide
      refine ⟨?_, by simp [parseEOLStep]⟩
      simp only [parseEOLStep, readC_ret, readC_c, readC_pending, byte, byte_store, positive,
        decide_true, Bool.and_true, Bool.and_eq_false_iff, Bool.or_eq_false_iff,
        beq_eq_false_iff_ne, decide_eq_false_iff_not] at stop ⊢
      by_cases newline : b = 10
      · simp only [newline, if_true] at stop
        have one : s.eolCount = 1 := by
          rcases stop with ⟨space, -⟩ | two
          · exact absurd space (by decide)
          · omega
        omega
      · simp only [newline, if_false] at stop
        omega
    · intro s t again ih hs count success
      simp only [parseEOLStep, readC_ret, readC_c, Bool.and_eq_true, decide_eq_true_eq] at again
      have rest := ih (by simp [parseEOLStep, hs]) (by simpa [parseEOLStep] using again.2) success
      refine ⟨?_, rest.2⟩
      have := rest.1
      have size : s.reader.pending.tail.length = s.reader.pending.length - 1 := List.length_tail
      have few := again.2
      simp only [parseEOLStep, readC_pending, readC_c] at this
      by_cases newline : s.reader.next.store s.c = 10
      · rw [if_pos newline] at this few
        omega
      · rw [if_neg newline] at this few
        omega
  have := pending_length_le r
  simp only [pushC_input, reads.2]
  omega

end AttoHTTP
