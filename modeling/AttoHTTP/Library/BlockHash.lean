import Mathlib.Data.List.Basic
import Mathlib.Tactic.Ring
import Mathlib.Tactic.NormNum

/-!
# Hashing in blocks

A text is taken in blocks of `n` letters. What does not fill a block is kept until more arrives, so
that a text can be given in pieces of any lengths.
-/

namespace Library

variable {σ α : Type}

/-- The state after the whole blocks of a text. -/
def absorb (f : σ → List α → σ) (n : Nat) (s : σ) (text : List α) : σ :=
  (List.range (text.length / n)).foldl (fun s i => f s ((text.drop (n * i)).take n)) s

def leftover (n : Nat) (text : List α) : List α := text.drop (n * (text.length / n))

theorem length_leftover (n : Nat) (text : List α) :
    (leftover n text).length = text.length % n := by
  rw [leftover, List.length_drop, Nat.mod_eq_sub]

theorem absorb_short (f : σ → List α → σ) {n : Nat} (s : σ) {text : List α}
    (short : text.length < n) : absorb f n s text = s := by
  rw [absorb, Nat.div_eq_of_lt short]
  rfl

theorem leftover_short {n : Nat} {text : List α} (short : text.length < n) :
    leftover n text = text := by
  rw [leftover, Nat.div_eq_of_lt short]
  rfl

section Blocks

variable {n : Nat} {block : List α} (positive : 0 < n) (full : block.length = n)
include positive full

theorem absorb_block (f : σ → List α → σ) (s : σ) (text : List α) :
    absorb f n s (block ++ text) = absorb f n (f s block) text := by
  have count : (block ++ text).length / n = text.length / n + 1 := by
    rw [List.length_append, full, Nat.add_div_left _ positive]
  have first : ((block ++ text).drop (n * 0)).take n = block := by
    rw [Nat.mul_zero, List.drop_zero, List.take_left' full]
  have later (i : Nat) : (block ++ text).drop (n * (i + 1)) = text.drop (n * i) := by
    rw [Nat.mul_succ, Nat.add_comm, ← List.drop_drop, List.drop_left' full]
  rw [absorb, count, List.range_succ_eq_map, List.foldl_cons, List.foldl_map, first]
  simp only [Nat.succ_eq_add_one, later]
  rfl

theorem leftover_block (text : List α) : leftover n (block ++ text) = leftover n text := by
  have count : (block ++ text).length / n = text.length / n + 1 := by
    rw [List.length_append, full, Nat.add_div_left _ positive]
  rw [leftover, leftover, count, Nat.mul_succ, Nat.add_comm, ← List.drop_drop,
    List.drop_left' full]

theorem absorb_single (f : σ → List α → σ) (s : σ) : absorb f n s block = f s block := by
  have nothing : ([] : List α).length < n := positive
  calc absorb f n s block = absorb f n s (block ++ []) := by rw [List.append_nil]
    _ = absorb f n (f s block) [] := absorb_block positive full f s []
    _ = f s block := absorb_short f _ nothing

end Blocks

theorem blocks_induction {n : Nat} (positive : 0 < n) {motive : List α → Prop}
    (short : ∀ text, text.length < n → motive text)
    (next : ∀ block text, block.length = n → motive text → motive (block ++ text))
    (text : List α) : motive text := by
  induction size : text.length using Nat.strongRecOn generalizing text with
  | ind size ih =>
      rcases Nat.lt_or_ge text.length n with less | more
      · exact short text less
      · rw [← List.take_append_drop n text]
        apply next
        · exact List.length_take_of_le more
        · apply ih (text.drop n).length _ _ rfl
          rw [List.length_drop]
          omega

theorem absorb_append (f : σ → List α → σ) {n : Nat} (positive : 0 < n) (s : σ)
    (text more : List α) :
    absorb f n s (text ++ more) = absorb f n (absorb f n s text) (leftover n text ++ more) := by
  induction text using blocks_induction positive generalizing s with
  | short text short => rw [absorb_short f s short, leftover_short short]
  | next block text full ih =>
      rw [List.append_assoc, absorb_block positive full, ih, absorb_block positive full,
        leftover_block positive full]

theorem leftover_append {n : Nat} (positive : 0 < n) (text more : List α) :
    leftover n (text ++ more) = leftover n (leftover n text ++ more) := by
  induction text using blocks_induction positive with
  | short text short => rw [leftover_short short]
  | next block text full ih =>
      rw [List.append_assoc, leftover_block positive full, ih, leftover_block positive full]

theorem leftover_whole {n : Nat} {text : List α} (whole : n ∣ text.length) :
    leftover n text = [] := by
  apply List.eq_nil_of_length_eq_zero
  rw [length_leftover, Nat.mod_eq_zero_of_dvd whole]

theorem absorb_whole_append (f : σ → List α → σ) {n : Nat} (positive : 0 < n) (s : σ)
    {text : List α} (whole : n ∣ text.length) (more : List α) :
    absorb f n s (text ++ more) = absorb f n (absorb f n s text) more := by
  rw [absorb_append f positive, leftover_whole whole, List.nil_append]

theorem leftover_whole_append {n : Nat} (positive : 0 < n) {text : List α}
    (whole : n ∣ text.length) (more : List α) : leftover n (text ++ more) = leftover n more := by
  rw [leftover_append positive, leftover_whole whole, List.nil_append]

end Library
