import AttoHTTP.Proof.Output
import AttoHTTP.Model.Server

namespace AttoHTTP
open Library

/-- The number of cells of the buffer that are sent. -/
def printfCount (size length : Nat) : Nat :=
  if length % 2 ^ 16 = size then size - 1 else length % 2 ^ 16

theorem bytes_congr {a b : Mem} {n : Nat} (agree : ∀ i, i < n → a i = b i) : a.bytes n = b.bytes n :=
  List.map_congr_left fun i inside => agree i (List.mem_range.mp inside)

theorem vprintf_count {size : Nat} (positive : 0 < size) (text : List UInt8) (w : Writer) :
    (vprintf size text w).2.trace = w.trace ++
      wire ((vsnprintf (w.stack 0) size text).bytes (printfCount size text.length)) := by
  simp only [vprintf, printfCount]
  split
  · rename_i full
    -- The terminator written again lies behind the bytes that are sent.
    rw [full, bytes_congr fun i inside => Mem.set_of_ne _ 0 (show i ≠ size - 1 by omega)]
    exact (write_adds _ _).trace
  · exact (write_adds _ _).trace

theorem vsnprintf_take {buffer : Mem} {size n : Nat} {text : List UInt8}
    (stored : n ≤ min (size - 1) text.length) :
    (vsnprintf buffer size text).bytes n = text.take n := by
  apply List.ext_getElem
  · simp
    omega
  · intro i left right
    have inside : i < size - 1 ∧ i < text.length := by
      rw [Mem.length_bytes] at left
      omega
    simp [Mem.bytes, vsnprintf, inside]

theorem wire_length (bytes : List UInt8) : (wire bytes).length = bytes.length :=
  List.length_map ..

/-- The narrowed count is right for an expansion that fits, for one that is a byte too long, and
for the longer ones whose length happens to be that of the stored part modulo `2 ^ 16`. -/
theorem printfCount_eq_iff {size : Nat} (positive : 0 < size) (narrow : size < 2 ^ 16) (length : Nat) :
    printfCount size length = min length (size - 1) ↔
      length ≤ size ∨ length % 2 ^ 16 = size - 1 ∨ length % 2 ^ 16 = size := by
  unfold printfCount
  by_cases fits : length < 2 ^ 16
  · rw [Nat.mod_eq_of_lt fits]
    split <;> omega
  · split <;> omega

theorem vprintf_sends_iff {size : Nat} (positive : 0 < size) (narrow : size < 2 ^ 16)
    (text : List UInt8) (w : Writer) :
    (vprintf size text w).2.trace = w.trace ++ wire (text.take (size - 1)) ↔
      text.length ≤ size ∨ text.length % 2 ^ 16 = size - 1 ∨ text.length % 2 ^ 16 = size := by
  rw [← printfCount_eq_iff positive narrow, vprintf_count positive]
  constructor
  · intro sent
    have lengths := congrArg List.length (List.append_cancel_left sent)
    rw [wire_length, wire_length, Mem.length_bytes, List.length_take, Nat.min_comm] at lengths
    exact lengths
  · intro count
    rw [vsnprintf_take (by omega), count]
    congr 2
    rw [List.take_eq_take_iff]
    omega

theorem vprintf_sends_eight :
    (vprintf 8 (ascii "on=1&a=0") State.boot.writer).2.trace =
      State.boot.writer.trace ++ wire (ascii "on=1&a=") :=
  (@vprintf_sends_iff 8 (by decide) (by decide) (ascii "on=1&a=0") State.boot.writer).mpr
    (.inl (by decide))

theorem vprintf_sends_more :
    (vprintf 128 (List.replicate 129 97) State.boot.writer).2.trace ≠
      State.boot.writer.trace ++ wire ((List.replicate 129 97).take 127) := by
  intro sent
  have lengths := congrArg List.length sent
  simp only [@vprintf_count 128 (by decide), List.length_append, wire_length, Mem.length_bytes,
    List.length_take, List.length_replicate] at lengths
  exact absurd lengths (by decide)

end AttoHTTP
