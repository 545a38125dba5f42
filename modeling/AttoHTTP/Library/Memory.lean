import Mathlib.Data.List.Infix
import Mathlib.Data.UInt

/-!
# Memory and the string functions of C

A pointer is modelled by the memory it points to: cell `i` is the byte at offset `i`, for every
offset, so that an access outside an object reads or changes cells the object does not own.
-/

namespace Library

-- Decided along the list, and not over all the values of a finite type.
instance (priority := high) decidableForallMem {α : Type} (l : List α) (p : α → Prop)
    [DecidablePred p] : Decidable (∀ x ∈ l, p x) :=
  List.decidableBAll p l

/-- The bytes from a pointer on. -/
abbrev Mem := Nat → UInt8

namespace Mem

def skip (m : Mem) (p : Nat) : Mem := fun i => m (p + i)

def set (m : Mem) (i : Nat) (b : UInt8) : Mem := fun j => if j = i then b else m j

/-- A constant object: the bytes and then zeros. -/
def ofBytes (bytes : List UInt8) : Mem := fun i => bytes.getD i 0

def bytes (m : Mem) (n : Nat) : List UInt8 := (List.range n).map m

/-- The C string at `m`, looking at `n` cells at most. -/
def cstr : Nat → Mem → List UInt8
  | 0, _ => []
  | n + 1, m => if m 0 = 0 then [] else m 0 :: cstr n (m.skip 1)

/-- `strncpy(dst, src, n)` for a source string given by its bytes. -/
def strncpy (dst : Mem) (src : List UInt8) (n : Nat) : Mem :=
  fun i => if i < n then src.getD i 0 else dst i

/-- The cells from 0 on hold these bytes. -/
def put (m : Mem) (bytes : List UInt8) : Mem := fun i => bytes.getD i (m i)

def write (m : Mem) (p : Nat) (bytes : List UInt8) : Mem :=
  fun i => if i < p then m i else bytes.getD (i - p) (m i)

def memcpy (dst : Mem) (p : Nat) (src : Mem) (n : Nat) : Mem := dst.write p (src.bytes n)

def memset (dst : Mem) (p : Nat) (c : UInt8) (n : Nat) : Mem := dst.write p (List.replicate n c)

@[simp]
theorem put_nil (m : Mem) : m.put [] = m := rfl

theorem put_of_lt (m : Mem) {bytes : List UInt8} {i : Nat} (h : i < bytes.length) :
    m.put bytes i = bytes[i] := by
  simp [put, h]

theorem put_of_le (m : Mem) {bytes : List UInt8} {i : Nat} (h : bytes.length ≤ i) :
    m.put bytes i = m i := by
  simp [put, h]

theorem put_set (m : Mem) (bytes : List UInt8) (b : UInt8) :
    (m.put bytes).set bytes.length b = m.put (bytes ++ [b]) := by
  funext i
  rcases Nat.lt_trichotomy i bytes.length with less | equal | more
  · rw [put_of_lt m (by simp; omega), List.getElem_append_left less]
    simp [set, put_of_lt m less, less.ne]
  · rw [equal, put_of_lt m (by simp)]
    simp [set]
  · rw [put_of_le m (by simp; omega)]
    simp [set, put_of_le m more.le, more.ne']

theorem set_zero_put (m : Mem) (b : UInt8) {bytes : List UInt8} (nonempty : bytes ≠ []) :
    (m.set 0 b).put bytes = m.put bytes := by
  funext i
  rcases Nat.lt_or_ge i bytes.length with inside | beyond
  · rw [put_of_lt _ inside, put_of_lt _ inside]
  · have positive := List.length_pos_iff.mpr nonempty
    rw [put_of_le _ beyond, put_of_le _ beyond]
    simp [set, show i ≠ 0 by omega]

theorem put_injective {bytes bytes' : List UInt8} (same : ∀ m : Mem, m.put bytes = m.put bytes') :
    bytes = bytes' := by
  have length_le {a b : List UInt8} (same : ∀ m : Mem, m.put a = m.put b) :
      a.length ≤ b.length := by
    by_contra more
    have first := congrFun (same fun _ => 0) b.length
    have second := congrFun (same fun _ => 1) b.length
    rw [put_of_le _ (le_refl b.length), put_of_lt _ (by omega)] at first second
    exact absurd (first.symm.trans second) (by decide)
  apply List.ext_getElem (le_antisymm (length_le same) (length_le fun m => (same m).symm))
  intro i inside inside'
  have cell := congrFun (same fun _ => 0) i
  rwa [put_of_lt _ inside, put_of_lt _ inside'] at cell

theorem bytes_put (m : Mem) (text : List UInt8) : (m.put text).bytes text.length = text := by
  apply List.ext_getElem
  · simp [Mem.bytes]
  · intro i left right
    simp [Mem.bytes, put_of_lt m right]

theorem bytes_put_append (m : Mem) (text after : List UInt8) :
    (m.put (text ++ after)).bytes text.length = text := by
  apply List.ext_getElem
  · simp [Mem.bytes]
  · intro i left right
    simp [Mem.bytes, put_of_lt m (show i < (text ++ after).length by simp; omega),
      List.getElem_append_left right]

theorem skip_put (m : Mem) (before after : List UInt8) :
    (m.put (before ++ after)).skip before.length = (m.skip before.length).put after := by
  funext i
  simp [put, skip, List.getElem?_append_right (Nat.le_add_right before.length i)]

theorem put_append_set (m : Mem) (bytes : List UInt8) (b c : UInt8) :
    (m.put (bytes ++ [b])).set bytes.length c = m.put (bytes ++ [c]) := by
  rw [← put_set, ← put_set]
  funext i
  by_cases same : i = bytes.length <;> simp [set, same]

@[simp]
theorem set_self (m : Mem) (i : Nat) (b : UInt8) : m.set i b i = b := by simp [set]

theorem set_apply (m : Mem) (i j : Nat) (b : UInt8) : m.set i b j = if j = i then b else m j := rfl

theorem set_of_ne (m : Mem) {i j : Nat} (b : UInt8) (h : j ≠ i) : m.set i b j = m j := by
  simp [set, h]

theorem set_set (m : Mem) (i : Nat) (b c : UInt8) : (m.set i b).set i c = m.set i c := by
  funext j
  by_cases same : j = i <;> simp [set, same]

@[simp]
theorem skip_apply (m : Mem) (p i : Nat) : m.skip p i = m (p + i) := rfl

@[simp]
theorem skip_zero (m : Mem) : m.skip 0 = m := by
  funext i
  simp

@[simp]
theorem length_bytes (m : Mem) (n : Nat) : (m.bytes n).length = n := by simp [bytes]

theorem cstr_eq {m : Mem} {text : List UInt8} {n : Nat} (nonzero : ∀ b ∈ text, b ≠ 0)
    (cells : ∀ i, (h : i < text.length) → i < n → m i = text[i])
    (terminated : text.length < n → m text.length = 0) :
    cstr n m = text.take n := by
  induction n generalizing m text with
  | zero => simp [cstr]
  | succ n ih =>
      cases text with
      | nil => simpa [cstr] using terminated (by simp)
      | cons b text =>
          have first : m 0 = b := cells 0 (by simp) (by omega)
          have rest : cstr n (m.skip 1) = text.take n := by
            refine ih (fun b hb => nonzero b (by simp [hb])) ?_ ?_
            · intro i h le
              have cell := cells (i + 1) (by simpa using h) (by omega)
              rw [List.getElem_cons_succ] at cell
              rw [skip_apply, Nat.add_comm, cell]
            · intro h
              simpa [Nat.add_comm] using terminated (by simpa using h)
          simp [cstr, first, nonzero b (by simp), rest]

theorem cstr_ofBytes {text : List UInt8} (nonzero : ∀ b ∈ text, b ≠ 0) (n : Nat) :
    cstr n (ofBytes text) = text.take n :=
  cstr_eq nonzero (fun i h _ => by simp [ofBytes, h]) (fun _ => by simp [ofBytes])

theorem cstr_put (m : Mem) {text : List UInt8} (nonzero : ∀ b ∈ text, b ≠ 0) (n : Nat) :
    cstr n (m.put (text ++ [0])) = text.take n := by
  apply cstr_eq nonzero
  · intro i inside _
    rw [put_of_lt m (by simp; omega), List.getElem_append_left inside]
  · intro _
    rw [put_of_lt m (by simp)]
    simp

theorem write_before (m : Mem) {p i : Nat} (bytes : List UInt8) (before : i < p) :
    m.write p bytes i = m i := by
  rw [write, if_pos before]

theorem write_after (m : Mem) {p i : Nat} {bytes : List UInt8} (after : p + bytes.length ≤ i) :
    m.write p bytes i = m i := by
  rw [write, if_neg (by omega), List.getD_eq_getElem?_getD, List.getElem?_eq_none (by omega)]
  rfl

theorem skip_write (m : Mem) (p : Nat) (bytes : List UInt8) :
    (m.write p bytes).skip p = (m.skip p).put bytes := by
  funext i
  simp [skip, write, put]

theorem set_eq_write (m : Mem) (p : Nat) (b : UInt8) : m.set p b = m.write p [b] := by
  funext i
  rcases Nat.lt_trichotomy i p with before | rfl | after
  · rw [set_of_ne m b before.ne, write_before m _ before]
  · simp [set, write]
  · have beyond : p + [b].length ≤ i := after
    rw [set_of_ne m b after.ne', write_after m beyond]

theorem write_append (m : Mem) (p : Nat) (bytes more : List UInt8) :
    (m.write p bytes).write (p + bytes.length) more = m.write p (bytes ++ more) := by
  funext i
  rcases Nat.lt_or_ge i p with before | after
  · rw [write_before _ _ (by omega), write_before _ _ before, write_before _ _ before]
  · obtain ⟨k, rfl⟩ := Nat.exists_eq_add_of_le after
    simp only [write, Nat.add_sub_cancel_left, Nat.add_sub_add_left, List.getD_eq_getElem?_getD,
      Nat.add_lt_add_iff_left, if_neg (Nat.not_lt.mpr (Nat.le_add_right p k)), List.getElem?_append]
    split
    · rfl
    · rename_i beyond
      rw [List.getElem?_eq_none (Nat.not_lt.mp beyond)]
      rfl

theorem bytes_succ (m : Mem) (n : Nat) : m.bytes (n + 1) = m.bytes n ++ [m n] := by
  simp [bytes, List.range_succ]

theorem bytes_add (m : Mem) (p n : Nat) : m.bytes (p + n) = m.bytes p ++ (m.skip p).bytes n := by
  induction n with
  | zero => simp [bytes]
  | succ n ih => rw [← Nat.add_assoc, bytes_succ, ih, bytes_succ, List.append_assoc, skip_apply]

theorem bytes_write (m : Mem) (p : Nat) (bytes : List UInt8) :
    (m.write p bytes).bytes (p + bytes.length) = m.bytes p ++ bytes := by
  have before : (m.write p bytes).bytes p = m.bytes p :=
    List.map_congr_left fun i member => write_before m bytes (List.mem_range.mp member)
  rw [bytes_add, before, skip_write, bytes_put]

theorem put_cons_skip (m : Mem) (b : UInt8) (bytes : List UInt8) :
    (m.put (b :: bytes)).skip 1 = (m.skip 1).put bytes := by
  funext i
  simp [put, skip, Nat.add_comm 1 i]

theorem cstr_put_prefix (m : Mem) (bytes : List UInt8) (n : Nat) :
    cstr n (m.put (bytes ++ [0])) = (bytes.takeWhile (· ≠ 0)).take n := by
  induction n generalizing m bytes with
  | zero => simp [cstr]
  | succ n ih =>
      cases bytes with
      | nil => simp [cstr, put]
      | cons b bytes =>
          rw [List.cons_append, cstr, put_cons_skip, ih]
          by_cases zero : b = 0 <;> simp [put, zero]

theorem cstr_congr {a b : Mem} {n : Nat} (k : Nat)
    (agree : ∀ i, i ≤ k → a i = b i) (terminated : a k = 0) : cstr n a = cstr n b := by
  induction n generalizing a b k with
  | zero => rfl
  | succ n ih =>
      have first := agree 0 (Nat.zero_le k)
      rw [cstr, cstr, first]
      split
      · rfl
      · rename_i nonzero
        cases k with
        | zero => exact absurd (first ▸ terminated) nonzero
        | succ k =>
            have rest : cstr n (a.skip 1) = cstr n (b.skip 1) := by
              refine ih k (fun i le => ?_) ?_
              · simpa [Nat.add_comm] using agree (i + 1) (by omega)
              · simpa [Nat.add_comm] using terminated
            rw [rest]

end Mem

/-! ## Characters and strings -/

theorem forall_byte {p : UInt8 → Prop} (table : ∀ n < 256, p (UInt8.ofNat n)) (c : UInt8) : p c := by
  have row := table c.toNat c.toNat_lt
  rwa [UInt8.ofNat_toNat] at row

def isBlank (c : UInt8) : Bool := c == 32 || c == 9

def isSpace (c : UInt8) : Bool := c == 32 || (9 ≤ c && c ≤ 13)

def toLower (c : UInt8) : UInt8 := if 65 ≤ c ∧ c ≤ 90 then c + 32 else c

theorem sub_one_toNat {n : UInt8} (h : n ≠ 0) : (n - 1).toNat + 1 = n.toNat := by
  have positive := UInt8.lt_iff_toNat_lt.mp (UInt8.pos_iff_ne_zero.mpr h)
  simp only [UInt8.toNat_zero] at positive
  rw [UInt8.toNat_sub_of_le]
  · simp only [UInt8.toNat_one]
    omega
  · exact UInt8.le_iff_toNat_le.mpr positive

theorem isSpace_of_isBlank {c : UInt8} (h : isBlank c = true) : isSpace c = true := by
  simp only [isBlank, Bool.or_eq_true, beq_iff_eq] at h
  rcases h with rfl | rfl <;> decide

def ascii (s : String) : List UInt8 := s.toList.map fun c => UInt8.ofNat c.toNat

/-- `strncmp(a, b, n) == 0`. -/
def strncmpEq (a b : Mem) (n : Nat) : Bool := a.cstr n == b.cstr n

/-- `strncasecmp(a, b, n) == 0`. -/
def strncasecmpEq (a b : Mem) (n : Nat) : Bool :=
  (a.cstr n).map toLower == (b.cstr n).map toLower

/-- `strstr`: where the needle starts for the first time. -/
def strstr : List UInt8 → List UInt8 → Option Nat
  | [], needle => if needle.isEmpty then some 0 else none
  | b :: text, needle =>
      if needle.isPrefixOf (b :: text) then some 0 else (strstr text needle).map (· + 1)

theorem strstr_isSome (text needle : List UInt8) :
    (strstr text needle).isSome = true ↔ needle <:+: text := by
  induction text with
  | nil => cases needle <;> simp [strstr]
  | cons b text ih =>
      rw [strstr, List.infix_cons_iff]
      split
      · rename_i found
        simp [List.isPrefixOf_iff_prefix.mp found]
      · rename_i missing
        have : ¬ needle <+: b :: text := fun h => missing (List.isPrefixOf_iff_prefix.mpr h)
        simp [this, ih]

theorem strstr_prefix_drop {text needle : List UInt8} {i : Nat} (found : strstr text needle = some i) :
    needle <+: text.drop i := by
  induction text generalizing i with
  | nil =>
      rw [strstr] at found
      split at found
      · rename_i empty
        simp [List.isEmpty_iff.mp empty]
      · cases found
  | cons b text ih =>
      rw [strstr] at found
      split at found
      · rename_i here
        cases found
        exact List.isPrefixOf_iff_prefix.mp here
      · obtain ⟨j, later, rfl⟩ := Option.map_eq_some_iff.mp found
        exact ih later

theorem strstr_le {before after needle : List UInt8} :
    ∃ i ≤ before.length, strstr (before ++ (needle ++ after)) needle = some i := by
  induction before with
  | nil =>
      refine ⟨0, le_rfl, ?_⟩
      rw [List.nil_append]
      cases whole : needle ++ after with
      | nil =>
          rw [strstr, if_pos]
          simp [(List.append_eq_nil_iff.mp whole).1]
      | cons b text =>
          rw [strstr, if_pos (List.isPrefixOf_iff_prefix.mpr (whole ▸ List.prefix_append _ _))]
  | cons b before ih =>
      obtain ⟨i, before', found⟩ := ih
      rw [List.cons_append, strstr]
      split
      · exact ⟨0, Nat.zero_le _, rfl⟩
      · exact ⟨i + 1, Nat.succ_le_succ before', by rw [found]; rfl⟩

theorem strstr_append {text needle : List UInt8} {i : Nat} (found : strstr text needle = some i)
    (after : List UInt8) : strstr (text ++ after) needle = some i := by
  induction text generalizing i with
  | nil =>
      rw [strstr] at found
      split at found
      · rename_i empty
        rw [← found, List.isEmpty_iff.mp empty]
        cases after <;> simp [strstr]
      · cases found
  | cons b text ih =>
      rw [strstr] at found
      rw [List.cons_append, strstr]
      split at found
      · rename_i here
        have more : needle <+: b :: (text ++ after) :=
          (List.isPrefixOf_iff_prefix.mp here).trans (List.prefix_append (b :: text) after)
        rw [if_pos (List.isPrefixOf_iff_prefix.mpr more)]
        exact found
      · rename_i missing
        obtain ⟨j, later, rfl⟩ := Option.map_eq_some_iff.mp found
        have fits : needle.length ≤ (b :: text).length := by
          have := (strstr_prefix_drop later).length_le
          simp only [List.length_drop] at this
          simp only [List.length_cons]
          omega
        have missing' : ¬ needle.isPrefixOf (b :: (text ++ after)) = true := by
          intro here
          refine missing (List.isPrefixOf_iff_prefix.mpr ?_)
          exact List.prefix_of_prefix_length_le (List.isPrefixOf_iff_prefix.mp here)
            (List.prefix_append (b :: text) after) fits
        rw [if_neg missing', ih later]
        rfl

end Library
