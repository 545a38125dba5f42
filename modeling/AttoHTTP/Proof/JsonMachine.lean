import AttoHTTP.Proof.Delivery
import AttoHTTP.Proof.Parameters

/-!
# The JSON reader as a machine over characters

One call reads characters into the two buffers until a branch of the loop leaves it. What a
character is depends on the quotes and brackets before it and not on the buffers; what the buffers
held before and where the characters come from do not matter at all.
-/

namespace AttoHTTP
open Library Comp

/-! ## Characters -/

/-- What the loop remembers of the text. -/
structure JsonScan where
  sqlevel : UInt8
  dqlevel : UInt8
  json : JsonState

inductive JsonSym
  | divide
  | skip
  | char

/-- The loop goes on, ends, or ends with the character pushed back. -/
inductive JsonMove
  | next
  | stop
  | push

def JsonScan.lex (s : JsonScan) (c : UInt8) : JsonScan × JsonSym × JsonMove :=
  let j := s.json
  if c = 58 ∧ j.cblevel = 1 ∧ j.sblevel = 0 ∧ s.sqlevel ≠ 1 ∧ s.dqlevel ≠ 1 then
    (s, .divide, .next)
  else if isSpace c ∧ s.sqlevel = 0 ∧ s.dqlevel = 0 ∧ j.level ≤ 1 then (s, .skip, .next)
  else if c = 44 ∧ j.level = 1 then (s, .skip, .stop)
  else if c = 39 ∧ j.level ≤ 1 ∧ s.dqlevel = 0 then
    ({ s with sqlevel := if s.sqlevel = 1 then 0 else 1 }, .skip, .next)
  else if c = 34 ∧ j.level ≤ 1 ∧ s.sqlevel = 0 then
    ({ s with dqlevel := if s.dqlevel = 1 then 0 else 1 }, .skip, .next)
  else if c = 123 ∧ j.level = 0 then
    ({ s with json := openJson c { j with cblevel := j.cblevel + 1 } }, .skip, .next)
  else if c = 125 ∧ j.cblevel ≤ 1 ∧ j.baselevel = 123 then
    ({ s with json := { j with cblevel := j.cblevel - 1 } }, .skip, .push)
  else if c = 91 ∧ j.level = 0 then
    ({ s with json := openJson c { j with sblevel := j.sblevel + 1 } }, .skip, .next)
  else if c = 93 ∧ j.sblevel = 1 ∧ j.baselevel = 91 then
    ({ s with json := { j with sblevel := j.sblevel - 1 } }, .skip, .stop)
  else
    ({ s with json := (nestJson c j).1 }, .char, if (nestJson c j).2 then .stop else .next)

/-- What has been stored, from the start of each buffer on, and the variables of the loop. -/
structure JsonView where
  name : List UInt8
  nameLen : UInt8
  value : List UInt8
  valueLen : UInt8
  divider : UInt8
  scan : JsonScan

def JsonView.start (nameLen valueLen : UInt8) (j : JsonState) : JsonView :=
  ⟨[], nameLen, [], valueLen, 0, 0, 0, j⟩

def JsonView.store (v : JsonView) (c : UInt8) : JsonView :=
  if 0 < v.nameLen then
    if 1 < v.nameLen then { v with name := v.name ++ [c], nameLen := v.nameLen - 1 } else v
  else if 1 < v.valueLen then { v with value := v.value ++ [c], valueLen := v.valueLen - 1 }
  else v

def JsonView.take (v : JsonView) (c : UInt8) : JsonSym → JsonView
  | .divide => { v with nameLen := 0, divider := c }
  | .skip => v
  | .char => v.store c

def JsonView.after (v : JsonView) (c : UInt8) (p : JsonScan × JsonSym × JsonMove) : JsonView :=
  { v.take c p.2.1 with scan := p.1 }

def JsonView.feed (v : JsonView) (c : UInt8) : JsonView := v.after c (v.scan.lex c)

/-! ## The loop -/

def JsonView.loop (v : JsonView) (name value : Mem) (ret : Int8) (c : UInt8) (r : Reader) :
    JsonLoop where
  ret := ret
  c := c
  name := name.put v.name
  nameAt := v.name.length
  nameLen := v.nameLen
  value := value.put v.value
  valueAt := v.value.length
  valueLen := v.valueLen
  sqlevel := v.scan.sqlevel
  dqlevel := v.scan.dqlevel
  divider := v.divider
  json := v.scan.json
  reader := r

def JsonMove.reader (c : UInt8) (r : Reader) : JsonMove → Reader
  | .push => pushC c r
  | _ => r

def JsonMove.again : JsonMove → Bool
  | .next => true
  | _ => false

variable {v : JsonView} {name value : Mem} {ret : Int8} {c : UInt8} {r : Reader}

theorem storeJsonChar_loop :
    storeJsonChar (v.loop name value ret c r) = (v.store c).loop name value ret c r := by
  unfold storeJsonChar JsonView.store
  have named : (v.loop name value ret c r).nameLen = v.nameLen := rfl
  have valued : (v.loop name value ret c r).valueLen = v.valueLen := rfl
  rw [named, valued]
  by_cases unnamed : 0 < v.nameLen
  · rw [if_pos unnamed, if_pos unnamed]
    by_cases room : 1 < v.nameLen
    · rw [if_pos room, if_pos room]
      simp [JsonView.loop, Mem.put_set]
    · rw [if_neg room, if_neg room]
  · rw [if_neg unnamed, if_neg unnamed]
    by_cases room : 1 < v.valueLen
    · rw [if_pos room, if_pos room]
      simp [JsonView.loop, Mem.put_set]
    · rw [if_neg room, if_neg room]

def Shows (v : JsonView) (name value : Mem) (ret : Int8) (c : UInt8) (r : Reader)
    (p : JsonLoop × Bool) (q : JsonScan × JsonSym × JsonMove) : Prop :=
  p = ((v.after c q).loop name value ret c (q.2.2.reader c r), q.2.2.again)

theorem Shows.branch {test : Prop} [Decidable test] {p p' : JsonLoop × Bool}
    {q q' : JsonScan × JsonSym × JsonMove} (yes : Shows v name value ret c r p q)
    (no : Shows v name value ret c r p' q') :
    Shows v name value ret c r (if test then p else p') (if test then q else q') := by
  split
  · exact yes
  · exact no

theorem store_scan (v : JsonView) (c : UInt8) : (v.store c).scan = v.scan := by
  unfold JsonView.store
  split
  · split <;> rfl
  · split <;> rfl

theorem jsonChar_loop :
    Shows v name value ret c r (jsonChar (v.loop name value ret c r)) (v.scan.lex c) := by
  unfold jsonChar JsonScan.lex
  rw [storeJsonChar_loop]
  dsimp only
  iterate 9
    apply Shows.branch
    · rfl
  unfold Shows JsonView.after
  dsimp only [JsonView.loop, JsonView.take]
  rw [store_scan]
  cases (nestJson c v.scan.json).2 <;> rfl

theorem store_valueLen (v : JsonView) (c : UInt8) (room : 0 < v.valueLen) :
    0 < (v.store c).valueLen := by
  unfold JsonView.store
  split
  · split
    · exact room
    · exact room
  · split
    · rename_i more
      rw [UInt8.lt_iff_toNat_lt] at more ⊢
      have := UInt8.toNat_sub_of_le v.valueLen 1 (UInt8.le_iff_toNat_le.mpr more.le)
      simp only [UInt8.toNat_one, UInt8.toNat_zero] at *
      omega
    · exact room

theorem feed_valueLen (v : JsonView) (c : UInt8) (room : 0 < v.valueLen) :
    0 < (v.feed c).valueLen := by
  unfold JsonView.feed JsonView.after JsonView.take
  cases (v.scan.lex c).2.1 with
  | divide => exact room
  | skip => exact room
  | char => exact store_valueLen v c room

theorem jsonStep_loop : jsonStep (v.loop name value ret c r) =
    (let g := readC c r
    if 0 < g.ret ∧ g.c ≠ 0 then
      ((v.feed g.c).loop name value g.ret g.c ((v.scan.lex g.c).2.2.reader g.c g.reader),
        (v.scan.lex g.c).2.2.again && 0 < (v.feed g.c).valueLen)
    else (v.loop name value g.ret g.c g.reader, false)) := by
  change (let g := readC c r
    if 0 < g.ret ∧ g.c ≠ 0 then
      let p := jsonChar (v.loop name value g.ret g.c g.reader)
      (p.1, p.2 && (0 < p.1.valueLen && p.1.ret ≠ 0))
    else (v.loop name value g.ret g.c g.reader, false)) = _
  dsimp only
  split
  · rename_i read
    have positive := ret_ne_zero_of_pos read.1
    rw [readC_ret] at positive
    rw [jsonChar_loop]
    simp [JsonView.loop, JsonView.feed, positive]
  · rfl

/-! ## A call -/

/-- What the call leaves of the text; `none` when it has read all of it without leaving the loop. -/
def JsonView.run (v : JsonView) : List UInt8 → JsonView × Option (List UInt8)
  | [] => (v, none)
  | c :: text =>
      if c = 0 then (v, some text)
      else match (v.scan.lex c).2.2 with
        | .next =>
            if 0 < (v.feed c).valueLen then (v.feed c).run text else (v.feed c, some text)
        | .stop => (v.feed c, some text)
        | .push => (v.feed c, some (c :: text))

structure Comes (text : List UInt8) (tail : List GetByte) (e : GetByte) (r : Reader) : Prop where
  pending : r.pending = sends text ++ tail
  atEnd : r.atEnd = e

variable {tail : List GetByte} {e : GetByte}

theorem Comes.read {text : List UInt8} (h : Comes (c :: text) tail e r) (c₀ : UInt8) :
    (readC c₀ r).ret = 1 ∧ (readC c₀ r).c = c ∧ Comes text tail e (readC c₀ r).reader := by
  have next : r.next = .byte c := next_of_pending h.pending
  refine ⟨by rw [readC_ret, next]; rfl, by rw [readC_c, next]; rfl, ?_, ?_⟩
  · rw [readC_pending, h.pending]
    rfl
  · rw [readC_atEnd, h.atEnd]

theorem Comes.push {text : List UInt8} (h : Comes (c :: text) tail e r) (nonzero : c ≠ 0)
    (c₀ : UInt8) : Comes (c :: text) tail e (pushC c (readC c₀ r).reader) := by
  refine ⟨?_, ?_⟩
  · rw [pushC_pending, if_neg nonzero, readC_input, h.pending]
    rfl
  · rw [pushC_atEnd, readC_atEnd, h.atEnd]

theorem jsonLoop_over (past : ¬ (0 < (readC c r).ret ∧ (readC c r).c ≠ 0)) :
    (doWhile jsonStep (v.loop name value ret c r)).Returns
      (v.loop name value (readC c r).ret (readC c r).c (readC c r).reader) := by
  have step : jsonStep (v.loop name value ret c r) =
      (v.loop name value (readC c r).ret (readC c r).c (readC c r).reader, false) := by
    rw [jsonStep_loop]
    exact if_neg past
  apply (doWhile_exit (by rw [step])).mpr
  rw [step]

theorem jsonStep_char {text : List UInt8} {c₀ : UInt8} (left : Comes (c :: text) tail e r)
    (nonzero : c ≠ 0) : jsonStep (v.loop name value ret c₀ r) =
      ((v.feed c).loop name value 1 c ((v.scan.lex c).2.2.reader c (readC c₀ r).reader),
        (v.scan.lex c).2.2.again && 0 < (v.feed c).valueLen) := by
  obtain ⟨one, char, -⟩ := left.read c₀
  rw [jsonStep_loop]
  dsimp only
  rw [one, char, if_pos ⟨by decide, nonzero⟩]

theorem jsonLoop_last {text : List UInt8} {c₀ : UInt8} (left : Comes (c :: text) tail e r)
    (nonzero : c ≠ 0) (stop : ((v.scan.lex c).2.2.again && 0 < (v.feed c).valueLen) = false) :
    (doWhile jsonStep (v.loop name value ret c₀ r)).Returns
      ((v.feed c).loop name value 1 c ((v.scan.lex c).2.2.reader c (readC c₀ r).reader)) := by
  apply (doWhile_exit (by rwa [jsonStep_char left nonzero])).mpr
  rw [jsonStep_char left nonzero]

theorem jsonLoop_run (v : JsonView) {text : List UInt8} (ret : Int8) (c : UInt8)
    (left : Comes text tail e r) (ends : (v.run text).2 = none → tail = [] ∧ e.ret ≤ 0) :
    ∃ ret' c' r', (∀ name value, (doWhile jsonStep (v.loop name value ret c r)).Returns
        ((v.run text).1.loop name value ret' c' r')) ∧
      Comes ((v.run text).2.getD []) tail e r' := by
  fun_induction JsonView.run v text generalizing ret c r with
  | case1 v =>
      obtain ⟨rfl, final⟩ := ends rfl
      have empty : r.pending = [] := left.pending
      have past : ¬ (0 < (readC c r).ret ∧ (readC c r).c ≠ 0) := by
        rw [readC_ret, next_of_empty empty, left.atEnd]
        exact fun read => absurd read.1 (Int8.not_lt.mpr final)
      refine ⟨_, _, _, fun name value => jsonLoop_over past, ?_, ?_⟩
      · rw [readC_pending, empty]
        rfl
      · rw [readC_atEnd, left.atEnd]
  | case2 v text =>
      obtain ⟨one, zero, rest⟩ := left.read c
      exact ⟨_, _, _, fun name value => jsonLoop_over fun read => read.2 zero, rest⟩
  | case3 v b text nonzero move room ih =>
      obtain ⟨one, char, rest⟩ := left.read c
      obtain ⟨ret', c', r', loop, left'⟩ := ih 1 b rest ends
      refine ⟨ret', c', r', fun name value => ?_, left'⟩
      have step : jsonStep (v.loop name value ret c r) = _ := jsonStep_char left nonzero
      rw [move] at step
      apply (doWhile_next (by rw [step]; simpa [JsonMove.again] using room)).mpr
      rw [step]
      exact loop name value
  | case4 v b text nonzero move full =>
      obtain ⟨one, char, rest⟩ := left.read c
      refine ⟨_, _, _, fun name value => jsonLoop_last left nonzero (by simpa using fun _ => full), ?_⟩
      rw [move]
      exact rest
  | case5 v b text nonzero move =>
      obtain ⟨one, char, rest⟩ := left.read c
      refine ⟨_, _, _, fun name value => jsonLoop_last left nonzero (by rw [move]; rfl), ?_⟩
      rw [move]
      exact rest
  | case6 v b text nonzero move =>
      refine ⟨_, _, _, fun name value => jsonLoop_last left nonzero (by rw [move]; rfl), ?_⟩
      rw [move]
      exact left.push nonzero c

end AttoHTTP
